import DemandPaging.Proofs.Machine.Bounds
import DemandPaging.Proofs.Machine.CleanPages
import DemandPaging.Proofs.Machine.Flat
import DemandPaging.Proofs.Machine.MappedPages
import DemandPaging.Proofs.Machine.PageUse
import DemandPaging.Proofs.PageTable.Growth
import DemandPaging.Proofs.Policy.RecencyList

/-!
# Where an address is

A translation that succeeds ends with the page of its address used in some frame
(`Translates.used`), whichever way it went: the page was there, was touched for the first time, or
came back from swap. Two things follow.

The place is stable. Using a page marks its entry and tells the policy, and doing both again for a
load changes nothing: the mark is set, the frame is in front of the recency list, and the tables on
the way are there (`use_use`, `translate_of_resident`).

The place is private. A frame has one occupant and a page spans fewer bytes than a frame, so two
addresses are at one place only if they are the same address (`Consistent.low_eq_of_placeOf?`).

> `translate_place`: both, for any machine that was built and then used in any way.
-/

namespace DemandPaging

/-- A load that comes after any access finds the marks set. -/
theorem Entry.touch_touch (e : Entry) (kind : AccessKind) {kind' : AccessKind}
    (h : kind'.writes = false) : (e.touch kind).touch kind' = e.touch kind := by
  have hreferenced := e.referenced_touch kind
  rw [touch, if_neg (by rw [h]; decide), setReferenced, ← hreferenced]

theorem Policy.Recency.reference_reference (s : Recency) (frame : Nat) :
    (s.reference frame).reference frame = s.reference frame := by
  obtain ⟨frames, links⟩ := s
  by_cases h : frame < frames
  · have hreference : ∀ l : Links frames,
        reference ⟨frames, l⟩ frame = ⟨frames, l.touch ⟨frame, h⟩⟩ := fun _ => dif_pos h
    rw [hreference, hreference, Links.touch_touch]
  · have hreference : reference ⟨frames, links⟩ frame = ⟨frames, links⟩ := dif_neg h
    rw [hreference, hreference]

/-- A policy that is told of one frame twice in a row remembers no more than after the first time.
-/
theorem Policy.reference_reference (p : Policy) (frame : Nat) :
    (p.reference frame).reference frame = p.reference frame := by
  cases p with
  | lru s => exact congrArg lru (s.reference_reference frame)
  | _ => rfl

namespace Machine

section

variable {σ : Type} {m m' : Machine σ}

/-- The place of an address in memory, if its page is resident. -/
def placeOf? (m : Machine σ) (a : Address) : Option Nat :=
  (m.frameOf? a).map fun frame => Memory.addressOf frame + a.offset

/-- All tables have the page of `a` in `frame`: `r` is the entry of its address, is resident in the
frame and occupies it. -/
structure Locates (m : Machine σ) (a : Address) (frame : Nat) (r : EntryRef) (p : PageEntry) :
    Prop where
  frameOf : m.frameOf? a = some frame
  lookup : m.pageTable.lookup a = some r
  occupant : m.frameTable.occupant? frame = some r
  page : m.pageTable.page? r = some p

theorem Consistent.locates (h : m.Consistent) {a : Address} {frame : Nat} {r : EntryRef}
    {p : PageEntry} (hlookup : m.pageTable.lookup a = some r)
    (hp : m.pageTable.page? r = some p) (hf : p.entry.frame? = some frame) :
    m.Locates a frame r p where
  frameOf := frameOf?_of_lookup hlookup ⟨p, hp, hf⟩
  lookup := hlookup
  occupant := (h.occupant_iff frame r).mpr ⟨p, hp, hf⟩
  page := hp

/-- The frame of an address is that of the entry a lookup finds. -/
theorem lookup_of_frameOf? {a : Address} {frame : Nat} (h : m.frameOf? a = some frame) :
    ∃ r, m.pageTable.lookup a = some r ∧ m.pageTable.Resident r frame := by
  obtain ⟨e, he, hf⟩ := Option.bind_eq_some_iff.mp h
  obtain ⟨r, hlookup, hentry⟩ := Option.bind_eq_some_iff.mp he
  obtain ⟨p, hp, rfl⟩ := Option.map_eq_some_iff.mp hentry
  exact ⟨r, hlookup, p, hp, hf⟩

/-! ## A place is private -/

/-- Addresses in one frame are in one page. -/
theorem Consistent.vpn_eq_of_frameOf? (h : m.Consistent) {a b : Address} {frame : Nat}
    (ha : m.frameOf? a = some frame) (hb : m.frameOf? b = some frame) : a.vpn = b.vpn := by
  obtain ⟨r, hr, hra⟩ := lookup_of_frameOf? ha
  obtain ⟨s, hs, hsb⟩ := lookup_of_frameOf? hb
  have hrs : r = s := h.eq_of_resident hra hsb
  subst hrs
  obtain ⟨p, hp, hpa⟩ := h.rooted.page?_of_lookup hr
  obtain ⟨q, hq, hqb⟩ := h.rooted.page?_of_lookup hs
  have hpq : p = q := Option.some.inj (hp.symm.trans hq)
  rw [← hpa, ← hqb, hpq]

/-- Two addresses at one place are one address, as far as translation goes. -/
theorem Consistent.low_eq_of_placeOf? (h : m.Consistent) {a b : Address} {place : Nat}
    (hina : a.inFrame = true) (hinb : b.inFrame = true) (ha : m.placeOf? a = some place)
    (hb : m.placeOf? b = some place) : a.low = b.low := by
  obtain ⟨f, hf, hfa⟩ := Option.map_eq_some_iff.mp ha
  obtain ⟨g, hg, hgb⟩ := Option.map_eq_some_iff.mp hb
  have hoffa : a.offset < pageBytes := by simpa [Address.inFrame] using hina
  have hoffb : b.offset < pageBytes := by simpa [Address.inFrame] using hinb
  have hplace : f * 16 + a.offset = g * 16 + b.offset := hfa.trans hgb.symm
  have hfg : f = g := by
    simp only [pageBytes] at hoffa hoffb
    omega
  subst hfg
  have hoffset : a.offset = b.offset := by omega
  rw [a.low_eq, b.low_eq, h.vpn_eq_of_frameOf? hf hg, hoffset]

/-! ## A place is stable -/

/-- Using a page again for a load changes nothing. -/
theorem use_use (m : Machine σ) (r : EntryRef) (kind : AccessKind) (frame : Nat)
    {kind' : AccessKind} (hreads : kind'.writes = false) :
    (m.use r kind frame).use r kind' frame = m.use r kind frame := by
  have htable : (m.pageTable.modify r (·.touch kind)).modify r (·.touch kind')
      = m.pageTable.modify r (·.touch kind) := by
    refine PageTable.modify_eq_self fun p hp => ?_
    rw [PageTable.page?_modify_self] at hp
    obtain ⟨q, -, rfl⟩ := Option.map_eq_some_iff.mp hp
    exact q.entry.touch_touch kind hreads
  simp only [use, htable, Policy.reference_reference]

variable [BackingStore σ]

/-- Translating an address whose page is resident is a hit: it makes no table, uses the page where
it is, and says nothing. -/
theorem translate_of_resident {a : Address} {r : EntryRef} {frame : Nat} (hin : a.inFrame = true)
    (hlookup : m.pageTable.lookup a = some r) (hr : m.pageTable.Resident r frame)
    (kind : AccessKind) :
    m.translate a kind = ⟨.ok (Memory.addressOf frame + a.offset),
      { m with counters := m.counters.countReference true }.use r kind frame, #[]⟩ := by
  obtain ⟨p, hp, hf⟩ := hr
  unfold translate
  rw [if_pos hin, PageTable.walk_of_lookup hlookup]
  simp only [locate, PageTable.entry?, hp, Option.map_some, hf]
  rfl

/-- A resident address is translated to its place. -/
theorem translate_of_placeOf? {a : Address} {place : Nat} (hin : a.inFrame = true)
    (hplace : m.placeOf? a = some place) (kind : AccessKind) :
    (m.translate a kind).result = .ok place := by
  obtain ⟨frame, hframe, rfl⟩ := Option.map_eq_some_iff.mp hplace
  obtain ⟨r, hlookup, hr⟩ := lookup_of_frameOf? hframe
  rw [translate_of_resident hin hlookup hr]

/-- However a translation succeeds, it ends with the page of its address used in a frame. -/
theorem Translates.used {a : Address} {kind : AccessKind} {place : Nat}
    (ht : m.Translates a kind (.ok place) m') :
    ∃ (x : Machine σ) (frame : Nat), m' = x.use (m.refOf a) kind frame ∧
      place = Memory.addressOf frame + a.offset ∧ a.inFrame = true ∧
        m'.pageTable.Resident (m.refOf a) frame := by
  have hused : ∀ {x : Machine σ} {frame : Nat}, x.pageTable.Resident (m.refOf a) frame →
      (x.use (m.refOf a) kind frame).pageTable.Resident (m.refOf a) frame := fun hr =>
    (PageTable.resident_modify fun e => e.frame?_touch kind).mpr hr
  cases ht with
  | hit hin resident => exact ⟨_, _, rfl, rfl, hin, hused resident⟩
  | fault hin _ _ brings => exact ⟨_, _, rfl, rfl, hin, hused brings.resident⟩

/-- Translating once more in the same page, for a load, is a hit that changes nothing but the
counters. -/
theorem Translates.again (h : m.Consistent) {a b : Address} {kind kind' : AccessKind}
    {place : Nat} (ht : m.Translates a kind (.ok place) m') (hpage : b.vpn = a.vpn)
    (hin : b.inFrame = true) (hreads : kind'.writes = false) :
    ∃ frame, place = Memory.addressOf frame + a.offset ∧
      m'.translate b kind' = ⟨.ok (Memory.addressOf frame + b.offset),
        { m' with counters := m'.counters.countReference true }, #[]⟩ := by
  have h' := ht.consistent h
  have hlookup := ht.lookup h
  obtain ⟨x, frame, hm', hplace, -, hr⟩ := ht.used
  obtain ⟨p, hp, hpv⟩ := h'.rooted.page?_of_lookup hlookup
  have hlookup' : m'.pageTable.lookup b = some (m.refOf a) :=
    h'.rooted.lookup_of_page? hp (hpv.trans hpage.symm)
  have huse : m'.use (m.refOf a) kind' frame = m' := by
    rw [hm', use_use _ _ _ _ hreads]
  have hcounted :
      { m' with counters := m'.counters.countReference true }.use (m.refOf a) kind' frame
        = { m'.use (m.refOf a) kind' frame with counters := m'.counters.countReference true } := rfl
  refine ⟨frame, hplace, ?_⟩
  rw [translate_of_resident hin hlookup' hr, hcounted, huse]

end

/-! ## What a translation leaves on the entry -/

section

variable {σ : Type} [BackingStore σ] {m m' : Machine σ}

/-- The page of a translation that succeeded is marked. -/
theorem Translates.referenced {a : Address} {kind : AccessKind} {place : Nat}
    (ht : m.Translates a kind (.ok place) m') {p : PageEntry}
    (hp : m'.pageTable.page? (m.refOf a) = some p) : p.entry.referenced = true := by
  obtain ⟨x, frame, rfl, -, -, -⟩ := ht.used
  obtain ⟨q, -, rfl⟩ :=
    Option.map_eq_some_iff.mp ((PageTable.page?_modify_self _ _ _).symm.trans hp)
  exact q.entry.referenced_touch kind

/-- The first use of a page leaves it dirty, whatever the use. -/
theorem Translates.dirty_of_new (h : m.Consistent) {a : Address} {kind : AccessKind} {place : Nat}
    (ht : m.Translates a kind (.ok place) m') (hnew : a.vpn ∉ m.pageTable.mappedPages)
    {p : PageEntry} (hp : m'.pageTable.page? (m.refOf a) = some p) : p.entry.dirty = true := by
  cases ht with
  | hit _ resident =>
    obtain ⟨q, hq, hf⟩ := resident
    have hunmapped := (h.isUnmapped_iff hq).mpr hnew
    rw [Entry.isUnmapped_eq_false_of_frame? hf] at hunmapped
    simp at hunmapped
  | fault _ page absent brings =>
    have hunmapped := (h.isUnmapped_iff page).mpr hnew
    obtain ⟨q, hq, rfl⟩ :=
      Option.map_eq_some_iff.mp ((PageTable.page?_modify_self _ _ _).symm.trans hp)
    cases brings with
    | firstTouch frees page₀ _ _ _ =>
      obtain ⟨q₀, -, rfl⟩ :=
        Option.map_eq_some_iff.mp ((PageTable.page?_modify_self _ _ _).symm.trans hq)
      rw [PageEntry.entry_update, Entry.touch]
      split <;> rfl
    | swappedIn frees page₀ onSwap _ _ _ =>
      -- a page on swap is mapped
      have hsame := frees.page? (h.entering a false) page absent
      rw [page₀, Option.some.injEq] at hsame
      rw [← hsame, Entry.isUnmapped, onSwap] at hunmapped
      simp at hunmapped

end

/-- After any calls, with any calls on the store failing and the end of the run included, a
translation that succeeds answers the place of the address in a frame that exists and that all
tables give to its page. The page is marked, and dirty if the access writes or the page was never
mapped. Another translation in that page, if it is for a load or a fetch, is a hit in the same frame
that changes nothing but two counters. And wherever two addresses of resident pages are different,
so are their places. -/
theorem translate_place (frames slots : Nat) (algorithm : Algorithm) (seed : UInt64)
    (failsOut failsIn : Nat → Bool) (calls : List Call) :
    let m := (build frames (.ofAlgorithm algorithm seed)
      (UnreliableStore.empty slots failsOut failsIn)).callAll calls
    (∀ a kind place, (m.translate a kind).result = .ok place →
      let m' := (m.translate a kind).machine
      ∃ frame r p, place = 16 * frame + a.offset ∧ a.offset < 16 ∧ frame < frames ∧
        m'.Locates a frame r p ∧ p.entry.referenced = true ∧
        (kind = .store ∨ kind = .modify ∨ a.vpn ∉ m.pageTable.mappedPages →
          p.entry.dirty = true) ∧
        ∀ b kind', b.vpn = a.vpn → b.inFrame = true → kind' = .instruction ∨ kind' = .load →
          m'.translate b kind' = ⟨.ok (16 * frame + b.offset),
            { m' with counters := { m'.counters with
              hits := m'.counters.hits + 1, references := m'.counters.references + 1 } }, #[]⟩) ∧
      ∀ a b x y, a.inFrame = true → b.inFrame = true → m.placeOf? a = some x →
        m.placeOf? b = some y →
          (∀ kind, (m.translate a kind).result = .ok x) ∧ (a.low ≠ b.low → x ≠ y) := by
  intro m
  have hm : m.InOrder frames slots := inOrder_unreliable frames slots _ failsOut failsIn calls
  have h : m.Consistent := hm.consistent
  refine ⟨?_, ?_⟩
  · intro a kind place hok m'
    have ht : m.Translates a kind (.ok place) m' := hok ▸ translate_cases h a kind
    have h' : m'.Consistent := ht.consistent h
    obtain ⟨x, frame, -, hplace, hin, p, hp, hf⟩ := ht.used
    have hlt : frame < m'.frameTable.size := h'.lt_size ⟨p, hp, hf⟩
    have hsize : m'.frameTable.size = frames := ht.sameExtent.frames.trans hm.size
    refine ⟨frame, m.refOf a, p, ?_, ?_, hsize ▸ hlt, h'.locates (ht.lookup h) hp hf,
      ht.referenced hp, ?_, ?_⟩
    · rw [hplace, Memory.addressOf, Nat.mul_comm]
    · simpa [Address.inFrame] using hin
    · intro hcause
      rcases or_assoc.mpr hcause with hwrites | hnew
      · exact ht.dirty (AccessKind.writes_iff.mpr hwrites) hp
      · exact ht.dirty_of_new h hnew hp
    · intro b kind' hpage hinb hreads
      obtain ⟨g, hplace', hagain⟩ := ht.again h hpage hinb (AccessKind.reads_iff.mpr hreads)
      have hfg : frame = g := by
        rw [hplace, Memory.addressOf, Memory.addressOf] at hplace'
        simp only [pageBytes] at hplace'
        omega
      rw [hagain, ← hfg, Memory.addressOf, Nat.mul_comm]
      rfl
  · intro a b x y hina hinb ha hb
    refine ⟨translate_of_placeOf? hina ha, fun hne hxy => ?_⟩
    exact hne (h.low_eq_of_placeOf? hina hinb ha (hxy ▸ hb))

end Machine

end DemandPaging
