import DemandPaging.Proofs.Machine.Contents
import DemandPaging.Proofs.Machine.Extent

/-!
# Paged memory as flat memory

What a program sees of the machine is a map from addresses to bytes. `FlatMemory` is that map, on
the 48 bits of an address that take part in translation, and only a store that succeeds changes it.

`Stores m flat` is the refinement: the bytes of every page are those of the flat memory, wherever
they are at the moment. Translating keeps the bytes of every page (`Translates.keeps`), so it keeps
the refinement; a store writes the same byte on both sides. Hence

> `flat_memory_refined`: after any run, with any calls on the store failing, every page holds the
> bytes of the flat memory, a load compares with the byte of the flat memory, and nothing but a
> store that succeeds changes the bytes of a page.
-/

namespace DemandPaging

/-- A byte for every address. -/
abbrev FlatMemory : Type := Nat → UInt8

/-- The bits of an address that take part in translation. -/
def Address.low (a : Address) : Nat := a.raw.toNat % (spacePages * pageSpan)

/-- Page number and offset are the bits that take part. -/
theorem Address.low_eq (a : Address) : a.low = a.vpn * pageSpan + a.offset := by
  rw [vpn_eq]
  simp only [low, offset, spacePages, tableSlots, pageSpan]
  omega

namespace FlatMemory

def zero : FlatMemory := fun _ => 0

def write (flat : FlatMemory) (a : Address) (value : UInt8) : FlatMemory := fun i =>
  if i = a.low then value else flat i

/-- The simulated bytes of a page. -/
def page (flat : FlatMemory) (vpn : Nat) : Page :=
  Vector.ofFn fun i => flat (vpn * pageSpan + i.val)

/-- The flat memory after a request that was answered as given. -/
def after (flat : FlatMemory) (q : Request) (result : Except Failure Reply) : FlatMemory :=
  match q, result with
  | .access r, .ok _ =>
    if r.kind = .store ∨ r.kind = .modify then flat.write r.address r.value else flat
  | _, _ => flat

/-- A request that stores nothing, or fails, leaves flat memory alone. -/
theorem after_of_quiet (flat : FlatMemory) {q : Request} {result : Except Failure Reply}
    (h : q.stores = false ∨ ∃ failure, result = .error failure) : flat.after q result = flat := by
  unfold after
  split
  next r _ =>
    rcases h with hreads | ⟨failure, herror⟩
    · exact if_neg (mt AccessKind.writes_iff.mpr (Bool.eq_false_iff.mp hreads))
    · simp at herror
  next => rfl

/-- A request that stores writes its byte. -/
theorem after_of_stored (flat : FlatMemory) {r : Trace.Record} (h : r.kind.writes = true)
    {reply : Reply} : flat.after (.access r) (.ok reply) = flat.write r.address r.value :=
  if_pos (AccessKind.writes_iff.mp h)

/-- A byte of a page is a byte of flat memory. -/
theorem getElem_page (flat : FlatMemory) (vpn : Nat) {i : Nat} (h : i < pageBytes) :
    (flat.page vpn)[i] = flat (vpn * pageSpan + i) := by
  simp [page]

theorem page_zero (vpn : Nat) : zero.page vpn = Page.zero := by
  refine Vector.ext fun i hi => ?_
  rw [getElem_page]
  simp [zero, Page.zero]

/-- Writing changes one byte of the page of its address. -/
theorem page_write_self (flat : FlatMemory) {a : Address} (h : a.offset < pageBytes)
    (value : UInt8) : (flat.write a value).page a.vpn = (flat.page a.vpn).set a.offset value := by
  refine Vector.ext fun i hi => ?_
  rw [getElem_page, Vector.getElem_set, getElem_page]
  unfold write
  rw [a.low_eq]
  -- within one page, addresses are the same if offsets are
  by_cases hi' : a.offset = i
  · rw [if_pos hi', if_pos (by omega)]
  · rw [if_neg hi', if_neg (by omega)]

/-- And no byte of another page. -/
theorem page_write_of_ne (flat : FlatMemory) {a : Address} {vpn : Nat} (h : vpn ≠ a.vpn)
    (value : UInt8) : (flat.write a value).page vpn = flat.page vpn := by
  refine Vector.ext fun i hi => ?_
  rw [getElem_page, getElem_page]
  unfold write
  rw [a.low_eq, if_neg]
  -- no offset of a page reaches into the next
  have hoffset : a.offset < 4096 := Nat.mod_lt _ (by decide)
  have hi' : i < 16 := hi
  simp only [pageSpan]
  omega

end FlatMemory

namespace Machine

variable {σ : Type} [BackingStore σ] [LawfulStore σ]

/-! ## The refinement -/

/-- Every page of `m` holds the bytes that `flat` has for it. -/
structure Stores (m : Machine σ) (flat : FlatMemory) : Prop where
  consistent : m.Consistent
  slotsOwned : m.SlotsOwned
  bytes : ∀ r p, m.pageTable.page? r = some p → m.content? p.entry = some (flat.page p.vpn)
  /-- A page number without an entry was never written to. -/
  untouched : ∀ vpn, (∀ r p, m.pageTable.page? r = some p → p.vpn ≠ vpn) →
    flat.page vpn = Page.zero

theorem stores_build (frames : Nat) (policy : Policy) (swap : σ) :
    (build frames policy swap).Stores .zero where
  consistent := consistent_build frames policy swap
  slotsOwned := slotsOwned_build frames policy swap
  bytes := by simp [build, PageTable.page?_empty]
  untouched vpn _ := FlatMemory.page_zero vpn

/-- Whatever keeps the bytes of the pages keeps the refinement. -/
theorem Stores.of_keeps {m m' : Machine σ} {flat : FlatMemory} (h : m.Stores flat)
    (hconsistent : m'.Consistent) (hs : m'.SlotsOwned) (hkeeps : m.Keeps m') :
    m'.Stores flat where
  consistent := hconsistent
  slotsOwned := hs
  bytes r p' hp' := by
    rcases hkeeps.new r p' hp' with ⟨p, hp⟩ | hzero
    · obtain ⟨q, hq, hvpn, hbytes⟩ := hkeeps.old r p hp
      rw [hp', Option.some.injEq] at hq
      subst hq
      rw [hbytes, hvpn]
      exact h.bytes r p hp
    · -- a new entry is the first of its page number, which has zeros in the flat memory
      rw [hzero, Option.some.injEq]
      by_cases hold : ∃ s p, m.pageTable.page? s = some p ∧ p.vpn = p'.vpn
      · obtain ⟨s, p, hp, hv⟩ := hold
        obtain ⟨q, hq, hvpn, hbytes⟩ := hkeeps.old s p hp
        have hsr : s = r := hconsistent.rooted.ref_eq_of_vpn_eq hq hp' (hvpn.trans hv)
        subst hsr
        rw [hp', Option.some.injEq] at hq
        subst hq
        have hcontent := h.bytes s p hp
        rw [← hbytes, hzero, Option.some.injEq, hv] at hcontent
        exact hcontent
      · refine (h.untouched p'.vpn fun s p hp hv => ?_).symm
        exact hold ⟨s, p, hp, hv⟩
  untouched vpn hnone := by
    refine h.untouched vpn fun r p hp => ?_
    obtain ⟨p', hp', hvpn, -⟩ := hkeeps.old r p hp
    exact hvpn ▸ hnone r p' hp'

/-- A translation moves pages and writes to none. -/
theorem Stores.translates {m m' : Machine σ} {flat : FlatMemory} {a : Address}
    {kind : AccessKind} {result : Except Failure Nat} (h : m.Stores flat)
    (ht : m.Translates a kind result m') : m'.Stores flat := by
  obtain ⟨hs, hkeeps⟩ := ht.keeps h.consistent h.slotsOwned
  exact h.of_keeps (ht.consistent h.consistent) hs hkeeps

/-- A byte stored at the place of an address is stored in the flat memory. -/
theorem Stores.write {m : Machine σ} {flat : FlatMemory} (h : m.Stores flat) {r : EntryRef}
    {p : PageEntry} {a : Address} {frame : Nat} (hp : m.pageTable.page? r = some p)
    (hvpn : p.vpn = a.vpn) (hf : p.entry.frame? = some frame) (hoffset : a.offset < pageBytes)
    {value : UInt8} {memory : Memory}
    (hwritten : m.memory.write? (Memory.addressOf frame + a.offset) value = some memory) :
    { m with memory := memory }.Stores (flat.write a value) := by
  have hpage : m.memory.page? frame = some (flat.page a.vpn) := by
    rw [← hvpn, ← content?_of_frame? hf]
    exact h.bytes r p hp
  obtain ⟨memory', hwritten', hframes, hpages⟩ := Memory.write?_addressOf_add hpage hoffset value
  rw [hwritten, Option.some.injEq] at hwritten'
  subst hwritten'
  have hconsistent := h.consistent.withMemory hframes
  refine ⟨hconsistent, ⟨h.slotsOwned.held, h.slotsOwned.unique⟩, ?_, ?_⟩
  · intro s q hq
    by_cases hsr : s = r
    · subst hsr
      have heq : p = q := Option.some.inj (hp.symm.trans hq)
      subst heq
      rw [content?_of_frame? hf, hvpn, FlatMemory.page_write_self flat hoffset]
      show memory.page? frame = _
      rw [hpages, if_pos rfl]
    · -- another page has another number, and is not in the frame
      have hne : q.vpn ≠ a.vpn := by
        intro hv
        exact hsr (h.consistent.rooted.ref_eq_of_vpn_eq hq hp (hv.trans hvpn.symm))
      rw [FlatMemory.page_write_of_ne flat hne, ← h.bytes s q hq]
      refine content?_congr (fun g hg => ?_) fun _ _ => rfl
      have hne : g ≠ frame := by
        intro heq
        exact hsr (h.consistent.eq_of_resident ⟨q, hq, heq ▸ hg⟩ ⟨p, hp, hf⟩)
      show memory.page? g = m.memory.page? g
      rw [hpages, if_neg hne]
  · intro vpn hnone
    have hne : vpn ≠ a.vpn := by
      intro heq
      exact hnone r p hp (hvpn.trans heq.symm)
    rw [FlatMemory.page_write_of_ne flat hne]
    exact h.untouched vpn hnone

/-- The place of an address holds the byte of the address. -/
theorem Stores.read {m m' : Machine σ} {flat : FlatMemory} {a : Address} {kind : AccessKind}
    {place : Nat} (h : m.Stores flat) (ht : m.Translates a kind (.ok place) m') :
    m'.memory.read? place = some (flat a.low) := by
  obtain ⟨frame, hplace, hoffset, p, hp, hf⟩ := ht.place_eq
  obtain ⟨q, hq, hvpn⟩ := (h.translates ht).consistent.rooted.page?_of_lookup
    (ht.lookup h.consistent)
  rw [hp, Option.some.injEq] at hq
  subst hq
  have hbytes := (h.translates ht).bytes _ p hp
  rw [content?_of_frame? hf, hvpn] at hbytes
  rw [hplace, Memory.read?_addressOf_add _ _ hoffset, hbytes, Option.map_some,
    FlatMemory.getElem_page, a.low_eq]

/-! ## Requests -/

/-- A request keeps the bytes of every page unless it stores a byte and succeeds. -/
theorem Serves.keeps {m m' : Machine σ} {q : Request} {result : Except Failure Reply}
    (h : m.Consistent) (hs : m.SlotsOwned) (hserves : m.Serves q result m')
    (hquiet : q.stores = false ∨ ∃ failure, result = .error failure) :
    m'.SlotsOwned ∧ m.Keeps m' := by
  cases hserves with
  | refused translates => exact translates.keeps h hs
  | translated translates => exact translates.keeps h hs
  | stored writes _ _ =>
    rcases hquiet with hreads | ⟨failure, herror⟩
    · exact absurd (writes.symm.trans hreads) (by simp)
    · simp at herror
  | agreed _ translates _ => exact translates.keeps h hs
  | differed _ translates _ _ =>
    obtain ⟨hs', hkeeps⟩ := translates.keeps h hs
    exact ⟨hs'.of_samePlaces (fun _ => rfl) rfl,
      hkeeps.trans (.of_samePlaces (fun _ => rfl) rfl rfl)⟩

/-- A request writes to its machine what it writes to flat memory. -/
theorem Stores.serves {m m' : Machine σ} {flat : FlatMemory} {q : Request}
    {result : Except Failure Reply} (h : m.Stores flat) (hserves : m.Serves q result m') :
    m'.Stores (flat.after q result) := by
  have hconsistent := hserves.consistent h.consistent
  -- a store that succeeds is the one case in which the flat memory changes too
  by_cases hquiet : q.stores = false ∨ ∃ failure, result = .error failure
  · obtain ⟨hs, hkeeps⟩ := hserves.keeps h.consistent h.slotsOwned hquiet
    rw [FlatMemory.after_of_quiet flat hquiet]
    exact h.of_keeps hconsistent hs hkeeps
  · cases hserves with
    | refused _ => exact absurd (Or.inr ⟨_, rfl⟩) hquiet
    | translated _ => exact absurd (Or.inl rfl) hquiet
    | agreed reads _ _ => exact absurd (Or.inl reads) hquiet
    | differed reads _ _ _ => exact absurd (Or.inl reads) hquiet
    | stored writes translates written =>
      obtain ⟨frame, rfl, hoffset, p, hp, hf⟩ := translates.place_eq
      have h' := h.translates translates
      obtain ⟨q, hq, hvpn⟩ := h'.consistent.rooted.page?_of_lookup (translates.lookup h.consistent)
      have heq : p = q := Option.some.inj (hp.symm.trans hq)
      subst heq
      rw [FlatMemory.after_of_stored flat writes]
      exact h'.write hp hvpn hf hoffset written

/-- A load that is not refused compares with the byte of the flat memory. -/
theorem Stores.access_eq {m : Machine σ} {flat : FlatMemory} (h : m.Stores flat)
    {r : Trace.Record} (hreads : r.kind.writes = false) {mismatch : Option Mismatch}
    (hok : (m.access r).result = .ok mismatch) :
    mismatch = if flat r.address.low = r.value then none
      else some ⟨r.line, flat r.address.low, r.value⟩ := by
  have hserves : m.Serves (.access r) (.ok (.checked mismatch)) (m.access r).machine := by
    have hcases := access_cases h.consistent r
    rw [hok] at hcases
    exact hcases
  -- the cases need a variable for the machine afterwards
  generalize (m.access r).machine = m' at hserves
  cases hserves with
  | stored writes _ _ => exact absurd (writes.symm.trans hreads) (by simp)
  | agreed _ translates read =>
    rw [h.read translates, Option.some.injEq] at read
    rw [if_pos read]
  | differed _ translates read ne =>
    rw [h.read translates, Option.some.injEq] at read
    rw [read, if_neg ne]

/-! ## Runs -/

/-- An observer that keeps the flat memory of a run. -/
def keepFlat (flat : FlatMemory) (m : Machine σ) (q : Request) : FlatMemory :=
  flat.after q (m.serve q).result

/-- A run does so from request to request. -/
theorem Stores.serveAll {m : Machine σ} {flat : FlatMemory} (h : m.Stores flat)
    (qs : List Request) : (m.serveAll qs).Stores (m.watch keepFlat flat qs) := by
  refine watch_induction (P := fun m flat => m.Stores flat) ?_ qs h
  intro m flat q h
  exact h.serves (serve_cases h.consistent q)

/-- After any run over a store whose calls may fail at will, the bytes of every page are those of
the flat memory, in its frame or on swap; a load that is not refused compares with the byte of the
flat memory; and a request that stores nothing, or is refused, keeps the bytes of every page. -/
theorem flat_memory_refined (frames slots : Nat) (algorithm : Algorithm) (seed : UInt64)
    (failsOut failsIn : Nat → Bool) (qs : List Request) :
    let m₀ := build frames (.ofAlgorithm algorithm seed)
      (UnreliableStore.empty slots failsOut failsIn)
    let m := m₀.serveAll qs
    let flat := m₀.watch keepFlat .zero qs
    (∀ r p, m.pageTable.page? r = some p → ∃ bytes, m.content? p.entry = some bytes ∧
        ∀ (i : Nat) (_ : i < pageBytes), bytes[i] = flat (p.vpn * pageSpan + i)) ∧
      (∀ r : Trace.Record, r.kind = .instruction ∨ r.kind = .load → ∀ mismatch,
        (m.access r).result = .ok mismatch →
          mismatch = if flat r.address.low = r.value then none
            else some ⟨r.line, flat r.address.low, r.value⟩) ∧
      ∀ q : Request, (q.stores = false ∨ ∃ failure, (m.serve q).result = .error failure) →
        ∀ r p, m.pageTable.page? r = some p → ∃ p',
          (m.serve q).machine.pageTable.page? r = some p' ∧ p'.vpn = p.vpn ∧
            (m.serve q).machine.content? p'.entry = m.content? p.entry := by
  intro m₀ m flat
  have h : m.Stores flat := (stores_build frames _ _).serveAll qs
  refine ⟨?_, ?_, ?_⟩
  · intro r p hp
    refine ⟨flat.page p.vpn, h.bytes r p hp, ?_⟩
    intro i hi
    exact flat.getElem_page p.vpn hi
  · intro r hreads mismatch hok
    exact h.access_eq (AccessKind.reads_iff.mpr hreads) hok
  · intro q hquiet r p hp
    have hserves := serve_cases h.consistent q
    exact (hserves.keeps h.consistent h.slotsOwned hquiet).2.old r p hp

end Machine

end DemandPaging
