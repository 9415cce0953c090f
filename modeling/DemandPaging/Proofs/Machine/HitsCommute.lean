import DemandPaging.Proofs.Machine.Location
import DemandPaging.Proofs.Machine.PolicyState
import DemandPaging.Proofs.Machine.WithoutPolicy
import DemandPaging.Proofs.Machine.SwapIn

/-!
# Hits on different pages commute

A request for a page that is resident reads one byte and changes four things, each by itself: the
marks of one entry, one byte of a frame, what the policy remembers, and counters. `Finds` says what
such a request meets, and `Finds.serve` what it does, as a function of each part of the machine.

Two pages have different entries in different frames, so a request for one of them leaves what the
other one meets (`Finds.after_hit`), and each part ends the same in either order. Only recency
remembers the order, and of that no more than which of the two frames was used last.

> `PageTable.modify_comm`, `Memory.put_comm`, `Policy.reference_comm`: part by part.
> `hits_commute`: the two runs, after any requests.
-/

namespace DemandPaging

/-! ## Tables and bytes -/

/-- Changes at different places of an array commute. -/
theorem array_modify_comm {α : Type} (xs : Array α) {i j : Nat} (h : i ≠ j) (f g : α → α) :
    (xs.modify i f).modify j g = (xs.modify j g).modify i f := by
  apply Array.toList_inj.mp
  simp only [Array.toList_modify]
  exact List.modify_modify_ne f g xs.toList h

theorem array_modify_modify {α : Type} (xs : Array α) (i : Nat) (f g : α → α) :
    (xs.modify i f).modify i g = xs.modify i (g ∘ f) := by
  apply Array.toList_inj.mp
  simp only [Array.toList_modify]
  exact List.modify_modify_eq f g i xs.toList

/-- Changes to different slots of a leaf can be made in either order. -/
theorem Leaf.modify_comm (leaf : Leaf) {i j : TableIndex} (h : i ≠ j) (f g : Entry → Entry) :
    (leaf.modify i f).modify j g = (leaf.modify j g).modify i f := by
  have hval : i.val ≠ j.val := fun heq => h (Fin.ext heq)
  simp only [Leaf.modify, Fin.getElem_fin, Vector.getElem_set_ne i.isLt j.isLt hval,
    Vector.getElem_set_ne j.isLt i.isLt (Ne.symm hval)]
  rw [Vector.set_comm _ _ hval]

/-- Changes to different entries commute. -/
theorem PageTable.modify_comm (t : PageTable) {r s : EntryRef} (h : r ≠ s)
    (f g : Entry → Entry) : (t.modify r f).modify s g = (t.modify s g).modify r f := by
  have hleaves : (t.leaves.modify r.leaf (·.modify r.index f)).modify s.leaf (·.modify s.index g)
      = (t.leaves.modify s.leaf (·.modify s.index g)).modify r.leaf (·.modify r.index f) := by
    by_cases hleaf : r.leaf = s.leaf
    · have hindex : r.index ≠ s.index := fun heq => h (EntryRef.mk.injEq .. ▸ ⟨hleaf, heq⟩)
      rw [hleaf, array_modify_modify, array_modify_modify]
      exact congrArg _ (funext fun leaf => leaf.modify_comm hindex f g)
    · exact array_modify_comm t.leaves hleaf _ _
  unfold modify
  congr

namespace Memory

variable {m : Memory} {place other : Nat} {found value : UInt8}

theorem byteIndex_lt (place : Nat) : (byteIndex place).val < pageBytes := (byteIndex place).isLt

/-- Memory with another byte at a physical address. Outside the frames nothing changes. -/
def put (m : Memory) (place : Nat) (value : UInt8) : Memory :=
  ⟨m.pages.modify (place / pageBytes) fun page =>
    page.set (byteIndex place) value (byteIndex_lt place)⟩

/-- What can be read can be written. -/
theorem write?_eq_put (h : m.read? place = some found) (value : UInt8) :
    m.write? place value = some (m.put place value) := by
  obtain ⟨page, hpage, -⟩ := Option.map_eq_some_iff.mp h
  obtain ⟨hlt, -⟩ := Array.getElem?_eq_some_iff.mp hpage
  exact if_pos hlt

/-- Bytes in different frames can be written in either order. -/
theorem put_comm (m : Memory) (h : place / pageBytes ≠ other / pageBytes) (x y : UInt8) :
    (m.put place x).put other y = (m.put other y).put place x :=
  congrArg Memory.mk (array_modify_comm m.pages h
    (fun page => page.set (byteIndex place) x) fun page => page.set (byteIndex other) y)

end Memory

/-! ## What the policies remember -/

namespace Policy

/-- A recency list whose last two uses were of `f` and then of `g`. -/
theorem Recency.order_reference_reference {s : Recency} (h : (lru s).Ready) {f g : Nat}
    (hf : f < s.frames) (hg : g < s.frames) (hne : f ≠ g) :
    ((s.reference f).reference g).order = g :: f :: (s.order.erase f).erase g := by
  obtain ⟨xs, hlists⟩ := h
  obtain ⟨n, links⟩ := s
  have hf' : (⟨f, hf⟩ : Fin n) ≠ ⟨g, hg⟩ := fun heq => hne (congrArg Fin.val heq)
  have hreference : ∀ (l : Links n) {k : Nat} (hk : k < n),
      reference ⟨n, l⟩ k = ⟨n, l.touch ⟨k, hk⟩⟩ := fun _ _ hk => dif_pos hk
  rw [hreference links hf, hreference _ hg]
  unfold order
  rw [((hlists.touch ⟨f, hf⟩).touch ⟨g, hg⟩).order_eq, hlists.order_eq,
    List.erase_cons_tail (by simpa using hf'), List.map_cons, List.map_cons,
    List.map_erase Fin.val_injective, List.map_erase Fin.val_injective]

/-- Two policies that differ in the order in which they were told of two frames last: `p` first of
`f` and then of `g`, and `p'` the other way round. Recency alone shows it. -/
structure ToldInTurn (algorithm : Algorithm) (p p' : Policy) (f g : Nat) : Prop where
  same : algorithm ≠ .lru → p' = p
  recent : algorithm = .lru → ∃ s s' rest, p = lru s ∧ p' = lru s' ∧
    s.order = g :: f :: rest ∧ s'.order = f :: g :: rest

/-- Two uses that a policy is told of leave it the same in either order, but for recency. -/
theorem reference_comm {p : Policy} (h : p.Ready) {f g : Nat} (hf : f < p.frames)
    (hg : g < p.frames) (hne : f ≠ g) :
    ToldInTurn p.algorithm ((p.reference f).reference g) ((p.reference g).reference f) f g := by
  cases p with
  | lru s =>
    refine ⟨fun hlru => absurd rfl hlru, fun _ => ⟨_, _, (s.order.erase f).erase g, rfl, rfl,
      Recency.order_reference_reference h hf hg hne, ?_⟩⟩
    rw [Recency.order_reference_reference h hg hf (Ne.symm hne), List.erase_comm]
  | _ => exact ⟨fun _ => rfl, nofun⟩

end Policy

/-! ## A hit -/

/-- What is logged of a difference. -/
def Mismatch.event (x : Mismatch) : Event := .mismatched x.line x.found x.expected

namespace Request

/-- The difference that an access reports when it finds a byte. -/
def mismatch? : Request → UInt8 → Option Mismatch
  | .translate _ _, _ => none
  | .access r, found =>
    if r.kind.writes then none
    else if found = r.value then none else some ⟨r.line, found, r.value⟩

/-- What a request is answered with when its page is in `frame` and `found` is there. -/
def reply (q : Request) (place : Nat) (found : UInt8) : Reply :=
  match q with
  | .translate _ _ => .place place
  | .access _ => .checked (q.mismatch? found)

/-- Memory after a request for a place. -/
def put (q : Request) (memory : Memory) (place : Nat) : Memory :=
  match q with
  | .translate _ _ => memory
  | .access r => if r.kind.writes then memory.put place r.value else memory

/-- What a request logs when it finds a byte. -/
def reports (q : Request) (found : UInt8) : Array Event :=
  q.logged ++ ((q.mismatch? found).map Mismatch.event).toArray

/-- A byte is read the same before and after another one is written. -/
theorem read?_put {memory : Memory} {place other : Nat} {found : UInt8}
    (h : memory.read? place = some found) (hne : other ≠ place) (q : Request) :
    (q.put memory place).read? other = memory.read? other := by
  cases q with
  | translate a kind => rfl
  | access r =>
    simp only [put]
    split
    next => exact Memory.read?_of_write? (Memory.write?_eq_put h r.value) hne
    next => rfl

/-- Requests that write in different frames, if they write, commute there. -/
theorem put_comm {place other : Nat} (hne : place / pageBytes ≠ other / pageBytes)
    (q q' : Request) (memory : Memory) :
    q'.put (q.put memory place) other = q.put (q'.put memory other) place := by
  cases q with
  | translate a kind => rfl
  | access r =>
    cases q' with
    | translate a kind => rfl
    | access r' =>
      simp only [put]
      split
      next =>
        split
        next => exact memory.put_comm hne r.value r'.value
        next => rfl
      next => rfl

/-- The place of a request's address in a frame. -/
def placeIn (q : Request) (frame : Nat) : Nat := Memory.addressOf frame + q.address.offset

end Request

/-- Counts a difference, if there was one. -/
def Counters.countMismatch (c : Counters) (mismatch : Option Mismatch) : Counters :=
  { c with mismatches := c.mismatches + mismatch.toList.length }

/-- Hits are counted alike in either order. -/
theorem Counters.countHit_comm (c : Counters) (x y : Option Mismatch) :
    (((c.countReference true).countMismatch x).countReference true).countMismatch y
      = (((c.countReference true).countMismatch y).countReference true).countMismatch x := by
  simp [countReference, countMismatch, Nat.add_right_comm]

namespace Machine

variable {σ : Type} {m : Machine σ} {q q' : Request} {r s : EntryRef} {f g : Nat}
  {found found' : UInt8}

/-- What a request meets when its page is resident: its entry, its frame, and the byte there. -/
structure Finds (m : Machine σ) (q : Request) (r : EntryRef) (frame : Nat) (found : UInt8) :
    Prop where
  inFrame : q.address.inFrame = true
  lookup : m.pageTable.lookup q.address = some r
  resident : m.pageTable.Resident r frame
  byte : m.memory.read? (q.placeIn frame) = some found

/-- The machine after a request for a page that is resident. -/
def hit (m : Machine σ) (q : Request) (r : EntryRef) (frame : Nat) (found : UInt8) : Machine σ :=
  { m with
    pageTable := m.pageTable.modify r (·.touch q.kind)
    memory := q.put m.memory (q.placeIn frame)
    policy := m.policy.reference frame
    counters := (m.counters.countReference true).countMismatch (q.mismatch? found) }

theorem Finds.placeIn_div (h : m.Finds q r f found) : q.placeIn f / pageBytes = f :=
  Memory.addressOf_add_div (by simpa [Address.inFrame] using h.inFrame)

/-- A request for a page in memory finds it there. -/
theorem Consistent.finds (h : m.Consistent) (hin : q.address.inFrame = true)
    (hframe : m.frameOf? q.address = some f) : ∃ r found, m.Finds q r f found := by
  obtain ⟨r, hlookup, hr⟩ := lookup_of_frameOf? hframe
  have hoffset : q.address.offset < pageBytes := by simpa [Address.inFrame] using hin
  obtain ⟨page, hpage⟩ := Memory.page?_isSome (m := m.memory) (h.frames ▸ h.lt_size hr)
  have hbyte := Memory.read?_addressOf_add m.memory f hoffset
  rw [hpage] at hbyte
  exact ⟨r, _, hin, hlookup, hr, hbyte⟩

/-- A request is answered with the byte that it finds. -/
theorem answer_of_read? {place : Nat} (h : m.memory.read? place = some found) :
    m.answer q place = ⟨.ok (q.reply place found),
      { m with
        memory := q.put m.memory place
        counters := m.counters.countMismatch (q.mismatch? found) },
      ((q.mismatch? found).map Mismatch.event).toArray⟩ := by
  cases q with
  | translate a kind => rfl
  | access r =>
    simp only [answer, Request.reply, Request.put, Request.mismatch?]
    by_cases hwrites : r.kind.writes = true
    · simp only [if_pos hwrites, store, Memory.write?_eq_put h]
      rfl
    · simp only [if_neg hwrites, compare, h]
      split
      next => rfl
      next => rfl

/-! ## Two hits -/

/-- A hit leaves what a request for another page meets. -/
theorem Finds.after_hit (h : m.Finds q r f found) (h' : m.Finds q' s g found') (hne : f ≠ g) :
    (m.hit q r f found).Finds q' s g found' where
  inFrame := h'.inFrame
  lookup := h'.lookup
  resident := (PageTable.resident_modify fun e => e.frame?_touch q.kind).mpr h'.resident
  byte := by
    have hplace : q'.placeIn g ≠ q.placeIn f := fun heq => hne <| by
      rw [← h.placeIn_div, ← h'.placeIn_div, heq]
    exact (Request.read?_put h.byte hplace q).trans h'.byte

/-- Hits in different frames leave the same in either order, but for the policy. -/
theorem Finds.hit_comm (h : m.Finds q r f found) (h' : m.Finds q' s g found') (hne : f ≠ g) :
    ((m.hit q r f found).hit q' s g found').SameButPolicy
      ((m.hit q' s g found').hit q r f found) where
  pageTable := by
    have hrs : r ≠ s := fun heq => hne ((heq ▸ h.resident).unique h'.resident)
    exact (m.pageTable.modify_comm hrs _ _).symm
  frameTable := rfl
  memory := by
    have hframes : q.placeIn f / pageBytes ≠ q'.placeIn g / pageBytes := by
      rw [h.placeIn_div, h'.placeIn_div]
      exact hne
    exact (Request.put_comm hframes q q' m.memory).symm
  swap := rfl
  counters := m.counters.countHit_comm _ _

variable [BackingStore σ]

/-- What a request does whose page is resident. -/
theorem Finds.serve (h : m.Finds q r f found) :
    m.serve q = ⟨.ok (q.reply (q.placeIn f) found), m.hit q r f found, q.reports found⟩ := by
  have hanswer := answer_of_read? (q := q)
    (m := { m with counters := m.counters.countReference true }.use r q.kind f) h.byte
  rw [serve_eq, translate_of_resident h.inFrame h.lookup h.resident, Outcome.andThen_ok]
  refine (congrArg (fun o => (o.after #[]).after q.logged) hanswer).trans ?_
  simp [Outcome.after, Request.reports, hit, use]

/-- After any requests on a machine that was built over any store, two requests for different pages
that are both resident succeed, are answered and logged the same in either order, and leave the same
machine, the policy included. Under recency the two lists differ in which of the two frames is in
front and which is behind it. -/
theorem hits_commute (frames : Nat) (algorithm : Algorithm) (seed : UInt64) (swap : σ)
    (past : List Request) :
    let m := (build frames (.ofAlgorithm algorithm seed) swap).serveAll past
    ∀ q q' f g, q.address.inFrame = true → q'.address.inFrame = true →
      q.address.vpn ≠ q'.address.vpn → m.frameOf? q.address = some f →
      m.frameOf? q'.address = some g →
        let first := m.serve q
        let second := first.machine.serve q'
        let first' := m.serve q'
        let second' := first'.machine.serve q
        (∃ reply, first.result = .ok reply ∧ second'.result = .ok reply) ∧
          first.events = second'.events ∧
          (∃ reply, second.result = .ok reply ∧ first'.result = .ok reply) ∧
          second.events = first'.events ∧
          second.machine.SameButPolicy second'.machine ∧
          (algorithm ≠ .lru → second'.machine.policy = second.machine.policy) ∧
          (algorithm = .lru → ∃ s s' rest, second.machine.policy = .lru s ∧
            second'.machine.policy = .lru s' ∧
            s.order = g :: f :: rest ∧ s'.order = f :: g :: rest) := by
  intro m q q' f g hin hin' hvpn hf hg first second first' second'
  obtain ⟨h, hbecomes⟩ : m.Consistent ∧ Policy.Becomes _ m.policy := policy_serveAll
    (consistent_build frames (.ofAlgorithm algorithm seed) swap) (Policy.ready_start _ frames) past
  have halgorithm : m.policy.algorithm = algorithm := hbecomes.algorithm.trans
    ((Policy.algorithm_start _ _).trans (Policy.algorithm_ofAlgorithm _ _))
  have hframes : m.policy.frames = m.frameTable.size := by
    rw [hbecomes.frames, size_serveAll (consistent_build frames _ swap) past]
    exact (Policy.frames_start _ _).trans (FrameTable.size_empty _).symm
  have hne : f ≠ g := fun heq => hvpn (h.vpn_eq_of_frameOf? hf (heq ▸ hg))
  obtain ⟨r, found, hfinds⟩ := h.finds hin hf
  obtain ⟨s, found', hfinds'⟩ := h.finds hin' hg
  have hturns := Policy.reference_comm hbecomes.ready (hframes ▸ h.lt_size hfinds.resident)
    (hframes ▸ h.lt_size hfinds'.resident) hne
  simp only [first, second, first', second', hfinds.serve, hfinds'.serve,
    (hfinds.after_hit hfinds' hne).serve, (hfinds'.after_hit hfinds (Ne.symm hne)).serve]
  exact ⟨⟨_, rfl, rfl⟩, trivial, ⟨_, rfl, rfl⟩, trivial, hfinds.hit_comm hfinds' hne,
    fun hother => hturns.same (halgorithm ▸ hother), fun hlru => hturns.recent (halgorithm ▸ hlru)⟩

/-- Two pages are in memory, and one is stored to while the other is read. -/
theorem hits_commute_of_two :
    let m := (build 2 (.ofAlgorithm .lru 0) (SlotStore.empty 1)).serveAll
      [.translate ⟨0x1000⟩ .load, .translate ⟨0x2000⟩ .load]
    let q := Request.access ⟨1, .store, ⟨0x1003⟩, 7⟩
    let q' := Request.access ⟨2, .load, ⟨0x2000⟩, 5⟩
    m.frameOf? ⟨0x1003⟩ = some 0 ∧ m.frameOf? ⟨0x2000⟩ = some 1 ∧
      ((m.serve q').machine.serve q).machine.memory.pages
        = ((m.serve q).machine.serve q').machine.memory.pages ∧
      ∃ s s' rest, ((m.serve q).machine.serve q').machine.policy = .lru s ∧
        ((m.serve q').machine.serve q).machine.policy = .lru s' ∧
        s.order = 1 :: 0 :: rest ∧ s'.order = 0 :: 1 :: rest := by
  intro m q q'
  have hf : m.frameOf? ⟨0x1003⟩ = some 0 := by decide +kernel
  have hg : m.frameOf? ⟨0x2000⟩ = some 1 := by decide +kernel
  obtain ⟨-, -, -, -, hsame, -, hrecent⟩ := hits_commute 2 .lru 0 (SlotStore.empty 1)
    [.translate ⟨0x1000⟩ .load, .translate ⟨0x2000⟩ .load] q q' 0 1 (by decide) (by decide)
    (by decide) hf hg
  exact ⟨hf, hg, congrArg Memory.pages hsame.memory, hrecent rfl⟩

end Machine

end DemandPaging
