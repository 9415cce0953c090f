import DemandPaging.Proofs.Machine.Victims

/-!
# Nothing is out of place

A machine trusts a number because some other part of it vouches for it: a victim is a frame because
the policy was started with the frames there are, an occupant is an entry because its page is
resident there, and an offset is a slot because the store handed it out. `InOrder` puts these
together, as what every request and also the end of a run leave as it is.

> `Serves.mayRefuse`: a request on a machine in order succeeds, or is refused for one of four
> causes.
> `InOrder.inRange`: every number such a machine holds or gives out is in range.
> `calls_in_range`: both hold after any calls, whichever calls on the store fail.

A victim need not be known to hold a page for that: the policy is asked only while memory is full,
and then every frame holds one.
-/

namespace DemandPaging

namespace Policy

/-- A policy names no frame beyond those it was started with. -/
theorem Offers.lt {p : Policy} {frame : Nat} (h : p.Offers frame) : frame < p.frames := by
  cases p with
  | lru s => exact h.1
  | _ => exact h

theorem frames_finish_le (p : Policy) : p.finish.frames ≤ p.frames := by
  cases p with
  | lru s => exact Nat.zero_le _
  | _ => exact Nat.le_refl _

end Policy

/-- What a request for an address may be refused for, by a machine of so many frames and slots. -/
inductive MayRefuse (frames slots : Nat) (a : Address) : PagingError → Prop where
  | invalidOffset (outside : a.inFrame = false) : MayRefuse frames slots a (.invalidOffset a)
  | noVictim : MayRefuse frames slots a .noVictim
  | swapExhausted {frame : Nat} (lt : frame < frames) :
      MayRefuse frames slots a (.swapExhausted frame slots)
  | unknownSwapOffset {offset : SwapOffset} : MayRefuse frames slots a (.unknownSwapOffset offset)

/-- The offsets at which a store holds pages are the starts of its slots. -/
def HoldsSlots (σ : Type) [BackingStore σ] [LawfulStore σ] : Prop :=
  ∀ (s : σ) (o : SwapOffset), (LawfulStore.held s o).isSome →
    o.isAligned = true ∧ o.slot < BackingStore.capacity s

/-- The store of slots holds pages at the starts of its slots only. -/
theorem SlotStore.holdsSlots : HoldsSlots SlotStore := by
  intro s o h
  obtain ⟨hlt, hoff⟩ := owns_spec h
  exact ⟨hoff ▸ SwapOffset.isAligned_ofSlot o.slot, hlt⟩

/-- A store that may fail holds what the store behind it holds. -/
theorem UnreliableStore.holdsSlots : HoldsSlots UnreliableStore := fun s o h =>
  SlotStore.holdsSlots s.store o h

namespace Machine

section

variable {σ : Type} [BackingStore σ] [LawfulStore σ] {m m' : Machine σ} {frames slots : Nat}

/-! ## Machines in order -/

/-- What the parts of a machine vouch for to each other. -/
structure InOrder (m : Machine σ) (frames slots : Nat) : Prop where
  consistent : m.Consistent
  slotsOwned : m.SlotsOwned
  ready : m.policy.Ready
  size : m.frameTable.size = frames
  capacity : BackingStore.capacity m.swap = slots
  /-- Recency forgets its frames at the end of a run, so there may be fewer. -/
  policy_le : m.policy.frames ≤ frames

theorem inOrder_build (frames : Nat) (policy : Policy) (swap : σ) :
    (build frames policy swap).InOrder frames (BackingStore.capacity swap) where
  consistent := consistent_build frames policy swap
  slotsOwned := slotsOwned_build frames policy swap
  ready := policy.ready_start frames
  size := FrameTable.size_empty frames
  capacity := rfl
  policy_le := Nat.le_of_eq (policy.frames_start frames)

/-- Looking an address up leaves the machine in order. -/
theorem InOrder.entering (h : m.InOrder frames slots) (a : Address) (hit : Bool) :
    (m.entering a hit).InOrder frames slots where
  consistent := h.consistent.entering a hit
  slotsOwned := h.slotsOwned.entering h.consistent a hit
  ready := h.ready
  size := h.size
  capacity := h.capacity
  policy_le := h.policy_le

/-- A request leaves the machine in order, whether it is served or refused. -/
theorem InOrder.serves (h : m.InOrder frames slots) {q : Request}
    {result : Except Failure Reply} (hserves : m.Serves q result m') :
    m'.InOrder frames slots where
  consistent := hserves.consistent h.consistent
  slotsOwned := hserves.slotsOwned h.consistent h.slotsOwned
  ready := (hserves.policy_becomes h.consistent h.ready).ready
  size := hserves.sameExtent.frames.trans h.size
  capacity := hserves.sameExtent.capacity.trans h.capacity
  policy_le := by
    rw [(hserves.policy_becomes h.consistent h.ready).frames]
    exact h.policy_le

theorem InOrder.serve (h : m.InOrder frames slots) (q : Request) :
    (m.serve q).machine.InOrder frames slots := h.serves (serve_cases h.consistent q)

/-- The end of a run leaves the machine in order. -/
theorem InOrder.finish (h : m.InOrder frames slots) : m.finish.InOrder frames slots where
  consistent := h.consistent.finish
  slotsOwned := ⟨h.slotsOwned.held, h.slotsOwned.unique⟩
  ready := h.ready.finish
  size := h.size
  capacity := h.capacity
  policy_le := Nat.le_trans m.policy.frames_finish_le h.policy_le

/-- A machine in order stays so, whatever it is called to do. -/
theorem InOrder.callAll (h : m.InOrder frames slots) (calls : List Call) :
    (m.callAll calls).InOrder frames slots :=
  callAll_induction (P := fun m => m.InOrder frames slots) (fun _ q h => h.serve q)
    (fun _ h => h.finish) calls h

/-- The policy names frames that exist. -/
theorem InOrder.victim_lt (h : m.InOrder frames slots) {choice : Policy.Choice}
    (hchosen : m.policy.evict? m.residents = some choice) {frame : Nat}
    (hnamed : choice.victim = some frame) : frame < frames := by
  have hoffered := (h.ready.answers h.consistent.grounded hchosen).offered frame hnamed
  exact Nat.lt_of_lt_of_le hoffered.lt h.policy_le

/-! ## What is refused -/

/-- A search for a frame fails for want of a victim or for want of a slot. -/
theorem Starves.mayRefuse (h : m.InOrder frames slots) {e : PagingError}
    (hstarves : m.Starves e m') (a : Address) : MayRefuse frames slots a e := by
  cases hstarves with
  | noVictim _ _ _ _ => exact .noVictim
  | vacant full chosen _ named free =>
    -- the frame exists, and in full memory it holds a page
    have hlt := h.victim_lt chosen named
    obtain ⟨r, hocc⟩ := FrameTable.firstFree?_eq_none full (h.size.symm ▸ hlt)
    rw [free] at hocc
    simp at hocc
  | exhausted names unsaved =>
    rw [LawfulStore.capacity_save unsaved]
    show MayRefuse frames slots a (.swapExhausted _ (BackingStore.capacity m.swap))
    rw [h.capacity]
    exact .swapExhausted (h.victim_lt names.chosen names.named)

/-- Bringing a page in may fail in the search for a frame, or at a slot that cannot be read. -/
theorem BringsIn.mayRefuse (h : m.InOrder frames slots) {r : EntryRef} {e : PagingError}
    (hbrings : m.BringsIn r (.error (.refused e)) m') (a : Address) :
    MayRefuse frames slots a e := by
  cases hbrings with
  | starved starves => exact starves.mayRefuse h a
  | unreadable _ _ _ unread =>
    rw [LawfulStore.fetch_error unread]
    exact .unknownSwapOffset

/-- A request that fails is refused for one of the causes; the machine is never broken. -/
theorem Serves.mayRefuse (h : m.InOrder frames slots) {q : Request} {failure : Failure}
    (hserves : m.Serves q (.error failure) m') :
    ∃ e, failure = .refused e ∧ MayRefuse frames slots q.address e := by
  cases hserves with
  | @refused _ e _ translates =>
    refine ⟨e, rfl, ?_⟩
    cases translates with
    | outside hout => exact .invalidOffset hout
    | refused _ _ _ brings => exact brings.mayRefuse (h.entering q.address false) q.address

/-- Whatever is asked of the machine succeeds, or is refused for a cause that `P` allows for the
address; a replay may also stop at a line that is no access. -/
structure RefusesOnly (m : Machine σ) (P : Address → PagingError → Prop) : Prop where
  serve : ∀ q failure, (m.serve q).result = .error failure →
    ∃ e, failure = .refused e ∧ P q.address e
  replay : ∀ items failure, (m.replay items).result = .error failure →
    (∃ e, .error e ∈ items ∧ failure = .refused (.trace e)) ∨
      ∃ r, .ok r ∈ items ∧ ∃ e, failure = .refused e ∧ P r.address e

/-- What holds of the refusals of one request holds of those of replays. -/
theorem InOrder.refusesOnly {P : Address → PagingError → Prop}
    (hserves : ∀ (m m' : Machine σ) (q : Request) (failure : Failure), m.InOrder frames slots →
      m.Serves q (.error failure) m' → ∃ e, failure = .refused e ∧ P q.address e)
    (h : m.InOrder frames slots) : m.RefusesOnly P := by
  have hfails : ∀ (m : Machine σ) (q : Request) (failure : Failure), m.InOrder frames slots →
      (m.serve q).result = .error failure → ∃ e, failure = .refused e ∧ P q.address e := by
    intro m q failure h hfail
    have hcases := serve_cases h.consistent q
    rw [hfail] at hcases
    exact hserves m _ q failure h hcases
  exact ⟨fun q failure => hfails m q failure h, fun items _ =>
    replay_failure (P := fun m => m.InOrder frames slots)
      (Q := fun a failure => ∃ e, failure = .refused e ∧ P a e) (fun _ q h => h.serve q) hfails
      items h⟩

/-! ## What is in range -/

/-- The numbers that a machine holds or gives out are those of tables, frames, slots and bytes that
exist. -/
structure InRange (m : Machine σ) (frames slots : Nat) : Prop where
  memory : m.memory.frames = frames
  size : m.frameTable.size = frames
  found : ∀ a r, m.pageTable.lookup a = some r → r.leaf < m.pageTable.leaves.size
  occupant : ∀ frame r, m.frameTable.occupant? frame = some r →
    frame < frames ∧ r.leaf < m.pageTable.leaves.size
  resident : ∀ r p frame, m.pageTable.page? r = some p → p.entry.frame? = some frame →
    frame < frames
  /-- The slot of a page lies in the swap space. -/
  slot : ∀ r p o, m.pageTable.page? r = some p → p.entry.slot? = some o →
    o.isAligned = true ∧ o.slot < slots
  /-- So do those that a pageout answers with and a pagein reads from. -/
  saved : ∀ page current o swap, BackingStore.save m.swap page current = (some o, swap) →
    o.isAligned = true ∧ o.slot < slots
  fetched : ∀ page o swap, BackingStore.fetch m.swap o = (.ok page, swap) →
    o.isAligned = true ∧ o.slot < slots
  /-- The links of recency lead to frames below the number that it was started with. -/
  policy_le : m.policy.frames ≤ frames
  victim : ∀ choice frame, m.policy.evict? m.residents = some choice →
    choice.victim = some frame → frame < frames
  /-- An address is translated to a byte of memory. -/
  place : ∀ a kind place, (m.translate a kind).result = .ok place → place < frames * pageBytes

/-- An address is translated to a place inside memory. -/
theorem InOrder.place_lt (h : m.InOrder frames slots) {a : Address} {kind : AccessKind}
    {place : Nat} (hplace : (m.translate a kind).result = .ok place) :
    place < frames * pageBytes := by
  have ht := translate_cases h.consistent a kind
  rw [hplace] at ht
  obtain ⟨frame, rfl, hoffset, hresident⟩ := ht.place_eq
  have hlt := (ht.consistent h.consistent).lt_size hresident
  rw [ht.sameExtent.frames, h.size] at hlt
  exact Memory.addressOf_add_lt hlt hoffset

/-- In a machine in order every number is in its range. -/
theorem InOrder.inRange (hstore : HoldsSlots σ) (h : m.InOrder frames slots) :
    m.InRange frames slots where
  memory := h.consistent.frames.trans h.size
  size := h.size
  found a r hr := by
    obtain ⟨p, hp, -⟩ := h.consistent.rooted.page?_of_lookup hr
    exact PageTable.lt_leaves_of_page? hp
  occupant frame r hocc := by
    obtain ⟨p, hp, -⟩ := (h.consistent.occupant_iff frame r).mp hocc
    exact ⟨h.size ▸ FrameTable.lt_size_of_occupant? hocc,
      PageTable.lt_leaves_of_page? hp⟩
  resident r p frame hp hframe := h.size ▸ h.consistent.lt_size ⟨p, hp, hframe⟩
  slot r p o hp ho := by
    rw [← h.capacity]
    exact hstore m.swap o (h.slotsOwned.held r p o hp ho)
  saved page current o swap hsaved := by
    have hheld : (LawfulStore.held swap o).isSome := by
      rw [LawfulStore.save_held hsaved, if_pos rfl]
      rfl
    rw [← h.capacity, ← LawfulStore.capacity_save hsaved]
    exact hstore swap o hheld
  fetched page o swap hfetched := by
    rw [← h.capacity]
    exact hstore m.swap o (Option.isSome_of_eq_some (LawfulStore.fetch_ok hfetched))
  policy_le := h.policy_le
  victim choice frame hchosen hnamed := h.victim_lt hchosen hnamed
  place a kind place hplace := h.place_lt hplace

end

/-- With the memory store a page on swap can always be read back. -/
theorem Serves.ne_unknownSwapOffset {m m' : Machine SlotStore} {frames slots : Nat}
    (h : m.InOrder frames slots) {q : Request} {e : PagingError}
    (hserves : m.Serves q (.error (.refused e)) m') (o : SwapOffset) :
    e ≠ .unknownSwapOffset o := by
  cases hserves with
  | refused translates =>
    cases translates with
    | outside _ => simp
    | refused _ _ _ brings =>
      have h' := h.entering q.address false
      cases brings.readable h'.consistent h'.slotsOwned with
      | noVictim _ _ _ _ => simp
      | vacant _ _ _ _ _ => simp
      | exhausted _ _ => simp

theorem inOrder_unreliable (frames slots : Nat) (policy : Policy) (failsOut failsIn : Nat → Bool)
    (calls : List Call) :
    ((build frames policy (UnreliableStore.empty slots failsOut failsIn)).callAll calls).InOrder
      frames slots := by
  have hbuild := inOrder_build frames policy (UnreliableStore.empty slots failsOut failsIn)
  have hcapacity : BackingStore.capacity (UnreliableStore.empty slots failsOut failsIn) = slots :=
    Array.size_replicate
  rw [hcapacity] at hbuild
  exact hbuild.callAll calls

theorem inOrder_slots (frames slots : Nat) (policy : Policy) (calls : List Call) :
    ((build frames policy (SlotStore.empty slots)).callAll calls).InOrder frames slots := by
  have hbuild := inOrder_build frames policy (SlotStore.empty slots)
  have hcapacity : BackingStore.capacity (SlotStore.empty slots) = slots := Array.size_replicate
  rw [hcapacity] at hbuild
  exact hbuild.callAll calls

/-- After any calls, failed ones included, on a machine that was built with any numbers of frames
and of slots: whatever is asked next finds every number in range and the machine in order, so that
it succeeds or is refused for one of the causes; and if no call on the store was made to fail, an
offset is never unknown. -/
theorem calls_in_range (frames slots : Nat) (algorithm : Algorithm) (seed : UInt64)
    (failsOut failsIn : Nat → Bool) (calls : List Call) :
    let policy := Policy.ofAlgorithm algorithm seed
    let m := (build frames policy (UnreliableStore.empty slots failsOut failsIn)).callAll calls
    let plain := (build frames policy (SlotStore.empty slots)).callAll calls
    (m.InRange frames slots ∧ m.RefusesOnly (MayRefuse frames slots)) ∧
      plain.InRange frames slots ∧ plain.RefusesOnly fun a e =>
        MayRefuse frames slots a e ∧ ∀ o, e ≠ .unknownSwapOffset o := by
  intro policy m plain
  have hm : m.InOrder frames slots :=
    inOrder_unreliable frames slots policy failsOut failsIn calls
  have hplain : plain.InOrder frames slots := inOrder_slots frames slots policy calls
  refine ⟨⟨hm.inRange UnreliableStore.holdsSlots, hm.refusesOnly ?_⟩,
    hplain.inRange SlotStore.holdsSlots, hplain.refusesOnly ?_⟩
  · intro m m' q failure h hserves
    exact hserves.mayRefuse h
  · intro m m' q failure h hserves
    obtain ⟨e, rfl, hmay⟩ := hserves.mayRefuse h
    exact ⟨e, rfl, hmay, hserves.ne_unknownSwapOffset h⟩

end Machine

end DemandPaging
