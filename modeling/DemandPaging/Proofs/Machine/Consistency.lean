import DemandPaging.Machine.Access
import DemandPaging.Proofs.Policy.Choice

/-!
# The consistent machine, and the moves that keep it so

Paging moves pages in a handful of ways: a walk makes tables, a policy takes marks, a victim
leaves its frame, a page enters one, an entry is marked as used. Each is a function on machines
here, so that a stage of paging is a composition of them, and each gets one lemma that says it
keeps a machine `Consistent`:

> `occupant_iff`: a frame's occupant is the entry that is resident in it, and no other.

Claiming a frame and mapping its page are one move (`placing`), because between the two the frame
table is ahead of the page table. A fault that fails there releases the frame again and so never
made the move.
-/

namespace DemandPaging

/-! ## Which page is in which frame -/

/-- The page behind `r` is in `frame`. -/
def PageTable.Resident (t : PageTable) (r : EntryRef) (frame : Nat) : Prop :=
  ∃ p, t.page? r = some p ∧ p.entry.frame? = some frame

namespace PageTable

variable {t t' : PageTable} {r s : EntryRef} {frame g : Nat}

/-- A page is in one frame at most. -/
theorem Resident.unique (h : t.Resident r frame) (h' : t.Resident r g) : frame = g := by
  obtain ⟨p, hp, hf⟩ := h
  obtain ⟨q, hq, hg⟩ := h'
  rw [hp, Option.some.injEq] at hq
  subst hq
  exact Option.some.inj (hf.symm.trans hg)

theorem not_resident_of_frame?_eq_none {p : PageEntry} (hp : t.page? r = some p)
    (hf : p.entry.frame? = none) : ¬ t.Resident r frame := by
  intro hex
  obtain ⟨q, hq, hg⟩ := hex
  rw [hp, Option.some.injEq] at hq
  rw [← hq, hf] at hg
  simp at hg

/-- A change that leaves frames alone leaves residency alone. -/
theorem resident_modify {f : Entry → Entry} (hf : ∀ e, (f e).frame? = e.frame?) :
    (t.modify r f).Resident s g ↔ t.Resident s g := by
  unfold Resident
  rw [page?_modify]
  split
  next hs =>
    refine ⟨?_, ?_⟩
    · intro hex
      obtain ⟨p, hp, hg⟩ := hex
      obtain ⟨q, hq, rfl⟩ := Option.map_eq_some_iff.mp hp
      exact ⟨q, hq, (hf q.entry).symm.trans hg⟩
    · intro hex
      obtain ⟨p, hp, hg⟩ := hex
      exact ⟨p.update f, by rw [hp]; rfl, (hf p.entry).trans hg⟩
  next => rfl

/-- A page that was swapped out is in no frame, and the others are where they were. -/
theorem resident_modify_swapOut {offset : SwapOffset} :
    (t.modify r (·.swapOut offset)).Resident s g ↔ s ≠ r ∧ t.Resident s g := by
  unfold Resident
  rw [page?_modify]
  split
  next hs =>
    refine ⟨?_, ?_⟩
    · intro hex
      obtain ⟨p, hp, hg⟩ := hex
      obtain ⟨q, -, rfl⟩ := Option.map_eq_some_iff.mp hp
      simp at hg
    · exact fun h => absurd hs h.1
  next hs => exact ⟨fun h => ⟨hs, h⟩, And.right⟩

/-- A page that was placed is in its frame, and the others are where they were. -/
theorem resident_modify_place {p : PageEntry} (hp : t.page? r = some p) {dirty : Bool} :
    (t.modify r fun e => (e.place frame).setDirty dirty).Resident s g
      ↔ s = r ∧ g = frame ∨ s ≠ r ∧ t.Resident s g := by
  unfold Resident
  rw [page?_modify]
  split
  next hs =>
    subst hs
    rw [hp]
    simp [eq_comm]
  next hs => simp [hs]

/-- Taking marks away moves no page. -/
theorem Swept.resident (h : Swept t t') : t'.Resident s g ↔ t.Resident s g := by
  induction h with
  | refl => rfl
  | unmark r _ ih => exact ih.trans (resident_modify fun _ => rfl)

/-- New tables hold no resident page. -/
theorem Extends.resident (h : Extends t t') : t'.Resident s g ↔ t.Resident s g := by
  refine ⟨?_, ?_⟩
  · intro hex
    obtain ⟨p, hp, hg⟩ := hex
    rcases h.fresh s p hp with hp' | ⟨-, hunmapped⟩
    · exact ⟨p, hp', hg⟩
    · rw [hunmapped] at hg
      exact absurd hg (by simp [Entry.unmapped, Entry.frame?])
  · intro hex
    obtain ⟨p, hp, hg⟩ := hex
    exact ⟨p, h.kept s p hp, hg⟩

end PageTable

/-- Touching a page does not move it. -/
theorem Entry.frame?_touch (e : Entry) (kind : AccessKind) : (e.touch kind).frame? = e.frame? := by
  unfold Entry.touch
  split <;> rfl

/-- Counts a reference, as a hit or as a miss. -/
def Counters.countReference (c : Counters) (hit : Bool) : Counters :=
  if hit then { c with references := c.references + 1, hits := c.hits + 1 }
  else { c with references := c.references + 1, misses := c.misses + 1 }

namespace Counters

theorem hits_countEviction (c : Counters) (dirty : Bool) :
    (c.countEviction dirty).hits = c.hits := by
  unfold countEviction
  split <;> rfl

theorem misses_countEviction (c : Counters) (dirty : Bool) :
    (c.countEviction dirty).misses = c.misses := by
  unfold countEviction
  split <;> rfl

theorem references_countEviction (c : Counters) (dirty : Bool) :
    (c.countEviction dirty).references = c.references := by
  unfold countEviction
  split <;> rfl

/-- An eviction is counted once, clean or dirty. -/
theorem evictions_countEviction (c : Counters) (dirty : Bool) :
    (c.countEviction dirty).evictions = c.evictions + 1 := by
  unfold countEviction evictions
  split
  · show c.cleanEvictions + (c.dirtyEvictions + 1) = _
    omega
  · show c.cleanEvictions + 1 + c.dirtyEvictions = _
    omega

/-- A reference is no eviction. -/
theorem evictions_countReference (c : Counters) (hit : Bool) :
    (c.countReference hit).evictions = c.evictions := by
  unfold countReference
  split <;> rfl

end Counters

namespace Machine

variable {σ : Type}

/-! ## The moves -/

/-- The resident pages as the policy gets to see them. -/
def residents (m : Machine σ) : ResidentPages := ⟨m.frameTable, m.pageTable⟩

/-- The machine when the way to an address has been walked and its page was found in memory or
missed there. -/
def entering (m : Machine σ) (a : Address) (hit : Bool) : Machine σ :=
  { m with
    pageTable := (m.pageTable.walk a).table
    counters := m.counters.countReference hit }

/-- The machine when the policy has made its choice. -/
def choosing (m : Machine σ) (choice : Policy.Choice) : Machine σ :=
  { m with policy := choice.policy, pageTable := choice.residents.pageTable }

/-- The machine with its store as a call on it left it. -/
def withSwap (m : Machine σ) (swap : σ) : Machine σ := { m with swap := swap }

/-- The machine when a victim has left its frame for a slot of the store. -/
def vacating (m : Machine σ) (victim : EntryRef) (dirty : Bool) (offset : SwapOffset) (swap : σ)
    (frameTable : FrameTable) : Machine σ :=
  { m with
    pageTable := m.pageTable.modify victim (·.swapOut offset)
    frameTable := frameTable
    swap := swap
    counters := m.counters.countEviction dirty }

/-- The machine when a page has claimed a frame and is in it. -/
def placing (m : Machine σ) (r : EntryRef) (frame : Nat) (dirty : Bool) (swap : σ)
    (frameTable : FrameTable) (memory : Memory) : Machine σ :=
  { m with
    pageTable := m.pageTable.modify r fun e => (e.place frame).setDirty dirty
    frameTable := frameTable
    memory := memory
    swap := swap }

/-! ## Consistency -/

/-- The page table, the frame table, memory and the counters say the same. -/
structure Consistent (m : Machine σ) : Prop where
  rooted : m.pageTable.Rooted
  frames : m.memory.frames = m.frameTable.size
  /-- A frame's occupant is the entry that is resident in it. -/
  occupant_iff : ∀ frame r,
    m.frameTable.occupant? frame = some r ↔ m.pageTable.Resident r frame
  /-- Every reference was a hit or a miss. -/
  counted : m.counters.hits + m.counters.misses = m.counters.references

/-- Every occupant of a frame has an entry. -/
theorem Consistent.grounded {m : Machine σ} (h : m.Consistent) : m.residents.Grounded := by
  intro frame r hocc
  obtain ⟨p, hp, -⟩ := (h.occupant_iff frame r).mp hocc
  exact ⟨p, hp⟩

/-- A page is in a frame that exists. -/
theorem Consistent.lt_size {m : Machine σ} (h : m.Consistent) {r : EntryRef} {frame : Nat}
    (hr : m.pageTable.Resident r frame) : frame < m.frameTable.size :=
  FrameTable.lt_size_of_occupant? ((h.occupant_iff frame r).mpr hr)

/-- No two pages share a frame. -/
theorem Consistent.eq_of_resident {m : Machine σ} (h : m.Consistent) {r s : EntryRef}
    {frame : Nat} (hr : m.pageTable.Resident r frame) (hs : m.pageTable.Resident s frame) :
    r = s := by
  have hr' := (h.occupant_iff frame r).mpr hr
  have hs' := (h.occupant_iff frame s).mpr hs
  exact Option.some.inj (hr'.symm.trans hs')

/-- A page that is not resident occupies no frame, so a policy's choice spares it. -/
theorem Consistent.page?_choosing {m : Machine σ} (h : m.Consistent) {choice : Policy.Choice}
    (hspares : m.residents.Spares choice.residents) {r : EntryRef} {p : PageEntry}
    (hp : m.pageTable.page? r = some p) (hf : p.entry.frame? = none) :
    (m.choosing choice).pageTable.page? r = some p := by
  refine (hspares.absent r fun frame hocc => ?_).trans hp
  exact PageTable.not_resident_of_frame?_eq_none hp hf ((h.occupant_iff frame r).mp hocc)

/-- Consistency is about the tables, the extent of memory and three counters. -/
theorem Consistent.of_eq {m m' : Machine σ} (h : m.Consistent)
    (hrooted : m'.pageTable.Rooted)
    (hresident : ∀ r frame, m'.pageTable.Resident r frame ↔ m.pageTable.Resident r frame)
    (hframes : m'.frameTable = m.frameTable) (hmemory : m'.memory.frames = m.memory.frames)
    (hcounted : m'.counters.hits + m'.counters.misses = m'.counters.references) :
    m'.Consistent where
  rooted := hrooted
  frames := by rw [hmemory, hframes]; exact h.frames
  occupant_iff frame r := by rw [hframes, hresident]; exact h.occupant_iff frame r
  counted := hcounted

theorem consistent_build (frames : Nat) (policy : Policy) (swap : σ) :
    (build frames policy swap).Consistent where
  rooted := PageTable.rooted_empty
  frames := by simp [build]
  occupant_iff frame r := by
    simp [build, FrameTable.occupant?_empty, PageTable.Resident, PageTable.page?_empty]
  counted := rfl

/-- A page that is entered is in no frame. -/
theorem Consistent.entering {m : Machine σ} (h : m.Consistent) (a : Address) (hit : Bool) :
    (m.entering a hit).Consistent := by
  refine h.of_eq (h.rooted.walk a) (fun r frame => (h.rooted.extends_walk a).resident) rfl rfl ?_
  have hcounted := h.counted
  show (m.counters.countReference hit).hits + (m.counters.countReference hit).misses
    = (m.counters.countReference hit).references
  unfold Counters.countReference
  split
  · show m.counters.hits + 1 + m.counters.misses = m.counters.references + 1
    omega
  · show m.counters.hits + (m.counters.misses + 1) = m.counters.references + 1
    omega

/-- Choosing a victim moves no page. -/
theorem Consistent.choosing {m : Machine σ} (h : m.Consistent) {choice : Policy.Choice}
    (hspares : m.residents.Spares choice.residents) : (m.choosing choice).Consistent :=
  h.of_eq (hspares.swept.rooted h.rooted) (fun _ _ => hspares.swept.resident) rfl rfl h.counted

/-- Consistency is not about swap. -/
theorem Consistent.withSwap {m : Machine σ} (h : m.Consistent) (swap : σ) :
    (m.withSwap swap).Consistent :=
  h.of_eq h.rooted (fun _ _ => Iff.rfl) rfl rfl h.counted

/-- Consistency is not about the bytes in memory. -/
theorem Consistent.withMemory {m : Machine σ} (h : m.Consistent) {memory : Memory}
    (hframes : memory.frames = m.memory.frames) : { m with memory := memory }.Consistent :=
  h.of_eq h.rooted (fun _ _ => Iff.rfl) rfl hframes h.counted

/-- Using a page moves none. -/
theorem Consistent.use {m : Machine σ} (h : m.Consistent) (r : EntryRef) (kind : AccessKind)
    (frame : Nat) : (m.use r kind frame).Consistent :=
  h.of_eq (h.rooted.modify r _)
    (fun _ _ => PageTable.resident_modify fun e => e.frame?_touch kind) rfl rfl h.counted

/-- The end of a run changes the policy only. -/
theorem Consistent.finish {m : Machine σ} (h : m.Consistent) : m.finish.Consistent :=
  h.of_eq h.rooted (fun _ _ => Iff.rfl) rfl rfl h.counted

/-- The occupant of a frame leaves, and the frame is free. -/
theorem Consistent.vacating {m : Machine σ} (h : m.Consistent) {frame : Nat} {victim : EntryRef}
    (hocc : m.frameTable.occupant? frame = some victim) {frameTable : FrameTable}
    (hreleased : m.frameTable.release? frame = some frameTable) (dirty : Bool)
    (offset : SwapOffset) (swap : σ) :
    (m.vacating victim dirty offset swap frameTable).Consistent where
  rooted := h.rooted.modify victim _
  frames := by
    obtain ⟨-, hsize, -⟩ := FrameTable.release?_spec hreleased
    exact h.frames.trans hsize.symm
  occupant_iff g r := by
    obtain ⟨-, -, hocc'⟩ := FrameTable.release?_spec hreleased
    show frameTable.occupant? g = some r ↔ (m.pageTable.modify victim _).Resident r g
    rw [hocc', PageTable.resident_modify_swapOut, ← h.occupant_iff]
    split
    next hg =>
      subst hg
      rw [hocc]
      simp [eq_comm]
    next hg =>
      -- the victim was in no frame but its own
      refine ⟨?_, ?_⟩
      · intro hr
        refine ⟨?_, hr⟩
        intro heq
        subst heq
        exact hg (((h.occupant_iff g r).mp hr).unique ((h.occupant_iff frame r).mp hocc))
      · exact And.right
  counted := by
    show (m.counters.countEviction dirty).hits + (m.counters.countEviction dirty).misses
      = (m.counters.countEviction dirty).references
    rw [Counters.hits_countEviction, Counters.misses_countEviction,
      Counters.references_countEviction]
    exact h.counted

/-- A page that is in no frame enters a free one. -/
theorem Consistent.placing {m : Machine σ} (h : m.Consistent) {r : EntryRef} {p : PageEntry}
    (hp : m.pageTable.page? r = some p) (habsent : p.entry.frame? = none) {frame : Nat}
    {frameTable : FrameTable} (hclaimed : m.frameTable.claim? frame r = some frameTable)
    {memory : Memory} (hmemory : memory.frames = m.memory.frames) (dirty : Bool) (swap : σ) :
    (m.placing r frame dirty swap frameTable memory).Consistent where
  rooted := h.rooted.modify r _
  frames := by
    obtain ⟨-, -, hsize, -⟩ := FrameTable.claim?_spec hclaimed
    exact hmemory.trans (h.frames.trans hsize.symm)
  occupant_iff g s := by
    obtain ⟨-, hfree, -, hocc⟩ := FrameTable.claim?_spec hclaimed
    show frameTable.occupant? g = some s ↔ (m.pageTable.modify r _).Resident s g
    rw [hocc, PageTable.resident_modify_place hp, ← h.occupant_iff]
    split
    next hg =>
      subst hg
      rw [hfree]
      simp [eq_comm]
    next hg =>
      -- the page was in no frame, so it occupies none of the others
      refine ⟨?_, ?_⟩
      · intro hs
        refine Or.inr ⟨?_, hs⟩
        intro heq
        subst heq
        exact PageTable.not_resident_of_frame?_eq_none hp habsent ((h.occupant_iff g s).mp hs)
      · intro hcases
        rcases hcases with ⟨-, hgf⟩ | ⟨-, hs⟩
        · exact absurd hgf hg
        · exact hs
  counted := h.counted

/-! ## The frame of an address -/

/-- The entry of an address, once the walk has made it. -/
def refOf (m : Machine σ) (a : Address) : EntryRef := (m.pageTable.walk a).ref

/-- The frame of an address is the frame of its entry. -/
theorem frameOf?_of_lookup {m : Machine σ} {a : Address} {r : EntryRef} {frame : Nat}
    (hlookup : m.pageTable.lookup a = some r) (hr : m.pageTable.Resident r frame) :
    m.frameOf? a = some frame := by
  obtain ⟨p, hp, hf⟩ := hr
  unfold frameOf?
  rw [hlookup, Option.bind_some, PageTable.entry?, hp, Option.map_some, Option.bind_some, hf]

/-- A page has a frame exactly if its entry is found resident at the end of the walk. -/
theorem Consistent.frameOf?_eq_some {m : Machine σ} (h : m.Consistent) {a : Address} (hit : Bool)
    {frame : Nat} :
    m.frameOf? a = some frame ↔ (m.entering a hit).pageTable.Resident (m.refOf a) frame := by
  have hextends := h.rooted.extends_walk a
  obtain ⟨q, hq, hqv⟩ := h.rooted.walk_page? a
  show _ ↔ (m.pageTable.walk a).table.Resident (m.pageTable.walk a).ref frame
  rw [hextends.resident]
  refine ⟨?_, ?_⟩
  · intro hframe
    obtain ⟨e, he, hf⟩ := Option.bind_eq_some_iff.mp hframe
    obtain ⟨r, hlookup, hentry⟩ := Option.bind_eq_some_iff.mp he
    obtain ⟨p, hp, rfl⟩ := Option.map_eq_some_iff.mp hentry
    obtain ⟨p', hp', hpv⟩ := h.rooted.page?_of_lookup hlookup
    have heq : p = p' := Option.some.inj (hp.symm.trans hp')
    subst heq
    -- lookup and walk end at entries of one page number, hence at the same entry
    have href := (h.rooted.walk a).ref_eq_of_vpn_eq (hextends.kept r p hp) hq (hpv.trans hqv.symm)
    exact href ▸ ⟨p, hp, hf⟩
  · intro hr
    obtain ⟨p, hp, hf⟩ := hr
    have heq : p = q := Option.some.inj ((hextends.kept _ p hp).symm.trans hq)
    exact frameOf?_of_lookup (h.rooted.lookup_of_page? hp (heq ▸ hqv)) ⟨p, hp, hf⟩

end Machine

end DemandPaging
