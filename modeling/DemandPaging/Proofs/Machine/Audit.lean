import DemandPaging.Machine.Audit
import DemandPaging.Proofs.Machine.Extent
import DemandPaging.Proofs.PageTable.Mapped
import Mathlib.Data.List.Pairwise

/-!
# What the audit finds

The audit enters every mapped entry that is resident in a table of owners and compares that table
with the frame table. Nothing is assumed of the machine: its frame table may name entries that are
on swap or do not exist, and two entries may claim one frame or a frame beyond memory.

> `exists_enterOwners_iff`: all entries can be entered if their frames exist and no two share one.
> `enterOwners_spec`: the owners are then the entries that are resident, and no others.
> `audit_eq_ok_iff`: so the audit passes a machine exactly if its tables say the same.

On a consistent machine they do (`Consistent.audit_eq_ok`), and with it on every machine that was
built and then only used (`frameTable_inverse`).
-/

namespace DemandPaging.Machine

variable {σ : Type}

/-! ## Owners -/

/-- Two listed entries are not in one frame. -/
def FramesDiffer (x y : EntryRef × PageEntry) : Prop :=
  ∀ frame, x.2.entry.frame? = some frame → y.2.entry.frame? ≠ some frame

/-- An entered table has the owners from before and the resident entries, and no others. -/
theorem enterOwners_spec {entries : List (EntryRef × PageEntry)} :
    ∀ {owners owners' : Array (Option Owner)}, enterOwners owners entries = .ok owners' →
      owners'.size = owners.size ∧
        ∀ frame o, owners'[frame]? = some (some o) ↔ owners[frame]? = some (some o) ∨
          ∃ x ∈ entries, x.2.entry.frame? = some frame ∧ o = (x.1, x.2.vpn) := by
  induction entries with
  | nil =>
    intro owners owners' h
    simp only [enterOwners, Except.ok.injEq] at h
    subst h
    simp
  | cons x entries ih =>
    intro owners owners' h
    obtain ⟨r, p⟩ := x
    unfold enterOwners at h
    split at h
    next hnone =>
      obtain ⟨hsize, hiff⟩ := ih h
      refine ⟨hsize, fun frame o => ?_⟩
      rw [hiff]
      simp [hnone]
    next f hf =>
      split at h
      next => simp at h
      next => simp at h
      next hfree =>
        obtain ⟨hsize, hiff⟩ := ih h
        obtain ⟨hlt, hval⟩ := Array.getElem?_eq_some_iff.mp hfree
        refine ⟨by simpa using hsize, fun frame o => ?_⟩
        rw [hiff, Array.getElem?_setIfInBounds]
        by_cases hff : f = frame
        · -- the frame had no owner, and its owner is this entry now
          subst hff
          simp [hlt, hf, hval, eq_comm]
        · have hne : p.entry.frame? ≠ some frame := by
            intro heq
            exact hff (Option.some.inj (hf.symm.trans heq))
          simp [hff, hne]

/-- Once an entry is entered its frame is owned, and the others are as before. -/
theorem setIfInBounds_eq_none_iff {owners : Array (Option Owner)} {f frame : Nat} {o : Owner} :
    (owners.setIfInBounds f (some o))[frame]? = some none ↔
      f ≠ frame ∧ owners[frame]? = some none := by
  rw [Array.getElem?_setIfInBounds]
  by_cases hf : f = frame
  · rw [if_pos hf]
    split <;> simp [hf]
  · rw [if_neg hf]
    simp [hf]

/-- Entries can be entered exactly if their frames exist, are not owned yet and differ from each
other. -/
theorem exists_enterOwners_iff {entries : List (EntryRef × PageEntry)} :
    ∀ {owners : Array (Option Owner)}, (∃ owners', enterOwners owners entries = .ok owners') ↔
      entries.Pairwise FramesDiffer ∧
        ∀ x ∈ entries, ∀ frame, x.2.entry.frame? = some frame → owners[frame]? = some none := by
  induction entries with
  | nil => simp [enterOwners]
  | cons x entries ih =>
    intro owners
    obtain ⟨r, p⟩ := x
    rw [List.pairwise_cons, List.forall_mem_cons]
    unfold enterOwners
    split
    next hnone =>
      -- an entry that is in no frame differs from all
      have hdiffer : ∀ y ∈ entries, FramesDiffer (r, p) y := by
        intro y _ frame hf
        exact absurd (hnone.symm.trans hf) (by simp)
      have hfree : ∀ frame, p.entry.frame? = some frame → owners[frame]? = some none := by
        intro frame hf
        exact absurd (hnone.symm.trans hf) (by simp)
      rw [ih, and_iff_right hdiffer, and_iff_right hfree]
    next f hf =>
      split
      next hmissing => simp [hf, hmissing]
      next hshared => simp [hf, hshared]
      next hfree =>
        have hhead : ∀ frame, p.entry.frame? = some frame → owners[frame]? = some none := by
          intro frame hframe
          exact Option.some.inj (hf.symm.trans hframe) ▸ hfree
        have hdiffer : ∀ y ∈ entries, FramesDiffer (r, p) y ↔
            ∀ frame, y.2.entry.frame? = some frame → f ≠ frame := by
          intro y _
          simp only [FramesDiffer, hf, Option.some.injEq, forall_eq']
          exact ⟨fun h frame hframe heq => h (heq ▸ hframe), fun h hframe => h f hframe rfl⟩
        rw [ih, and_iff_right hhead, and_comm (a := ∀ y ∈ entries, FramesDiffer (r, p) y),
          and_assoc, forall₂_congr hdiffer, ← forall₂_and]
        simp only [setIfInBounds_eq_none_iff, ← forall₂_and]

theorem compareOwners_eq_ok_iff {pairs : List (Option EntryRef × Option Owner)} :
    ∀ {frame : Nat}, compareOwners frame pairs = .ok () ↔ ∀ x ∈ pairs, x.1 = x.2.map (·.1) := by
  induction pairs with
  | nil => simp [compareOwners]
  | cons x pairs ih =>
    intro frame
    obtain ⟨occupant, owner⟩ := x
    rw [List.forall_mem_cons]
    unfold compareOwners
    split
    next hagree => simp [ih, hagree]
    next hdiffer => simp [hdiffer]

/-! ## The audit -/

variable {m : Machine σ}

theorem resident_iff_mem_mapped {t : PageTable} {r : EntryRef} {frame : Nat} :
    t.Resident r frame ↔ ∃ p, (r, p) ∈ t.mapped ∧ p.entry.frame? = some frame := by
  unfold PageTable.Resident
  refine exists_congr fun p => ?_
  rw [PageTable.mem_mapped]
  refine ⟨fun hr => ⟨⟨hr.1, Entry.isUnmapped_eq_false_of_frame? hr.2⟩, hr.2⟩, fun hr => ?_⟩
  exact ⟨hr.1.1, hr.2⟩

/-- No two listed entries share a frame if no two entries of the table do. -/
theorem pairwise_framesDiffer_iff {t : PageTable} :
    t.mapped.Pairwise FramesDiffer ↔
      ∀ r s frame, t.Resident r frame → t.Resident s frame → r = s := by
  refine ⟨?_, ?_⟩
  · intro hdiffer r s frame hr hs
    obtain ⟨p, hp, hf⟩ := resident_iff_mem_mapped.mp hr
    obtain ⟨q, hq, hg⟩ := resident_iff_mem_mapped.mp hs
    have hsymm : Std.Symm FramesDiffer := ⟨fun x y h frame hy hx => h frame hx hy⟩
    by_contra hne
    have hxy : (r, p) ≠ (s, q) := fun heq => hne (congrArg Prod.fst heq)
    exact hdiffer.forall hp hq hxy frame hf hg
  · intro hunique
    refine (PageTable.pairwise_mapped t).imp_of_mem ?_
    intro x y hx hy hne frame hf hf'
    exact hne (hunique _ _ frame (resident_iff_mem_mapped.mpr ⟨x.2, hx, hf⟩)
      (resident_iff_mem_mapped.mpr ⟨y.2, hy, hf'⟩))

/-- The entries of a machine can be entered if their frames exist and no two share one. -/
theorem exists_owners_iff :
    (∃ owners, enterOwners (Array.replicate m.frameTable.size none) m.pageTable.mapped
      = .ok owners) ↔
      (∀ r frame, m.pageTable.Resident r frame → frame < m.frameTable.size) ∧
        ∀ r s frame, m.pageTable.Resident r frame → m.pageTable.Resident s frame → r = s := by
  rw [exists_enterOwners_iff, pairwise_framesDiffer_iff, and_comm]
  refine and_congr_left fun _ => ?_
  simp only [Array.getElem?_replicate, resident_iff_mem_mapped]
  refine ⟨?_, ?_⟩
  · intro hfree r frame hr
    obtain ⟨p, hp, hf⟩ := hr
    have hset := hfree (r, p) hp frame hf
    split at hset
    next hlt => exact hlt
    next => simp at hset
  · intro hlt x hx frame hf
    rw [if_pos (hlt x.1 frame ⟨x.2, hx, hf⟩)]

/-- The owners are the entries that are resident. -/
theorem owners_iff_resident {owners : Array (Option Owner)}
    (howners : enterOwners (Array.replicate m.frameTable.size none) m.pageTable.mapped
      = .ok owners) {frame : Nat} (hlt : frame < owners.size) (r : EntryRef) :
    owners[frame].map (·.1) = some r ↔ m.pageTable.Resident r frame := by
  obtain ⟨-, hiff⟩ := enterOwners_spec howners
  -- there are no owners before the listing is entered
  have hbefore : ∀ o, (Array.replicate m.frameTable.size (none : Option Owner))[frame]?
      ≠ some (some o) := by
    intro o
    rw [Array.getElem?_replicate]
    split <;> simp
  have howner : ∀ o, owners[frame] = some o ↔
      ∃ x ∈ m.pageTable.mapped, x.2.entry.frame? = some frame ∧ o = (x.1, x.2.vpn) := by
    intro o
    have ho := hiff frame o
    rw [Array.getElem?_eq_getElem hlt, Option.some.injEq] at ho
    rw [ho, or_iff_right (hbefore o)]
  rw [resident_iff_mem_mapped, Option.map_eq_some_iff]
  refine ⟨?_, ?_⟩
  · intro hr
    obtain ⟨o, ho, rfl⟩ := hr
    obtain ⟨x, hx, hf, rfl⟩ := (howner o).mp ho
    exact ⟨x.2, hx, hf⟩
  · intro hr
    obtain ⟨p, hp, hf⟩ := hr
    exact ⟨(r, p.vpn), (howner _).mpr ⟨(r, p), hp, hf, rfl⟩, rfl⟩

/-- The comparison succeeds if, frame by frame, the occupant is the entry that is resident. -/
theorem compareOwners_iff_resident {owners : Array (Option Owner)}
    (howners : enterOwners (Array.replicate m.frameTable.size none) m.pageTable.mapped
      = .ok owners) :
    compareOwners 0 (m.frameTable.occupants.toList.zip owners.toList) = .ok () ↔
      ∀ frame r, frame < m.frameTable.size →
        (m.frameTable.occupant? frame = some r ↔ m.pageTable.Resident r frame) := by
  have hsize : owners.size = m.frameTable.size :=
    (enterOwners_spec howners).1.trans Array.size_replicate
  have hocc : ∀ frame (hlt : frame < m.frameTable.occupants.size),
      m.frameTable.occupants[frame] = m.frameTable.occupant? frame := by
    intro frame hlt
    unfold FrameTable.occupant?
    rw [Array.getElem?_eq_getElem hlt, Option.join_some]
  rw [compareOwners_eq_ok_iff]
  simp only [List.forall_mem_iff_forall_getElem, List.getElem_zip, List.length_zip,
    Array.length_toList, Array.getElem_toList]
  refine ⟨?_, ?_⟩
  · intro hzip frame r hlt
    have howner : frame < owners.size := hsize.symm ▸ hlt
    have heq : m.frameTable.occupant? frame = owners[frame].map (·.1) :=
      (hocc frame hlt).symm.trans (hzip frame (Nat.lt_min.mpr ⟨hlt, howner⟩))
    rw [heq]
    exact owners_iff_resident howners howner r
  · intro hiff frame hlt
    obtain ⟨hlt, howner⟩ := Nat.lt_min.mp hlt
    refine Option.ext fun r => ?_
    rw [owners_iff_resident howners howner, ← hiff frame r hlt, hocc frame hlt]

theorem checkCounters_eq_ok_iff {c : Counters} :
    checkCounters c = .ok () ↔ c.hits + c.misses = c.references := by
  unfold checkCounters
  split
  next hcounted => simp [hcounted]
  next hcounted => simp [hcounted]

/-- Once the owners are entered, the audit compares them with the occupants and then looks at the
counters. -/
theorem audit_of_owners {owners : Array (Option Owner)}
    (howners : enterOwners (Array.replicate m.frameTable.size none) m.pageTable.mapped
      = .ok owners) :
    m.audit = .ok () ↔
      (∀ frame r, frame < m.frameTable.size →
        (m.frameTable.occupant? frame = some r ↔ m.pageTable.Resident r frame)) ∧
      m.counters.hits + m.counters.misses = m.counters.references := by
  unfold audit
  rw [howners, ← compareOwners_iff_resident howners, ← checkCounters_eq_ok_iff]
  show (do compareOwners 0 _; checkCounters m.counters) = _ ↔ _
  cases compareOwners 0 (m.frameTable.occupants.toList.zip owners.toList) with
  | error e => simp [bind, Except.bind]
  | ok _ => simp [bind, Except.bind]

/-- The audit passes a machine, whatever its tables hold, exactly if every resident entry is in a
frame that exists, no two share one, the occupant of a frame is the entry that is resident in it,
and every reference was counted as a hit or as a miss. -/
theorem audit_eq_ok_iff (m : Machine σ) :
    m.audit = .ok () ↔
      (∀ r frame, m.pageTable.Resident r frame → frame < m.frameTable.size) ∧
      (∀ r s frame, m.pageTable.Resident r frame → m.pageTable.Resident s frame → r = s) ∧
      (∀ frame r, frame < m.frameTable.size →
        (m.frameTable.occupant? frame = some r ↔ m.pageTable.Resident r frame)) ∧
      m.counters.hits + m.counters.misses = m.counters.references := by
  rw [← and_assoc, ← exists_owners_iff]
  cases howners : enterOwners (Array.replicate m.frameTable.size none) m.pageTable.mapped with
  | ok owners => simp [audit_of_owners howners]
  | error e =>
    unfold audit
    rw [howners]
    simp [bind, Except.bind]

/-- A frame whose occupant is no entry of the page table does not pass. -/
example :
    ({ build 1 (.ofAlgorithm .lru 0) (SlotStore.empty 1) with
        frameTable := ⟨#[some ⟨0, 0⟩]⟩ }).audit
      = .error (.occupantDiffers 0 (some ⟨0, 0⟩) none) := rfl

theorem Consistent.audit_eq_ok (h : m.Consistent) : m.audit = .ok () := by
  obtain ⟨owners, howners⟩ := exists_owners_iff.mpr
    ⟨fun _ _ => h.lt_size, fun _ _ _ => h.eq_of_resident⟩
  exact (audit_of_owners howners).mpr ⟨fun frame r _ => h.occupant_iff frame r, h.counted⟩

/-! ## Machines in use -/

/-- Whatever calls are made on a machine, and whatever calls on its store fail, the frame table is
the page table read backwards, every reference was a hit or a miss, and the audit says so. -/
theorem frameTable_inverse (frames slots : Nat) (algorithm : Algorithm) (seed : UInt64)
    (failsOut failsIn : Nat → Bool) (calls : List Call) :
    let m := (build frames (.ofAlgorithm algorithm seed)
      (UnreliableStore.empty slots failsOut failsIn)).callAll calls
    (∀ frame r, m.frameTable.occupant? frame = some r ↔ m.pageTable.Resident r frame) ∧
      (∀ r frame, m.pageTable.Resident r frame → frame < frames) ∧
      (∀ r s frame, m.pageTable.Resident r frame → m.pageTable.Resident s frame → r = s) ∧
      (∀ frame, (m.frameTable.occupant? frame).isSome ↔
        ∃ r, m.pageTable.Resident r frame ∧ ∀ s, m.pageTable.Resident s frame → s = r) ∧
      m.counters.hits + m.counters.misses = m.counters.references ∧
      m.audit = .ok () := by
  intro m
  have hbuilt := consistent_build frames (.ofAlgorithm algorithm seed)
    (UnreliableStore.empty slots failsOut failsIn)
  have h : m.Consistent := hbuilt.callAll calls
  have hsize : m.frameTable.size = frames :=
    (SameExtent.callAll hbuilt calls).frames.trans (FrameTable.size_empty frames)
  refine ⟨h.occupant_iff, ?_, ?_, ?_, h.counted, h.audit_eq_ok⟩
  · intro r frame hr
    have hlt := h.lt_size hr
    omega
  · intro r s frame hr hs
    exact h.eq_of_resident hr hs
  · intro frame
    rw [Option.isSome_iff_exists]
    refine ⟨?_, ?_⟩
    · intro hex
      obtain ⟨r, hocc⟩ := hex
      have hr := (h.occupant_iff frame r).mp hocc
      exact ⟨r, hr, fun s hs => h.eq_of_resident hs hr⟩
    · intro hex
      obtain ⟨r, hr, -⟩ := hex
      exact ⟨r, (h.occupant_iff frame r).mpr hr⟩

end DemandPaging.Machine
