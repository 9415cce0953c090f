import DemandPaging.Proofs.Distinct
import DemandPaging.Proofs.PageTable.Entries
import Mathlib.Data.Fintype.Prod

/-!
# Which tables a page table has

A walk makes the tables that are missing on its way and no others, so the tables that are there are
those of the addresses that were walked (`Walked`): a middle table for each of their slots in the
top table, and a leaf table for each of their paths. A walk along a path that is there makes nothing
and leads to the entry that a lookup finds.

> `walk_of_lookup`: a walk where a lookup finds an entry.
> `Walked.walk`, `Altered.walked`: a walk adds its address, and changing entries adds nothing.

The paths are finitely many, and so are the tables: their numbers stay below fixed bounds.
-/

namespace DemandPaging

/-- The path to the leaf table of an address. -/
def Address.path (a : Address) : TableIndex × TableIndex := (a.top, a.mid)

namespace PageTable

variable {t : PageTable} {a : Address} {as : List Address}

/-! ## The three ways of a walk -/

/-- The number of a table in a slot is that of a table. -/
theorem midAt?_lt {i : TableIndex} {m : Nat} (h : t.midAt? i = some m) : m < t.mids.size := by
  have htop : t.top[i] = some m := h
  exact t.top_lt i m htop

theorem walk_eq_walkMid {m : Nat} (hmid : t.midAt? a.top = some m) :
    t.walk a = t.walkMid a m (midAt?_lt hmid) [] := by
  have htop : t.top[a.top] = some m := hmid
  unfold walk
  split
  next m' hm' =>
    have heq : m' = m := Option.some.inj (hm'.symm.trans htop)
    subst heq
    rfl
  next hnone =>
    rw [htop] at hnone
    simp at hnone

/-- Where the leaf exists, a walk makes nothing. -/
theorem walk_of_leaf {l : Nat} (hleaf : t.leafAt? a.top a.mid = some l) :
    t.walk a = ⟨⟨l, a.bottom⟩, t, []⟩ := by
  obtain ⟨m, hmid, -⟩ := Option.bind_eq_some_iff.mp hleaf
  have hlt := midAt?_lt hmid
  have hslot : t.mids[m][a.mid] = some l := (leafAt?_of_mid hmid hlt a.mid).symm.trans hleaf
  rw [walk_eq_walkMid hmid]
  unfold walkMid
  rw [hslot]

/-- Where only the middle table exists, a walk makes one leaf. -/
theorem walk_of_mid {m : Nat} (hmid : t.midAt? a.top = some m) (hlt : m < t.mids.size)
    (hleaf : t.leafAt? a.top a.mid = none) :
    (t.walk a).table = t.addLeaf a.top a.mid m hlt := by
  have hslot : t.mids[m][a.mid] = none := (leafAt?_of_mid hmid hlt a.mid).symm.trans hleaf
  rw [walk_eq_walkMid hmid]
  unfold walkMid
  rw [hslot]

/-- Where neither exists, a walk makes both. -/
theorem walk_of_new (hmid : t.midAt? a.top = none)
    (hlt : t.mids.size < (t.addMid a.top).mids.size) :
    (t.walk a).table = (t.addMid a.top).addLeaf a.top a.mid t.mids.size hlt := by
  have htop : t.top[a.top] = none := hmid
  have hslot : (t.addMid a.top).mids[t.mids.size][a.mid] = none := by
    simp [addMid, Directory.empty]
  unfold walk
  split
  next m hm =>
    rw [htop] at hm
    simp at hm
  next =>
    unfold walkMid
    rw [hslot]

/-- Where a lookup finds an entry, a walk leads there and makes nothing. -/
theorem walk_of_lookup {r : EntryRef} (h : t.lookup a = some r) : t.walk a = ⟨r, t, []⟩ := by
  rw [lookup_eq] at h
  obtain ⟨l, hleaf, rfl⟩ := Option.map_eq_some_iff.mp h
  exact walk_of_leaf hleaf

/-! ## The tables of the addresses that were walked -/

/-- The middle tables are at the slots `tops` of the top table, and the leaf tables at the ends of
`paths`, one for each. -/
structure Covers (t : PageTable) (tops : List TableIndex)
    (paths : List (TableIndex × TableIndex)) : Prop where
  mid_iff : ∀ i, (t.midAt? i).isSome ↔ i ∈ tops
  leaf_iff : ∀ i j, (t.leafAt? i j).isSome ↔ (i, j) ∈ paths
  mids_eq : t.mids.size = tops.eraseDups.length
  leaves_eq : t.leaves.size = paths.eraseDups.length

/-- The tables are those on the ways to the addresses `as`. -/
def Walked (t : PageTable) (as : List Address) : Prop :=
  t.Covers (as.map (·.top)) (as.map (·.path))

variable {tops : List TableIndex} {paths : List (TableIndex × TableIndex)}

theorem covers_empty : empty.Covers [] [] where
  mid_iff i := by simp [midAt?, empty]
  leaf_iff i j := by simp [leafAt?, midAt?, empty]
  mids_eq := rfl
  leaves_eq := rfl

/-- Changing an entry makes no tables. -/
theorem Covers.modify (h : t.Covers tops paths) (r : EntryRef) (f : Entry → Entry) :
    (t.modify r f).Covers tops paths where
  mid_iff := h.mid_iff
  leaf_iff := h.leaf_iff
  mids_eq := h.mids_eq
  leaves_eq := by
    show (t.leaves.modify r.leaf _).size = _
    rw [Array.size_modify]
    exact h.leaves_eq

/-- A slot that has its middle table may be named again. -/
theorem Covers.again_mid (h : t.Covers tops paths) {i : TableIndex}
    (hi : (t.midAt? i).isSome) : t.Covers (tops ++ [i]) paths where
  mid_iff k := by
    rw [h.mid_iff, List.mem_append, List.mem_singleton]
    refine ⟨Or.inl, fun hk => ?_⟩
    rcases hk with hk | rfl
    · exact hk
    · exact (h.mid_iff k).mp hi
  leaf_iff := h.leaf_iff
  mids_eq := by
    rw [eraseDups_concat_of_mem ((h.mid_iff i).mp hi)]
    exact h.mids_eq
  leaves_eq := h.leaves_eq

/-- So may a path that has its leaf table. -/
theorem Covers.again_leaf (h : t.Covers tops paths) {i j : TableIndex}
    (hij : (t.leafAt? i j).isSome) : t.Covers tops (paths ++ [(i, j)]) where
  mid_iff := h.mid_iff
  leaf_iff k l := by
    rw [h.leaf_iff, List.mem_append, List.mem_singleton]
    refine ⟨Or.inl, fun hkl => ?_⟩
    rcases hkl with hkl | heq
    · exact hkl
    · exact heq ▸ (h.leaf_iff i j).mp hij
  mids_eq := h.mids_eq
  leaves_eq := by
    rw [eraseDups_concat_of_mem ((h.leaf_iff i j).mp hij)]
    exact h.leaves_eq

/-- A new middle table is at one more slot. -/
theorem Covers.addMid (h : t.Covers tops paths) {i : TableIndex} (hi : t.midAt? i = none) :
    (t.addMid i).Covers (tops ++ [i]) paths where
  mid_iff k := by
    rw [midAt?_addMid, List.mem_append, List.mem_singleton, ← h.mid_iff]
    split
    next heq => simp [heq]
    next hne => simp [Ne.symm hne]
  leaf_iff k l := by
    rw [leafAt?_addMid hi]
    exact h.leaf_iff k l
  mids_eq := by
    have hnew : i ∉ tops := by
      rw [← h.mid_iff, hi]
      simp
    rw [eraseDups_concat_of_not_mem hnew, List.length_append, ← h.mids_eq]
    simp [PageTable.addMid]
  leaves_eq := h.leaves_eq

/-- A new leaf is at the end of one more path. -/
theorem Covers.addLeaf (h : t.Covers tops paths) (hrooted : t.Rooted) {i j : TableIndex} {m : Nat}
    (hmid : t.midAt? i = some m) (hlt : m < t.mids.size) (hleaf : t.leafAt? i j = none) :
    (t.addLeaf i j m hlt).Covers tops (paths ++ [(i, j)]) where
  mid_iff := h.mid_iff
  leaf_iff k l := by
    rw [leafAt?_addLeaf hrooted hmid hlt, List.mem_append, List.mem_singleton, ← h.leaf_iff,
      Prod.mk.injEq]
    split
    next heq => simp [heq]
    next hne => simp [hne]
  mids_eq := by
    rw [← h.mids_eq]
    simp [PageTable.addLeaf]
  leaves_eq := by
    have hnew : (i, j) ∉ paths := by
      rw [← h.leaf_iff, hleaf]
      simp
    rw [eraseDups_concat_of_not_mem hnew, List.length_append, ← h.leaves_eq]
    simp [PageTable.addLeaf]

/-- A walk adds its way to those that were walked. -/
theorem Covers.walk (h : t.Covers tops paths) (hrooted : t.Rooted) (a : Address) :
    (t.walk a).table.Covers (tops ++ [a.top]) (paths ++ [a.path]) := by
  cases hmid : t.midAt? a.top with
  | none =>
    have hlt : t.mids.size < (t.addMid a.top).mids.size := by simp [PageTable.addMid]
    have htop : (t.addMid a.top).midAt? a.top = some t.mids.size := by
      rw [midAt?_addMid, if_pos rfl]
    have hleaf : (t.addMid a.top).leafAt? a.top a.mid = none := by
      rw [leafAt?_addMid hmid, leafAt?_of_mid_none hmid]
    rw [walk_of_new hmid hlt]
    exact (h.addMid hmid).addLeaf (hrooted.addMid hmid) htop hlt hleaf
  | some m =>
    have hlt := midAt?_lt hmid
    have h' := h.again_mid (Option.isSome_of_eq_some hmid)
    cases hleaf : t.leafAt? a.top a.mid with
    | none =>
      rw [walk_of_mid hmid hlt hleaf]
      exact h'.addLeaf hrooted hmid hlt hleaf
    | some l =>
      rw [walk_of_leaf hleaf]
      exact h'.again_leaf (Option.isSome_of_eq_some hleaf)

/-- After one more walk the tables are those on the ways of one more address. -/
theorem Walked.walk (h : t.Walked as) (hrooted : t.Rooted) (a : Address) :
    (t.walk a).table.Walked (as ++ [a]) := by
  unfold Walked
  rw [List.map_append, List.map_append]
  exact Covers.walk h hrooted a

/-- `t'` is `t` with some of its entries changed. -/
inductive Altered (t : PageTable) : PageTable → Prop where
  | refl : Altered t t
  | modify {t' : PageTable} (altered : Altered t t') (r : EntryRef) (f : Entry → Entry) :
      Altered t (t'.modify r f)

theorem Altered.trans {t₁ t₂ t₃ : PageTable} (h₁ : Altered t₁ t₂) (h₂ : Altered t₂ t₃) :
    Altered t₁ t₃ := by
  induction h₂ with
  | refl => exact h₁
  | modify _ r f ih => exact ih.modify r f

/-- Changing entries makes no table. -/
theorem Altered.walked {t' : PageTable} (h : Altered t t') (hwalked : t.Walked as) :
    t'.Walked as := by
  induction h with
  | refl => exact hwalked
  | modify _ r f ih => exact Covers.modify ih r f

/-! ## How many there can be -/

/-- There are no more middle tables than slots. -/
theorem Covers.mids_le (h : t.Covers tops paths) : t.mids.size ≤ tableSlots := by
  have hle := (nodup_eraseDups tops).length_le_card
  have hcard : Fintype.card TableIndex = tableSlots := Fintype.card_fin tableSlots
  rw [hcard] at hle
  exact h.mids_eq ▸ hle

/-- There are no more leaves than paths. -/
theorem Covers.leaves_le (h : t.Covers tops paths) :
    t.leaves.size ≤ tableSlots * tableSlots := by
  have hle := (nodup_eraseDups paths).length_le_card
  have hcard : Fintype.card TableIndex = tableSlots := Fintype.card_fin tableSlots
  rw [Fintype.card_prod, hcard] at hle
  exact h.leaves_eq ▸ hle

/-- A path leads to a leaf that exists. -/
theorem leafAt?_lt {i j : TableIndex} {l : Nat} (h : t.leafAt? i j = some l) :
    l < t.leaves.size := by
  obtain ⟨m, hmid, hslot⟩ := Option.bind_eq_some_iff.mp h
  have hlt := midAt?_lt hmid
  exact t.mid_lt m hlt j l ((leafAt?_of_mid hmid hlt j).symm.trans h)

end PageTable

end DemandPaging
