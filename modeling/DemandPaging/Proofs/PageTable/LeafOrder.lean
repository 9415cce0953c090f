import DemandPaging.Proofs.PageTable.Growth
import DemandPaging.Proofs.PageTable.Mapped

/-!
# The order in which leaf tables are made

A leaf table takes the next place of its arena when it is made, and keeps it. So the arena, read
from its start, gives the paths of the leaf tables in the order in which they were made first
(`leafPaths`): that of the addresses that were walked, each path once. `Grown` says that and which
tables there are.

> `Rooted.leafPaths_walk`: the step.
> `Grown.walk`, `Altered.grown`: a walk adds its address, and changing entries adds nothing.
> `Grown.pairwise_mappedPages`: the order in which pages are listed.
-/

namespace DemandPaging.PageTable

variable {t t' : PageTable} {a : Address} {as : List Address}

/-- The paths of the leaf tables, in the order of the arena. -/
def leafPaths (t : PageTable) : List (TableIndex × TableIndex) :=
  t.leaves.toList.map fun leaf => (leaf.top, leaf.mid)

/-- The path of a leaf is at its place. -/
theorem getElem?_leafPaths (t : PageTable) (l : Nat) :
    t.leafPaths[l]? = t.leaves[l]?.map fun leaf => (leaf.top, leaf.mid) := by
  unfold leafPaths
  rw [List.getElem?_map, Array.getElem?_toList]

@[simp] theorem leafPaths_modify (t : PageTable) (r : EntryRef) (f : Entry → Entry) :
    (t.modify r f).leafPaths = t.leafPaths := by
  refine List.ext_getElem? fun l => ?_
  rw [getElem?_leafPaths, getElem?_leafPaths]
  show ((t.leaves.modify r.leaf fun leaf => leaf.modify r.index f)[l]?).map _ = _
  rw [Array.getElem?_modify]
  split
  next => rw [Option.map_map]; rfl
  next => rfl

/-- A new leaf comes last. -/
theorem leafPaths_addLeaf (t : PageTable) (i j : TableIndex) (m : Nat) (hm : m < t.mids.size) :
    (t.addLeaf i j m hm).leafPaths = t.leafPaths ++ [(i, j)] := by
  unfold leafPaths
  show ((t.leaves.push (Leaf.empty i j)).toList).map _ = _
  rw [Array.toList_push, List.map_append]
  rfl

/-- A path is among them if it ends at a leaf table. -/
theorem Rooted.mem_leafPaths (h : t.Rooted) (a : Address) :
    a.path ∈ t.leafPaths ↔ (t.leafAt? a.top a.mid).isSome := by
  rw [List.mem_iff_getElem?, Option.isSome_iff_exists]
  refine exists_congr fun l => ?_
  rw [getElem?_leafPaths, h.leafAt_iff, Option.map_eq_some_iff]
  unfold Address.path
  simp only [Prod.mk.injEq]

/-- A walk adds the path of its address at the end, unless it is there. -/
theorem Rooted.leafPaths_walk (h : t.Rooted) (a : Address) :
    (t.walk a).table.leafPaths
      = if a.path ∈ t.leafPaths then t.leafPaths else t.leafPaths ++ [a.path] := by
  rw [if_congr (h.mem_leafPaths a) rfl rfl]
  cases hleaf : t.leafAt? a.top a.mid with
  | some l =>
    rw [walk_of_leaf hleaf]
    rfl
  | none =>
    cases hmid : t.midAt? a.top with
    | some m =>
      rw [walk_of_mid hmid (midAt?_lt hmid) hleaf, leafPaths_addLeaf]
      rfl
    | none =>
      have hlt : t.mids.size < (t.addMid a.top).mids.size := by simp [PageTable.addMid]
      rw [walk_of_new hmid hlt, leafPaths_addLeaf]
      rfl

/-! ## Tables as they have grown -/

/-- The tables are those on the ways to the addresses `as`, and the leaf tables were made in the
order in which their paths came up first. -/
structure Grown (t : PageTable) (as : List Address) : Prop where
  walked : t.Walked as
  leafPaths_eq : t.leafPaths = (as.map (·.path)).eraseDups

theorem grown_empty : empty.Grown [] := ⟨covers_empty, rfl⟩

/-- A walk that makes a leaf appends its path, which is a new one. -/
theorem Grown.walk (h : t.Grown as) (hrooted : t.Rooted) (a : Address) :
    (t.walk a).table.Grown (as ++ [a]) where
  walked := h.walked.walk hrooted a
  leafPaths_eq := by
    rw [hrooted.leafPaths_walk, h.leafPaths_eq, List.map_append, List.map_singleton,
      if_congr List.mem_eraseDups rfl rfl]
    split
    next hmem => exact (eraseDups_concat_of_mem hmem).symm
    next hnew => exact (eraseDups_concat_of_not_mem hnew).symm

/-- Changing an entry moves no leaf table. -/
theorem Altered.leafPaths_eq (h : Altered t t') : t'.leafPaths = t.leafPaths := by
  induction h with
  | refl => rfl
  | modify _ r f ih => exact (leafPaths_modify ..).trans ih

/-- Changing entries makes no tables. -/
theorem Altered.grown (h : Altered t t') (hgrown : t.Grown as) : t'.Grown as where
  walked := h.walked hgrown.walked
  leafPaths_eq := h.leafPaths_eq.trans hgrown.leafPaths_eq

/-! ## The order of the listing -/

/-- The path to the leaf table of a page. -/
def leafPath (v : Nat) : TableIndex × TableIndex :=
  have hslots : 0 < tableSlots := by decide
  (⟨v / tableSlots / tableSlots % tableSlots, Nat.mod_lt _ hslots⟩,
    ⟨v / tableSlots % tableSlots, Nat.mod_lt _ hslots⟩)

/-- A page number tells the path of its leaf. -/
theorem leafPath_pageNumber (i j k : TableIndex) : leafPath (pageNumber i j k) = (i, j) := by
  have hi := i.isLt
  have hj := j.isLt
  have hk := k.isLt
  have hpage : pageNumber i j k = (i.val * tableSlots + j.val) * tableSlots + k.val := rfl
  refine Prod.ext (Fin.ext ?_) (Fin.ext ?_)
  · show pageNumber i j k / tableSlots / tableSlots % tableSlots = i.val
    simp only [tableSlots] at *
    omega
  · show pageNumber i j k / tableSlots % tableSlots = j.val
    simp only [tableSlots] at *
    omega

/-- The leaf table of `v` comes before that of `w` among `paths`, or it is the same and `v` comes
before `w` in it. -/
def ListedBefore (paths : List (TableIndex × TableIndex)) (v w : Nat) : Prop :=
  paths.idxOf (leafPath v) < paths.idxOf (leafPath w) ∨ leafPath v = leafPath w ∧ v < w

/-- If no path has two leaf tables, that of a page has the number of its path. -/
theorem idxOf_leafPath (hnodup : t.leafPaths.Nodup) {r : EntryRef} {p : PageEntry}
    (hp : t.page? r = some p) : t.leafPaths.idxOf (leafPath p.vpn) = r.leaf := by
  obtain ⟨leaf, hleaf, rfl⟩ := Option.map_eq_some_iff.mp hp
  have hpath : t.leafPaths[r.leaf]? = some (leaf.top, leaf.mid) := by
    rw [getElem?_leafPaths, hleaf, Option.map_some]
  obtain ⟨hlt, hget⟩ := List.getElem?_eq_some_iff.mp hpath
  have hvpn : leafPath (leaf.vpn r.index) = t.leafPaths[r.leaf] :=
    (leafPath_pageNumber ..).trans hget.symm
  show t.leafPaths.idxOf (leafPath (leaf.vpn r.index)) = r.leaf
  rw [hvpn]
  exact hnodup.idxOf_getElem r.leaf hlt

/-- Pages are listed by the turn in which their leaf tables were made, and upwards in each of
them. -/
theorem Grown.pairwise_mappedPages (h : t.Grown as) :
    t.mappedPages.Pairwise (ListedBefore (as.map (·.path)).eraseDups) := by
  have hnodup : t.leafPaths.Nodup := h.leafPaths_eq ▸ nodup_eraseDups _
  unfold mappedPages
  rw [← h.leafPaths_eq, List.pairwise_map]
  refine t.pairwise_mapped_before.imp_of_mem ?_
  intro x y hx hy hbefore
  obtain ⟨hx, -⟩ := mem_mapped.mp hx
  obtain ⟨hy, -⟩ := mem_mapped.mp hy
  unfold ListedBefore
  rw [idxOf_leafPath hnodup hx, idxOf_leafPath hnodup hy]
  rcases hbefore with hleaf | ⟨hleaf, hindex⟩
  · exact Or.inl hleaf
  · -- both are in one table, so their numbers differ in the last part alone
    obtain ⟨leaf, hleaf', hvx⟩ := Option.map_eq_some_iff.mp hx
    rw [page?, ← hleaf, hleaf', Option.map_some, Option.some.injEq] at hy
    rw [← hvx, ← hy]
    refine Or.inr ⟨?_, ?_⟩
    · exact (leafPath_pageNumber ..).trans (leafPath_pageNumber ..).symm
    · exact Nat.add_lt_add_left (Fin.lt_def.mp hindex) _

end DemandPaging.PageTable
