import DemandPaging.Proofs.PageTable.Entries

/-!
# The listing of mapped entries

`mapped` goes through the leaf tables in the order in which they were made and through each table
in the order of its slots. Its law is

> `mem_mapped`: it lists the entries that were ever mapped, each with its page,
> `pairwise_mapped_before`: in that order,
> `pairwise_mapped`: and none of them twice.

`mappedPages` are the numbers of their pages.
-/

namespace DemandPaging

/-- A page in a frame is mapped. -/
theorem Entry.isUnmapped_eq_false_of_frame? {e : Entry} {frame : Nat}
    (h : e.frame? = some frame) : e.isUnmapped = false := by
  unfold Entry.frame? at h
  unfold Entry.isUnmapped
  split at h
  next hresidency => rw [hresidency]
  next => simp at h

/-- `r` is in an earlier leaf table than `s`, or in an earlier slot of the same one. -/
def EntryRef.Before (r s : EntryRef) : Prop := r.leaf < s.leaf ∨ r.leaf = s.leaf ∧ r.index < s.index

theorem EntryRef.Before.ne {r s : EntryRef} (h : r.Before s) : r ≠ s := by
  rintro rfl
  rcases h with hlt | ⟨-, hlt⟩
  · exact Nat.lt_irrefl _ hlt
  · exact Nat.lt_irrefl _ hlt

namespace PageTable

/-- What one leaf table contributes to the listing. -/
def mappedIn (leaf : Leaf) (id : Nat) : List (EntryRef × PageEntry) :=
  (List.finRange tableSlots).filterMap fun i =>
    let entry := leaf.entries.get i
    if entry.isUnmapped then none else some (⟨id, i⟩, ⟨leaf.vpn i, entry⟩)

theorem mapped_eq (t : PageTable) :
    t.mapped = t.leaves.toList.zipIdx.flatMap fun (leaf, id) => mappedIn leaf id := rfl

/-- A leaf lists its mapped entries under their page numbers. -/
theorem mem_mappedIn {leaf : Leaf} {id : Nat} {r : EntryRef} {p : PageEntry} :
    (r, p) ∈ mappedIn leaf id ↔ r.leaf = id ∧ p = ⟨leaf.vpn r.index, leaf.entries.get r.index⟩ ∧
      p.entry.isUnmapped = false := by
  unfold mappedIn
  rw [List.mem_filterMap]
  refine ⟨?_, ?_⟩
  · intro hex
    obtain ⟨i, -, hi⟩ := hex
    dsimp only at hi
    split at hi
    next => simp at hi
    next hmapped =>
      simp only [Option.some.injEq, Prod.mk.injEq] at hi
      obtain ⟨rfl, rfl⟩ := hi
      exact ⟨rfl, rfl, by simpa using hmapped⟩
  · intro hex
    obtain ⟨rfl, rfl, hmapped⟩ := hex
    refine ⟨r.index, List.mem_finRange _, ?_⟩
    dsimp only at hmapped ⊢
    rw [hmapped]
    rfl

/-- The listing has every mapped entry, and nothing else. -/
theorem mem_mapped {t : PageTable} {r : EntryRef} {p : PageEntry} :
    (r, p) ∈ t.mapped ↔ t.page? r = some p ∧ p.entry.isUnmapped = false := by
  rw [mapped_eq, List.mem_flatMap]
  refine ⟨?_, ?_⟩
  · intro hex
    obtain ⟨⟨leaf, id⟩, hleaf, hr⟩ := hex
    have hget := List.mem_zipIdx_iff_getElem?.mp hleaf
    obtain ⟨rfl, rfl, hmapped⟩ := mem_mappedIn.mp hr
    refine ⟨?_, hmapped⟩
    rw [Array.getElem?_toList] at hget
    rw [page?, hget, Option.map_some]
    rfl
  · intro hex
    obtain ⟨hp, hmapped⟩ := hex
    obtain ⟨leaf, hleaf, rfl⟩ := Option.map_eq_some_iff.mp hp
    refine ⟨(leaf, r.leaf), ?_, mem_mappedIn.mpr ⟨rfl, rfl, hmapped⟩⟩
    rw [List.mem_zipIdx_iff_getElem?, Array.getElem?_toList]
    exact hleaf

/-- The listing goes through the arena of leaf tables, and upwards in each of them. -/
theorem pairwise_mapped_before (t : PageTable) :
    t.mapped.Pairwise fun x y => x.1.Before y.1 := by
  rw [mapped_eq, List.pairwise_flatMap]
  refine ⟨?_, ?_⟩
  · -- within one table the slots come one after the other
    intro x _
    unfold mappedIn
    rw [List.pairwise_filterMap]
    refine (List.pairwise_lt_finRange tableSlots).imp ?_
    intro i j hij a ha b hb
    dsimp only at ha hb
    split at ha
    next => simp at ha
    next =>
      split at hb
      next => simp at hb
      next =>
        simp only [Option.some.injEq] at ha hb
        subst ha hb
        exact Or.inr ⟨rfl, hij⟩
  · -- and the tables by their numbers
    have hids : t.leaves.toList.zipIdx.Pairwise fun x y => x.2 < y.2 := by
      rw [← List.pairwise_map, List.zipIdx_map_snd]
      exact List.pairwise_lt_range' 1
    refine hids.imp ?_
    intro x y hxy a ha b hb
    obtain ⟨ha', -⟩ := mem_mappedIn.mp ha
    obtain ⟨hb', -⟩ := mem_mappedIn.mp hb
    rw [← ha', ← hb'] at hxy
    exact Or.inl hxy

/-- No entry is listed twice. -/
theorem pairwise_mapped (t : PageTable) : t.mapped.Pairwise fun x y => x.1 ≠ y.1 :=
  t.pairwise_mapped_before.imp EntryRef.Before.ne

/-- The numbers of the pages that were ever mapped. -/
def mappedPages (t : PageTable) : List Nat := t.mapped.map (·.2.vpn)

/-- A page was mapped if there is a mapped entry of its number. -/
theorem mem_mappedPages {t : PageTable} {v : Nat} :
    v ∈ t.mappedPages ↔ ∃ r p, t.page? r = some p ∧ p.entry.isUnmapped = false ∧ p.vpn = v := by
  unfold mappedPages
  rw [List.mem_map]
  refine ⟨?_, ?_⟩
  · intro hex
    obtain ⟨⟨r, p⟩, hmem, hv⟩ := hex
    obtain ⟨hp, hmapped⟩ := mem_mapped.mp hmem
    exact ⟨r, p, hp, hmapped, hv⟩
  · intro hex
    obtain ⟨r, p, hp, hmapped, hv⟩ := hex
    exact ⟨(r, p), mem_mapped.mpr ⟨hp, hmapped⟩, hv⟩

/-- No page is mapped by two entries. -/
theorem Rooted.nodup_mappedPages {t : PageTable} (h : t.Rooted) : t.mappedPages.Nodup := by
  unfold mappedPages
  rw [List.nodup_iff_pairwise_ne, List.pairwise_map]
  refine (pairwise_mapped t).imp_of_mem ?_
  intro x y hx hy hne hv
  exact hne (h.ref_eq_of_vpn_eq (mem_mapped.mp hx).1 (mem_mapped.mp hy).1 hv)

end PageTable

end DemandPaging
