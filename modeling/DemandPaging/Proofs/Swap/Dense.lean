import DemandPaging.Proofs.Swap.Lawful

/-!
# Slots are handed out in order

A memory store that is used from the start has its pages in its first slots, with no gap: the slots
beyond are free, and `nextFree` is where they begin (`Dense`). So the slot that a new page takes is
the number of pages so far, `used` is that number, and there is room as long as it is below the
capacity.

> `Dense.save_owned`, `Dense.save_new`, `Dense.save_full`: what a pageout does to the pages in their
> order.
-/

namespace DemandPaging.SlotStore

/-- The store holds `pages` in its first slots, in this order. -/
structure Dense (s : SlotStore) (pages : List Page) : Prop where
  slots : ∃ free, s.slots.toList = pages.map some ++ List.replicate free none
  next : s.nextFree = pages.length

variable {s : SlotStore} {pages : List Page}

theorem dense_empty (slots : Nat) : (empty slots).Dense [] where
  slots := ⟨slots, by simp [empty]⟩
  next := rfl

theorem Dense.length_le (h : s.Dense pages) : pages.length ≤ s.capacity := by
  obtain ⟨free, hslots⟩ := h.slots
  have hlength := congrArg List.length hslots
  rw [List.length_append, List.length_map, Array.length_toList] at hlength
  unfold capacity
  omega

theorem Dense.used_eq (h : s.Dense pages) : s.used = pages.length := by
  obtain ⟨free, hslots⟩ := h.slots
  unfold used
  rw [← Array.countP_toList, hslots, List.countP_append, List.countP_map]
  simp [Function.comp_def]

/-- The slots are the pages, and then the free ones. -/
theorem Dense.getElem? (h : s.Dense pages) (slot : Nat) :
    s.slots[slot]? = if slot < pages.length then some pages[slot]?
      else if slot < s.capacity then some none else none := by
  obtain ⟨free, hslots⟩ := h.slots
  have hlength := congrArg List.length hslots
  rw [List.length_append, List.length_map, List.length_replicate, Array.length_toList] at hlength
  rw [← Array.getElem?_toList, hslots, List.getElem?_append, List.length_map]
  unfold capacity
  split
  next hlt => simp [hlt]
  next hge =>
    rw [List.getElem?_replicate]
    by_cases hfree : slot < s.slots.size
    · rw [if_pos hfree, if_pos (by omega)]
    · rw [if_neg hfree, if_neg (by omega)]

/-- The offsets that were handed out are those of the first slots. -/
theorem Dense.owns_iff (h : s.Dense pages) {offset : SwapOffset} :
    s.owns offset = true ↔ ∃ slot < pages.length, offset = .ofSlot slot := by
  refine ⟨?_, ?_⟩
  · intro howns
    obtain ⟨-, hoffset⟩ := owns_spec howns
    refine ⟨offset.slot, ?_, hoffset.symm⟩
    unfold owns page? at howns
    split at howns
    next =>
      rw [h.getElem?] at howns
      split at howns
      next hlt => exact hlt
      next =>
        split at howns
        next => simp at howns
        next => simp at howns
    next => simp at howns
  · intro hex
    obtain ⟨slot, hlt, rfl⟩ := hex
    simp [owns, page?, h.getElem?, hlt]

/-- The first free slot is the one after the last page. -/
theorem Dense.free?_eq (h : s.Dense pages) :
    s.free? = if pages.length < s.capacity then some pages.length else none := by
  unfold free? capacity
  rw [h.next]
  split
  next hlt =>
    have hsome : s.slots[pages.length]? = some none := by
      rw [h.getElem?, if_neg (by omega)]
      exact if_pos hlt
    obtain ⟨count, hcount⟩ := Nat.exists_eq_add_one_of_ne_zero (Nat.sub_ne_zero_of_lt hlt)
    rw [hcount]
    unfold freeFrom?
    rw [hsome]
  next hge =>
    have hzero : s.slots.size - pages.length = 0 := by omega
    rw [hzero]
    rfl

/-! ## Pageouts -/

/-- A page that owns a slot is overwritten there. -/
theorem Dense.save_owned (h : s.Dense pages) {slot : Nat} (hlt : slot < pages.length)
    (page : Page) : ∃ s', s.save page (some (.ofSlot slot)) = (some (.ofSlot slot), s') ∧
      s'.Dense (pages.set slot page) := by
  have howns : s.owns (.ofSlot slot) = true := h.owns_iff.mpr ⟨slot, hlt, rfl⟩
  obtain ⟨free, hslots⟩ := h.slots
  refine ⟨s.fill slot page, ?_, ⟨free, ?_⟩, ?_⟩
  · unfold save
    rw [Option.filter_some_pos howns]
    simp
  · show (s.slots.setIfInBounds slot (some page)).toList = _
    rw [Array.toList_setIfInBounds, hslots, List.set_append_left _ _ (by simpa using hlt),
      List.map_set]
  · rw [List.length_set]
    exact h.next

/-- A page without a slot takes the one after the last page. -/
theorem Dense.save_new (h : s.Dense pages) (hroom : pages.length < s.capacity) (page : Page) :
    ∃ s', s.save page none = (some (.ofSlot pages.length), s') ∧ s'.Dense (pages ++ [page]) := by
  obtain ⟨free, hslots⟩ := h.slots
  have hlength := congrArg List.length hslots
  rw [List.length_append, List.length_map, List.length_replicate, Array.length_toList] at hlength
  have hfree : free ≠ 0 := by
    unfold capacity at hroom
    omega
  obtain ⟨free, rfl⟩ := Nat.exists_eq_add_one_of_ne_zero hfree
  refine ⟨{ s.fill pages.length page with nextFree := pages.length + 1 }, ?_, ⟨free, ?_⟩, ?_⟩
  · unfold save
    rw [h.free?_eq, if_pos hroom]
    rfl
  · show (s.slots.setIfInBounds pages.length (some page)).toList = _
    rw [Array.toList_setIfInBounds, hslots, List.set_append_right _ _ (by simp)]
    simp [List.replicate_succ]
  · rw [List.length_append, List.length_singleton]

/-- When every slot is taken, a page without one finds no room. -/
theorem Dense.save_full (h : s.Dense pages) (hfull : pages.length = s.capacity) (page : Page) :
    s.save page none = (none, s) := by
  unfold save
  rw [h.free?_eq, if_neg (by omega)]
  rfl

end DemandPaging.SlotStore
