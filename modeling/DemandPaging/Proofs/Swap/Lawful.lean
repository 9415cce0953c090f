import DemandPaging.Swap.Unreliable

/-!
# What paging relies on a backing store for

A backing store is a map from offsets to pages that only its own answers extend. `LawfulStore`
says so: `held` is the map, and each call changes it at the offset it answers with or not at all.
A pageout answers with the offset that it is given, or with one that was free, so no two pages
share a slot.

The memory store is lawful, and so is the store that fails on demand: a call that fails there
does nothing.
-/

namespace DemandPaging

/-- The laws of a backing store. -/
class LawfulStore (σ : Type) [BackingStore σ] where
  /-- The page at an offset that was handed out. -/
  held : σ → SwapOffset → Option Page
  /-- A pageout that finds no room changes nothing. -/
  save_none : ∀ {s s' : σ} {page : Page} {current : Option SwapOffset},
    BackingStore.save s page current = (none, s') → held s' = held s
  /-- A pageout answers with the slot that the page owns, or with one that was free. -/
  save_offset : ∀ {s s' : σ} {page : Page} {current : Option SwapOffset} {offset : SwapOffset},
    BackingStore.save s page current = (some offset, s') →
      current = some offset ∨ held s offset = none
  /-- The page is then at the offset of the answer, and no other offset is touched. -/
  save_held : ∀ {s s' : σ} {page : Page} {current : Option SwapOffset} {offset : SwapOffset},
    BackingStore.save s page current = (some offset, s') →
      ∀ o, held s' o = if o = offset then some page else held s o
  /-- A pagein gives back the page that is held. -/
  fetch_ok : ∀ {s s' : σ} {offset : SwapOffset} {page : Page},
    BackingStore.fetch s offset = (.ok page, s') → held s offset = some page
  /-- A pagein that fails does not know the offset. -/
  fetch_error : ∀ {s s' : σ} {offset : SwapOffset} {e : PagingError},
    BackingStore.fetch s offset = (.error e, s') → e = .unknownSwapOffset offset
  /-- A pagein changes nothing. -/
  fetch_held : ∀ {s s' : σ} {offset : SwapOffset} {result : Except PagingError Page},
    BackingStore.fetch s offset = (result, s') → held s' = held s
  capacity_save : ∀ {s s' : σ} {page : Page} {current answer : Option SwapOffset},
    BackingStore.save s page current = (answer, s') →
      BackingStore.capacity s' = BackingStore.capacity s
  capacity_fetch : ∀ {s s' : σ} {offset : SwapOffset} {result : Except PagingError Page},
    BackingStore.fetch s offset = (result, s') →
      BackingStore.capacity s' = BackingStore.capacity s

/-! ## The memory store -/

namespace SlotStore

/-- Filling a slot changes what is at its own offset only. -/
theorem page?_fill {s : SlotStore} {slot : Nat} (h : slot < s.slots.size) (page : Page)
    (offset : SwapOffset) :
    (s.fill slot page).page? offset
      = if offset = .ofSlot slot then some page else s.page? offset := by
  by_cases ho : offset = .ofSlot slot
  · subst ho
    simp [page?, fill, h]
  · rw [if_neg ho]
    unfold page?
    by_cases ha : offset.isAligned = true
    · have hne : slot ≠ offset.slot := by
        intro heq
        subst heq
        exact ho (SwapOffset.ofSlot_slot ha).symm
      rw [if_pos ha, if_pos ha]
      simp [fill, hne]
    · rw [if_neg ha, if_neg ha]

/-- An offset that the store owns is the start of one of its slots. -/
theorem owns_spec {s : SlotStore} {offset : SwapOffset} (h : s.owns offset = true) :
    offset.slot < s.slots.size ∧ SwapOffset.ofSlot offset.slot = offset := by
  unfold owns page? at h
  split at h
  next ha =>
    refine ⟨?_, SwapOffset.ofSlot_slot ha⟩
    rcases Nat.lt_or_ge offset.slot s.slots.size with hlt | hge
    · exact hlt
    · rw [Array.getElem?_eq_none hge] at h
      simp at h
  next => simp at h

/-- The scan stops at a slot that exists and was not handed out. -/
theorem freeFrom?_spec {slots : Array (Option Page)} {slot : Nat} :
    ∀ {count start : Nat}, freeFrom? slots count start = some slot → slots[slot]? = some none
  | 0, _, h => by simp [freeFrom?] at h
  | count + 1, start, h => by
    unfold freeFrom? at h
    split at h
    next hfree =>
      simp only [Option.some.injEq] at h
      exact h ▸ hfree
    next => exact freeFrom?_spec h

/-- The slot that is found exists and is free. -/
theorem free?_spec {s : SlotStore} {slot : Nat} (h : s.free? = some slot) :
    slot < s.slots.size ∧ s.page? (.ofSlot slot) = none := by
  have hfree := freeFrom?_spec h
  obtain ⟨hlt, -⟩ := Array.getElem?_eq_some_iff.mp hfree
  exact ⟨hlt, by simp [page?, hfree]⟩

/-- A pageout that succeeds fills the slot at the offset of its answer: the slot that the page
owns, or a free one. -/
theorem save_some {s s' : SlotStore} {page : Page} {current : Option SwapOffset}
    {offset : SwapOffset} (h : s.save page current = (some offset, s')) :
    (current = some offset ∧ s.owns offset = true ∨
        current.filter s.owns = none ∧ s.page? offset = none) ∧
      ∀ o, s'.page? o = if o = offset then some page else s.page? o := by
  unfold save at h
  split at h
  next o hcur =>
    -- the page is written back to its own slot
    obtain ⟨rfl, howns⟩ := Option.filter_eq_some_iff.mp hcur
    obtain ⟨ho, rfl⟩ := Prod.mk.inj h
    simp only [Option.some.injEq] at ho
    subst ho
    obtain ⟨hlt, hoff⟩ := owns_spec howns
    refine ⟨Or.inl ⟨rfl, howns⟩, fun o' => ?_⟩
    rw [page?_fill hlt, hoff]
  next hcur =>
    split at h
    next => simp at h
    next slot hfree =>
      obtain ⟨hoff, rfl⟩ := Prod.mk.inj h
      simp only [Option.some.injEq] at hoff
      subst hoff
      obtain ⟨hlt, hnone⟩ := free?_spec hfree
      exact ⟨Or.inr ⟨hcur, hnone⟩, fun o' => page?_fill hlt page o'⟩

theorem save_offset {s s' : SlotStore} {page : Page} {current : Option SwapOffset}
    {offset : SwapOffset} (h : s.save page current = (some offset, s')) :
    current = some offset ∨ s.page? offset = none := by
  rcases (save_some h).1 with ⟨hcur, -⟩ | ⟨-, hfree⟩
  · exact Or.inl hcur
  · exact Or.inr hfree

/-- A pageout that fails leaves the store as it was. -/
theorem save_none {s s' : SlotStore} {page : Page} {current : Option SwapOffset}
    (h : s.save page current = (none, s')) : s' = s := by
  unfold save at h
  split at h
  next => simp at h
  next =>
    split at h
    next =>
      obtain ⟨-, rfl⟩ := Prod.mk.inj h
      rfl
    next => simp at h

/-- A page that comes back with the bytes that its slot has changes nothing. -/
theorem save_same {s : SlotStore} {offset : SwapOffset} {page : Page}
    (h : s.page? offset = some page) : s.save page (some offset) = (some offset, s) := by
  have howns : s.owns offset = true := by simp [owns, h]
  have hslot : s.slots[offset.slot]? = some (some page) := by
    unfold page? at h
    split at h
    next => exact Option.join_eq_some_iff.mp h
    next => simp at h
  have hfill : s.fill offset.slot page = s := by
    obtain ⟨hlt, hget⟩ := Array.getElem?_eq_some_iff.mp hslot
    have hslots : s.slots.setIfInBounds offset.slot (some page) = s.slots := by
      rw [Array.setIfInBounds_def, dif_pos hlt, ← hget, Array.set_getElem_self]
    unfold fill
    rw [hslots]
  have hcurrent : (some offset).filter s.owns = some offset := by simp [howns]
  unfold save
  rw [hcurrent]
  show (some offset, s.fill offset.slot page) = _
  rw [hfill]

/-- A pagein gives the page that is held. -/
theorem fetch_eq_ok {s : SlotStore} {offset : SwapOffset} {page : Page} :
    s.fetch offset = .ok page ↔ s.page? offset = some page := by
  unfold fetch
  cases s.page? offset <;> simp

/-- A pagein fails only because nothing is held at the offset. -/
theorem fetch_eq_error {s : SlotStore} {offset : SwapOffset} {e : PagingError}
    (h : s.fetch offset = .error e) : e = .unknownSwapOffset offset := by
  unfold fetch at h
  split at h
  next => exact (Except.error.inj h).symm
  next => simp at h

/-- A pageout makes no room. -/
theorem capacity_save {s s' : SlotStore} {page : Page} {current answer : Option SwapOffset}
    (h : s.save page current = (answer, s')) : s'.capacity = s.capacity := by
  unfold save at h
  split at h
  next =>
    obtain ⟨-, rfl⟩ := Prod.mk.inj h
    simp [capacity, fill]
  next =>
    split at h <;> obtain ⟨-, rfl⟩ := Prod.mk.inj h <;> simp [capacity, fill]

end SlotStore

instance : LawfulStore SlotStore where
  held := SlotStore.page?
  save_none h := by rw [SlotStore.save_none h]
  save_offset := SlotStore.save_offset
  save_held h := (SlotStore.save_some h).2
  fetch_ok h := SlotStore.fetch_eq_ok.mp (Prod.mk.inj h).1
  fetch_error h := SlotStore.fetch_eq_error (Prod.mk.inj h).1
  fetch_held h := by rw [← (Prod.mk.inj h).2]
  capacity_save := SlotStore.capacity_save
  capacity_fetch h := by rw [← (Prod.mk.inj h).2]

/-! ## The store that fails on demand -/

namespace UnreliableStore

/-- A pageout fails without touching the pages, or is one of the memory store. -/
theorem save_cases {s s' : UnreliableStore} {page : Page} {current answer : Option SwapOffset}
    (h : s.save page current = (answer, s')) :
    answer = none ∧ s'.store = s.store ∨ s.store.save page current = (answer, s'.store) := by
  simp only [save] at h
  split at h
  next =>
    obtain ⟨rfl, rfl⟩ := Prod.mk.inj h
    exact Or.inl ⟨rfl, rfl⟩
  next =>
    obtain ⟨rfl, rfl⟩ := Prod.mk.inj h
    exact Or.inr rfl

/-- A pageout that finds no room leaves the pages alone. -/
theorem save_none {s s' : UnreliableStore} {page : Page} {current : Option SwapOffset}
    (h : s.save page current = (none, s')) : s'.store = s.store := by
  rcases save_cases h with ⟨-, hstore⟩ | hsave
  · exact hstore
  · exact SlotStore.save_none hsave

/-- A page that comes back with the bytes that its slot has changes no page. -/
theorem save_same {s : UnreliableStore} {offset : SwapOffset} {page : Page}
    (h : s.store.page? offset = some page) :
    s.save page (some offset) = (if s.failsOut (s.outs + 1) then none else some offset,
      { s with outs := s.outs + 1 }) := by
  simp only [save, SlotStore.save_same h]
  split <;> rfl

/-- A pagein never touches the pages, and its answer is a failure or the memory store's. -/
theorem fetch_cases {s s' : UnreliableStore} {offset : SwapOffset}
    {result : Except PagingError Page} (h : s.fetch offset = (result, s')) :
    s'.store = s.store ∧
      (result = .error (.unknownSwapOffset offset) ∨ result = s.store.fetch offset) := by
  simp only [fetch] at h
  split at h
  next =>
    obtain ⟨rfl, rfl⟩ := Prod.mk.inj h
    exact ⟨rfl, Or.inl rfl⟩
  next =>
    obtain ⟨rfl, rfl⟩ := Prod.mk.inj h
    exact ⟨rfl, Or.inr rfl⟩

end UnreliableStore

instance : LawfulStore UnreliableStore where
  held s := s.store.page?
  save_none h := by rw [UnreliableStore.save_none h]
  save_offset h := by
    rcases UnreliableStore.save_cases h with ⟨hnone, -⟩ | hsave
    · simp at hnone
    · exact SlotStore.save_offset hsave
  save_held h := by
    rcases UnreliableStore.save_cases h with ⟨hnone, -⟩ | hsave
    · simp at hnone
    · exact (SlotStore.save_some hsave).2
  fetch_ok h := by
    rcases (UnreliableStore.fetch_cases h).2 with herror | hfetch
    · simp at herror
    · exact SlotStore.fetch_eq_ok.mp hfetch.symm
  fetch_error h := by
    rcases (UnreliableStore.fetch_cases h).2 with herror | hfetch
    · exact Except.error.inj herror
    · exact SlotStore.fetch_eq_error hfetch.symm
  fetch_held h := by rw [(UnreliableStore.fetch_cases h).1]
  capacity_save h := by
    rcases UnreliableStore.save_cases h with ⟨-, hstore⟩ | hsave
    · exact congrArg SlotStore.capacity hstore
    · exact SlotStore.capacity_save hsave
  capacity_fetch h := congrArg SlotStore.capacity (UnreliableStore.fetch_cases h).1

end DemandPaging
