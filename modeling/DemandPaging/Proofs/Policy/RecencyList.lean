import DemandPaging.Policy.Recency

/-!
# The recency links as a list

`l.Lists xs` says that the links of `l` are those of the list `xs`: its ends are the ends of `xs`,
each frame of `xs` points at its neighbours there, and the marked frames are those of `xs`. The
links of frames outside `xs` are of no account, so nothing is said about them.

Each operation then does to the list what its name says:

> `Lists.unlink`: takes a frame out, wherever it stands.
> `Lists.touch`: moves a frame to the front, or puts it there.
> `Lists.evict`: takes the last frame out, and names it.
> `Lists.order_eq`: shows the list.
-/

namespace DemandPaging.Policy.Links

variable {n : Nat}

/-! ## Reading and setting one link -/

theorem getElem_eq_get {α : Type} (xs : Vector α n) (f : Fin n) :
    getElem xs f f.isLt = xs.get f := rfl

theorem get_set {α : Type} (xs : Vector α n) (f g : Fin n) (x : α) :
    (xs.set f x f.isLt).get g = if f = g then x else xs.get g := by
  show (xs.set f x f.isLt)[g] = if f = g then x else xs[g]
  simp only [Fin.getElem_fin, Vector.getElem_set, Fin.val_inj]

/-- The links of `l` are those of the list `xs`. -/
structure Lists (l : Links n) (xs : List (Fin n)) : Prop where
  nodup : xs.Nodup
  linked : ∀ f, l.linked.get f = true ↔ f ∈ xs
  head : l.head = xs.head?
  tail : l.tail = xs.getLast?
  next : ∀ ys f zs, xs = ys ++ f :: zs → l.next.get f = zs.head?
  prev : ∀ ys f zs, xs = ys ++ f :: zs → l.prev.get f = ys.getLast?

theorem lists_empty (n : Nat) : (empty n).Lists [] where
  nodup := List.nodup_nil
  linked f := by
    have hfalse : (empty n).linked.get f = false := Vector.getElem_replicate f.isLt
    simp [hfalse]
  head := rfl
  tail := rfl
  next := by simp
  prev := by simp

/-! ## What the operations do to single links -/

/-- Taking a frame out takes out no other. -/
theorem linked_unlink (l : Links n) (f g : Fin n) :
    (l.unlink f).linked.get g = if f = g then false else l.linked.get g := by
  unfold unlink setPrev setNext
  simp only [getElem_eq_get]
  cases l.prev.get f <;> cases l.next.get f <;>
    simp only [get_set]

/-- Taking a frame out leads the one before it to the one behind it. -/
theorem next_unlink (l : Links n) (f g : Fin n) :
    (l.unlink f).next.get g
      = if f = g then none else if l.prev.get f = some g then l.next.get f else l.next.get g := by
  unfold unlink setPrev setNext
  simp only [getElem_eq_get]
  cases l.prev.get f <;> cases l.next.get f <;>
    simp only [get_set, Option.some.injEq, reduceCtorEq,
      if_false]

/-- Taking a frame out leads the one behind it back to the one before it. -/
theorem prev_unlink (l : Links n) (f g : Fin n) :
    (l.unlink f).prev.get g
      = if f = g then none else if l.next.get f = some g then l.prev.get f else l.prev.get g := by
  unfold unlink setPrev setNext
  simp only [getElem_eq_get]
  cases l.prev.get f <;> cases l.next.get f <;>
    simp only [get_set, Option.some.injEq, reduceCtorEq,
      if_false]

/-- Taking out the first frame makes the next one the first. -/
theorem head_unlink (l : Links n) (f : Fin n) :
    (l.unlink f).head = if l.prev.get f = none then l.next.get f else l.head := by
  unfold unlink setPrev setNext
  simp only [getElem_eq_get]
  cases l.prev.get f <;> cases l.next.get f <;> simp

/-- Taking out the last frame makes the one before it the last. -/
theorem tail_unlink (l : Links n) (f : Fin n) :
    (l.unlink f).tail = if l.next.get f = none then l.prev.get f else l.tail := by
  unfold unlink setPrev setNext
  simp only [getElem_eq_get]
  cases l.prev.get f <;> cases l.next.get f <;> simp

theorem linked_pushFront (l : Links n) (f g : Fin n) :
    (l.pushFront f).linked.get g = if f = g then true else l.linked.get g := by
  unfold pushFront setPrev
  cases l.head <;> simp only [get_set]

/-- A frame that is put in front leads to the one that was there. -/
theorem next_pushFront (l : Links n) (f g : Fin n) :
    (l.pushFront f).next.get g = if f = g then l.head else l.next.get g := by
  unfold pushFront setPrev
  cases l.head <;> simp only [get_set]

/-- The frame that was in front leads back to one that is put in front of it. -/
theorem prev_pushFront (l : Links n) (f g : Fin n) :
    (l.pushFront f).prev.get g
      = if l.head = some g then some f else if f = g then none else l.prev.get g := by
  unfold pushFront setPrev
  cases l.head <;>
    simp only [get_set, Option.some.injEq, reduceCtorEq,
      if_false]

/-- A frame that is put in front is the last as well only if there was no other. -/
theorem tail_pushFront (l : Links n) (f : Fin n) :
    (l.pushFront f).tail = if l.head = none then some f else l.tail := by
  unfold pushFront setPrev
  cases l.head <;> simp

/-- Touching the first frame changes nothing. -/
theorem touch_of_head {l : Links n} {f : Fin n} (hlinked : l.linked.get f = true)
    (hhead : l.head = some f) : l.touch f = l := by
  unfold touch
  rw [getElem_eq_get, if_pos hlinked, if_pos hhead]

/-- A frame that was used is in front. -/
theorem head_touch (l : Links n) (f : Fin n) :
    (l.touch f).head = some f ∧ (l.touch f).linked.get f = true := by
  have hpush : ∀ l' : Links n,
      (l'.pushFront f).head = some f ∧ (l'.pushFront f).linked.get f = true := by
    intro l'
    refine ⟨rfl, ?_⟩
    rw [linked_pushFront, if_pos rfl]
  unfold touch
  rw [getElem_eq_get]
  split
  next hlinked =>
    split
    next hhead => exact ⟨hhead, hlinked⟩
    next => exact hpush (l.unlink f)
  next => exact hpush l

/-- Using a frame twice in a row is using it once. -/
theorem touch_touch (l : Links n) (f : Fin n) : (l.touch f).touch f = l.touch f :=
  touch_of_head (l.head_touch f).2 (l.head_touch f).1

/-! ## What they do to the list -/

/-- A place in a list without one element is a place behind it or before it in the whole list. -/
theorem split_append {α : Type} {ys zs ys' zs' : List α} {a : α}
    (h : ys ++ zs = ys' ++ a :: zs') :
    (∃ as, ys' = ys ++ as ∧ zs = as ++ a :: zs') ∨ ∃ bs, ys = ys' ++ a :: bs ∧ zs' = bs ++ zs := by
  rcases List.append_eq_append_iff.mp h with ⟨as, hys', hzs⟩ | ⟨bs, hys, hzs'⟩
  · exact Or.inl ⟨as, hys', hzs⟩
  · cases bs with
    | nil => exact Or.inl ⟨[], by simpa using hys.symm, by simpa using hzs'.symm⟩
    | cons b bs =>
      obtain ⟨rfl, hrest⟩ := List.cons.inj hzs'
      exact Or.inr ⟨bs, hys, hrest⟩

/-- Around a frame of a list without repetitions there are only other frames, on either side. -/
theorem nodup_around {α : Type} {ys zs : List α} {f : α} (h : (ys ++ f :: zs).Nodup) :
    (ys ++ zs).Nodup ∧ f ∉ ys ∧ f ∉ zs := by
  obtain ⟨hys, hzs, hdisjoint⟩ := List.nodup_append.mp h
  obtain ⟨hf, hzs⟩ := List.nodup_cons.mp hzs
  refine ⟨List.nodup_append.mpr ⟨hys, hzs, fun g hg g' hg' => ?_⟩, ?_, hf⟩
  · exact hdisjoint g hg g' (List.mem_cons_of_mem f hg')
  · exact fun hmem => hdisjoint f hmem f List.mem_cons_self rfl

/-- What has something before it is not the head. -/
theorem head?_ne_of_nodup {α : Type} {a g : α} {as zs : List α}
    (h : (a :: as ++ g :: zs).Nodup) : (a :: as ++ g :: zs).head? ≠ some g := by
  intro heq
  have ha : a = g := Option.some.inj heq
  exact (nodup_around h).2.1 (ha ▸ List.mem_cons_self)

/-- What has something behind it is not the last. -/
theorem getLast?_ne_of_nodup {α : Type} {b g : α} {ys bs : List α}
    (h : (ys ++ g :: b :: bs).Nodup) : (ys ++ g :: b :: bs).getLast? ≠ some g := by
  intro heq
  rw [List.getLast?_append, List.getLast?_cons_cons, List.getLast?_cons, Option.some_or,
    ← List.getLast?_cons] at heq
  exact (nodup_around h).2.2 (List.mem_of_getLast? heq)

/-- After a frame is taken out, each of the others leads to the one behind it in the rest. -/
theorem Lists.next_unlink {l : Links n} {ys zs ys' zs' : List (Fin n)} {f g : Fin n}
    (h : l.Lists (ys ++ f :: zs)) (hsplit : ys ++ zs = ys' ++ g :: zs') :
    (l.unlink f).next.get g = zs'.head? := by
  obtain ⟨hnodup, hf_ys, hf_zs⟩ := nodup_around h.nodup
  have hbefore : l.prev.get f = ys.getLast? := h.prev ys f zs rfl
  have hafter : l.next.get f = zs.head? := h.next ys f zs rfl
  rw [Links.next_unlink, hbefore, hafter]
  rcases split_append hsplit with ⟨as, -, hzs⟩ | ⟨bs, hys, hzs'⟩
  · -- `g` is behind `f`, so not the one before it
    have hg : g ∈ zs := by simp [hzs]
    have hne : f ≠ g := fun heq => hf_zs (heq ▸ hg)
    have hlast : ys.getLast? ≠ some g := fun heq =>
      (List.nodup_append.mp hnodup).2.2 g (List.mem_of_getLast? heq) g hg rfl
    rw [if_neg hne, if_neg hlast]
    exact h.next (ys ++ f :: as) g zs' (by simp [hzs])
  · have hg : g ∈ ys := by simp [hys]
    have hne : f ≠ g := fun heq => hf_ys (heq ▸ hg)
    have hnext : l.next.get g = (bs ++ f :: zs).head? :=
      h.next ys' g (bs ++ f :: zs) (by simp [hys])
    rw [if_neg hne, hnext, hzs']
    cases bs with
    | nil => simp [hys]
    | cons b bs =>
      have hnodup_ys : ys.Nodup := (List.nodup_append.mp hnodup).1
      have hlast : ys.getLast? ≠ some g := by
        rw [hys] at hnodup_ys ⊢
        exact getLast?_ne_of_nodup hnodup_ys
      rw [if_neg hlast]
      simp

/-- And each leads back to the one in front of it. -/
theorem Lists.prev_unlink {l : Links n} {ys zs ys' zs' : List (Fin n)} {f g : Fin n}
    (h : l.Lists (ys ++ f :: zs)) (hsplit : ys ++ zs = ys' ++ g :: zs') :
    (l.unlink f).prev.get g = ys'.getLast? := by
  obtain ⟨hnodup, hf_ys, hf_zs⟩ := nodup_around h.nodup
  have hbefore : l.prev.get f = ys.getLast? := h.prev ys f zs rfl
  have hafter : l.next.get f = zs.head? := h.next ys f zs rfl
  rw [Links.prev_unlink, hbefore, hafter]
  rcases split_append hsplit with ⟨as, hys', hzs⟩ | ⟨bs, hys, hzs'⟩
  · have hg : g ∈ zs := by simp [hzs]
    have hne : f ≠ g := fun heq => hf_zs (heq ▸ hg)
    have hprev : l.prev.get g = (ys ++ f :: as).getLast? :=
      h.prev (ys ++ f :: as) g zs' (by simp [hzs])
    rw [if_neg hne, hprev, hys']
    cases as with
    | nil => simp [hzs]
    | cons a as =>
      have hnodup_zs : zs.Nodup := (List.nodup_append.mp hnodup).2.1
      have hhead : zs.head? ≠ some g := by
        rw [hzs] at hnodup_zs ⊢
        exact head?_ne_of_nodup hnodup_zs
      rw [if_neg hhead, List.getLast?_append, List.getLast?_append, List.getLast?_cons_cons]
  · -- `g` is in front of `f`, so not the one after it
    have hg : g ∈ ys := by simp [hys]
    have hne : f ≠ g := fun heq => hf_ys (heq ▸ hg)
    have hhead : zs.head? ≠ some g := fun heq =>
      (List.nodup_append.mp hnodup).2.2 g hg g (List.mem_of_head? heq) rfl
    rw [if_neg hne, if_neg hhead]
    exact h.prev ys' g (bs ++ f :: zs) (by simp [hys])

/-- Taking a frame out of the links takes it out of the list. -/
theorem Lists.unlink {l : Links n} {ys zs : List (Fin n)} {f : Fin n}
    (h : l.Lists (ys ++ f :: zs)) : (l.unlink f).Lists (ys ++ zs) where
  nodup := (nodup_around h.nodup).1
  linked g := by
    obtain ⟨-, hf_ys, hf_zs⟩ := nodup_around h.nodup
    rw [linked_unlink]
    split
    next heq =>
      subst heq
      simp [hf_ys, hf_zs]
    next hne =>
      rw [h.linked]
      simp [Ne.symm hne]
  head := by
    rw [head_unlink, h.prev ys f zs rfl, h.next ys f zs rfl, h.head]
    cases ys <;> simp
  tail := by
    rw [tail_unlink, h.prev ys f zs rfl, h.next ys f zs rfl, h.tail]
    cases zs with
    | nil => simp
    | cons z zs => simp [List.getLast?_append]
  next _ _ _ hsplit := h.next_unlink hsplit
  prev _ _ _ hsplit := h.prev_unlink hsplit

/-- Putting a frame in front of the links puts it in front of the list. -/
theorem Lists.pushFront {l : Links n} {xs : List (Fin n)} (h : l.Lists xs) {f : Fin n}
    (hf : f ∉ xs) : (l.pushFront f).Lists (f :: xs) where
  nodup := List.nodup_cons.mpr ⟨hf, h.nodup⟩
  linked g := by
    rw [linked_pushFront]
    split
    next heq => simp [heq]
    next hne =>
      rw [h.linked]
      simp [Ne.symm hne]
  head := rfl
  tail := by
    rw [tail_pushFront, h.head, h.tail]
    cases xs <;> simp
  next ys g zs hsplit := by
    rw [next_pushFront, h.head]
    cases ys with
    | nil =>
      obtain ⟨rfl, rfl⟩ := List.cons.inj hsplit
      rw [if_pos rfl]
    | cons y ys =>
      obtain ⟨rfl, hxs⟩ := List.cons.inj hsplit
      have hne : f ≠ g := fun heq => hf (by simp [hxs, heq])
      rw [if_neg hne]
      exact h.next ys g zs hxs
  prev ys g zs hsplit := by
    rw [prev_pushFront, h.head]
    -- only the frame that was in front so far gets another before it
    cases ys with
    | nil =>
      obtain ⟨rfl, rfl⟩ := List.cons.inj hsplit
      have hhead : xs.head? ≠ some f := fun heq => hf (List.mem_of_head? heq)
      rw [if_neg hhead, if_pos rfl]
      rfl
    | cons y ys =>
      obtain ⟨rfl, hxs⟩ := List.cons.inj hsplit
      have hne : f ≠ g := fun heq => hf (by simp [hxs, heq])
      have hprev := h.prev ys g zs hxs
      rw [List.append_eq] at hxs
      cases ys with
      | nil => simp [hxs]
      | cons z ys =>
        have hhead : xs.head? ≠ some g := by
          have hnodup := h.nodup
          rw [hxs] at hnodup ⊢
          exact head?_ne_of_nodup hnodup
        rw [if_neg hhead, if_neg hne, hprev, List.getLast?_cons_cons]

/-- Touching a frame moves it to the front. -/
theorem Lists.touch {l : Links n} {xs : List (Fin n)} (h : l.Lists xs) (f : Fin n) :
    (l.touch f).Lists (f :: xs.erase f) := by
  unfold Links.touch
  rw [getElem_eq_get]
  by_cases hf : f ∈ xs
  · rw [if_pos ((h.linked f).mpr hf)]
    obtain ⟨ys, zs, rfl⟩ := List.append_of_mem hf
    obtain ⟨-, hf_ys, hf_zs⟩ := nodup_around h.nodup
    have herase : (ys ++ f :: zs).erase f = ys ++ zs := by
      rw [List.erase_append_right _ hf_ys, List.erase_cons_head]
    rw [herase]
    split
    next hhead =>
      -- what is in front stays there
      rw [h.head] at hhead
      cases ys with
      | nil => exact h
      | cons y ys =>
        rw [List.cons_append, List.head?_cons, Option.some.injEq] at hhead
        exact absurd (hhead ▸ List.mem_cons_self) hf_ys
    next =>
      refine h.unlink.pushFront ?_
      intro hmem
      rcases List.mem_append.mp hmem with hmem | hmem
      · exact hf_ys hmem
      · exact hf_zs hmem
  · rw [if_neg (fun hlinked => hf ((h.linked f).mp hlinked)), List.erase_of_not_mem hf]
    exact h.pushFront hf

/-- The last frame is taken out; an empty list has none to give. -/
theorem Lists.evict {l : Links n} {xs : List (Fin n)} (h : l.Lists xs) :
    l.evict.1 = xs.getLast? ∧ l.evict.2.Lists xs.dropLast := by
  unfold Links.evict
  split
  next htail =>
    rw [h.tail, List.getLast?_eq_none_iff] at htail
    subst htail
    exact ⟨rfl, h⟩
  next f htail =>
    rw [h.tail] at htail
    obtain ⟨ys, rfl⟩ := List.getLast?_eq_some_iff.mp htail
    refine ⟨htail.symm, ?_⟩
    rw [List.dropLast_concat]
    have hunlink := h.unlink
    rw [List.append_nil] at hunlink
    exact hunlink

/-! ## Reading the list -/

/-- Following the links from a frame of the list on gives the rest of the list. -/
theorem Lists.chain_eq {l : Links n} {xs : List (Fin n)} (h : l.Lists xs) :
    ∀ {ys zs : List (Fin n)} {count : Nat}, xs = ys ++ zs → zs.length ≤ count →
      chain l.next count zs.head? = zs
  | _, [], 0, _, _ => rfl
  | _, [], _ + 1, _, _ => rfl
  | _, _ :: _, 0, _, hcount => absurd hcount (by simp)
  | ys, f :: zs, count + 1, hxs, hcount => by
    have hnext : l.next[f] = zs.head? := h.next ys f zs hxs
    have hrest := h.chain_eq (hxs.trans (List.append_cons ys f zs))
      (Nat.le_of_succ_le_succ hcount)
    show f :: chain l.next count l.next[f] = f :: zs
    rw [hnext, hrest]

/-- The links show the list. -/
theorem Lists.order_eq {l : Links n} {xs : List (Fin n)} (h : l.Lists xs) : l.order = xs := by
  have hlength : xs.length ≤ n := by
    have hle := h.nodup.length_le_of_subset fun f _ => List.mem_finRange f
    rwa [List.length_finRange] at hle
  unfold order
  rw [h.head]
  exact h.chain_eq (List.nil_append xs).symm hlength

end DemandPaging.Policy.Links
