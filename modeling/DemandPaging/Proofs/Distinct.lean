/-!
# Lists without their repetitions

`eraseDups` keeps the first occurrence of each element. Read as a history, a list grows at its end,
and its distinct elements do so too, in the order in which they came first:

> `eraseDups_concat_of_mem`, `eraseDups_concat_of_not_mem`: what one more element adds.

Read backwards, with the latest element in front, the element that comes moves to the front:

> `eraseDups_cons_eq`: it is put there and taken out behind.
> `take_filter_take`: and so it is if the list is kept to a bounded length.
-/

namespace DemandPaging

section General

variable {α : Type} [BEq α] [LawfulBEq α]

theorem nodup_eraseDups : ∀ l : List α, l.eraseDups.Nodup
  | [] => List.nodup_nil
  | a :: l => by
    rw [List.eraseDups_cons, List.nodup_cons]
    exact ⟨by simp, nodup_eraseDups (l.filter fun b => !b == a)⟩
termination_by l => l.length
decreasing_by
  exact Nat.lt_succ_of_le (List.length_filter_le _ l)

/-- What is there already is not listed again. -/
theorem eraseDups_concat_of_mem {l : List α} {a : α} (h : a ∈ l) :
    (l ++ [a]).eraseDups = l.eraseDups := by
  rw [List.eraseDups_append]
  simp [List.removeAll, h]

/-- What is new comes last. -/
theorem eraseDups_concat_of_not_mem {l : List α} {a : α} (h : a ∉ l) :
    (l ++ [a]).eraseDups = l.eraseDups ++ [a] := by
  rw [List.eraseDups_append]
  simp [List.removeAll, h, List.eraseDups_cons]

end General

variable {α : Type} [DecidableEq α]

theorem eraseDups_filter (p : α → Bool) : ∀ l : List α,
    (l.filter p).eraseDups = l.eraseDups.filter p
  | [] => rfl
  | a :: l => by
    have ih := eraseDups_filter p (l.filter fun b => !b == a)
    rw [List.eraseDups_cons]
    by_cases ha : p a = true
    · rw [List.filter_cons_of_pos ha, List.filter_cons_of_pos ha, List.eraseDups_cons, ← ih,
        List.filter_filter, List.filter_filter]
      simp only [Bool.and_comm]
    · rw [List.filter_cons_of_neg ha, List.filter_cons_of_neg ha, ← ih, List.filter_filter]
      -- the element that is taken out does not pass
      congr 1
      refine List.filter_congr fun b _ => ?_
      by_cases hb : b = a
      · subst hb
        simp [ha]
      · simp [hb]
termination_by l => l.length
decreasing_by
  exact Nat.lt_succ_of_le (List.length_filter_le _ l)

/-- The first element is kept, and taken out of the rest. -/
theorem eraseDups_cons_eq (a : α) (l : List α) :
    (a :: l).eraseDups = a :: l.eraseDups.filter (· ≠ a) := by
  have hne : (fun b : α => !b == a) = fun b => decide (b ≠ a) := by
    funext b
    rw [decide_not]
    rfl
  rw [List.eraseDups_cons, hne, eraseDups_filter]

/-- Moving an element to the front of a list that was cut is moving it to the front and cutting. -/
theorem take_filter_take {v : α} : ∀ {l : List α}, l.Nodup → ∀ n,
    ((l.take (n + 1)).filter (· ≠ v)).take n = (l.filter (· ≠ v)).take n
  | [], _, _ => rfl
  | a :: l, h, n => by
    obtain ⟨ha, hl⟩ := List.nodup_cons.mp h
    rw [List.take_succ_cons]
    by_cases hav : a = v
    · -- the element stands here and nowhere else, so nothing is taken out behind
      subst hav
      have hrest : ∀ xs : List α, xs ⊆ l → xs.filter (· ≠ a) = xs := by
        intro xs hxs
        refine List.filter_eq_self.mpr fun b hb => ?_
        exact decide_eq_true fun heq => ha (heq ▸ hxs hb)
      rw [List.filter_cons_of_neg (by simp), List.filter_cons_of_neg (by simp),
        hrest _ (List.take_subset n l), hrest l (List.Subset.refl l), List.take_take, Nat.min_self]
    · rw [List.filter_cons_of_pos (by simpa using hav),
        List.filter_cons_of_pos (by simpa using hav)]
      cases n with
      | zero => rfl
      | succ n => rw [List.take_succ_cons, List.take_succ_cons, take_filter_take hl n]

/-- The distinct elements of a history stay where they are as it grows. -/
theorem eraseDups_isPrefix {l l' : List α} (h : l <+: l') : l.eraseDups <+: l'.eraseDups := by
  obtain ⟨rest, rfl⟩ := h
  rw [List.eraseDups_append]
  exact List.prefix_append _ _

/-- The place of an element is what it was, if another one comes. -/
theorem idxOf?_eraseDups_concat_of_ne {l : List α} {a b : α} (h : b ≠ a) :
    (l ++ [a]).eraseDups.idxOf? b = l.eraseDups.idxOf? b := by
  by_cases ha : a ∈ l
  · rw [eraseDups_concat_of_mem ha]
  · rw [eraseDups_concat_of_not_mem ha]
    unfold List.idxOf?
    rw [List.findIdx?_append]
    simp [h.symm]

/-- An element that is new is the last. -/
theorem idxOf?_eraseDups_concat_self {l : List α} {a : α} (h : a ∉ l) :
    (l ++ [a]).eraseDups.idxOf? a = some l.eraseDups.length := by
  have hnone : l.eraseDups.idxOf? a = none :=
    List.idxOf?_eq_none_iff.mpr (mt List.mem_eraseDups.mp h)
  rw [eraseDups_concat_of_not_mem h]
  unfold List.idxOf? at hnone ⊢
  rw [List.findIdx?_append, hnone]
  simp

/-- Without repetitions, the place of an element is where it is found. -/
theorem idxOf?_eraseDups_eq_some {l : List α} {a : α} {k : Nat} :
    l.eraseDups.idxOf? a = some k ↔ l.eraseDups[k]? = some a := by
  rw [List.idxOf?_eq_some_iff, List.getElem?_eq_some_iff]
  refine exists_congr fun hk => ⟨And.left, ?_⟩
  intro hget
  refine ⟨hget, fun j hj hat => ?_⟩
  exact List.pairwise_iff_getElem.mp (nodup_eraseDups l) j k (Nat.lt_trans hj hk) hk hj
    (hat.trans hget.symm)

end DemandPaging
