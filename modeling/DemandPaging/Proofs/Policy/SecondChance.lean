import DemandPaging.Policy.Clock

/-!
# Second chance as a queue

The textbook version of the algorithm keeps a queue of pages, each with a bit that is set when the
page is used. To make room it takes pages from the head: a page whose bit is set goes to the tail
with its bit cleared, and the first page whose bit is clear is dropped (`settle`,
`SecondChance.access`).

The hand of the clock does the same without moving a page. It goes round the frames, so the queue is
what the frames hold from the hand on (`cycleFrom`), and moving the hand by one frame moves the head
of the queue to its tail:

> `cycleFrom_advance`: the frames from the next hand on.
-/

namespace DemandPaging.Policy

/-! ## The queue -/

/-- Pages with their bits, and what has become of the accesses so far. -/
structure SecondChance where
  queue : List (Nat × Bool)
  hits : Nat
  misses : Nat
  /-- The pages that were dropped, in their order. -/
  victims : List Nat

/-- Gives every page at the head whose bit is set its second chance. -/
def settle : List (Nat × Bool) → List (Nat × Bool)
  | (page, true) :: rest => settle (rest ++ [(page, false)])
  | queue => queue
termination_by queue => queue.countP (·.2)
decreasing_by simp

namespace SecondChance

def empty : SecondChance := ⟨[], 0, 0, []⟩

/-- Sets the bit of a page. -/
def mark (page : Nat) (entry : Nat × Bool) : Nat × Bool :=
  if entry.1 = page then (page, true) else entry

/-- One access, with room for a number of pages. -/
def access (frames : Nat) (s : SecondChance) (page : Nat) : SecondChance :=
  if page ∈ s.queue.map Prod.fst then
    { s with queue := s.queue.map (mark page), hits := s.hits + 1 }
  else if s.queue.length < frames then
    { s with queue := s.queue ++ [(page, true)], misses := s.misses + 1 }
  else
    { s with
      queue := (settle s.queue).tail ++ [(page, true)]
      misses := s.misses + 1
      victims := s.victims ++ ((settle s.queue).head?.map Prod.fst).toList }

/-- The queue and its counts after accesses to a list of pages. -/
def run (frames : Nat) (pages : List Nat) : SecondChance := pages.foldl (access frames) empty

/-- A mark changes no page. -/
theorem fst_mark (page : Nat) (entry : Nat × Bool) : (mark page entry).1 = entry.1 := by
  unfold mark
  split
  next heq => exact heq.symm
  next => rfl

/-- One more access is the last step of the run. -/
theorem run_concat (frames : Nat) (pages : List Nat) (page : Nat) :
    run frames (pages ++ [page]) = (run frames pages).access frames page := by
  unfold run
  rw [List.foldl_append]
  rfl

end SecondChance

/-- A marked page at the head goes to the end without its mark. -/
theorem settle_marked (page : Nat) (rest : List (Nat × Bool)) :
    settle ((page, true) :: rest) = settle (rest ++ [(page, false)]) := by
  rw [settle]

/-- An unmarked page at the head is the victim. -/
theorem settle_unmarked (page : Nat) (rest : List (Nat × Bool)) :
    settle ((page, false) :: rest) = (page, false) :: rest := by
  rw [settle]
  simp

/-- Settling drops no page. -/
theorem length_settle (queue : List (Nat × Bool)) : (settle queue).length = queue.length := by
  induction queue using settle.induct with
  | case1 page rest ih =>
    rw [settle_marked, ih]
    simp
  | case2 queue hhead =>
    rw [settle]
    exact hhead

/-! ## The frames from the hand on -/

/-- All frames in the order in which a hand at `hand` comes to them. -/
def cycleFrom (hand frames : Nat) : List Nat :=
  (List.range frames).map fun i => (hand + i) % frames

theorem cycleFrom_zero (frames : Nat) : cycleFrom 0 frames = List.range frames := by
  unfold cycleFrom
  rw [List.map_congr_left (g := id), List.map_id]
  intro i hi
  rw [Nat.zero_add, Nat.mod_eq_of_lt (List.mem_range.mp hi)]
  rfl

/-- Once round is as many frames as there are. -/
theorem length_cycleFrom (hand frames : Nat) : (cycleFrom hand frames).length = frames := by
  unfold cycleFrom
  rw [List.length_map, List.length_range]

/-- Once round comes to every frame. -/
theorem mem_cycleFrom {hand frames f : Nat} (h : hand < frames) :
    f ∈ cycleFrom hand frames ↔ f < frames := by
  unfold cycleFrom
  rw [List.mem_map]
  refine ⟨?_, ?_⟩
  · intro hex
    obtain ⟨i, -, rfl⟩ := hex
    exact Nat.mod_lt _ (by omega)
  · intro hf
    rcases Nat.lt_or_ge f hand with hlt | hge
    · -- the hand comes to it after it has passed the last frame
      refine ⟨frames - hand + f, List.mem_range.mpr (by omega), ?_⟩
      have hsum : hand + (frames - hand + f) = f + frames := by omega
      rw [hsum, Nat.add_mod_right, Nat.mod_eq_of_lt hf]
    · refine ⟨f - hand, List.mem_range.mpr (by omega), ?_⟩
      rw [Nat.add_sub_cancel' hge, Nat.mod_eq_of_lt hf]

/-- When the hand moves on, the frame that it was at becomes the last. -/
theorem cycleFrom_advance {hand frames : Nat} (h : hand < frames) :
    ∃ rest, cycleFrom hand frames = hand :: rest ∧
      cycleFrom ((hand + 1) % frames) frames = rest ++ [hand] ∧ hand ∉ rest := by
  obtain ⟨k, rfl⟩ := Nat.exists_eq_add_one_of_ne_zero (Nat.ne_zero_of_lt h)
  refine ⟨(List.range k).map fun i => (hand + 1 + i) % (k + 1), ?_, ?_, ?_⟩
  · unfold cycleFrom
    rw [List.range_succ_eq_map, List.map_cons, List.map_map, Nat.add_zero, Nat.mod_eq_of_lt h]
    refine congrArg _ (List.map_congr_left fun i _ => ?_)
    show (hand + (i + 1)) % (k + 1) = _
    rw [Nat.add_comm i 1, Nat.add_assoc]
  · unfold cycleFrom
    simp only [Nat.mod_add_mod]
    rw [List.range_succ, List.map_append, List.map_singleton, Nat.add_assoc, Nat.add_comm 1 k,
      Nat.add_mod_right, Nat.mod_eq_of_lt h]
  · intro hmem
    obtain ⟨i, hi, heq⟩ := List.mem_map.mp hmem
    have hik := List.mem_range.mp hi
    rcases Nat.lt_or_ge (hand + 1 + i) (k + 1) with hlt | hge
    · rw [Nat.mod_eq_of_lt hlt] at heq
      omega
    · rw [Nat.mod_eq_sub_mod hge, Nat.mod_eq_of_lt (by omega)] at heq
      omega

end DemandPaging.Policy
