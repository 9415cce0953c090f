import DemandPaging.Policy.Uniform
import DemandPaging.Proofs.Random.Shares

/-!
# A random victim is any frame alike

The policy draws until a draw is not rejected, and names the frame that it gives. `Settles` is that
loop without a limit to the number of draws: it has no outcome just if every draw is rejected, for
ever. The search that runs stops at the period of the stream, and there the stream repeats
(`draw_add_period`), so a loop that settles at all settles within one period:

> `Settles.sampleWithin_eq`: as far as the search goes, it follows the loop.
> `Settles.le_period`: the loop never goes further.
> `evict_uniform`: the victim is what the loop settles on, and every frame has the same number of
> draws that settle on it.
-/

namespace DemandPaging

namespace Random

/-! ## The stream repeats -/

theorem block_add (seed : UInt64) (n : Nat) : block seed (n + UInt64.size) = block seed n := by
  have hcounter : UInt64.ofNat (n + UInt64.size) = UInt64.ofNat n := by
    rw [← UInt64.toNat_inj, UInt64.toNat_ofNat', UInt64.toNat_ofNat']
    exact Nat.add_mod_right n _
  unfold block
  rw [hcounter]

/-- Sixteen words are a block, and there are as many blocks as counters. -/
theorem word_add (seed : UInt64) (n : Nat) : word seed (n + 2 ^ 68) = word seed n := by
  have hcounter : (n + 2 ^ 68) / 16 = n / 16 + UInt64.size := by
    unfold UInt64.size
    omega
  have hblock : block seed ((n + 2 ^ 68) / 16) = block seed (n / 16) :=
    (congrArg (block seed) hcounter).trans (block_add seed (n / 16))
  have hplace : Fin.ofNat 16 (n + 2 ^ 68) = Fin.ofNat 16 n := by
    apply Fin.ext
    rw [Fin.val_ofNat, Fin.val_ofNat]
    omega
  exact congrArg₂ (fun (b : Block) (i : Fin 16) => b[i]) hblock hplace

theorem draw_add_period (seed : UInt64) (n : Nat) : draw seed (n + period) = draw seed n := by
  have hwords : 2 * (n + period) = 2 * n + 2 ^ 68 := by
    unfold period
    omega
  have hnext : 2 * n + 2 ^ 68 + 1 = 2 * n + 1 + 2 ^ 68 := Nat.add_right_comm _ _ _
  unfold draw
  rw [hwords, hnext, word_add, word_add]

/-! ## Drawing until a draw is taken -/

/-- Drawing from number `k` on until a draw is not rejected gives `number`, and the next draw will
be the one with number `next`. -/
inductive Settles (seed : UInt64) (bound : BitVec 64) : (k : Nat) → (number : BitVec 64) →
    (next : Nat) → Prop where
  | taken {k : Nat} {number : BitVec 64}
      (takes : choose? bound (draw seed k).toBitVec = some number) :
      Settles seed bound k number (k + 1)
  | rejected {k next : Nat} {number : BitVec 64}
      (rejects : choose? bound (draw seed k).toBitVec = none)
      (rest : Settles seed bound (k + 1) number next) : Settles seed bound k number next

variable {seed : UInt64} {bound : BitVec 64} {number : BitVec 64} {n k next : Nat}

/-- There is an outcome, if not every draw is rejected. -/
theorem settles_of_taken {j : Nat} (hle : k ≤ j)
    (htaken : (choose? bound (draw seed j).toBitVec).isSome) :
    ∃ number next, Settles seed bound k number next := by
  induction hle using Nat.decreasingInduction with
  | self =>
    obtain ⟨number, hnumber⟩ := Option.isSome_iff_exists.mp htaken
    exact ⟨number, j + 1, .taken hnumber⟩
  | of_succ k _ ih =>
    obtain ⟨number, next, hrest⟩ := ih
    cases hdraw : choose? bound (draw seed k).toBitVec with
    | none => exact ⟨number, next, .rejected hdraw hrest⟩
    | some first => exact ⟨first, k + 1, .taken hdraw⟩

/-- The draw before the next is the one that is taken, and those before it are rejected. -/
theorem Settles.last (h : Settles seed bound k number next) :
    ∃ j, k ≤ j ∧ next = j + 1 ∧ choose? bound (draw seed j).toBitVec = some number ∧
      ∀ i, k ≤ i → i < j → choose? bound (draw seed i).toBitVec = none := by
  induction h with
  | @taken k _ takes => exact ⟨k, Nat.le_refl k, rfl, takes, fun i hle hlt => by omega⟩
  | @rejected k _ _ rejects _ ih =>
    obtain ⟨j, hle, hnext, htakes, hrejects⟩ := ih
    refine ⟨j, Nat.le_of_succ_le hle, hnext, htakes, fun i hki hij => ?_⟩
    rcases Nat.eq_or_lt_of_le hki with rfl | hlt
    · exact rejects
    · exact hrejects i hlt hij

/-- A draw that is a period behind is the same draw, and would have been taken before. -/
theorem Settles.le_period (h : Settles seed bound k number next) : next ≤ k + period := by
  obtain ⟨j, -, rfl, htakes, hrejects⟩ := h.last
  by_contra hfar
  obtain ⟨i, rfl⟩ : ∃ i, j = i + period := Nat.exists_eq_add_of_le' (by omega)
  have hpos : 0 < period := by decide
  have hearlier := hrejects i (by omega) (by omega)
  rw [← draw_add_period, htakes] at hearlier
  simp at hearlier

/-- The search follows the draws, as far as it goes. -/
theorem Settles.sampleWithin_eq (hpos : 0 < n) (hlt : n < wordValues)
    (h : Settles seed (BitVec.ofNat 64 n) k number next) {count : Nat} (hnext : next ≤ k + count) :
    sampleWithin seed n count k = (number.toNat, next) := by
  have hword : ∀ j, BitVec.ofNat 64 (draw seed j).toNat = (draw seed j).toBitVec := fun j =>
    BitVec.ofNat_toNat ..
  induction h generalizing count with
  | @taken k number takes =>
    obtain ⟨count, rfl⟩ := Nat.exists_eq_add_of_le' (show 1 ≤ count by omega)
    rw [← hword, choose?_eq_some_iff hpos hlt (draw seed k).toNat_lt] at takes
    rw [sampleWithin, if_pos takes.1, takes.2]
  | @rejected k next number rejects rest ih =>
    obtain ⟨j, hle, rfl, -, -⟩ := rest.last
    obtain ⟨count, rfl⟩ := Nat.exists_eq_add_of_le' (show 1 ≤ count by omega)
    rw [← hword, choose?_eq_none_iff hpos hlt (draw seed k).toNat_lt] at rejects
    rw [sampleWithin, if_neg (by rw [rejects]; decide)]
    exact ih (by omega)

end Random

namespace Policy.Uniform

open DemandPaging.Random (choose? draw Settles wordValues)

/-- The victim is the number that the draws settle on. -/
theorem evict_of_settles {seed : UInt64} {n k next : Nat} {number : BitVec 64} (hpos : 0 < n)
    (hlt : n < wordValues) (h : Settles seed (BitVec.ofNat 64 n) k number next) :
    evict ⟨seed, n, k⟩ = (some number.toNat, ⟨seed, n, next⟩) := by
  have hsample : Random.sample seed n k = (number.toNat, next) :=
    h.sampleWithin_eq hpos hlt h.le_period
  rw [evict, if_neg (Nat.ne_of_gt hpos)]
  dsimp only
  rw [hsample]

/-- With any number of frames that is a 64-bit word other than 0, a draw that is taken gives a
frame, and each frame is given by the same number of draws, a power of two: that of the leading
zeros of the number of frames. And wherever in the stream of any seed the policy stands, unless
every draw from there on is rejected, the victim is what the first draw that is not rejected gives.
-/
theorem evict_uniform {n : Nat} (hpos : 1 ≤ n) (hlt : n < 2 ^ 64) :
    (∀ x number, choose? (BitVec.ofNat 64 n) x = some number → number.toNat < n) ∧
      (∀ f < n, ((Finset.range (2 ^ 64)).filter fun x =>
        choose? (BitVec.ofNat 64 n) (BitVec.ofNat 64 x) = some (BitVec.ofNat 64 f)).card
          = 2 ^ (BitVec.ofNat 64 n).clz.toNat) ∧
      ∀ seed k j, k ≤ j → (choose? (BitVec.ofNat 64 n) (draw seed j).toBitVec).isSome →
        ∃ number next, Settles seed (BitVec.ofNat 64 n) k number next ∧
          evict ⟨seed, n, k⟩ = (some number.toNat, ⟨seed, n, next⟩) := by
  refine ⟨?_, ?_, ?_⟩
  · intro x number hgives
    have hword : BitVec.ofNat 64 x.toNat = x := BitVec.ofNat_toNat ..
    rw [← hword] at hgives
    obtain ⟨-, hshare⟩ := (Random.choose?_eq_some_iff hpos hlt x.isLt).mp hgives
    exact hshare ▸ Random.share_lt x.isLt hpos
  · intro f hf
    rw [Random.toNat_clz hpos hlt]
    exact Random.card_draws hpos hlt hf
  · intro seed k j hle htaken
    obtain ⟨number, next, hsettles⟩ := Random.settles_of_taken hle htaken
    exact ⟨number, next, hsettles, evict_of_settles hpos hlt hsettles⟩

theorem evict_uniform_of_three :
    1 ≤ 3 ∧ 3 < 2 ^ 64 ∧
      (∀ f < 3, ((Finset.range (2 ^ 64)).filter fun x =>
        choose? 3#64 (BitVec.ofNat 64 x) = some (BitVec.ofNat 64 f)).card = 2 ^ 62) ∧
      (choose? 3#64 (draw 369 0).toBitVec).isSome ∧
      ∃ number next, Settles 369 3#64 0 number next ∧
        evict ⟨369, 3, 0⟩ = (some number.toNat, ⟨369, 3, next⟩) := by
  have hpos : 1 ≤ 3 := by decide
  have hlt : 3 < 2 ^ 64 := by decide
  have htaken : (choose? 3#64 (draw 369 0).toBitVec).isSome := by decide +kernel
  have huniform := evict_uniform hpos hlt
  have hzeros : (3#64).clz.toNat = 62 := by decide
  refine ⟨hpos, hlt, fun f hf => ?_, htaken, huniform.2.2 369 0 0 (Nat.le_refl 0) htaken⟩
  rw [huniform.2.1 f hf, hzeros]

end Policy.Uniform

end DemandPaging
