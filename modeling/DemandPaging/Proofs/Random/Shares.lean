import DemandPaging.Random.Range
import Mathlib.Algebra.Order.Floor.Div
import Mathlib.Order.Interval.Finset.Nat

/-!
# Every number has the same share of the draws

A draw is taken or rejected, and gives its number, by the two halves of one product of 128 bits.
`choose?` says so in machine words: the draw is taken if the low half is at most the bound, shifted
left by its leading zeros, less one, and the high half is the number. Nothing wraps on the way
(`choose?_eq`): the product fits, and the bound loses no bit when it is shifted until its highest
bit is set (`zone_bounds`).

The draws that give one number are neighbours. Multiplied by the bound they are the multiples of
the bound in an interval; the zone is a multiple of the bound, so the interval has as many of them
wherever it starts.

> `accepts_and_share_iff`: which draws give a number.
> `card_draws`: how many they are.
-/

namespace DemandPaging.Random

/-! ## One draw, in machine words -/

/-- A draw times the bound, in 128 bits. -/
def product (bound x : BitVec 64) : BitVec 128 := x.setWidth 128 * bound.setWidth 128

def lowHalf (p : BitVec 128) : BitVec 64 := p.setWidth 64

def highHalf (p : BitVec 128) : BitVec 64 := (p >>> 64).setWidth 64

/-- The largest low half with which a draw is taken. -/
def lastTaken (bound : BitVec 64) : BitVec 64 := (bound <<< bound.clz) - 1

/-- The number that a draw gives, unless it is rejected. -/
def choose? (bound x : BitVec 64) : Option (BitVec 64) :=
  if lowHalf (product bound x) ≤ lastTaken bound then some (highHalf (product bound x)) else none

variable {n x f : Nat}

theorem toNat_ofNat_of_lt (h : n < wordValues) : (BitVec.ofNat 64 n).toNat = n :=
  (BitVec.toNat_ofNat n 64).trans (Nat.mod_eq_of_lt h)

theorem log2_le (hpos : 0 < n) (hlt : n < wordValues) : n.log2 ≤ 63 :=
  Nat.le_of_lt_succ ((Nat.log2_lt (Nat.ne_of_gt hpos)).mpr hlt)

/-- `leadingZeros` counts the zeros in front of the highest bit. -/
theorem toNat_clz (hpos : 0 < n) (hlt : n < wordValues) :
    (BitVec.ofNat 64 n).clz.toNat = leadingZeros n := by
  have htoNat := toNat_ofNat_of_lt hlt
  have hne : BitVec.ofNat 64 n ≠ 0#64 := by
    intro hzero
    rw [hzero] at htoNat
    exact Nat.ne_of_gt hpos htoNat.symm
  have hclz : (BitVec.ofNat 64 n).clz.toNat < 64 :=
    BitVec.lt_def.mp (BitVec.clz_lt_iff_ne_zero.mpr hne)
  have hlow := BitVec.two_pow_sub_clz_le_toNat_of_ne_zero (by decide) hne
  have hhigh := BitVec.toNat_lt_two_pow_sub_clz (x := BitVec.ofNat 64 n)
  rw [htoNat] at hlow hhigh
  have hsucc : 64 - (BitVec.ofNat 64 n).clz.toNat
      = 64 - 1 - (BitVec.ofNat 64 n).clz.toNat + 1 := by omega
  rw [hsucc] at hhigh
  have hlog := (Nat.log2_eq_iff (Nat.ne_of_gt hpos)).mpr ⟨hlow, hhigh⟩
  unfold leadingZeros
  omega

/-! ## The zone -/

/-- The zone is the number shifted up to the top of the word. -/
theorem zone_eq (n : Nat) : zone n = n * 2 ^ leadingZeros n := Nat.shiftLeft_eq _ _

/-- The bound, shifted until its highest bit is set, still fits. -/
theorem zone_bounds (hpos : 0 < n) (hlt : n < wordValues) :
    2 ^ 63 ≤ zone n ∧ zone n < wordValues := by
  have hlog := log2_le hpos hlt
  have hlow := Nat.log2_self_le (Nat.ne_of_gt hpos)
  have hhigh := Nat.lt_log2_self (n := n)
  have hsplit : 2 ^ n.log2 * 2 ^ leadingZeros n = 2 ^ 63 := by
    rw [← Nat.pow_add]
    congr 1
    unfold leadingZeros
    omega
  have hpow : 0 < 2 ^ leadingZeros n := Nat.two_pow_pos _
  rw [zone_eq]
  refine ⟨?_, ?_⟩
  · rw [← hsplit]
    exact Nat.mul_le_mul_right _ hlow
  · calc n * 2 ^ leadingZeros n < 2 ^ (n.log2 + 1) * 2 ^ leadingZeros n :=
          Nat.mul_lt_mul_of_pos_right hhigh hpow
      _ = 2 * 2 ^ n.log2 * 2 ^ leadingZeros n := by rw [Nat.pow_succ']
      _ = 2 * 2 ^ 63 := by rw [Nat.mul_assoc, hsplit]
      _ = wordValues := rfl

/-- The last word that is taken is the last in the zone. -/
theorem toNat_lastTaken (hpos : 0 < n) (hlt : n < wordValues) :
    (lastTaken (BitVec.ofNat 64 n)).toNat = zone n - 1 := by
  obtain ⟨hlow, hhigh⟩ := zone_bounds hpos hlt
  have hshift : (BitVec.ofNat 64 n <<< (BitVec.ofNat 64 n).clz).toNat = zone n := by
    rw [BitVec.shiftLeft_eq', BitVec.toNat_shiftLeft, toNat_clz hpos hlt, toNat_ofNat_of_lt hlt]
    exact Nat.mod_eq_of_lt hhigh
  have hone : (1 : BitVec 64) ≤ BitVec.ofNat 64 n <<< (BitVec.ofNat 64 n).clz := by
    rw [BitVec.le_def, hshift]
    exact Nat.le_trans (by decide) hlow
  rw [lastTaken, BitVec.toNat_sub_of_le hone, hshift]
  rfl

/-! ## Words and numbers -/

/-- The product has room in two words. -/
theorem toNat_product (hlt : n < wordValues) (hx : x < wordValues) :
    (product (BitVec.ofNat 64 n) (BitVec.ofNat 64 x)).toNat = x * n := by
  have hfits : x * n < 2 ^ 128 :=
    calc x * n < wordValues * wordValues := Nat.mul_lt_mul'' hx hlt
      _ = 2 ^ 128 := by decide
  have hwide : ∀ {m : Nat}, m < wordValues → ((BitVec.ofNat 64 m).setWidth 128).toNat = m := by
    intro m hm
    rw [BitVec.toNat_setWidth, toNat_ofNat_of_lt hm]
    exact Nat.mod_eq_of_lt (Nat.lt_trans hm (by decide))
  rw [product, BitVec.toNat_mul, hwide hx, hwide hlt]
  exact Nat.mod_eq_of_lt hfits

/-- The machine words of a draw say what `accepts` and `share` say. -/
theorem choose?_eq (hpos : 0 < n) (hlt : n < wordValues) (hx : x < wordValues) :
    choose? (BitVec.ofNat 64 n) (BitVec.ofNat 64 x)
      = if accepts n x then some (BitVec.ofNat 64 (share n x)) else none := by
  have hproduct := toNat_product hlt hx
  have hlow : (lowHalf (product (BitVec.ofNat 64 n) (BitVec.ofNat 64 x))).toNat
      = x * n % wordValues := by
    rw [lowHalf, BitVec.toNat_setWidth, hproduct]
  have hhigh : highHalf (product (BitVec.ofNat 64 n) (BitVec.ofNat 64 x))
      = BitVec.ofNat 64 (share n x) := by
    apply BitVec.eq_of_toNat_eq
    rw [highHalf, BitVec.toNat_setWidth, BitVec.toNat_ushiftRight, hproduct, BitVec.toNat_ofNat,
      Nat.shiftRight_eq_div_pow, share]
  have htaken : lowHalf (product (BitVec.ofNat 64 n) (BitVec.ofNat 64 x))
      ≤ lastTaken (BitVec.ofNat 64 n) ↔ accepts n x = true := by
    have hzone := (zone_bounds hpos hlt).1
    rw [BitVec.le_def, hlow, toNat_lastTaken hpos hlt, accepts, decide_eq_true_iff]
    omega
  rw [choose?, hhigh]
  exact if_congr htaken rfl rfl

/-- What a draw gives is a number below the bound. -/
theorem choose?_eq_some_iff (hpos : 0 < n) (hlt : n < wordValues) (hx : x < wordValues)
    {number : BitVec 64} : choose? (BitVec.ofNat 64 n) (BitVec.ofNat 64 x) = some number ↔
      accepts n x = true ∧ share n x = number.toNat := by
  have hshare : share n x < wordValues := Nat.lt_trans (share_lt hx hpos) hlt
  rw [choose?_eq hpos hlt hx]
  by_cases haccepts : accepts n x = true
  · rw [if_pos haccepts, Option.some.injEq, ← BitVec.toNat_inj, toNat_ofNat_of_lt hshare]
    simp [haccepts]
  · simp [haccepts]

/-- A word is turned down if its share is not accepted. -/
theorem choose?_eq_none_iff (hpos : 0 < n) (hlt : n < wordValues) (hx : x < wordValues) :
    choose? (BitVec.ofNat 64 n) (BitVec.ofNat 64 x) = none ↔ accepts n x = false := by
  rw [choose?_eq hpos hlt hx]
  cases accepts n x with
  | true => simp
  | false => simp

/-! ## The draws of one number -/

/-- A draw gives `f` if its product lies in the zone above `f` words. -/
theorem accepts_and_share_iff (hpos : 0 < n) (hlt : n < wordValues) :
    accepts n x = true ∧ share n x = f ↔
      f * wordValues ≤ x * n ∧ x * n < f * wordValues + n * 2 ^ leadingZeros n := by
  obtain ⟨-, hzone⟩ := zone_bounds hpos hlt
  have hsplit := Nat.div_add_mod' (x * n) wordValues
  have hmod := Nat.mod_lt (x * n) (show 0 < wordValues by decide)
  rw [← zone_eq, accepts, share, decide_eq_true_iff]
  refine ⟨?_, ?_⟩
  · rintro ⟨haccepted, rfl⟩
    omega
  · rintro ⟨hlow, hhigh⟩
    have hdiv : x * n / wordValues = f :=
      Nat.div_eq_of_lt_le hlow (by rw [Nat.succ_mul]; omega)
    rw [hdiv] at hsplit
    exact ⟨by omega, hdiv⟩

/-- The multiples of `n` in an interval of the length of `k` multiples are `k` neighbours. -/
theorem multiples_iff (hpos : 0 < n) (a k : Nat) :
    a ≤ x * n ∧ x * n < a + n * k ↔ a ⌈/⌉ n ≤ x ∧ x < a ⌈/⌉ n + k := by
  have hfrom : ∀ y, a ⌈/⌉ n ≤ y ↔ a ≤ y * n := fun y => by
    rw [ceilDiv_le_iff_le_mul hpos, Nat.mul_comm]
  have hto : a + n * k ≤ x * n ↔ a ⌈/⌉ n + k ≤ x := by
    by_cases hk : k ≤ x
    · obtain ⟨y, rfl⟩ := Nat.exists_eq_add_of_le' hk
      rw [Nat.add_mul, Nat.mul_comm k n, Nat.add_le_add_iff_right, Nat.add_le_add_iff_right]
      exact (hfrom y).symm
    · have hless : x * n < n * k := by
        rw [Nat.mul_comm]
        exact Nat.mul_lt_mul_of_pos_left (Nat.not_le.mp hk) hpos
      omega
  rw [hfrom, ← Nat.not_le, hto, Nat.not_le]

/-- The accepted draws that give `f` are as many as there are places to shift the bound by, to the
power of two: the same for each number. -/
theorem card_draws (hpos : 0 < n) (hlt : n < wordValues) (hf : f < n) :
    ((Finset.range wordValues).filter fun x =>
      choose? (BitVec.ofNat 64 n) (BitVec.ofNat 64 x) = some (BitVec.ofNat 64 f)).card
      = 2 ^ leadingZeros n := by
  have hfirst : ∀ x, f * wordValues ≤ x * n ∧ x * n < f * wordValues + n * 2 ^ leadingZeros n →
      x < wordValues := by
    rintro x ⟨-, hhigh⟩
    obtain ⟨-, hzone⟩ := zone_bounds hpos hlt
    rw [zone_eq] at hzone
    have hless : x * n < wordValues * n :=
      calc x * n < f * wordValues + wordValues := by omega
        _ = (f + 1) * wordValues := (Nat.succ_mul _ _).symm
        _ ≤ n * wordValues := Nat.mul_le_mul_right wordValues hf
        _ = wordValues * n := Nat.mul_comm _ _
    exact Nat.lt_of_mul_lt_mul_right hless
  have hdraws : ((Finset.range wordValues).filter fun x =>
      choose? (BitVec.ofNat 64 n) (BitVec.ofNat 64 x) = some (BitVec.ofNat 64 f))
      = Finset.Ico (f * wordValues ⌈/⌉ n) (f * wordValues ⌈/⌉ n + 2 ^ leadingZeros n) := by
    ext x
    rw [Finset.mem_filter, Finset.mem_range, Finset.mem_Ico, ← multiples_iff hpos]
    refine ⟨?_, fun hx => ⟨hfirst x hx, ?_⟩⟩
    · rintro ⟨hx, hgives⟩
      rw [choose?_eq_some_iff hpos hlt hx, toNat_ofNat_of_lt (Nat.lt_trans hf hlt)] at hgives
      exact (accepts_and_share_iff hpos hlt).mp hgives
    · rw [choose?_eq_some_iff hpos hlt (hfirst x hx), toNat_ofNat_of_lt (Nat.lt_trans hf hlt)]
      exact (accepts_and_share_iff hpos hlt).mpr hx
  rw [hdraws, Nat.card_Ico]
  exact Nat.add_sub_cancel_left _ _

end DemandPaging.Random
