import DemandPaging.Decimal.Fixed
import DemandPaging.Proofs.Text.Digits

/-!
# What a decimal shows

A decimal with a fixed number of places shows a fraction if its digits are those of the nearest
integer at that scale, and of two that are equally near those of the even one (`Nearest`). A
floating-point number is shown through the fraction that its three fields stand for (`Double`).
Neither looks at how the digits are found.

> `roundHalfEven_eq_iff`: rounding finds the nearest integer, and nothing else.
> `fixed_eq_iff`: what is written is the one text that shows the fraction.
> `numerator_eq_iff`: the fields of a floating-point number.
-/

namespace DemandPaging.Decimal

/-- The integer nearest to `num / den`; halfway between two, the even one. -/
structure Nearest (num den n : Nat) : Prop where
  above : 2 * (n * den) ≤ 2 * num + den
  below : 2 * num ≤ 2 * (n * den) + den
  even : 2 * (n * den) = 2 * num + den ∨ 2 * num = 2 * (n * den) + den → n % 2 = 0

/-- The text shows `num / den` with some places: the digits of the whole part, a point, and the
digits of the rest with zeros in front of them. -/
def Writes (places num den : Nat) (text : String) : Prop :=
  ∃ n zeros, Nearest (num * 10 ^ places) den n ∧
    text.toList = Nat.toDigits 10 (n / 10 ^ places) ++
      '.' :: (List.replicate zeros '0' ++ Nat.toDigits 10 (n % 10 ^ places)) ∧
    zeros + (Nat.toDigits 10 (n % 10 ^ places)).length = places

/-- The bits of a finite floating-point number in double precision, which is `num / 2 ^ 1075` but
for its sign. The smallest exponent is that of a number without a leading bit. -/
def Double (bits : UInt64) (num : Nat) : Prop :=
  ∃ sign exponent fraction, bits.toNat = (sign * 2 ^ 11 + exponent) * 2 ^ 52 + fraction ∧
    exponent < 2 ^ 11 ∧ fraction < 2 ^ 52 ∧
    num = if exponent = 0 then fraction * 2 else (2 ^ 52 + fraction) * 2 ^ exponent

/-! ## Rounding -/

theorem Nearest.unique {num den n n' : Nat} (hden : 0 < den) (h : Nearest num den n)
    (h' : Nearest num den n') : n = n' := by
  by_contra hne
  wlog hlt : n < n' generalizing n n' with hwlog
  · exact hwlog h' h (Ne.symm hne) (by omega)
  -- both are half a unit away, so they follow each other and cannot both be even
  have hstep : n * den + den ≤ n' * den := by
    rw [← Nat.succ_mul]
    exact Nat.mul_le_mul_right den hlt
  have habove := h'.above
  have hbelow := h.below
  have hnext : n' * den = (n + 1) * den := by
    rw [Nat.add_mul]
    omega
  have hn' : n' = n + 1 := Nat.eq_of_mul_eq_mul_right hden hnext
  have heven := h.even (.inr (by omega))
  have heven' := h'.even (.inl (by omega))
  omega

/-- Rounding half to even gives the nearest number. -/
theorem nearest_roundHalfEven (num : Nat) {den : Nat} (hden : 0 < den) :
    Nearest num den (roundHalfEven num den) := by
  obtain ⟨habove, hbelow⟩ := roundHalfEven_near num hden
  refine ⟨habove, hbelow, fun hhalf => ?_⟩
  have hdiv : num / den * den + num % den = num := by
    rw [Nat.mul_comm]
    exact Nat.div_add_mod num den
  have hmod := Nat.mod_lt num hden
  unfold roundHalfEven at hhalf ⊢
  dsimp only at hhalf ⊢
  by_cases hlow : 2 * (num % den) < den
  · rw [if_pos hlow] at hhalf
    omega
  · by_cases hhigh : den < 2 * (num % den)
    · rw [if_neg hlow, if_pos hhigh, Nat.add_mul] at hhalf
      omega
    · rw [if_neg hlow, if_neg hhigh]
      omega

/-- Rounding finds the nearest integer, and nothing else. -/
theorem roundHalfEven_eq_iff {num den n : Nat} (hden : 0 < den) :
    roundHalfEven num den = n ↔ Nearest num den n := by
  refine ⟨?_, fun h => (nearest_roundHalfEven num hden).unique hden h⟩
  rintro rfl
  exact nearest_roundHalfEven num hden

/-! ## Writing -/

/-- What is written with some places is the one text that shows the fraction. -/
theorem fixed_eq_iff {places num den : Nat} {text : String} (hplaces : 0 < places)
    (hden : 0 < den) : fixed places num den = text ↔ Writes places num den text := by
  have htoList : (fixed places num den).toList =
      Nat.toDigits 10 (roundHalfEven (num * 10 ^ places) den / 10 ^ places) ++
        '.' :: padded places (roundHalfEven (num * 10 ^ places) den % 10 ^ places) := by
    rw [fixed, String.toList_ofList]
    rfl
  refine ⟨?_, ?_⟩
  · rintro rfl
    have hfits : (Nat.toDigits 10 (roundHalfEven (num * 10 ^ places) den % 10 ^ places)).length
        ≤ places :=
      Nat.toDigits_length 10 _ places hplaces (Nat.mod_lt _ (Nat.pow_pos (by decide)))
    exact ⟨_, _, nearest_roundHalfEven _ hden, htoList, Nat.sub_add_cancel hfits⟩
  · rintro ⟨n, zeros, hnearest, htext, hlength⟩
    obtain rfl := (roundHalfEven_eq_iff hden).mpr hnearest
    -- the zeros are told by the digits behind them
    have hzeros : zeros =
        places - (Nat.toDigits 10 (roundHalfEven (num * 10 ^ places) den % 10 ^ places)).length :=
      by omega
    rw [← String.toList_inj, htoList, htext, hzeros]
    rfl

/-- The sign, the exponent and the fraction of a floating-point number. -/
theorem numerator_eq_iff {bits : UInt64} {num : Nat} :
    numerator bits = num ↔ Double bits num := by
  have hnumerator : numerator bits = if bits.toNat / 2 ^ 52 % 2 ^ 11 = 0
      then bits.toNat % 2 ^ 52 * 2
      else (2 ^ 52 + bits.toNat % 2 ^ 52) * 2 ^ (bits.toNat / 2 ^ 52 % 2 ^ 11) := by
    rw [numerator, Nat.shiftRight_eq_div_pow, Nat.shiftLeft_eq, Nat.one_mul]
    exact if_congr Iff.rfl rfl (Nat.shiftLeft_eq _ _)
  refine ⟨?_, ?_⟩
  · rintro rfl
    exact ⟨bits.toNat / 2 ^ 63, _, _, by omega, Nat.mod_lt _ (by decide), Nat.mod_lt _ (by decide),
      hnumerator⟩
  · rintro ⟨sign, exponent, fraction, hbits, hexponent, hfraction, rfl⟩
    obtain rfl : exponent = bits.toNat / 2 ^ 52 % 2 ^ 11 := by omega
    obtain rfl : fraction = bits.toNat % 2 ^ 52 := by omega
    exact hnumerator

/-- What is written for a floating-point number is the one text that shows the fraction that the
number is. -/
theorem fixedOfFloat_eq_iff {places : Nat} (hplaces : 0 < places) {x : Float} {text : String} :
    fixedOfFloat places x = text ↔
      ∃ num, Double x.toBits num ∧ Writes places num (2 ^ 1075) text := by
  rw [fixedOfFloat, Nat.one_shiftLeft]
  generalize 1075 = k
  rw [fixed_eq_iff hplaces (Nat.two_pow_pos k)]
  refine ⟨fun h => ⟨_, numerator_eq_iff.mp rfl, h⟩, ?_⟩
  rintro ⟨num, hdouble, hwrites⟩
  rw [numerator_eq_iff.mpr hdouble]
  exact hwrites

end DemandPaging.Decimal
