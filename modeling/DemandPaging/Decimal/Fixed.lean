import DemandPaging.Text.Numeral

/-!
# Decimals with a fixed number of places

A fraction is written with a given number of decimal places: the exact value is rounded to the
nearest such decimal, and one that lies halfway between two of them goes to the one whose last
digit is even. A binary floating-point number is written through the exact fraction that it
stands for, so no digit depends on how a conversion rounds on its way.
-/

namespace DemandPaging.Decimal

/-- The integer nearest to `num / den`; halfway between two, the even one. -/
def roundHalfEven (num den : Nat) : Nat :=
  let quotient := num / den
  let twice := 2 * (num % den)
  if twice < den then quotient
  else if den < twice then quotient + 1
  else quotient + quotient % 2

/-- The digits of `n` with zeros in front up to `width`. -/
def padded (width n : Nat) : List Char :=
  let digits := Text.decimal n
  List.replicate (width - digits.length) '0' ++ digits

/-- The fraction `num / den` with `places` decimals. -/
def fixed (places num den : Nat) : String :=
  let scale := Nat.pow 10 places
  let n := roundHalfEven (num * scale) den
  String.ofList (Text.decimal (n / scale) ++ '.' :: padded places (n % scale))

/-- A nonnegative finite double-precision number is `significand * 2 ^ exponent / 2 ^ 1075`, where
a number below the normal range has the exponent 1 and no implicit leading bit. -/
def numerator (bits : UInt64) : Nat :=
  let exponent := (bits.toNat >>> 52) % 2048
  let fraction := bits.toNat % (1 <<< 52)
  if exponent = 0 then fraction * 2 else ((1 <<< 52) + fraction) <<< exponent

/-- A nonnegative finite floating-point number with `places` decimals. -/
def fixedOfFloat (places : Nat) (x : Float) : String :=
  fixed places (numerator x.toBits) (1 <<< 1075)

/-- The rounded value is never more than half a unit away. -/
theorem roundHalfEven_near (num : Nat) {den : Nat} (h : 0 < den) :
    2 * (roundHalfEven num den * den) ≤ 2 * num + den ∧
      2 * num ≤ 2 * (roundHalfEven num den * den) + den := by
  have hdiv := Nat.div_add_mod num den
  have hmod := Nat.mod_lt num h
  have hmul : num / den * den = den * (num / den) := Nat.mul_comm _ _
  unfold roundHalfEven
  simp only
  split
  · omega
  · split
    · rw [Nat.add_mul]; omega
    · rcases Nat.mod_two_eq_zero_or_one (num / den) with hp | hp <;> rw [hp, Nat.add_mul] <;> omega

end DemandPaging.Decimal
