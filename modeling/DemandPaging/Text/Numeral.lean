/-!
# Unsigned numerals

Numbers are read in base 10 or 16: an optional plus sign, then one or more digits, with a value
below a limit. Leading zeros are free and hexadecimal digits may be of either case; a minus sign,
a blank or an underscore is never part of a numeral. They are written in lower case with no
leading zeros, so that what is written reads back (`read?_decimal`, `read?_hex`).
-/

namespace DemandPaging.Text

/-- The value of a character as a digit, up to `f`. -/
def digitValue? (c : Char) : Option Nat :=
  if '0' ≤ c ∧ c ≤ '9' then some (c.toNat - '0'.toNat)
  else if 'a' ≤ c ∧ c ≤ 'f' then some (c.toNat - 'a'.toNat + 10)
  else if 'A' ≤ c ∧ c ≤ 'F' then some (c.toNat - 'A'.toNat + 10)
  else none

/-- The value of a run of digits, given the value of those before it. -/
def digitsValue? (base : Nat) (value : Nat) : List Char → Option Nat
  | [] => some value
  | c :: cs =>
    match digitValue? c with
    | none => none
    | some d => if d < base then digitsValue? base (value * base + d) cs else none

/-- A numeral without its optional sign. -/
def dropPlus : List Char → List Char
  | '+' :: cs => cs
  | cs => cs

/-- The value of a numeral below `limit`. -/
def read? (base limit : Nat) (cs : List Char) : Option Nat :=
  match dropPlus cs with
  | [] => none
  | digits =>
    match digitsValue? base 0 digits with
    | none => none
    | some n => if n < limit then some n else none

/-- Digits in base 10. -/
def decimal (n : Nat) : List Char := Nat.toDigits 10 n

/-- Digits in base 16, lower case. -/
def hex (n : Nat) : List Char := Nat.toDigits 16 n

/-- Hexadecimal as messages show it, marked `0x`. -/
def hexText (n : Nat) : String := "0x" ++ String.ofList (hex n)

/-- Hexadecimal marked `0x` and filled with zeros to at least `width` digits. -/
def hexPadded (width n : Nat) : String :=
  "0x" ++ String.ofList (List.replicate (width - (hex n).length) '0' ++ hex n)

/-- A numeral that is read is below the limit. -/
theorem read?_lt {base limit n : Nat} {cs : List Char} (h : read? base limit cs = some n) :
    n < limit := by
  unfold read? at h
  split at h
  · exact absurd h (by simp)
  · split at h
    · exact absurd h (by simp)
    · split at h
      · simp only [Option.some.injEq] at h; omega
      · exact absurd h (by simp)

/-- Digits are read from the left, so the value of the first ones is carried on. -/
theorem digitsValue?_append (base : Nat) (xs ys : List Char) (value : Nat) :
    digitsValue? base value (xs ++ ys) =
      (digitsValue? base value xs).bind fun v => digitsValue? base v ys := by
  induction xs generalizing value with
  | nil => rfl
  | cons c cs ih =>
    simp only [List.cons_append, digitsValue?]
    split
    · rfl
    · split
      · exact ih _
      · rfl

/-- A digit is read back as its value. -/
theorem digitValue?_digitChar {d : Nat} (h : d < 16) : digitValue? d.digitChar = some d := by
  revert h d
  decide

/-- Reading the digits of a number gives the number. -/
theorem digitsValue?_toDigits {base : Nat} (h1 : 1 < base) (h16 : base ≤ 16) (n : Nat) :
    digitsValue? base 0 (Nat.toDigits base n) = some n := by
  induction n using Nat.strongRecOn with
  | _ n ih =>
    rw [Nat.toDigits_eq_if h1]
    split
    · next h =>
      simp [digitsValue?, digitValue?_digitChar (Nat.lt_of_lt_of_le h h16), h]
    · next h =>
      have hmod : n % base < base := Nat.mod_lt _ (by omega)
      rw [digitsValue?_append, ih (n / base) (Nat.div_lt_self (by omega) h1)]
      simp [digitsValue?, digitValue?_digitChar (Nat.lt_of_lt_of_le hmod h16), hmod]
      rw [Nat.mul_comm]
      exact Nat.div_add_mod n base

theorem digitChar_ne_plus {d : Nat} (h : d < 16) : d.digitChar ≠ '+' := by
  revert h d
  decide

/-- A numeral that was printed has no sign to drop. -/
theorem dropPlus_toDigits {base : Nat} (h1 : 1 < base) (h16 : base ≤ 16) (n : Nat) :
    dropPlus (Nat.toDigits base n) = Nat.toDigits base n := by
  have hmem : ∀ n, ∀ c ∈ Nat.toDigits base n, c ≠ '+' := by
    intro n
    induction n using Nat.strongRecOn with
    | _ n ih =>
      rw [Nat.toDigits_eq_if h1]
      split
      · next h =>
        intro c hc
        rw [List.mem_singleton.mp hc]
        exact digitChar_ne_plus (Nat.lt_of_lt_of_le h h16)
      · next h =>
        intro c hc
        rcases List.mem_append.mp hc with hc | hc
        · exact ih _ (Nat.div_lt_self (by omega) h1) c hc
        · rw [List.mem_singleton.mp hc]
          exact digitChar_ne_plus (Nat.lt_of_lt_of_le (Nat.mod_lt _ (by omega)) h16)
  unfold dropPlus
  split
  · next cs h => exact absurd rfl (hmem n '+' (by rw [h]; exact List.mem_cons_self ..))
  · rfl

/-- A number below the limit reads back from its digits. -/
theorem read?_toDigits {base limit n : Nat} (h1 : 1 < base) (h16 : base ≤ 16) (hn : n < limit) :
    read? base limit (Nat.toDigits base n) = some n := by
  unfold read?
  rw [dropPlus_toDigits h1 h16]
  split
  · next h => exact absurd h Nat.toDigits_ne_nil
  · rw [digitsValue?_toDigits h1 h16]
    simp [hn]

/-- A number in decimal is read back, if the limit allows it. -/
theorem read?_decimal {limit n : Nat} (h : n < limit) : read? 10 limit (decimal n) = some n :=
  read?_toDigits (by decide) (by decide) h

/-- A number in hexadecimal is read back, if the limit allows it. -/
theorem read?_hex {limit n : Nat} (h : n < limit) : read? 16 limit (hex n) = some n :=
  read?_toDigits (by decide) (by decide) h

end DemandPaging.Text
