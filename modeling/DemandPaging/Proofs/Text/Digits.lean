import DemandPaging.Text.Numeral
import Mathlib.Data.Nat.Digits.Defs

/-!
# What a numeral is

`read?` adds up digits from the left and gives up at the first character that is none. A numeral is
said without it by `Numeral`: an optional plus sign, then at least one digit, and the number is the
one that has these digits in the base.

> `read?_eq_some_iff`: `read?` reads the numerals below the limit, and nothing else.
-/

namespace DemandPaging.Text

/-- A character that stands for a digit up to `f`; a letter may be of either case. -/
def IsDigit (c : Char) (d : Nat) : Prop := d < 16 ∧ (c = d.digitChar ∨ c = d.digitChar.toUpper)

/-- A word that denotes a number below `limit` in a base. -/
def Numeral (base limit : Nat) (word : List Char) (n : Nat) : Prop :=
  ∃ sign digits values, word = sign ++ digits ∧ (sign = [] ∨ sign = ['+']) ∧ digits ≠ [] ∧
    List.Forall₂ IsDigit digits values ∧ (∀ d ∈ values, d < base) ∧
    n = Nat.ofDigits base values.reverse ∧ n < limit

/-! ## One digit -/

/-- The code points of the digits, and of their letters in upper case. -/
theorem toNat_digitChar (d : Nat) (h : d < 16) :
    d.digitChar.toNat = (if d < 10 then d + 48 else d + 87) ∧
      d.digitChar.toUpper.toNat = if d < 10 then d + 48 else d + 55 := by
  revert d
  decide

/-- Digits are told by their code points. -/
theorem isDigit_iff {c : Char} {d : Nat} :
    IsDigit c d ↔ d < 10 ∧ c.toNat = d + 48 ∨
      10 ≤ d ∧ d < 16 ∧ (c.toNat = d + 87 ∨ c.toNat = d + 55) := by
  unfold IsDigit
  by_cases hd : d < 16
  · obtain ⟨hlower, hupper⟩ := toNat_digitChar d hd
    rw [← Char.toNat_inj, ← Char.toNat_inj, hlower, hupper]
    split <;> omega
  · omega

theorem digitValue?_eq_some {c : Char} {d : Nat} : digitValue? c = some d ↔ IsDigit c d := by
  have hrange : ∀ a b : Char, (a ≤ c ∧ c ≤ b) ↔ (a.toNat ≤ c.toNat ∧ c.toNat ≤ b.toNat) := by
    intro a b
    rw [Char.le_def, Char.le_def, UInt32.le_iff_toNat_le, UInt32.le_iff_toNat_le]
    rfl
  have h0 : '0'.toNat = 48 := rfl
  have h9 : '9'.toNat = 57 := rfl
  have ha : 'a'.toNat = 97 := rfl
  have hf : 'f'.toNat = 102 := rfl
  have hA : 'A'.toNat = 65 := rfl
  have hF : 'F'.toNat = 70 := rfl
  rw [isDigit_iff]
  unfold digitValue?
  simp only [hrange, h0, h9, ha, hf, hA, hF]
  split
  next => simp only [Option.some.injEq]; omega
  next =>
    split
    next => simp only [Option.some.injEq]; omega
    next =>
      split
      next => simp only [Option.some.injEq]; omega
      next => simp only [reduceCtorEq, false_iff]; omega

/-! ## A run of digits -/

/-- Reading from the left takes a run of digits on from the value of those before it. -/
theorem digitsValue?_eq_some {base : Nat} {cs : List Char} {value n : Nat} :
    digitsValue? base value cs = some n ↔ ∃ values, List.Forall₂ IsDigit cs values ∧
      (∀ d ∈ values, d < base) ∧ n = values.foldl (fun v d => v * base + d) value := by
  induction cs generalizing value with
  | nil =>
    refine ⟨?_, ?_⟩
    · intro h
      exact ⟨[], .nil, fun _ hd => absurd hd List.not_mem_nil, (Option.some.inj h).symm⟩
    · intro hex
      obtain ⟨values, hdigits, -, rfl⟩ := hex
      cases hdigits
      rfl
  | cons c cs ih =>
    refine ⟨?_, ?_⟩
    · intro h
      rw [digitsValue?] at h
      split at h
      next => simp at h
      next d hd =>
        split at h
        next hlt =>
          obtain ⟨values, hdigits, hbase, rfl⟩ := ih.mp h
          exact ⟨d :: values, .cons (digitValue?_eq_some.mp hd) hdigits,
            List.forall_mem_cons.mpr ⟨hlt, hbase⟩, rfl⟩
        next => simp at h
    · intro hex
      obtain ⟨values, hdigits, hbase, rfl⟩ := hex
      cases hdigits with
      | @cons _ d _ values hd hdigits =>
        obtain ⟨hlt, hbase⟩ := List.forall_mem_cons.mp hbase
        rw [digitsValue?, digitValue?_eq_some.mpr hd]
        dsimp only
        rw [if_pos hlt]
        exact ih.mpr ⟨values, hdigits, hbase, rfl⟩

/-- The number with given digits, the first being the highest. -/
theorem ofDigits_reverse (base : Nat) (values : List Nat) :
    Nat.ofDigits base values.reverse = values.foldl (fun v d => v * base + d) 0 := by
  rw [Nat.ofDigits_eq_foldr, List.foldr_reverse]
  congr 1
  funext v d
  rw [Nat.cast_id, Nat.add_comm, Nat.mul_comm]

/-! ## Numerals -/

/-- The sign is dropped, and what begins with a digit has none. -/
theorem dropPlus_append {sign digits : List Char} (hsign : sign = [] ∨ sign = ['+'])
    {values : List Nat} (hne : digits ≠ []) (hdigits : List.Forall₂ IsDigit digits values) :
    dropPlus (sign ++ digits) = digits := by
  rcases hsign with rfl | rfl
  · cases hdigits with
    | nil => exact absurd rfl hne
    | @cons c d _ _ hd _ =>
      rw [List.nil_append]
      unfold dropPlus
      split
      next heq =>
        obtain ⟨rfl, -⟩ := List.cons.inj heq
        exact absurd (digitValue?_eq_some.mpr hd) (by simp [digitValue?])
      next => rfl
  · rfl

/-- What is dropped in front of a number is a sign, if anything. -/
theorem eq_append_dropPlus (word : List Char) :
    ∃ sign, word = sign ++ dropPlus word ∧ (sign = [] ∨ sign = ['+']) := by
  unfold dropPlus
  split
  next cs => exact ⟨['+'], rfl, Or.inr rfl⟩
  next => exact ⟨[], rfl, Or.inl rfl⟩

/-- What can be read below a limit are the numerals below it. -/
theorem read?_eq_some_iff {base limit : Nat} {word : List Char} {n : Nat} :
    read? base limit word = some n ↔ Numeral base limit word n := by
  refine ⟨?_, ?_⟩
  · intro h
    obtain ⟨sign, hword, hsign⟩ := eq_append_dropPlus word
    unfold read? at h
    split at h
    next => simp at h
    next hne =>
      split at h
      next => simp at h
      next value hvalue =>
        split at h
        next hlt =>
          obtain rfl := Option.some.inj h
          obtain ⟨values, hdigits, hbase, hn⟩ := digitsValue?_eq_some.mp hvalue
          exact ⟨sign, _, values, hword, hsign, hne, hdigits, hbase,
            hn.trans (ofDigits_reverse base values).symm, hlt⟩
        next => simp at h
  · intro hex
    obtain ⟨sign, digits, values, rfl, hsign, hne, hdigits, hbase, rfl, hlt⟩ := hex
    have hvalue : digitsValue? base 0 digits = some (Nat.ofDigits base values.reverse) :=
      digitsValue?_eq_some.mpr ⟨values, hdigits, hbase, ofDigits_reverse base values⟩
    unfold read?
    rw [dropPlus_append hsign hne hdigits]
    split
    next => exact absurd rfl hne
    next =>
      rw [hvalue]
      exact if_pos hlt

/-- A numeral denotes a number below the limit. -/
theorem Numeral.lt {base limit n : Nat} {word : List Char} (h : Numeral base limit word n) :
    n < limit :=
  read?_lt (read?_eq_some_iff.mpr h)

/-- A word denotes one number. -/
theorem Numeral.unique {base limit n n' : Nat} {word : List Char} (h : Numeral base limit word n)
    (h' : Numeral base limit word n') : n = n' :=
  Option.some.inj ((read?_eq_some_iff.mpr h).symm.trans (read?_eq_some_iff.mpr h'))

end DemandPaging.Text
