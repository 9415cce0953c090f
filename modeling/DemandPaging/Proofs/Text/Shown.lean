import DemandPaging.Proofs.Text.Digits
import DemandPaging.Proofs.Text.Words
import Mathlib.Data.List.Forall2

/-!
# Numbers and lines as they are shown

The digits of a number are visible characters (`Visible`) and give the number back, whatever the
base is. Where a number has a fixed width (`HexDigits`) there are exactly so many of them, zeros in
front included, as long as the number fits in. A line of visible words, with a blank between any
two, is read as these words, and text that ends every line with a line feed is cut into these
lines.

> `toDigits_inj`, `HexDigits.unique`: one run of digits shows one number.
> `hexPadded_digits`: the digits of a number that fits into a width.
> `words_intercalate`, `splitOn_ended`: the words of a line and the lines of a text.
-/

namespace DemandPaging.Text

/-! ## Visible characters -/

/-- An ASCII character that is neither blank nor a control character. -/
def Visible (c : Char) : Prop := 0x20 < c.toNat ∧ c.toNat < 0x7F

/-- A visible character is no blank. -/
theorem Visible.isBlank_eq_false {c : Char} (h : Visible c) : isBlank c = false := by
  obtain ⟨hlow, hhigh⟩ := h
  refine Bool.eq_false_iff.mpr (mt isBlank_iff.mp ?_)
  simp only [whiteSpace, List.mem_cons, List.not_mem_nil, or_false]
  omega

theorem IsDigit.visible {c : Char} {d : Nat} (h : IsDigit c d) : Visible c := by
  have hcases := isDigit_iff.mp h
  unfold Visible
  omega

/-- Digits are visible. -/
theorem visible_of_digits {digits : List Char} {values : List Nat}
    (h : List.Forall₂ IsDigit digits values) : ∀ c ∈ digits, Visible c := by
  induction h with
  | nil => exact fun c hc => absurd hc List.not_mem_nil
  | cons hd _ ih => exact List.forall_mem_cons.mpr ⟨hd.visible, ih⟩

/-- Numerals are visible, with their sign. -/
theorem Numeral.visible {base limit n : Nat} {word : List Char} (h : Numeral base limit word n) :
    ∀ c ∈ word, Visible c := by
  obtain ⟨sign, digits, values, rfl, hsign, -, hdigits, -⟩ := h
  refine List.forall_mem_append.mpr ⟨?_, visible_of_digits hdigits⟩
  rcases hsign with rfl | rfl
  · exact fun c hc => absurd hc List.not_mem_nil
  · exact List.forall_mem_singleton.mpr ⟨by decide, by decide⟩

/-- Some characters, all of them visible. -/
def VisibleWord (w : List Char) : Prop := w ≠ [] ∧ ∀ c ∈ w, Visible c

instance (c : Char) : Decidable (Visible c) := inferInstanceAs (Decidable (_ ∧ _))

instance (w : List Char) : Decidable (VisibleWord w) :=
  @instDecidableAnd _ _ _ (List.decidableBAll Visible w)

theorem VisibleWord.isWord {w : List Char} (h : VisibleWord w) : IsWord w :=
  ⟨h.1, fun c hc => (h.2 c hc).isBlank_eq_false⟩

/-- A numeral is a visible word. -/
theorem Numeral.visibleWord {base limit n : Nat} {word : List Char}
    (h : Numeral base limit word n) : VisibleWord word := by
  refine ⟨?_, h.visible⟩
  obtain ⟨sign, digits, values, rfl, -, hne, -⟩ := h
  exact List.append_ne_nil_of_right_ne_nil sign hne

/-- A numeral is a word. -/
theorem Numeral.isWord {base limit n : Nat} {word : List Char} (h : Numeral base limit word n) :
    IsWord word := h.visibleWord.isWord

/-- A number is printed as a visible word. -/
theorem visibleWord_decimal (n : Nat) : VisibleWord (decimal n) :=
  (read?_eq_some_iff.mp (read?_decimal n.lt_succ_self)).visibleWord

theorem visibleWord_hex (n : Nat) : VisibleWord (hex n) :=
  (read?_eq_some_iff.mp (read?_hex n.lt_succ_self)).visibleWord

/-- A number in hexadecimal with its mark. -/
theorem visibleWord_marked {digits : List Char} (h : ∀ c ∈ digits, Visible c) :
    VisibleWord ('0' :: 'x' :: digits) := by
  refine ⟨List.cons_ne_nil _ _, ?_⟩
  simp only [List.forall_mem_cons]
  exact ⟨by decide, by decide, h⟩

/-! ## Digits -/

variable {base width n n' : Nat} {digits : List Char}

/-- Different numbers have different digits. -/
theorem toDigits_inj (h1 : 1 < base) (h16 : base ≤ 16) :
    Nat.toDigits base n = Nat.toDigits base n' ↔ n = n' := by
  refine ⟨fun h => ?_, fun h => h ▸ rfl⟩
  have hn := digitsValue?_toDigits h1 h16 n
  rw [h, digitsValue?_toDigits h1 h16, Option.some.injEq] at hn
  exact hn.symm

/-- The digits are written in lower case, the highest first. -/
theorem toDigits_eq_map (h1 : 1 < base) (n : Nat) :
    ∃ values : List Nat, Nat.toDigits base n = values.map Nat.digitChar ∧ (∀ d ∈ values, d < base) ∧
      n = Nat.ofDigits base values.reverse := by
  induction n using Nat.strongRecOn with
  | _ n ih =>
    rw [Nat.toDigits_eq_if h1]
    split
    next hlt =>
      exact ⟨[n], rfl, List.forall_mem_singleton.mpr hlt, Nat.ofDigits_singleton.symm⟩
    next hge =>
      obtain ⟨values, hdigits, hbase, hn⟩ := ih (n / base) (Nat.div_lt_self (by omega) h1)
      have hlast : n % base < base := Nat.mod_lt n (by omega)
      refine ⟨values ++ [n % base], ?_, ?_, ?_⟩
      · rw [hdigits, List.map_append, List.map_singleton]
      · exact List.forall_mem_append.mpr ⟨hbase, List.forall_mem_singleton.mpr hlast⟩
      · rw [List.reverse_append, List.reverse_singleton, List.singleton_append, Nat.ofDigits_cons,
          ← hn]
        exact (Nat.mod_add_div n base).symm

/-- So many digits of base 16, in lower case, that make up `n`. -/
def HexDigits (width n : Nat) (digits : List Char) : Prop :=
  ∃ values : List Nat, digits = values.map Nat.digitChar ∧ values.length = width ∧
    (∀ d ∈ values, d < 16) ∧ n = Nat.ofDigits 16 values.reverse

/-- The digits have the values that make up the number. -/
theorem HexDigits.isDigit (h : HexDigits width n digits) :
    ∃ values, List.Forall₂ IsDigit digits values ∧ (∀ d ∈ values, d < 16) ∧
      n = Nat.ofDigits 16 values.reverse := by
  obtain ⟨values, rfl, -, hbase, hn⟩ := h
  refine ⟨values, ?_, hbase, hn⟩
  rw [List.forall₂_map_left_iff, List.forall₂_same]
  exact fun d hd => ⟨hbase d hd, Or.inl rfl⟩

/-- Hexadecimal digits are visible. -/
theorem HexDigits.visible (h : HexDigits width n digits) : ∀ c ∈ digits, Visible c := by
  obtain ⟨values, hdigits, -⟩ := h.isDigit
  exact visible_of_digits hdigits

/-- Digits make up one number. -/
theorem HexDigits.unique (h : HexDigits width n digits) (h' : HexDigits width n' digits) :
    n = n' := by
  have hvalue : ∀ {m}, HexDigits width m digits → digitsValue? 16 0 digits = some m := by
    intro m hm
    obtain ⟨values, hdigits, hbase, hm⟩ := hm.isDigit
    exact digitsValue?_eq_some.mpr
      ⟨values, hdigits, hbase, hm.trans (ofDigits_reverse 16 values)⟩
  exact Option.some.inj ((hvalue h).symm.trans (hvalue h'))

/-- A number that fits into a width is shown with exactly so many digits. -/
theorem hexPadded_digits (hwidth : 0 < width) (hn : n < 16 ^ width) :
    ∃ digits, (hexPadded width n).toList = '0' :: 'x' :: digits ∧ HexDigits width n digits := by
  obtain ⟨values, hdigits, hbase, hvalue⟩ := toDigits_eq_map (by decide : 1 < 16) n
  have hlength : values.length = (hex n).length := by
    unfold hex
    rw [hdigits, List.length_map]
  have hle : (hex n).length ≤ width := Nat.toDigits_length 16 n width hwidth hn
  have hzeros : ∀ k, (List.replicate k 0).map Nat.digitChar = List.replicate k '0' := fun k =>
    List.map_replicate
  refine ⟨_, ?_, List.replicate (width - (hex n).length) 0 ++ values, rfl, ?_, ?_, ?_⟩
  · unfold hexPadded
    rw [String.toList_append, String.toList_ofList, String.toList_ofList, List.map_append, hzeros,
      ← hdigits]
    rfl
  · rw [List.length_append, List.length_replicate, hlength]
    omega
  · refine List.forall_mem_append.mpr ⟨fun d hd => ?_, hbase⟩
    rw [List.eq_of_mem_replicate hd]
    decide
  · rw [List.reverse_append, List.reverse_replicate, Nat.ofDigits_append,
      Nat.ofDigits_replicate_zero, Nat.mul_zero, Nat.add_zero]
    exact hvalue

/-! ## Lines and their words -/

/-- Words with a blank between any two of them are the words of the line. -/
theorem words_intercalate : ∀ {ws : List (List Char)}, (∀ w ∈ ws, IsWord w) →
    words ([' '].intercalate ws) = ws
  | [], _ => rfl
  | [w], h => by
    have hw := List.forall_mem_singleton.mp h
    rw [List.intercalate_singleton, words_of_no_blank hw.all hw.1]
  | w :: v :: ws, h => by
    obtain ⟨hw, hws⟩ := List.forall_mem_cons.mp h
    rw [List.intercalate_cons_cons, List.append_assoc, List.singleton_append,
      words_append_blank hw.all hw.1 (by decide), words_intercalate hws]

/-- Visible words with blanks between them have no line feed. -/
theorem feed_not_mem_intercalate : ∀ {ws : List (List Char)}, (∀ w ∈ ws, VisibleWord w) →
    '\n' ∉ [' '].intercalate ws
  | [], _ => List.not_mem_nil
  | [w], h => by
    have hw := List.forall_mem_singleton.mp h
    rw [List.intercalate_singleton]
    exact fun hc => absurd (hw.2 _ hc) (by decide)
  | w :: v :: ws, h => by
    obtain ⟨hw, hws⟩ := List.forall_mem_cons.mp h
    have hrest := feed_not_mem_intercalate hws
    rw [List.intercalate_cons_cons, List.append_assoc, List.mem_append, List.mem_append]
    rintro (hc | hc | hc)
    · exact absurd (hw.2 _ hc) (by decide)
    · exact absurd hc (by decide)
    · exact hrest hc

/-- Lines that are each ended by a line feed, and have no other, are the lines of the text. -/
theorem splitOn_ended : ∀ {lines : List (List Char)}, (∀ line ∈ lines, '\n' ∉ line) →
    (lines.flatMap (· ++ ['\n'])).splitOn '\n' = lines ++ [[]]
  | [], _ => List.splitOn_nil '\n'
  | line :: lines, h => by
    obtain ⟨hline, hlines⟩ := List.forall_mem_cons.mp h
    rw [List.flatMap_cons, List.append_assoc, List.singleton_append, List.splitOn_append_cons_self,
      List.splitOn_eq_singleton hline, splitOn_ended hlines]
    rfl

end DemandPaging.Text
