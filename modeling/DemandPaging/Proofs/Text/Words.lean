import DemandPaging.Text.Blank
import Mathlib.Data.List.TakeWhile

/-!
# What the words of a text are

`words` reads a text from its end, one character at a time. What it finds is said without it by
`Splits`: the text is made of the words in their order, with blanks between any two of them and
perhaps before the first and behind the last, and no word has a blank in it.

> `isBlank_iff`: which characters are blank.
> `words_eq_iff`: a text has one such reading, and `words` finds it.
> `trims_trimEnd`: what is left of a text without the blanks at its end.
-/

namespace DemandPaging.Text

/-- The code points with the Unicode property White_Space, one by one. -/
def whiteSpace : List Nat :=
  [0x9, 0xA, 0xB, 0xC, 0xD, 0x20, 0x85, 0xA0, 0x1680, 0x2000, 0x2001, 0x2002, 0x2003, 0x2004,
    0x2005, 0x2006, 0x2007, 0x2008, 0x2009, 0x200A, 0x2028, 0x2029, 0x202F, 0x205F, 0x3000]

/-- Blanks are the characters of the list, all of them. -/
theorem isBlank_iff {c : Char} : isBlank c = true ↔ c.toNat ∈ whiteSpace := by
  simp only [isBlank, whiteSpace, Bool.or_eq_true, Bool.and_eq_true, decide_eq_true_eq, beq_iff_eq,
    List.mem_cons, List.not_mem_nil, or_false]
  omega

/-- Blanks and nothing else. -/
def Blank (cs : List Char) : Prop := ∀ c ∈ cs, isBlank c = true

/-- Some characters, and no blank among them. -/
def IsWord (w : List Char) : Prop := w ≠ [] ∧ ∀ c ∈ w, isBlank c = false

/-- A text is made of words and the blanks around them. -/
inductive Splits : List Char → List (List Char) → Prop where
  | blank {cs : List Char} (h : Blank cs) : Splits cs []
  | word {before w rest : List Char} {ws : List (List Char)} (blank : Blank before)
      (isWord : IsWord w) (ends : ∀ c, rest.head? = some c → isBlank c = true)
      (splits : Splits rest ws) : Splits (before ++ w ++ rest) (w :: ws)

/-- `shown` is the text without the blanks at its end. -/
def Trims (cs shown : List Char) : Prop :=
  ∃ blanks, cs = shown ++ blanks ∧ Blank blanks ∧ ∀ c, shown.getLast? = some c → isBlank c = false

theorem Blank.all {cs : List Char} (h : Blank cs) : cs.all isBlank = true :=
  List.all_eq_true.mpr h

theorem IsWord.all {w : List Char} (h : IsWord w) : w.all (fun c => !isBlank c) = true :=
  List.all_eq_true.mpr fun c hc => by rw [h.2 c hc]; rfl

/-! ## Every reading is found -/

/-- Blanks in front separate nothing. -/
theorem words_append_of_blank {before : List Char} (h : Blank before) (cs : List Char) :
    words (before ++ cs) = words cs := by
  induction before with
  | nil => rfl
  | cons c before ih =>
    rw [List.cons_append, words, if_pos (h c List.mem_cons_self)]
    exact ih fun d hd => h d (List.mem_cons_of_mem c hd)

/-- A word ends at a blank or with the text. -/
theorem words_append_of_word {w rest : List Char} (h : IsWord w)
    (hends : ∀ c, rest.head? = some c → isBlank c = true) :
    words (w ++ rest) = w :: words rest := by
  cases rest with
  | nil =>
    rw [List.append_nil]
    exact words_of_no_blank h.all h.1
  | cons b rest =>
    have hb : isBlank b = true := hends b rfl
    rw [words_append_blank h.all h.1 hb, words, if_pos hb]

/-- Words are cut as they must be: a text splits in one way only. -/
theorem words_of_splits {cs : List Char} {ws : List (List Char)} (h : Splits cs ws) :
    words cs = ws := by
  induction h with
  | blank h => exact words_eq_nil_of_all_blank h.all
  | word blank isWord ends _ ih =>
    rw [List.append_assoc, words_append_of_blank blank, words_append_of_word isWord ends, ih]

/-! ## What is found is a reading -/

/-- A blank in front belongs to no word. -/
theorem Splits.cons_blank {c : Char} (hc : isBlank c = true) {cs : List Char}
    {ws : List (List Char)} (h : Splits cs ws) : Splits (c :: cs) ws := by
  cases h with
  | blank h => exact .blank (List.forall_mem_cons.mpr ⟨hc, h⟩)
  | @word before _ _ _ blank isWord ends splits =>
    have hblank : Blank (c :: before) := List.forall_mem_cons.mpr ⟨hc, blank⟩
    exact .word hblank isWord ends splits

/-- Where the text starts with a word, a character in front of it belongs to that word. -/
theorem Splits.cons_startsWord {c : Char} (hc : isBlank c = false) {cs : List Char}
    (hstarts : startsWord cs = true) {ws : List (List Char)} (h : Splits cs ws) :
    ∃ w rest, ws = w :: rest ∧ Splits (c :: cs) ((c :: w) :: rest) := by
  cases h with
  | blank h =>
    cases cs with
    | nil => simp [startsWord] at hstarts
    | cons d ds =>
      have hd := h d List.mem_cons_self
      simp [startsWord, hd] at hstarts
  | @word before w rest _ blank isWord ends splits =>
    cases before with
    | nil =>
      have hword : IsWord (c :: w) := ⟨by simp, List.forall_mem_cons.mpr ⟨hc, isWord.2⟩⟩
      exact ⟨w, _, rfl, @Splits.word [] _ _ _ blank hword ends splits⟩
    | cons d ds =>
      have hd := blank d List.mem_cons_self
      simp [startsWord, hd] at hstarts

/-- Every text splits into its words. -/
theorem splits_words (cs : List Char) : Splits cs (words cs) := by
  induction cs with
  | nil => exact .blank fun c hc => absurd hc List.not_mem_nil
  | cons c cs ih =>
    rw [words]
    split
    next hc => exact ih.cons_blank hc
    next hc =>
      have hc : isBlank c = false := Bool.eq_false_iff.mpr hc
      split
      next hstarts =>
        obtain ⟨w, rest, hwords, hsplits⟩ := ih.cons_startsWord hc hstarts
        rw [hwords]
        exact hsplits
      next hstarts =>
        -- the character is a word of its own
        refine @Splits.word [] [c] _ _ (fun _ hd => absurd hd List.not_mem_nil)
          ⟨by simp, List.forall_mem_singleton.mpr hc⟩ (fun d hd => ?_) ih
        cases cs with
        | nil => simp at hd
        | cons e es =>
          obtain rfl : e = d := Option.some.inj hd
          simpa [startsWord] using hstarts

/-- The words of a text are the one way to read it as words. -/
theorem words_eq_iff {cs : List Char} {ws : List (List Char)} : words cs = ws ↔ Splits cs ws := by
  refine ⟨?_, words_of_splits⟩
  rintro rfl
  exact splits_words cs

/-! ## The end of a text -/

/-- A blank behind belongs to no word. -/
theorem Splits.concat_blank {b : Char} (hb : isBlank b = true) {cs : List Char}
    {ws : List (List Char)} (h : Splits cs ws) : Splits (cs ++ [b]) ws := by
  induction h with
  | blank h => exact .blank (List.forall_mem_append.mpr ⟨h, List.forall_mem_singleton.mpr hb⟩)
  | @word before w rest _ blank isWord ends splits ih =>
    rw [List.append_assoc]
    refine .word blank isWord (fun c hc => ?_) ih
    cases rest with
    | nil =>
      obtain rfl : b = c := Option.some.inj hc
      exact hb
    | cons d rest => exact ends c hc

/-- A blank at the end adds no word. -/
theorem words_concat_blank {b : Char} (hb : isBlank b = true) (cs : List Char) :
    words (cs ++ [b]) = words cs :=
  words_of_splits ((splits_words cs).concat_blank hb)

/-- A blank at the end is trimmed. -/
theorem trimEnd_concat_blank {b : Char} (hb : isBlank b = true) (cs : List Char) :
    trimEnd (cs ++ [b]) = trimEnd cs := by
  rw [trimEnd, List.reverse_append, List.reverse_singleton, List.singleton_append,
    List.dropWhile_cons_of_pos hb]
  rfl

/-- What is trimmed off are blanks, and what is left does not end in one. -/
theorem trims_trimEnd (cs : List Char) : Trims cs (trimEnd cs) := by
  refine ⟨(cs.reverse.takeWhile isBlank).reverse, ?_, ?_, ?_⟩
  · rw [trimEnd, ← List.reverse_append, List.takeWhile_append_dropWhile, List.reverse_reverse]
  · intro c hc
    exact List.mem_takeWhile_imp (List.mem_reverse.mp hc)
  · intro c hc
    rw [trimEnd, List.getLast?_reverse] at hc
    have hnot := List.head?_dropWhile_not isBlank cs.reverse
    rw [hc] at hnot
    simpa using hnot

end DemandPaging.Text
