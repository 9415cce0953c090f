/-!
# Blank characters and words

The blank characters are those with the Unicode property White_Space. A trace line is read as its
words, the maximal runs of characters that are not blank, and shown in a message with the blanks
at its end left out.
-/

namespace DemandPaging.Text

/-- The code points with the Unicode property White_Space. -/
def isBlank (c : Char) : Bool :=
  let n := c.toNat
  (0x9 ≤ n && n ≤ 0xD) || n == 0x20 || n == 0x85 || n == 0xA0 || n == 0x1680 ||
    (0x2000 ≤ n && n ≤ 0x200A) || n == 0x2028 || n == 0x2029 || n == 0x202F || n == 0x205F ||
    n == 0x3000

/-- Whether a word goes on at the front of the text. -/
def startsWord : List Char → Bool
  | [] => false
  | c :: _ => !isBlank c

/-- The maximal runs of characters that are not blank, in order. -/
def words : List Char → List (List Char)
  | [] => []
  | c :: cs =>
    if isBlank c then words cs
    else if startsWord cs then
      match words cs with
      | [] => [[c]]
      | w :: ws => (c :: w) :: ws
    else [c] :: words cs

/-- The text without the blanks at its end. -/
def trimEnd (cs : List Char) : List Char :=
  (cs.reverse.dropWhile isBlank).reverse

theorem words_eq_nil_of_all_blank {cs : List Char} (h : cs.all isBlank = true) :
    words cs = [] := by
  induction cs with
  | nil => rfl
  | cons c cs ih =>
    simp only [List.all_cons, Bool.and_eq_true] at h
    simp [words, h.1, ih h.2]

/-- A word followed by a blank is read off whole. -/
theorem words_append_blank {w : List Char} (hw : w.all (fun c => !isBlank c) = true)
    (hne : w ≠ []) {b : Char} (hb : isBlank b = true) (rest : List Char) :
    words (w ++ b :: rest) = w :: words rest := by
  induction w with
  | nil => exact absurd rfl hne
  | cons c cs ih =>
    simp only [List.all_cons, Bool.and_eq_true, Bool.not_eq_true'] at hw
    cases cs with
    | nil => simp [words, hw.1, startsWord, hb]
    | cons d ds =>
      have hd : isBlank d = false := by
        have := hw.2
        simp only [List.all_cons, Bool.and_eq_true, Bool.not_eq_true'] at this
        exact this.1
      have h := ih hw.2 (by simp)
      rw [List.cons_append, words, if_neg (by simp [hw.1]), if_pos (by simp [startsWord, hd]), h]

/-- A word at the end of the text is read off whole. -/
theorem words_of_no_blank {w : List Char} (hw : w.all (fun c => !isBlank c) = true)
    (hne : w ≠ []) : words w = [w] := by
  induction w with
  | nil => exact absurd rfl hne
  | cons c cs ih =>
    simp only [List.all_cons, Bool.and_eq_true, Bool.not_eq_true'] at hw
    cases cs with
    | nil => simp [words, hw.1, startsWord]
    | cons d ds =>
      have hd : isBlank d = false := by
        have := hw.2
        simp only [List.all_cons, Bool.and_eq_true, Bool.not_eq_true'] at this
        exact this.1
      rw [words, if_neg (by simp [hw.1]), if_pos (by simp [startsWord, hd]), ih hw.2 (by simp)]

end DemandPaging.Text
