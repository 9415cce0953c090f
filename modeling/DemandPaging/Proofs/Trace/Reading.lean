import DemandPaging.Proofs.Text.Lines
import DemandPaging.Proofs.Text.Words
import DemandPaging.Proofs.Trace.Grammar
import DemandPaging.Trace.Reader
import Mathlib.Logic.Relation

/-!
# Reading line by line

What a trace gives is what its lines give, in their order, each by its number and its bytes alone
(`Gives`, `Yields`). Hence a line can be moved: under another number it gives the same with that
number (`renumber`), and the trace behind an ended line reads as it does by itself, with its
numbers shifted.

A line that is a comment or blank gives nothing. `Interposed` puts such a line anywhere in a file,
also behind a last line that is not ended, which then ends with it.

> `read_eq_iff`: reading gives what the lines yield, and nothing else.
> `read_append`: what follows the end of a line adds what it gives itself, with other numbers.
> `read_interposed`: but for the numbers, silent lines do not matter.
-/

namespace DemandPaging

/-- The error with another number for its line. -/
def LineError.renumber (f : Nat → Nat) : LineError → LineError
  | malformed line text => malformed (f line) text
  | invalidKind line text => invalidKind (f line) text
  | invalidOffset line text => invalidOffset (f line) text
  | unreadable line reason => unreadable (f line) reason

theorem LineError.renumber_renumber (f g : Nat → Nat) (e : LineError) :
    (e.renumber g).renumber f = e.renumber (f ∘ g) := by
  cases e <;> rfl

namespace Trace

open Text (lines decode? EndsLine dropReturn)

/-- The record with another number for its line. -/
def Record.renumber (f : Nat → Nat) (r : Record) : Record := { r with line := f r.line }

/-- What a line gives, with another number for the line. -/
def renumber (f : Nat → Nat) : Except LineError Record → Except LineError Record
  | .error e => .error (e.renumber f)
  | .ok r => .ok (r.renumber f)

/-- What a line of bytes gives under its number. -/
inductive Gives (number : Nat) (line : List UInt8) :
    Option (Except LineError Record) → Prop where
  | unreadable (bytes : decode? line = none) :
      Gives number line (some (.error (.unreadable number "stream did not contain valid UTF-8")))
  | silent {text : String} (bytes : decode? line = some text)
      (reads : readLine number text = .ok none) : Gives number line none
  | refused {text : String} {e : LineError} (bytes : decode? line = some text)
      (reads : readLine number text = .error e) : Gives number line (some (.error e))
  | record {text : String} {r : Record} (bytes : decode? line = some text)
      (reads : readLine number text = .ok (some r)) : Gives number line (some (.ok r))

/-- What lines give whose numbers go up from `number`: each what it gives by itself, in their order,
also behind one that is refused. -/
inductive Yields : Nat → List (List UInt8) → List (Except LineError Record) → Prop where
  | done {number : Nat} : Yields number [] []
  | line {number : Nat} {line : List UInt8} {ls : List (List UInt8)}
      {given : Option (Except LineError Record)} {items : List (Except LineError Record)}
      (gives : Gives number line given) (rest : Yields (number + 1) ls items) :
      Yields number (line :: ls) (given.toList ++ items)

/-- A line of a file that has nothing to say. -/
def SilentLine (line : List UInt8) : Prop :=
  10 ∉ line ∧ ∃ text, decode? line = some text ∧ Silent text.toList

/-- The second file is the first with a silent line put in. -/
inductive Interposed : List UInt8 → List UInt8 → Prop where
  | within {front line bytes : List UInt8} (ends : EndsLine front) (silent : SilentLine line) :
      Interposed (front ++ bytes) (front ++ (line ++ 10 :: bytes))
  | last {front line : List UInt8} (ends : EndsLine front) (silent : SilentLine line) :
      Interposed front (front ++ line)
  | behind {front line : List UInt8} (silent : SilentLine line) :
      Interposed front (front ++ 10 :: line)

/-! ## Lines, one by one -/

/-- A line is read as what it gives. -/
theorem itemOf?_of_gives {number : Nat} {line : List UInt8}
    {given : Option (Except LineError Record)} (h : Gives number line given) :
    itemOf? number line = given := by
  unfold itemOf?
  cases h with
  | unreadable bytes => rw [bytes]
  | silent bytes reads => simp only [bytes, reads]
  | refused bytes reads => simp only [bytes, reads]
  | record bytes reads => simp only [bytes, reads]

/-- Every line gives what it is read as. -/
theorem gives_itemOf? (number : Nat) (line : List UInt8) :
    Gives number line (itemOf? number line) := by
  unfold itemOf?
  cases hbytes : decode? line with
  | none => exact .unreadable hbytes
  | some text =>
    dsimp only
    cases hreads : readLine number text with
    | error e => exact .refused hbytes hreads
    | ok record =>
      cases record with
      | none => exact .silent hbytes hreads
      | some r => exact .record hbytes hreads

/-- The items of a trace from its lines, the first of which is number `number`. -/
def readFrom : Nat → List (List UInt8) → List (Except LineError Record)
  | _, [] => []
  | number, line :: ls => (itemOf? number line).toList ++ readFrom (number + 1) ls

theorem filterMap_zipIdx : ∀ (number : Nat) (ls : List (List UInt8)),
    ((ls.zipIdx number).filterMap fun (line, number) => itemOf? number line) = readFrom number ls
  | _, [] => rfl
  | number, line :: ls => by
    rw [List.zipIdx_cons, List.filterMap_cons, filterMap_zipIdx, readFrom]
    dsimp only
    cases itemOf? number line with
    | none => rfl
    | some item => rfl

/-- Reading begins at line 1. -/
theorem read_eq_readFrom (bytes : List UInt8) : read bytes = readFrom 1 (lines bytes) :=
  filterMap_zipIdx 1 (lines bytes)

/-- Two groups of lines are read one after the other, and the numbers go on. -/
theorem readFrom_append (ls : List (List UInt8)) : ∀ (number : Nat) (front : List (List UInt8)),
    readFrom number (front ++ ls) = readFrom number front ++ readFrom (number + front.length) ls
  | _, [] => rfl
  | number, line :: front => by
    rw [List.cons_append, readFrom, readFrom, readFrom_append, List.append_assoc, List.length_cons,
      Nat.add_right_comm, Nat.add_assoc]

/-- Lines are read as what they yield. -/
theorem readFrom_of_yields {number : Nat} {ls : List (List UInt8)}
    {items : List (Except LineError Record)} (h : Yields number ls items) :
    readFrom number ls = items := by
  induction h with
  | done => rfl
  | line gives _ ih => rw [readFrom, itemOf?_of_gives gives, ih]

/-- Lines yield what they are read as. -/
theorem yields_readFrom : ∀ (number : Nat) (ls : List (List UInt8)),
    Yields number ls (readFrom number ls)
  | _, [] => .done
  | number, line :: ls => .line (gives_itemOf? number line) (yields_readFrom (number + 1) ls)

/-- A trace gives exactly what its lines yield, counted from 1. -/
theorem read_eq_iff {bytes : List UInt8} {items : List (Except LineError Record)} :
    read bytes = items ↔ Yields 1 (lines bytes) items := by
  rw [read_eq_readFrom]
  refine ⟨?_, readFrom_of_yields⟩
  rintro rfl
  exact yields_readFrom 1 (lines bytes)

/-! ## Numbers of lines -/

/-- The number of a line changes nothing but the number in what it gives. -/
theorem readWords_renumber (f : Nat → Nat) (number : Nat) (shown : String)
    (kind address value : List Char) :
    readWords (f number) shown kind address value
      = renumber f (readWords number shown kind address value) := by
  unfold readWords
  split
  next => rfl
  next =>
    split
    next =>
      split
      next => rfl
      next => rfl
    next => rfl

/-- The number of a line changes nothing else in what its text gives. -/
theorem readLine_renumber (f : Nat → Nat) (number : Nat) (text : String) :
    readLine (f number) text
      = ((readLine number text).mapError (·.renumber f)).map (Option.map (·.renumber f)) := by
  unfold readLine
  dsimp only
  by_cases hsilent : isSilent text.toList = true
  · rw [if_pos hsilent, if_pos hsilent]
    rfl
  · rw [if_neg hsilent, if_neg hsilent]
    split
    next kind address value _ =>
      rw [readWords_renumber]
      cases readWords number (String.ofList (Text.trimEnd text.toList)) kind address value with
      | error e => rfl
      | ok r => rfl
    next => rfl

/-- A number that a line gives is its own. -/
theorem itemOf?_renumber (f : Nat → Nat) (number : Nat) (line : List UInt8) :
    itemOf? (f number) line = (itemOf? number line).map (renumber f) := by
  unfold itemOf?
  cases decode? line with
  | none => rfl
  | some text =>
    dsimp only
    rw [readLine_renumber]
    cases readLine number text with
    | error e => rfl
    | ok record =>
      cases record with
      | none => rfl
      | some r => rfl

/-- Lines further down give the same with other numbers. -/
theorem readFrom_add (k : Nat) : ∀ (number : Nat) (ls : List (List UInt8)),
    readFrom (number + k) ls = (readFrom number ls).map (renumber (· + k))
  | _, [] => rfl
  | number, line :: ls => by
    have hitem := itemOf?_renumber (· + k) number line
    rw [readFrom, readFrom, hitem, Nat.add_right_comm, readFrom_add k (number + 1) ls,
      List.map_append]
    cases itemOf? number line with
    | none => rfl
    | some item => rfl

theorem renumber_comp (f g : Nat → Nat) : renumber f ∘ renumber g = renumber (f ∘ g) := by
  funext item
  cases item with
  | error e => exact congrArg _ (e.renumber_renumber f g)
  | ok r => rfl

/-- What follows the end of a line adds what it gives itself, its numbers shifted. -/
theorem read_append {front : List UInt8} (h : EndsLine front) (bytes : List UInt8) :
    read (front ++ bytes)
      = read front ++ (read bytes).map (renumber (· + (lines front).length)) := by
  rw [read_eq_readFrom, read_eq_readFrom, read_eq_readFrom, Text.lines_append h, readFrom_append,
    readFrom_add]

/-! ## Silent lines -/

/-- A blank at the end makes no line speak. -/
theorem isSilent_concat_blank {b : Char} (hb : Text.isBlank b = true) (hne : b ≠ '=')
    (cs : List Char) : isSilent (cs ++ [b]) = isSilent cs := by
  rw [Bool.eq_iff_iff, isSilent_iff, isSilent_iff]
  refine or_congr ?_ ?_
  · cases cs with
    | nil => simp [hne]
    | cons c cs => simp
  · exact List.forall_mem_append.trans (and_iff_left (List.forall_mem_singleton.mpr hb))

/-- A carriage return at the end of a text is not seen. -/
theorem readLine_push_return (number : Nat) (text : String) :
    readLine number (text.push '\r') = readLine number text := by
  have hblank : Text.isBlank '\r' = true := by decide
  unfold readLine
  dsimp only
  rw [String.toList_push, isSilent_concat_blank hblank (by decide),
    Text.trimEnd_concat_blank hblank, Text.words_concat_blank hblank]

/-- A carriage return at the end of a line is of no account. -/
theorem itemOf?_dropReturn (number : Nat) (line : List UInt8) :
    itemOf? number (dropReturn line) = itemOf? number line := by
  obtain rfl | ⟨front, byte, rfl⟩ := List.eq_nil_or_concat' line
  · rfl
  · by_cases hbyte : byte = 13
    · rw [hbyte, Text.dropReturn_append_return, itemOf?, itemOf?, Text.decode?_append_return]
      cases decode? front with
      | none => rfl
      | some text =>
        rw [Option.map_some]
        dsimp only
        rw [readLine_push_return]
    · rw [Text.dropReturn_append hbyte]

/-- A silent line gives no record and no error. -/
theorem SilentLine.gives_none {line : List UInt8} (h : SilentLine line) (number : Nat) :
    itemOf? number line = none := by
  obtain ⟨-, text, hbytes, hsilent⟩ := h
  exact itemOf?_of_gives (.silent hbytes (readLine_of_reads (.silent hsilent)))

theorem SilentLine.readFrom_lines {line : List UInt8} (h : SilentLine line) (number : Nat) :
    readFrom number (lines line) = [] := by
  by_cases hne : line = []
  · rw [hne]
    rfl
  · rw [Text.lines_last hne h.1, readFrom, h.gives_none]
    rfl

/-- A silent line in front only shifts the numbers of the lines behind it. -/
theorem SilentLine.read_ended {line : List UInt8} (h : SilentLine line) (bytes : List UInt8) :
    read (line ++ 10 :: bytes) = (read bytes).map (renumber (· + 1)) := by
  rw [read_eq_readFrom, read_eq_readFrom, Text.lines_ended h.1, readFrom, itemOf?_dropReturn,
    h.gives_none, readFrom_add]
  rfl

/-- A line reads alike whether it is ended or not, and a silent line behind it adds nothing. -/
theorem read_behind (front : List UInt8) {line : List UInt8} (h : SilentLine line) :
    read (front ++ 10 :: line) = read front := by
  obtain ⟨front, last, rfl, hends, hwhole⟩ := Text.exists_unended front
  rw [List.append_assoc, read_eq_readFrom, read_eq_readFrom, Text.lines_append hends,
    Text.lines_append hends, readFrom_append, readFrom_append, Text.lines_ended hwhole, readFrom,
    itemOf?_dropReturn, h.readFrom_lines]
  by_cases hne : last = []
  · rw [hne]
    rfl
  · rw [Text.lines_last hne hwhole]
    rfl

/-- But for the numbers of lines, a file gives the same with a silent line put in. -/
theorem read_interposed {bytes bytes' : List UInt8} (h : Interposed bytes bytes') :
    (read bytes).map (renumber fun _ => 0) = (read bytes').map (renumber fun _ => 0) := by
  cases h with
  | @within front line bytes ends silent =>
    rw [read_append ends, read_append ends, silent.read_ended, List.map_append, List.map_append,
      List.map_map, List.map_map, List.map_map, renumber_comp, renumber_comp]
    rfl
  | @last front line ends silent =>
    rw [read_append ends, read_eq_readFrom line, silent.readFrom_lines, List.map_nil,
      List.append_nil]
  | behind silent => rw [read_behind _ silent]

/-- But for the numbers of lines, silent lines do not matter. -/
theorem read_eqvGen {bytes bytes' : List UInt8} (h : Relation.EqvGen Interposed bytes bytes') :
    (read bytes).map (renumber fun _ => 0) = (read bytes').map (renumber fun _ => 0) := by
  induction h with
  | rel _ _ h => exact read_interposed h
  | refl _ => rfl
  | symm _ _ _ ih => exact ih.symm
  | trans _ _ _ _ _ ih ih' => exact ih.trans ih'

end Trace

end DemandPaging
