import DemandPaging.Text.Lines
import Mathlib.Data.List.Basic

/-!
# What the lines of a file are

`lines` goes through the bytes once, with the line begun and the lines done. `LinesOf` says what it
finds: the bytes up to a line feed are a line, without one carriage return at their end, and bytes
behind the last line feed are a line as they are. Lines are found on either side of a line feed
without regard to the other side.

> `lines_eq_iff`: bytes have one such reading, and `lines` finds it.
> `lines_append`: what follows the end of a line adds its own lines.
> `decode?_append_return`: a carriage return at the end of a line is one more character of its text.
> `decode?_encode`, `feed_not_mem_encode`: what the bytes of a text are as a line.
-/

namespace DemandPaging.Text

/-- A line without the carriage return at its end, if there is one. -/
def dropReturn (line : List UInt8) : List UInt8 :=
  if line.getLast? = some 13 then line.dropLast else line

/-- Bytes are made of lines, each ended by a line feed except perhaps the last. -/
inductive LinesOf : List UInt8 → List (List UInt8) → Prop where
  | none : LinesOf [] []
  | last {line : List UInt8} (ne : line ≠ []) (whole : 10 ∉ line) : LinesOf line [line]
  | ended {line bytes : List UInt8} {ls : List (List UInt8)} (whole : 10 ∉ line)
      (rest : LinesOf bytes ls) : LinesOf (line ++ 10 :: bytes) (dropReturn line :: ls)

/-- What follows these bytes starts a line. -/
def EndsLine (bytes : List UInt8) : Prop := bytes = [] ∨ ∃ front, bytes = front ++ [10]

/-! ## Lines, one by one -/

/-- One carriage return at the end is dropped. -/
@[simp] theorem dropReturn_append_return (line : List UInt8) :
    dropReturn (line ++ [13]) = line := by
  simp [dropReturn]

/-- At the end of a line any byte but a carriage return stays. -/
theorem dropReturn_append {byte : UInt8} (h : byte ≠ 13) (line : List UInt8) :
    dropReturn (line ++ [byte]) = line ++ [byte] := by
  simp [dropReturn, h]

/-- A line is collected backwards and closed without its carriage return. -/
theorem closeLine_reverse (line : List UInt8) : closeLine line.reverse = dropReturn line := by
  obtain rfl | ⟨front, byte, rfl⟩ := List.eq_nil_or_concat' line
  · rfl
  · rw [List.reverse_append, List.reverse_singleton, List.singleton_append]
    by_cases hbyte : byte = 13
    · rw [hbyte, dropReturn_append_return]
      exact List.reverse_reverse front
    · rw [dropReturn_append hbyte, closeLine]
      · simp
      · rintro bytes ⟨⟩
        exact hbyte rfl

/-- Bytes without a line feed go to the line that has begun. -/
theorem linesFrom_append_of_whole {line : List UInt8} (h : 10 ∉ line) (begun bytes : List UInt8) :
    linesFrom [] begun (line ++ bytes) = linesFrom [] (line.reverse ++ begun) bytes := by
  induction line generalizing begun with
  | nil => rfl
  | cons byte line ih =>
    obtain ⟨hbyte, hline⟩ := List.ne_and_not_mem_of_not_mem_cons h
    rw [List.cons_append, linesFrom, if_neg (Ne.symm hbyte), ih hline, List.reverse_cons,
      List.append_assoc]
    rfl

/-- A line feed ends a line. -/
theorem lines_ended {line : List UInt8} (h : 10 ∉ line) (bytes : List UInt8) :
    lines (line ++ 10 :: bytes) = dropReturn line :: lines bytes := by
  unfold lines
  rw [linesFrom_append_of_whole h, List.append_nil, linesFrom, if_pos rfl, linesFrom_eq_append,
    closeLine_reverse]
  rfl

/-- What has no line feed at its end is the last line, with its carriage return. -/
theorem lines_last {line : List UInt8} (hne : line ≠ []) (h : 10 ∉ line) : lines line = [line] := by
  have hlines := linesFrom_append_of_whole h [] []
  rw [List.append_nil, List.append_nil] at hlines
  unfold lines
  rw [hlines, linesFrom, if_neg (by simpa using hne)]
  simp

/-- Bytes are cut into the lines that they are made of. -/
theorem lines_of_linesOf {bytes : List UInt8} {ls : List (List UInt8)} (h : LinesOf bytes ls) :
    lines bytes = ls := by
  induction h with
  | none => rfl
  | last ne whole => exact lines_last ne whole
  | ended whole _ ih => rw [lines_ended whole, ih]

/-- The bytes up to the first line feed are a line, and so on behind it. -/
theorem linesOf_lines (bytes : List UInt8) : LinesOf bytes (lines bytes) := by
  by_cases hmem : 10 ∈ bytes
  · obtain ⟨line, rest, rfl, hwhole⟩ := List.eq_append_cons_of_mem hmem
    rw [lines_ended hwhole]
    exact .ended hwhole (linesOf_lines rest)
  · by_cases hne : bytes = []
    · rw [hne]
      exact .none
    · rw [lines_last hne hmem]
      exact .last hne hmem
  termination_by bytes.length
  decreasing_by
    rw [‹bytes = _›, List.length_append, List.length_cons]
    omega

/-- The lines of a file are the one way to read it as lines. -/
theorem lines_eq_iff {bytes : List UInt8} {ls : List (List UInt8)} :
    lines bytes = ls ↔ LinesOf bytes ls := by
  refine ⟨?_, lines_of_linesOf⟩
  rintro rfl
  exact linesOf_lines bytes

example : lines [97, 13, 10, 10, 98, 13] = [[97], [], [98, 13]] := by decide

/-! ## Lines of joined files -/

theorem linesFrom_append_feed (done : List (List UInt8)) (begun front bytes : List UInt8) :
    linesFrom done begun (front ++ 10 :: bytes)
      = linesFrom done begun (front ++ [10]) ++ lines bytes := by
  induction front generalizing done begun with
  | nil =>
    rw [List.nil_append, List.nil_append, linesFrom, linesFrom, if_pos rfl, if_pos rfl,
      linesFrom_eq_append]
    rfl
  | cons byte front ih =>
    rw [List.cons_append, List.cons_append, linesFrom, linesFrom]
    split
    next => exact ih _ _
    next => exact ih _ _

/-- Behind the end of a line, what came before it no longer matters. -/
theorem lines_append {front : List UInt8} (h : EndsLine front) (bytes : List UInt8) :
    lines (front ++ bytes) = lines front ++ lines bytes := by
  obtain rfl | ⟨front, rfl⟩ := h
  · rfl
  · rw [List.append_assoc]
    exact linesFrom_append_feed [] [] front bytes

/-- A file is what ends its lines, and then a line that is not ended, which may be empty. -/
theorem exists_unended (bytes : List UInt8) :
    ∃ front line, bytes = front ++ line ∧ EndsLine front ∧ 10 ∉ line := by
  have hlines := linesOf_lines bytes
  generalize lines bytes = ls at hlines
  induction hlines with
  | none => exact ⟨[], [], rfl, Or.inl rfl, List.not_mem_nil⟩
  | @last line _ whole => exact ⟨[], line, rfl, Or.inl rfl, whole⟩
  | @ended ended _ _ _ _ ih =>
    obtain ⟨front, line, rfl, hfront, hwhole⟩ := ih
    refine ⟨ended ++ 10 :: front, line, by simp, Or.inr ?_, hwhole⟩
    obtain rfl | ⟨front, rfl⟩ := hfront
    · exact ⟨ended, rfl⟩
    · exact ⟨ended ++ 10 :: front, by simp⟩

/-! ## The text of a line -/

/-- A carriage return is a character by itself, which can be split off the end of a text. -/
theorem isValidUTF8_append_return {bytes : ByteArray} :
    (bytes ++ [13].toByteArray).IsValidUTF8 ↔ bytes.IsValidUTF8 := by
  have hreturn : ['\r'].utf8Encode = [13].toByteArray := by decide
  refine ⟨?_, fun h => ?_⟩
  · intro h
    let text : String := ⟨bytes ++ [13].toByteArray, h⟩
    have hlt : (⟨bytes.size⟩ : String.Pos.Raw) < text.rawEndPos := by
      show bytes.size < (bytes ++ [13].toByteArray).size
      rw [ByteArray.size_append]
      exact Nat.lt_succ_self bytes.size
    have hbyte : text.getUTF8Byte ⟨bytes.size⟩ hlt = 13 := by
      rw [String.getUTF8Byte_eq_getElem, ByteArray.getElem_append_right (Nat.le_refl _)]
      simp only [Nat.sub_self]
      rfl
    have hfirst : (text.getUTF8Byte ⟨bytes.size⟩ hlt).IsUTF8FirstByte := by
      rw [hbyte]
      decide
    have hvalid : String.Pos.Raw.IsValid text ⟨bytes.size⟩ :=
      String.Pos.Raw.isValid_iff_isUTF8FirstByte.mpr (Or.inr ⟨hlt, hfirst⟩)
    have hfront : (bytes ++ [13].toByteArray).extract 0 bytes.size = bytes :=
      ByteArray.extract_append_eq_left rfl
    exact hfront ▸ hvalid.isValidUTF8_extract_zero
  · exact h.append (hreturn ▸ ByteArray.isValidUTF8_utf8Encode)

/-- A carriage return is decoded as itself. -/
theorem decode?_append_return (line : List UInt8) :
    decode? (line ++ [13]) = (decode? line).map (·.push '\r') := by
  have hbytes : (⟨(line ++ [13]).toArray⟩ : ByteArray) = ⟨line.toArray⟩ ++ [13].toByteArray := by
    rw [ByteArray.ext_iff, ByteArray.data_append]
    simp
  unfold decode? String.fromUTF8?
  rw [hbytes]
  by_cases h : (ByteArray.mk line.toArray).IsValidUTF8
  · rw [dif_pos h, dif_pos (isValidUTF8_append_return.mpr h)]
    refine congrArg some (String.toByteArray_inj.mp ?_)
    rw [String.toByteArray_push]
    rfl
  · rw [dif_neg h, dif_neg (mt isValidUTF8_append_return.mp h)]
    rfl

/-! ## Bytes of a text -/

/-- Texts are encoded one after the other. -/
theorem encode_append (text text' : String) :
    encode (text ++ text') = encode text ++ encode text' := by
  unfold encode
  rw [String.toByteArray_append, ByteArray.data_append, Array.toList_append]

/-- Whatever was encoded is decoded again. -/
theorem decode?_encode (text : String) : decode? (encode text) = some text := by
  unfold decode? encode String.fromUTF8?
  rw [dif_pos text.isValidUTF8]
  rfl

/-- An ASCII character is its own byte. -/
theorem utf8Encode_of_ascii : ∀ {cs : List Char}, (∀ c ∈ cs, c.toNat < 0x80) →
    cs.utf8Encode.data.toList = cs.map fun c => UInt8.ofNat c.toNat
  | [], _ => rfl
  | c :: cs, h => by
    obtain ⟨hc, hcs⟩ := List.forall_mem_cons.mp h
    have hsize : c.utf8Size = 1 := Char.utf8Size_eq_one_iff.mpr (by
      rw [UInt32.le_iff_toNat_le]
      exact Nat.le_of_lt_succ hc)
    rw [List.utf8Encode_cons, ByteArray.data_append, Array.toList_append, utf8Encode_of_ascii hcs,
      List.utf8Encode_singleton, String.utf8EncodeChar_eq_singleton hsize]
    rfl

/-- ASCII text without a line feed has no byte that ends a line. -/
theorem feed_not_mem_encode {text : String}
    (h : ∀ c ∈ text.toList, c.toNat < 0x80 ∧ c.toNat ≠ 10) : 10 ∉ encode text := by
  unfold encode
  rw [← String.utf8Encode_toList, utf8Encode_of_ascii fun c hc => (h c hc).1, List.mem_map]
  rintro ⟨c, hc, hbyte⟩
  obtain ⟨hlt, hne⟩ := h c hc
  have hten := congrArg UInt8.toNat hbyte
  rw [UInt8.toNat_ofNat_of_lt' (Nat.lt_trans hlt (by decide))] at hten
  exact hne hten

end DemandPaging.Text
