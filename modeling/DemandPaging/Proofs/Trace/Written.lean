import DemandPaging.Proofs.Text.Shown
import DemandPaging.Proofs.Trace.Reading

/-!
# What a record writes reads back

A record writes the three words that a line of a trace is read as: its letter, its address in
hexadecimal without a mark, and its byte in decimal. All of its characters are ASCII (`Visible`, or
the blank between two words), so the bytes of a record end no line, and records written one on each
line are read back one by one. Only the numbers of their lines are not written; they are counted
anew.

> `Record.readLine_text`: one record, under any number.
> `readText_written`: the records of a trace, numbered from 1.
-/

namespace DemandPaging

namespace Trace

open Text (lines encode hex decimal IsWord Numeral Visible)

/-! ## One record -/

variable {r : Record}

/-- A record is written as three words with a blank between them. -/
theorem Record.toList_text (r : Record) : r.text.toList
    = r.kind.letter :: ' ' :: hex r.address.raw.toNat ++ ' ' :: decimal r.value.toNat :=
  String.toList_ofList

/-- The address is written as a numeral of base 16. -/
theorem numeral_hex (a : Address) : Numeral 16 (2 ^ 64) (hex a.raw.toNat) a.raw.toNat :=
  Text.read?_eq_some_iff.mp (Text.read?_hex a.raw.toNat_lt)

/-- The byte is written as a numeral of base 10. -/
theorem numeral_decimal (b : UInt8) : Numeral 10 256 (decimal b.toNat) b.toNat :=
  Text.read?_eq_some_iff.mp (Text.read?_decimal b.toNat_lt)

theorem visible_letter (k : AccessKind) : Visible k.letter := by
  cases k <;> exact ⟨by decide, by decide⟩

/-- A record is written in visible characters and two blanks. -/
theorem Record.mem_text {c : Char} (hc : c ∈ r.text.toList) : Visible c ∨ c = ' ' := by
  rw [r.toList_text, List.cons_append, List.cons_append, List.mem_cons, List.mem_cons,
    List.mem_append, List.mem_cons] at hc
  rcases hc with rfl | rfl | hc | rfl | hc
  · exact Or.inl (visible_letter r.kind)
  · exact Or.inr rfl
  · exact Or.inl ((numeral_hex r.address).visible c hc)
  · exact Or.inr rfl
  · exact Or.inl ((numeral_decimal r.value).visible c hc)

/-- The words of a record are its letter and two numerals. -/
theorem Record.words_text (r : Record) : Text.words r.text.toList
    = [[r.kind.letter], hex r.address.raw.toNat, decimal r.value.toNat] := by
  have hblank : Text.isBlank ' ' = true := by decide
  have hletter : IsWord [r.kind.letter] :=
    ⟨by simp, List.forall_mem_singleton.mpr (visible_letter r.kind).isBlank_eq_false⟩
  have haddress := (numeral_hex r.address).isWord
  have hvalue := (numeral_decimal r.value).isWord
  calc Text.words r.text.toList
      = Text.words ([r.kind.letter] ++ ' ' :: (hex r.address.raw.toNat ++
          ' ' :: decimal r.value.toNat)) := congrArg Text.words r.toList_text
    _ = [r.kind.letter] :: Text.words (hex r.address.raw.toNat ++
          ' ' :: decimal r.value.toNat) := Text.words_append_blank hletter.all hletter.1 hblank _
    _ = [r.kind.letter] :: hex r.address.raw.toNat :: Text.words (decimal r.value.toNat) :=
      congrArg _ (Text.words_append_blank haddress.all haddress.1 hblank _)
    _ = _ := congrArg _ (congrArg _ (Text.words_of_no_blank hvalue.all hvalue.1))

/-- A record is not written as a comment or as nothing. -/
theorem Record.not_silent_text (r : Record) : ¬ Silent r.text.toList := by
  have hmem : r.kind.letter ∈ r.text.toList := by
    rw [r.toList_text]
    exact List.mem_cons_self
  rintro (⟨rest, hrest⟩ | hblank)
  · rw [r.toList_text] at hrest
    have hletter := AccessKind.letter_eq_iff.mp (List.cons.inj hrest).1
    simp at hletter
  · exact Bool.eq_false_iff.mp (visible_letter r.kind).isBlank_eq_false (hblank _ hmem)

/-- What a record writes is a line that gives the record, under the number of the line. -/
theorem Record.readLine_text (hin : r.address.inFrame = true) (number : Nat) :
    readLine number r.text = .ok (some { r with line := number }) :=
  readLine_of_reads (.record (r := { r with line := number }) r.not_silent_text
    (Text.words_eq_iff.mp r.words_text) ⟨[], _, rfl, Or.inl rfl, numeral_hex r.address⟩
    (numeral_decimal r.value) (inFrame_iff.mp hin) rfl)

/-- The bytes of a record are a line. -/
theorem Record.feed_not_mem_encode (r : Record) : 10 ∉ encode r.text := by
  refine Text.feed_not_mem_encode fun c hc => ?_
  rcases r.mem_text hc with ⟨hlow, hhigh⟩ | rfl
  · omega
  · decide

/-! ## Many records -/

/-- Records written one on each line. -/
def written (records : List Record) : String :=
  String.join (records.map fun r => r.text ++ "\n")

theorem encode_written_cons (r : Record) (records : List Record) :
    encode (written (r :: records)) = encode r.text ++ 10 :: encode (written records) := by
  unfold written
  rw [List.map_cons, String.join_cons, Text.encode_append, Text.encode_append, List.append_assoc]
  rfl

/-- Records that were written are read again, under the numbers of their lines. -/
theorem readFrom_written : ∀ {records : List Record},
    (∀ r ∈ records, r.address.inFrame = true) → ∀ number,
      readFrom number (lines (encode (written records)))
        = (records.zipIdx number).map fun (r, n) => .ok { r with line := n }
  | [], _, _ => rfl
  | r :: records, hin, number => by
    obtain ⟨hr, hrecords⟩ := List.forall_mem_cons.mp hin
    have hitem : itemOf? number (encode r.text) = some (.ok { r with line := number }) :=
      itemOf?_of_gives (.record (Text.decode?_encode r.text) (Record.readLine_text hr number))
    rw [encode_written_cons, Text.lines_ended r.feed_not_mem_encode, readFrom, itemOf?_dropReturn,
      hitem, readFrom_written hrecords (number + 1), List.zipIdx_cons, List.map_cons]
    rfl

/-- Records that are written are read back, with the numbers of their lines. -/
theorem readText_written {records : List Record} (hin : ∀ r ∈ records, r.address.inFrame = true) :
    readText (written records)
      = (records.zipIdx 1).map fun (r, n) => .ok { r with line := n } := by
  unfold readText
  rw [read_eq_readFrom, readFrom_written hin]

/-- But for those numbers, the records are the same. -/
theorem readText_written_renumber {records : List Record}
    (hin : ∀ r ∈ records, r.address.inFrame = true) :
    (readText (written records)).map (renumber fun _ => 0)
      = (records.map .ok).map (renumber fun _ => 0) := by
  have hfst := List.zipIdx_map_fst 1 records
  rw [readText_written hin, List.map_map, List.map_map]
  conv_rhs => rw [← hfst, List.map_map]
  rfl

end Trace

end DemandPaging
