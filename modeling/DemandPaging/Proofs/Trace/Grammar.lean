import DemandPaging.Proofs.Text.Digits
import DemandPaging.Proofs.Text.Words
import DemandPaging.Trace.Line
import Mathlib.Data.List.Basic

/-!
# The grammar of trace lines

What a line of a trace gives, said without the functions that read it. A line is three words
(`Text.Splits`), the first is a letter, the others are numerals (`AddressWord`, `ByteWord`), and
`Reads` lists the ways in which a line gives nothing, a record or an error, in the order in which
the faults of a line are noticed. The text in an error is the line without the blanks at its end.

> `readLine_eq_iff`: reading a line gives what the grammar says, and nothing else.
-/

namespace DemandPaging.Trace

open Text (Blank Splits Trims Numeral)

/-- A comment, or a line of blanks. -/
def Silent (cs : List Char) : Prop := (∃ rest, cs = '=' :: rest) ∨ Blank cs

/-- A word that denotes a number of 64 bits in hexadecimal, marked as such or not. -/
def AddressWord (word : List Char) (n : Nat) : Prop :=
  ∃ mark digits, word = mark ++ digits ∧ (mark = [] ∨ mark = ['0', 'x'] ∨ mark = ['0', 'X']) ∧
    Numeral 16 (2 ^ 64) digits n

/-- A word that denotes a number up to 255 in decimal. -/
def ByteWord (word : List Char) (n : Nat) : Prop := Numeral 10 256 word n

/-- What line number `line` gives if its characters are `cs`, which are quoted as `shown`. -/
inductive Reads (line : Nat) (cs : List Char) (shown : String) :
    Except LineError (Option Record) → Prop where
  | silent (h : Silent cs) : Reads line cs shown (.ok none)
  | wordCount {ws : List (List Char)} (talks : ¬ Silent cs) (splits : Splits cs ws)
      (h : ws.length ≠ 3) : Reads line cs shown (.error (.malformed line shown))
  | kind {w address value : List Char} (talks : ¬ Silent cs)
      (splits : Splits cs [w, address, value]) (h : ∀ k : AccessKind, w ≠ [k.letter]) :
      Reads line cs shown (.error (.invalidKind line shown))
  | number {k : AccessKind} {address value : List Char} (talks : ¬ Silent cs)
      (splits : Splits cs [[k.letter], address, value])
      (h : (∀ n, ¬ AddressWord address n) ∨ ∀ b, ¬ ByteWord value b) :
      Reads line cs shown (.error (.malformed line shown))
  | offset {k : AccessKind} {address value : List Char} {n b : Nat} (talks : ¬ Silent cs)
      (splits : Splits cs [[k.letter], address, value]) (addressWord : AddressWord address n)
      (byteWord : ByteWord value b) (h : 16 ≤ n % 4096) :
      Reads line cs shown (.error (.invalidOffset line shown))
  | record {r : Record} {address value : List Char} (talks : ¬ Silent cs)
      (splits : Splits cs [[r.kind.letter], address, value])
      (addressWord : AddressWord address r.address.raw.toNat)
      (byteWord : ByteWord value r.value.toNat) (h : r.address.raw.toNat % 4096 < 16)
      (number : r.line = line) : Reads line cs shown (.ok (some r))

/-! ## Words -/

/-- A line is passed over if it is silent. -/
theorem isSilent_iff {cs : List Char} : isSilent cs = true ↔ Silent cs := by
  unfold isSilent Silent Blank
  split
  next rest => simp
  next hne =>
    rw [List.all_eq_true, or_iff_right]
    intro hex
    obtain ⟨rest, rfl⟩ := hex
    exact hne rest rfl

/-- A kind is read from its letter, standing alone. -/
theorem kindOf?_eq_some {w : List Char} {k : AccessKind} : kindOf? w = some k ↔ w = [k.letter] := by
  refine ⟨?_, ?_⟩
  · intro h
    unfold kindOf? at h
    split at h
    next c =>
      unfold AccessKind.ofLetter? at h
      split at h
      case h_5 => simp at h
      all_goals
        obtain rfl := Option.some.inj h
        rfl
    next => simp at h
  · rintro rfl
    exact AccessKind.ofLetter?_letter k

/-- The mark is dropped, and no numeral begins with one. -/
theorem dropHexMark_append {mark digits : List Char} {n : Nat}
    (hmark : mark = [] ∨ mark = ['0', 'x'] ∨ mark = ['0', 'X'])
    (hdigits : Numeral 16 (2 ^ 64) digits n) : dropHexMark (mark ++ digits) = digits := by
  rcases hmark with rfl | rfl | rfl
  · have hread := Text.read?_eq_some_iff.mpr hdigits
    rw [List.nil_append]
    unfold dropHexMark
    split
    next => simp [Text.read?, Text.dropPlus, Text.digitsValue?, Text.digitValue?] at hread
    next => simp [Text.read?, Text.dropPlus, Text.digitsValue?, Text.digitValue?] at hread
    next => rfl
  · rfl
  · rfl

/-- What is dropped in front of an address is a mark, if anything. -/
theorem eq_append_dropHexMark (word : List Char) :
    ∃ mark, word = mark ++ dropHexMark word ∧
      (mark = [] ∨ mark = ['0', 'x'] ∨ mark = ['0', 'X']) := by
  unfold dropHexMark
  split
  next => exact ⟨['0', 'x'], rfl, Or.inr (Or.inl rfl)⟩
  next => exact ⟨['0', 'X'], rfl, Or.inr (Or.inr rfl)⟩
  next => exact ⟨[], rfl, Or.inl rfl⟩

/-- An address is read from the words that denote it. -/
theorem addressOf?_eq_some {word : List Char} {a : Address} :
    addressOf? word = some a ↔ AddressWord word a.raw.toNat := by
  unfold addressOf?
  rw [Option.map_eq_some_iff]
  refine ⟨?_, ?_⟩
  · intro hex
    obtain ⟨n, hread, rfl⟩ := hex
    have hn : (UInt64.ofNat n).toNat = n := UInt64.toNat_ofNat_of_lt' (Text.read?_lt hread)
    obtain ⟨mark, hword, hmark⟩ := eq_append_dropHexMark word
    exact ⟨mark, _, hword, hmark, hn.symm ▸ Text.read?_eq_some_iff.mp hread⟩
  · intro hex
    obtain ⟨mark, digits, rfl, hmark, hdigits⟩ := hex
    refine ⟨a.raw.toNat, ?_, by simp⟩
    rw [dropHexMark_append hmark hdigits]
    exact Text.read?_eq_some_iff.mpr hdigits

/-- A byte is read from the words that denote it. -/
theorem byteOf?_eq_some {word : List Char} {b : UInt8} :
    byteOf? word = some b ↔ ByteWord word b.toNat := by
  unfold byteOf?
  rw [Option.map_eq_some_iff]
  refine ⟨?_, ?_⟩
  · intro hex
    obtain ⟨n, hread, rfl⟩ := hex
    have hn : (UInt8.ofNat n).toNat = n := UInt8.toNat_ofNat_of_lt' (Text.read?_lt hread)
    exact hn.symm ▸ Text.read?_eq_some_iff.mp hread
  · intro hword
    exact ⟨b.toNat, Text.read?_eq_some_iff.mpr hword, by simp⟩

/-- A number in a word is one that can be an address. -/
theorem AddressWord.exists_address {word : List Char} {n : Nat} (h : AddressWord word n) :
    ∃ a : Address, addressOf? word = some a ∧ a.raw.toNat = n := by
  obtain ⟨mark, digits, hword, hmark, hdigits⟩ := h
  have hn : (UInt64.ofNat n).toNat = n :=
    UInt64.toNat_ofNat_of_lt' (Text.read?_lt (Text.read?_eq_some_iff.mpr hdigits))
  refine ⟨⟨UInt64.ofNat n⟩, addressOf?_eq_some.mpr ?_, hn⟩
  exact hn.symm ▸ ⟨mark, digits, hword, hmark, hdigits⟩

/-- A word that denotes a number up to 255 is read as a byte. -/
theorem ByteWord.exists_byte {word : List Char} {n : Nat} (h : ByteWord word n) :
    ∃ b, byteOf? word = some b := by
  have hn : (UInt8.ofNat n).toNat = n :=
    UInt8.toNat_ofNat_of_lt' (Text.read?_lt (Text.read?_eq_some_iff.mpr h))
  exact ⟨UInt8.ofNat n, byteOf?_eq_some.mpr (hn.symm ▸ h)⟩

/-! ## Lines -/

/-- Three words are read one by one. -/
theorem readLine_of_three {line : Nat} {text : String} (htalks : ¬ Silent text.toList)
    {kind address value : List Char} (hsplits : Splits text.toList [kind, address, value]) :
    readLine line text =
      (readWords line (String.ofList (Text.trimEnd text.toList)) kind address value).map some := by
  unfold readLine
  rw [if_neg (mt isSilent_iff.mp htalks), Text.words_of_splits hsplits]

theorem readLine_of_length_ne {line : Nat} {text : String} (htalks : ¬ Silent text.toList)
    {ws : List (List Char)} (hsplits : Splits text.toList ws) (h : ws.length ≠ 3) :
    readLine line text
      = .error (.malformed line (String.ofList (Text.trimEnd text.toList))) := by
  unfold readLine
  rw [if_neg (mt isSilent_iff.mp htalks), Text.words_of_splits hsplits]
  dsimp only
  split
  next => exact absurd rfl h
  next => rfl

/-- An address is simulated if it is among the first 16 bytes of its page. -/
theorem inFrame_iff {a : Address} : a.inFrame = true ↔ a.raw.toNat % 4096 < 16 :=
  decide_eq_true_iff

/-- The grammar says what reading gives. -/
theorem readLine_of_reads {line : Nat} {text : String}
    {result : Except LineError (Option Record)}
    (h : Reads line text.toList (String.ofList (Text.trimEnd text.toList)) result) :
    readLine line text = result := by
  cases h with
  | silent h =>
    unfold readLine
    rw [if_pos (isSilent_iff.mpr h)]
  | @wordCount ws talks splits h =>
    exact readLine_of_length_ne talks splits h
  | @kind w _ _ talks splits h =>
    have hkind : kindOf? w = none :=
      Option.eq_none_iff_forall_ne_some.mpr fun k hk => h k (kindOf?_eq_some.mp hk)
    rw [readLine_of_three talks splits]
    simp only [readWords, hkind]
    rfl
  | @number k address value talks splits h =>
    have hnone : addressOf? address = none ∨ byteOf? value = none := by
      refine h.imp (fun hno => ?_) fun hno => ?_
      · exact Option.eq_none_iff_forall_ne_some.mpr fun a ha => hno _ (addressOf?_eq_some.mp ha)
      · exact Option.eq_none_iff_forall_ne_some.mpr fun b hb => hno _ (byteOf?_eq_some.mp hb)
    rw [readLine_of_three talks splits]
    simp only [readWords, kindOf?_eq_some.mpr rfl]
    split
    next ha hb => simp [ha, hb] at hnone
    next => rfl
  | @offset k _ _ n _ talks splits addressWord byteWord h =>
    obtain ⟨a, haddress, rfl⟩ := addressWord.exists_address
    obtain ⟨b, hbyte⟩ := byteWord.exists_byte
    rw [readLine_of_three talks splits]
    simp only [readWords, kindOf?_eq_some.mpr rfl, haddress, hbyte]
    rw [if_neg (mt inFrame_iff.mp (Nat.not_lt.mpr h))]
    rfl
  | @record r _ _ talks splits addressWord byteWord h number =>
    rw [readLine_of_three talks splits]
    simp only [readWords, kindOf?_eq_some.mpr rfl, addressOf?_eq_some.mpr addressWord,
      byteOf?_eq_some.mpr byteWord, if_pos (inFrame_iff.mpr h), ← number]
    rfl

/-- What reading gives is in the grammar. -/
theorem reads_readLine (line : Nat) (text : String) :
    Reads line text.toList (String.ofList (Text.trimEnd text.toList)) (readLine line text) := by
  by_cases hsilent : Silent text.toList
  · rw [readLine_of_reads (.silent hsilent)]
    exact .silent hsilent
  have hsplits := Text.splits_words text.toList
  by_cases hlength : (Text.words text.toList).length = 3
  · obtain ⟨w, address, value, hwords⟩ := List.length_eq_three.mp hlength
    rw [hwords] at hsplits
    rw [readLine_of_three hsilent hsplits]
    simp only [readWords]
    cases hkind : kindOf? w with
    | none => exact .kind hsilent hsplits fun k hk => by simp [kindOf?_eq_some.mpr hk] at hkind
    | some k =>
      obtain rfl := kindOf?_eq_some.mp hkind
      dsimp only
      cases ha : addressOf? address with
      | none =>
        refine .number hsilent hsplits (Or.inl fun n hn => ?_)
        obtain ⟨a, hsome, -⟩ := hn.exists_address
        simp [ha] at hsome
      | some a =>
        cases hb : byteOf? value with
        | none =>
          refine .number hsilent hsplits (Or.inr fun n hn => ?_)
          obtain ⟨b, hsome⟩ := hn.exists_byte
          simp [hb] at hsome
        | some b =>
          dsimp only
          have haddress := addressOf?_eq_some.mp ha
          have hbyte := byteOf?_eq_some.mp hb
          split
          next hin =>
            exact .record (r := ⟨line, k, a, b⟩) hsilent hsplits haddress hbyte
              (inFrame_iff.mp hin) rfl
          next hout =>
            exact .offset hsilent hsplits haddress hbyte
              (Nat.le_of_not_lt (mt inFrame_iff.mpr hout))
  · rw [readLine_of_length_ne hsilent hsplits hlength]
    exact .wordCount hsilent hsplits hlength

/-- A line gives exactly what the grammar says, for every text. -/
theorem readLine_eq_iff (line : Nat) (text : String) :
    ∃ shown : String, Trims text.toList shown.toList ∧
      ∀ result, readLine line text = result ↔ Reads line text.toList shown result := by
  refine ⟨String.ofList (Text.trimEnd text.toList), ?_, fun result => ⟨?_, readLine_of_reads⟩⟩
  · rw [String.toList_ofList]
    exact Text.trims_trimEnd _
  · rintro rfl
    exact reads_readLine line text

end DemandPaging.Trace
