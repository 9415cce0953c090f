/-!
# Lines of a file

A file is a sequence of bytes. A line ends at a line feed, which is not part of it; one carriage
return just before the line feed is dropped with it. Bytes after the last line feed form a last
line, which keeps a carriage return at its end. The bytes of a line need not be text: `decode?`
answers `none` for a line that is not well-formed UTF-8.
-/

namespace DemandPaging.Text

/-- Ends the line whose bytes were met in the reverse of this order. -/
def closeLine : List UInt8 → List UInt8
  | 13 :: bytes => bytes.reverse
  | bytes => bytes.reverse

/-- Splits the bytes to come, given the line begun (reversed) and the lines done (latest first). -/
def linesFrom (done : List (List UInt8)) (begun : List UInt8) : List UInt8 → List (List UInt8)
  | [] => if begun.isEmpty then done.reverse else (begun.reverse :: done).reverse
  | byte :: bytes =>
    if byte = 10 then linesFrom (closeLine begun :: done) [] bytes
    else linesFrom done (byte :: begun) bytes

/-- The lines of a file, in order. -/
def lines (bytes : List UInt8) : List (List UInt8) := linesFrom [] [] bytes

/-- The text of a line, if its bytes are well-formed UTF-8. -/
def decode? (line : List UInt8) : Option String := String.fromUTF8? ⟨line.toArray⟩

/-- The bytes of a text. -/
def encode (text : String) : List UInt8 := text.toByteArray.data.toList

/-- Lines already done come first and do not affect the rest. -/
theorem linesFrom_eq_append (done : List (List UInt8)) (begun bytes : List UInt8) :
    linesFrom done begun bytes = done.reverse ++ linesFrom [] begun bytes := by
  induction bytes generalizing done begun with
  | nil => by_cases h : begun.isEmpty <;> simp [linesFrom, h]
  | cons byte bytes ih =>
    simp only [linesFrom]
    split
    · rw [ih, ih [closeLine begun]]
      simp
    · exact ih _ _

end DemandPaging.Text
