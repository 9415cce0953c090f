import DemandPaging.Error
import DemandPaging.Text.Blank
import DemandPaging.Trace.Record

/-!
# Trace lines

A line that starts with `=` is a comment, and a blank line says nothing. Any other line must be
three words: the letter of an access, an address in hexadecimal, with or without `0x` in front,
and a byte in decimal. Of several faults the number of words is noticed first, then the letter,
then the numbers, and last an offset beyond the simulated bytes of a page.
-/

namespace DemandPaging.Trace

/-- The kind of access a word stands for: it is a single letter. -/
def kindOf? : List Char → Option AccessKind
  | [c] => AccessKind.ofLetter? c
  | _ => none

/-- Drops the mark of a hexadecimal number, once. -/
def dropHexMark : List Char → List Char
  | '0' :: 'x' :: cs => cs
  | '0' :: 'X' :: cs => cs
  | cs => cs

/-- The address that a word stands for. -/
def addressOf? (word : List Char) : Option Address :=
  (Text.read? 16 UInt64.size (dropHexMark word)).map fun n => ⟨UInt64.ofNat n⟩

/-- The byte that a word stands for. -/
def byteOf? (word : List Char) : Option UInt8 :=
  (Text.read? 10 UInt8.size word).map UInt8.ofNat

/-- Whether a line has nothing to say. -/
def isSilent : List Char → Bool
  | '=' :: _ => true
  | cs => cs.all Text.isBlank

/-- Reads the three words of a line; `shown` is the line as an error quotes it. -/
def readWords (line : Nat) (shown : String) (kind address value : List Char) :
    Except LineError Record :=
  match kindOf? kind with
  | none => .error (.invalidKind line shown)
  | some kind =>
    match addressOf? address, byteOf? value with
    | some address, some value =>
      if address.inFrame then .ok ⟨line, kind, address, value⟩
      else .error (.invalidOffset line shown)
    | _, _ => .error (.malformed line shown)

/-- Reads one line of a trace. There is no record in a comment or a blank line. -/
def readLine (line : Nat) (text : String) : Except LineError (Option Record) :=
  let chars := text.toList
  if isSilent chars then .ok none
  else
    let shown := String.ofList (Text.trimEnd chars)
    match Text.words chars with
    | [kind, address, value] => (readWords line shown kind address value).map some
    | _ => .error (.malformed line shown)

end DemandPaging.Trace
