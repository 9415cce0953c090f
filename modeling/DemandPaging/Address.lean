import DemandPaging.Text.Numeral

/-!
# Virtual addresses and the accesses made to them

An address is a 64-bit word. Its low 12 bits are the offset inside a page; the 36 bits above them
are the page number, 12 bits for each of the three levels of the page table. The 16 highest bits
take no part in translation, so two addresses that differ only there name the same byte.

A page of the address space spans 4096 offsets but only its first 16 bytes are simulated:
`Address.inFrame` is the condition under which an address can be translated at all.
-/

namespace DemandPaging

/-- Slots of one table, the same at every level. -/
abbrev tableSlots : Nat := 4096

/-- A position in a table. -/
abbrev TableIndex : Type := Fin tableSlots

/-- Offsets of a page. -/
abbrev pageSpan : Nat := 4096

/-- Bytes of a page that are simulated, hence bytes of a frame and of a swap slot. -/
abbrev pageBytes : Nat := 16

/-- Pages of the address space, as many as there are paths through the three levels. -/
abbrev spacePages : Nat := tableSlots * tableSlots * tableSlots

/-- The page number selected by a path through the three levels. -/
def pageNumber (top mid bottom : TableIndex) : Nat :=
  (top.val * tableSlots + mid.val) * tableSlots + bottom.val

/-- A virtual address as it stands in a trace. -/
structure Address where
  raw : UInt64
deriving DecidableEq, Inhabited

namespace Address

/-- Bits 36 to 47 select the slot of the top level. -/
def top (a : Address) : TableIndex := Fin.ofNat tableSlots (a.raw.toNat >>> 36)

/-- Bits 24 to 35 select the slot of the middle level. -/
def mid (a : Address) : TableIndex := Fin.ofNat tableSlots (a.raw.toNat >>> 24)

/-- Bits 12 to 23 select the entry of the leaf table. -/
def bottom (a : Address) : TableIndex := Fin.ofNat tableSlots (a.raw.toNat >>> 12)

/-- The low 12 bits: the place inside the page. -/
def offset (a : Address) : Nat := a.raw.toNat % pageSpan

/-- The number of the page that holds the address. -/
def vpn (a : Address) : Nat := pageNumber a.top a.mid a.bottom

/-- Whether the offset falls on one of the bytes that are simulated. -/
def inFrame (a : Address) : Bool := a.offset < pageBytes

/-- An address with its parts. -/
def text (a : Address) : String :=
  "VA(" ++ Text.hexText a.raw.toNat ++ ") = (top=" ++ toString a.top.val ++ ", mid=" ++
    toString a.mid.val ++ ", bot=" ++ toString a.bottom.val ++ ", off=" ++ toString a.offset ++ ")"

/-- The page number is the 36 bits above the offset. -/
theorem vpn_eq (a : Address) : a.vpn = a.raw.toNat / pageSpan % spacePages := by
  simp only [vpn, pageNumber, top, mid, bottom, tableSlots, pageSpan, spacePages, Fin.val_ofNat]
  omega

end Address

/-- What a trace line does at its address. -/
inductive AccessKind where
  | instruction
  | load
  | store
  | modify
deriving DecidableEq, Inhabited

namespace AccessKind

/-- The letter that stands for the kind in a trace. -/
def letter : AccessKind → Char
  | instruction => 'I'
  | load => 'L'
  | store => 'S'
  | modify => 'M'

/-- The kind that a letter stands for; letters are upper case only. -/
def ofLetter? : Char → Option AccessKind
  | 'I' => some instruction
  | 'L' => some load
  | 'S' => some store
  | 'M' => some modify
  | _ => none

/-- Stores and modifications write the page; fetches and loads only read it. -/
def writes : AccessKind → Bool
  | instruction | load => false
  | store | modify => true

/-- The letter of a kind is read back as that kind. -/
theorem ofLetter?_letter (k : AccessKind) : ofLetter? k.letter = some k := by
  cases k <;> rfl

/-- The four letters, one for each kind. -/
theorem letter_eq_iff {k : AccessKind} {c : Char} : k.letter = c ↔
    k = instruction ∧ c = 'I' ∨ k = load ∧ c = 'L' ∨ k = store ∧ c = 'S' ∨
      k = modify ∧ c = 'M' := by
  cases k <;> simp [letter, eq_comm]

/-- Stores and modifications write. -/
theorem writes_iff {k : AccessKind} : k.writes = true ↔ k = store ∨ k = modify := by
  cases k <;> decide

/-- The other two kinds only read. -/
theorem reads_iff {k : AccessKind} : k.writes = false ↔ k = instruction ∨ k = load := by
  cases k <;> decide

end AccessKind

end DemandPaging
