import DemandPaging.Swap.Store

/-!
# Swap space kept in memory

A row of slots. A page that owns a slot is written back to it; any other page takes the lowest
slot not handed out, and a slot once handed out is never free again. The search for one starts at
`nextFree`, below which every slot is taken.

The store is also offered over buffers of any length (`saveBuffer?`, `fetchBuffer?`): the page
is the front of the buffer. A buffer too short to hold a page makes the answer `none`, but only
where its bytes are needed; a store with no room and an offset never handed out are noticed first.
-/

namespace DemandPaging

/-- The page in each slot, `none` for a slot not handed out. -/
structure SlotStore where
  slots : Array (Option Page)
  nextFree : Nat

namespace SlotStore

/-- A number of slots, none handed out. -/
def empty (slots : Nat) : SlotStore := ⟨Array.replicate slots none, 0⟩

def capacity (s : SlotStore) : Nat := s.slots.size

/-- How many slots were handed out. -/
def used (s : SlotStore) : Nat := s.slots.countP (·.isSome)

/-- The page at an offset that was handed out. -/
def page? (s : SlotStore) (offset : SwapOffset) : Option Page :=
  if offset.isAligned then s.slots[offset.slot]?.join else none

/-- Whether an offset was handed out. -/
def owns (s : SlotStore) (offset : SwapOffset) : Bool := (s.page? offset).isSome

/-- The first free slot among `count` slots from `slot` on. -/
def freeFrom? (slots : Array (Option Page)) : (count slot : Nat) → Option Nat
  | 0, _ => none
  | count + 1, slot =>
    match slots[slot]? with
    | some none => some slot
    | _ => freeFrom? slots count (slot + 1)

/-- The slot that the next new page takes. -/
def free? (s : SlotStore) : Option Nat :=
  freeFrom? s.slots (s.slots.size - s.nextFree) s.nextFree

/-- Fills a slot. -/
def fill (s : SlotStore) (slot : Nat) (page : Page) : SlotStore :=
  { s with slots := s.slots.setIfInBounds slot (some page) }

/-- Takes a page: into the slot it owns, else into a free one. -/
def save (s : SlotStore) (page : Page) (current : Option SwapOffset) :
    Option SwapOffset × SlotStore :=
  match current.filter s.owns with
  | some offset => (some offset, s.fill offset.slot page)
  | none =>
    match s.free? with
    | none => (none, s)
    | some slot => (some (.ofSlot slot), { s.fill slot page with nextFree := slot + 1 })

/-- Gives back the page at an offset. -/
def fetch (s : SlotStore) (offset : SwapOffset) : Except PagingError Page :=
  match s.page? offset with
  | none => .error (.unknownSwapOffset offset)
  | some page => .ok page

instance : BackingStore SlotStore where
  save := save
  fetch s offset := (s.fetch offset, s)
  capacity := capacity

/-- Whether a page that owns `current` can be taken. -/
def hasRoom (s : SlotStore) (current : Option SwapOffset) : Bool :=
  current.any s.owns || s.free?.isSome

/-- Takes the page at the front of a buffer. -/
def saveBuffer? (s : SlotStore) (buffer : List UInt8) (current : Option SwapOffset) :
    Option (Option SwapOffset × SlotStore) :=
  if s.hasRoom current then
    (Page.ofBuffer? buffer).map fun page => s.save page current
  else
    some (none, s)

/-- Lays the page at an offset over the front of a buffer. -/
def fetchBuffer? (s : SlotStore) (buffer : List UInt8) (offset : SwapOffset) :
    Option (Except PagingError (List UInt8)) :=
  match s.fetch offset with
  | .error e => some (.error e)
  | .ok page => (page.onto? buffer).map .ok

end SlotStore

end DemandPaging
