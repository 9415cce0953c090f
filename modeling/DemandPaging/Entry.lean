import DemandPaging.Swap.Offset

/-!
# Page table entries

An entry says where its page is: nowhere yet, in a frame, or on swap. A page that has once been
paged out keeps its swap slot while it is resident, so that the next pageout writes to the same
place; the data there is stale in the meantime. Two bits vary beside that: `dirty`, set by writes
since the page became resident, and `referenced`, set by every access and cleared by a policy
that sweeps.
-/

namespace DemandPaging

/-- Where the data of a page is. -/
inductive Residency where
  /-- Never touched. -/
  | unmapped
  /-- In a frame; `slot` is the swap slot that the page owns, if it was ever paged out. -/
  | resident (frame : Nat) (slot : Option SwapOffset)
  /-- Only in the swap store. -/
  | onSwap (offset : SwapOffset)
deriving DecidableEq, Inhabited

/-- One entry of a leaf table. -/
structure Entry where
  residency : Residency
  dirty : Bool
  referenced : Bool
deriving DecidableEq, Inhabited

namespace Entry

/-- The entry of a page that was never touched. -/
def unmapped : Entry := ⟨.unmapped, false, false⟩

def isUnmapped (e : Entry) : Bool :=
  match e.residency with
  | .unmapped => true
  | _ => false

/-- The frame that holds the page, if it is resident. -/
def frame? (e : Entry) : Option Nat :=
  match e.residency with
  | .resident frame _ => some frame
  | _ => none

/-- Where the data is on swap, if it is not resident. -/
def swapOffset? (e : Entry) : Option SwapOffset :=
  match e.residency with
  | .onSwap offset => some offset
  | _ => none

/-- The slot that the next pageout should write to. -/
def slot? (e : Entry) : Option SwapOffset :=
  match e.residency with
  | .unmapped => none
  | .resident _ slot => slot
  | .onSwap offset => some offset

/-- Maps the page into a frame; it keeps the slot that it owns. -/
def place (e : Entry) (frame : Nat) : Entry :=
  { e with residency := .resident frame e.slot? }

/-- Records that the page was written to swap and lost its frame. -/
def swapOut (e : Entry) (offset : SwapOffset) : Entry :=
  { e with residency := .onSwap offset, dirty := false }

def setDirty (e : Entry) (value : Bool) : Entry := { e with dirty := value }

def setReferenced (e : Entry) (value : Bool) : Entry := { e with referenced := value }

/-- What an access leaves on the entry of its page. -/
def touch (e : Entry) (kind : AccessKind) : Entry :=
  if kind.writes then (e.setReferenced true).setDirty true else e.setReferenced true

/-- A page that is brought in has the frame it was given. -/
@[simp] theorem frame?_place (e : Entry) (frame : Nat) :
    (e.place frame).frame? = some frame := rfl

/-- A page that is brought in keeps the slot that it owns. -/
@[simp] theorem slot?_place (e : Entry) (frame : Nat) :
    (e.place frame).slot? = e.slot? := rfl

/-- A page that was written out owns the slot it was written to. -/
@[simp] theorem slot?_swapOut (e : Entry) (offset : SwapOffset) :
    (e.swapOut offset).slot? = some offset := rfl

/-- A page that was written out has no frame. -/
@[simp] theorem frame?_swapOut (e : Entry) (offset : SwapOffset) :
    (e.swapOut offset).frame? = none := rfl

/-- The marks do not say where the page is. -/
@[simp] theorem frame?_setDirty (e : Entry) (value : Bool) :
    (e.setDirty value).frame? = e.frame? := rfl

@[simp] theorem frame?_setReferenced (e : Entry) (value : Bool) :
    (e.setReferenced value).frame? = e.frame? := rfl

@[simp] theorem slot?_setDirty (e : Entry) (value : Bool) :
    (e.setDirty value).slot? = e.slot? := rfl

@[simp] theorem slot?_setReferenced (e : Entry) (value : Bool) :
    (e.setReferenced value).slot? = e.slot? := rfl

end Entry

end DemandPaging
