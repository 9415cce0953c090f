import DemandPaging.Page
import DemandPaging.Text.Numeral

/-!
# Swap offsets

A swap store is addressed in bytes. Slot `n` starts at byte `16 * n`, and every offset that a
store hands out is the start of a slot; an offset that comes from elsewhere may point anywhere.
-/

namespace DemandPaging

/-- A byte position in a swap store. -/
structure SwapOffset where
  byte : Nat
deriving DecidableEq, Inhabited

namespace SwapOffset

/-- Where a slot starts. -/
def ofSlot (slot : Nat) : SwapOffset := ⟨slot * pageBytes⟩

/-- The slot that the offset falls into. -/
def slot (o : SwapOffset) : Nat := o.byte / pageBytes

/-- Whether the offset is the start of a slot. -/
def isAligned (o : SwapOffset) : Bool := o.byte % pageBytes == 0

/-- Offsets are shown in hexadecimal. -/
def text (o : SwapOffset) : String := Text.hexText o.byte

@[simp] theorem slot_ofSlot (n : Nat) : (ofSlot n).slot = n := by
  simp [ofSlot, slot, pageBytes]

/-- The offset of a slot is at the start of the slot. -/
@[simp] theorem isAligned_ofSlot (n : Nat) : (ofSlot n).isAligned = true := by
  simp [ofSlot, isAligned, pageBytes]

/-- An aligned offset is the offset of its own slot. -/
theorem ofSlot_slot {o : SwapOffset} (h : o.isAligned = true) : ofSlot o.slot = o := by
  cases o with
  | mk byte =>
    simp only [isAligned, beq_iff_eq] at h
    simp only [ofSlot, slot, mk.injEq, pageBytes] at h ⊢
    omega

end SwapOffset

end DemandPaging
