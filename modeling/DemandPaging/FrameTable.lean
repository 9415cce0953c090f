import DemandPaging.PageTable.Basic

/-!
# The frame table

Says for each frame of memory which page occupies it. It runs the page table backwards: while the
machine is at rest, a frame's occupant is the entry that is resident in it.

Claiming and releasing answer `none` where the frame does not exist, and claiming also where the
frame has an occupant already: a frame is never handed out twice.
-/

namespace DemandPaging

/-- The occupant of each frame, `none` for a frame that is free. -/
structure FrameTable where
  occupants : Array (Option EntryRef)
deriving DecidableEq

namespace FrameTable

/-- A number of frames, all free. -/
def empty (frames : Nat) : FrameTable := ⟨Array.replicate frames none⟩

def size (t : FrameTable) : Nat := t.occupants.size

/-- The lowest frame that is free. -/
def firstFree? (t : FrameTable) : Option Nat := t.occupants.findIdx? (·.isNone)

/-- The page that a frame holds; a frame that does not exist holds none. -/
def occupant? (t : FrameTable) (frame : Nat) : Option EntryRef := t.occupants[frame]?.join

/-- Hands a free frame to a page. -/
def claim? (t : FrameTable) (frame : Nat) (r : EntryRef) : Option FrameTable :=
  match t.occupants[frame]? with
  | some none => some ⟨t.occupants.setIfInBounds frame (some r)⟩
  | _ => none

/-- Frees a frame. -/
def release? (t : FrameTable) (frame : Nat) : Option FrameTable :=
  if frame < t.occupants.size then some ⟨t.occupants.setIfInBounds frame none⟩ else none

/-- How many frames have an occupant. -/
def inUse (t : FrameTable) : Nat := t.occupants.countP (·.isSome)

/-- Bytes held by the table: twelve for each frame. -/
def footprint (t : FrameTable) : Nat := t.occupants.size * 12

end FrameTable

/-- The resident pages as a replacement policy sees them while it looks for a victim. -/
structure ResidentPages where
  frames : FrameTable
  pageTable : PageTable

namespace ResidentPages

/-- Whether the page in a frame was referenced; a free frame counts as unreferenced. There is no
answer if the reference of the occupant points at no table. -/
def marked? (r : ResidentPages) (frame : Nat) : Option Bool :=
  match r.frames.occupant? frame with
  | none => some false
  | some ref => (r.pageTable.entry? ref).map (·.referenced)

/-- Clears the bit of the page in a frame, if there is one. -/
def unmark (r : ResidentPages) (frame : Nat) : ResidentPages :=
  match r.frames.occupant? frame with
  | none => r
  | some ref => { r with pageTable := r.pageTable.modify ref (·.setReferenced false) }

end ResidentPages

end DemandPaging
