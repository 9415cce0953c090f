import DemandPaging.Page

/-!
# Physical memory

A row of frames, each the bytes of one page. A physical address counts bytes from the first
frame, so frame `f` starts at `16 * f`. Reading and writing answer `none` outside the frames.
-/

namespace DemandPaging

structure Memory where
  pages : Array Page

namespace Memory

/-- A number of frames, all bytes zero. -/
def zeroed (frames : Nat) : Memory := ⟨Array.replicate frames Page.zero⟩

/-- Where a frame starts. -/
def addressOf (frame : Nat) : Nat := frame * pageBytes

/-- The bytes of a frame. -/
def page? (m : Memory) (frame : Nat) : Option Page := m.pages[frame]?

/-- Replaces the bytes of a frame. -/
def setPage? (m : Memory) (frame : Nat) (page : Page) : Option Memory :=
  if frame < m.pages.size then some ⟨m.pages.setIfInBounds frame page⟩ else none

/-- The place of a physical address in its frame. -/
def byteIndex (address : Nat) : Fin pageBytes := ⟨address % pageBytes, Nat.mod_lt _ (by decide)⟩

/-- The byte at a physical address. -/
def read? (m : Memory) (address : Nat) : Option UInt8 :=
  m.pages[address / pageBytes]?.map fun page => page[byteIndex address]

/-- Replaces the byte at a physical address. -/
def write? (m : Memory) (address : Nat) (value : UInt8) : Option Memory :=
  if address / pageBytes < m.pages.size then
    some ⟨m.pages.modify (address / pageBytes) fun page =>
      page.set (byteIndex address) value⟩
  else
    none

def frames (m : Memory) : Nat := m.pages.size

/-- Bytes held. -/
def footprint (m : Memory) : Nat := m.pages.size * pageBytes

end Memory

end DemandPaging
