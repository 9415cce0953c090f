import DemandPaging.Address

/-!
# Pages

The bytes of one page, the unit that moves between memory and swap, and the two ways in which a
page meets a longer buffer: it is read off the buffer's front, or laid over it. A buffer shorter
than a page has no front to use, and both answer `none`.
-/

namespace DemandPaging

/-- The simulated bytes of one page. -/
abbrev Page : Type := Vector UInt8 pageBytes

namespace Page

/-- The page of a process that has written nothing to it. -/
def zero : Page := Vector.replicate pageBytes 0

/-- The page made of one repeated byte. -/
def fill (byte : UInt8) : Page := Vector.replicate pageBytes byte

/-- The page at the front of a buffer. -/
def ofBuffer? (buffer : List UInt8) : Option Page :=
  if h : pageBytes ≤ buffer.length then
    some ⟨(buffer.take pageBytes).toArray, by simp [Nat.min_eq_left h]⟩
  else
    none

/-- The buffer with its front replaced by the page; what lies behind stays. -/
def onto? (page : Page) (buffer : List UInt8) : Option (List UInt8) :=
  if pageBytes ≤ buffer.length then some (page.toList ++ buffer.drop pageBytes) else none

end Page

end DemandPaging
