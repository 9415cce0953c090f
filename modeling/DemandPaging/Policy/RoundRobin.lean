/-!
# Round robin

Frames are given up in the order of their numbers, starting over behind the last one. While no
page leaves memory by other means, this is first in, first out.
-/

namespace DemandPaging.Policy

structure RoundRobin where
  next : Nat
  frames : Nat
deriving DecidableEq

namespace RoundRobin

def start (frames : Nat) : RoundRobin := ⟨0, frames⟩

/-- The victim, and the cursor behind it; there is none without frames. -/
def evict (p : RoundRobin) : Option Nat × RoundRobin :=
  if p.frames = 0 then (none, p)
  else (some p.next, { p with next := (p.next + 1) % p.frames })

end RoundRobin

end DemandPaging.Policy
