import DemandPaging.Random.Range

/-!
# Uniform choice

The victim is a uniformly random frame. The choices follow from the seed, and starting over
repeats them.
-/

namespace DemandPaging.Policy

structure Uniform where
  seed : UInt64
  frames : Nat
  /-- Draws made from the stream so far. -/
  draws : Nat
deriving DecidableEq

namespace Uniform

def start (seed : UInt64) (frames : Nat) : Uniform := ⟨seed, frames, 0⟩

/-- The victim; there is none without frames, and then nothing is drawn. -/
def evict (p : Uniform) : Option Nat × Uniform :=
  if p.frames = 0 then (none, p)
  else
    let (victim, draws) := Random.sample p.seed p.frames p.draws
    (some victim, { p with draws := draws })

end Uniform

end DemandPaging.Policy
