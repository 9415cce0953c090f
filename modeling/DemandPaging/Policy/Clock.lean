import DemandPaging.FrameTable

/-!
# Second chance

A hand sweeps the frames. A page that was referenced since the hand last passed is passed over and
loses its mark; the first page without a mark is the victim, and the hand stops behind it.

A full turn clears every mark, so after as many frames as there are the hand is back where it
began, at a frame that is no longer marked.
-/

namespace DemandPaging.Policy

structure Clock where
  hand : Nat
  frames : Nat
deriving DecidableEq

namespace Clock

/-- The hand at the first of a number of frames. -/
def start (frames : Nat) : Clock := ⟨0, frames⟩

/-- The hand at the next frame, cyclically. -/
def advance (c : Clock) : Clock := { c with hand := (c.hand + 1) % c.frames }

/-- Passes over the marked frames, at most `count` of them, and stops behind the victim. -/
def sweep? : (count : Nat) → Clock → ResidentPages → Option (Nat × Clock × ResidentPages)
  | 0, c, r => some (c.hand, c.advance, r)
  | count + 1, c, r =>
    match r.marked? c.hand with
    | none => none
    | some false => some (c.hand, c.advance, r)
    | some true => sweep? count c.advance (r.unmark c.hand)

/-- The victim; there is none without frames. -/
def evict? (c : Clock) (r : ResidentPages) : Option (Option Nat × Clock × ResidentPages) :=
  if c.frames = 0 then some (none, c, r)
  else (sweep? c.frames c r).map fun (victim, c, r) => (some victim, c, r)

end Clock

end DemandPaging.Policy
