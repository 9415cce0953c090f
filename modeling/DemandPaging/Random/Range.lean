import DemandPaging.Random.ChaCha

/-!
# A uniform number below a bound

A 64-bit draw `x` is multiplied by the bound `n` to 128 bits. The high half is a number below
`n`; the low half tells whether the draw may be used. Draws whose low half lies beyond the zone,
the largest shift of `n` to the left that still fits in 64 bits, are rejected: of the rest, each
number below `n` has the same share.

`sample` takes the first draw accepted from a position of the stream on. The search ends with the
period of the stream: if every draw of a period were rejected, none would ever be accepted.
-/

namespace DemandPaging.Random

/-- Values of a 64-bit word. -/
abbrev wordValues : Nat := UInt64.size

/-- By how many places a bound can be shifted left within 64 bits. -/
def leadingZeros (bound : Nat) : Nat := 63 - bound.log2

/-- How many values of the low half are accepted. -/
def zone (bound : Nat) : Nat := bound <<< leadingZeros bound

/-- Whether a draw may be used. -/
def accepts (bound x : Nat) : Bool := x * bound % wordValues < zone bound

/-- The number below the bound that a draw stands for. -/
def share (bound x : Nat) : Nat := x * bound / wordValues

/-- Looks for an accepted draw among `count` draws from number `n` on. Gives the number below the
bound, and the number of the draw that comes next. -/
def sampleWithin (seed : UInt64) (bound : Nat) : (count n : Nat) → Nat × Nat
  | 0, n => (share bound (draw seed n).toNat, n + 1)
  | count + 1, n =>
    if accepts bound (draw seed n).toNat then (share bound (draw seed n).toNat, n + 1)
    else sampleWithin seed bound count (n + 1)

/-- A number below the bound from the first accepted draw, counted from number `n` on. -/
def sample (seed : UInt64) (bound n : Nat) : Nat × Nat := sampleWithin seed bound period n

/-- A share is below the bound. -/
theorem share_lt {bound x : Nat} (hx : x < wordValues) (hb : 0 < bound) :
    share bound x < bound := by
  unfold share
  rw [Nat.div_lt_iff_lt_mul (by decide), Nat.mul_comm bound]
  exact Nat.mul_lt_mul_of_pos_right hx hb

/-- Whatever words are drawn, the sample is below the bound. -/
theorem sampleWithin_lt (seed : UInt64) {bound : Nat} (hb : 0 < bound) (count n : Nat) :
    (sampleWithin seed bound count n).1 < bound := by
  induction count generalizing n with
  | zero => exact share_lt (UInt64.toNat_lt _) hb
  | succ count ih =>
    unfold sampleWithin
    split
    · exact share_lt (UInt64.toNat_lt _) hb
    · exact ih _

/-- Whatever the stream, the number is below the bound. -/
theorem sample_lt (seed : UInt64) {bound : Nat} (hb : 0 < bound) (n : Nat) :
    (sample seed bound n).1 < bound :=
  sampleWithin_lt seed hb period n

end DemandPaging.Random
