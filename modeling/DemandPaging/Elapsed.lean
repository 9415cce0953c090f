import DemandPaging.Decimal.Fixed

/-!
# Elapsed time

A length of time in nanoseconds, and its two texts: in seconds with six places, as a report shows
it, and in the largest unit that leaves a whole part, as the log shows it.
-/

namespace DemandPaging

structure Elapsed where
  nanos : Nat

namespace Elapsed

/-- So many seconds and nanoseconds; a whole second of nanoseconds is carried over. -/
def ofParts (seconds nanos : Nat) : Elapsed := ⟨seconds * 1000000000 + nanos⟩

/-- The time in seconds in double precision: the whole seconds plus the rest. -/
def seconds (e : Elapsed) : Float :=
  (UInt64.ofNat (e.nanos / 1000000000)).toFloat +
    (UInt64.ofNat (e.nanos % 1000000000)).toFloat / 1000000000

/-- Seconds with six places. -/
def secondsText (e : Elapsed) : String := Decimal.fixedOfFloat 6 e.seconds

/-- A number of `unit`s, each worth `worth` nanoseconds, of which there are ten to the `places`.
Only the places that are needed are shown. -/
def inUnit (nanos worth places : Nat) (unit : String) : String :=
  let rest := (Decimal.padded places (nanos % worth)).reverse.dropWhile (· == '0') |>.reverse
  let whole := toString (nanos / worth)
  if rest.isEmpty then whole ++ unit else whole ++ "." ++ String.ofList rest ++ unit

/-- The time in seconds, milliseconds, microseconds or nanoseconds. -/
def briefText (e : Elapsed) : String :=
  if 1000000000 ≤ e.nanos then inUnit e.nanos 1000000000 9 "s"
  else if 1000000 ≤ e.nanos then inUnit e.nanos 1000000 6 "ms"
  else if 1000 ≤ e.nanos then inUnit e.nanos 1000 3 "µs"
  else toString e.nanos ++ "ns"

end Elapsed

end DemandPaging
