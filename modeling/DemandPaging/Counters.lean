import DemandPaging.Decimal.Fixed

/-!
# Counters and the report of a run

What a run counts, the hit and miss rates that follow from it, and the text in which both are
reported. The time that a run took is measured outside; the report takes it as text.
-/

namespace DemandPaging

structure Counters where
  hits : Nat
  misses : Nat
  references : Nat
  cleanEvictions : Nat
  dirtyEvictions : Nat
  /-- Loads and fetches that found another byte than the trace says. -/
  mismatches : Nat
deriving DecidableEq, Inhabited

namespace Counters

def zero : Counters := ⟨0, 0, 0, 0, 0, 0⟩

def evictions (c : Counters) : Nat := c.cleanEvictions + c.dirtyEvictions

/-- Counts one eviction by the state of its victim. -/
def countEviction (c : Counters) (dirty : Bool) : Counters :=
  if dirty then { c with dirtyEvictions := c.dirtyEvictions + 1 }
  else { c with cleanEvictions := c.cleanEvictions + 1 }

/-- A share in percent, in double precision: the quotient is rounded before it is scaled. The
share of nothing is zero. -/
def percent (part whole : Nat) : Float :=
  if whole = 0 then 0
  else (UInt64.ofNat part).toFloat / (UInt64.ofNat whole).toFloat * 100

def hitRate (c : Counters) : Float := percent c.hits c.references

def missRate (c : Counters) : Float := percent c.misses c.references

/-- Rates are shown with four places. -/
def rateText (rate : Float) : String := Decimal.fixedOfFloat 4 rate

/-- The counters, one to a line; the mismatches are left to the report. -/
def text (c : Counters) : String :=
  "Hit count: " ++ toString c.hits ++
    "\nMiss count: " ++ toString c.misses ++
    "\nClean evictions: " ++ toString c.cleanEvictions ++
    "\nDirty evictions: " ++ toString c.dirtyEvictions ++
    "\nTotal references: " ++ toString c.references ++
    "\nHit rate: " ++ rateText c.hitRate ++
    "\nMiss rate: " ++ rateText c.missRate

end Counters

/-- What is reported at the end of a run. -/
structure Report where
  counters : Counters
  /-- Bytes held by the machine. -/
  footprint : Nat
deriving DecidableEq

/-- The report, given the time that the run took. -/
def Report.text (r : Report) (elapsed : String) : String :=
  r.counters.text ++
    "\nValue mismatches: " ++ toString r.counters.mismatches ++
    "\nTime to run simulation: " ++ elapsed ++
    "\nMemory used by simulation: " ++ toString r.footprint ++ " bytes"

end DemandPaging
