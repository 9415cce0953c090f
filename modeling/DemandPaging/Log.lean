import DemandPaging.PageTable.Basic
import DemandPaging.Policy.Basic
import DemandPaging.Trace.Record

/-!
# What a run logs

Everything that a run has to tell is an `Event`, kept as data beside its result: no event is ever
looked at by the simulation, and whether it is shown depends on its level and on a threshold.
-/

namespace DemandPaging

namespace Log

/-- How much an event matters, from the most to the least. -/
inductive Level where
  | error
  | warn
  | info
  | debug
  | trace
deriving DecidableEq, Inhabited

namespace Level

def rank : Level → Nat
  | error => 1
  | warn => 2
  | info => 3
  | debug => 4
  | trace => 5

def name : Level → String
  | error => "ERROR"
  | warn => "WARN"
  | info => "INFO"
  | debug => "DEBUG"
  | trace => "TRACE"

def all : List Level := [error, warn, info, debug, trace]

end Level

/-- Up to which level events are shown. -/
inductive Threshold where
  | off
  | upTo (level : Level)
deriving DecidableEq, Inhabited

namespace Threshold

def admits : Threshold → Level → Bool
  | off, _ => false
  | upTo limit, level => level.rank ≤ limit.rank

/-- The threshold of a name, in letters of either case. -/
def ofName? (name : String) : Option Threshold :=
  let upper := String.ofList (name.toList.map Char.toUpper)
  if upper == "OFF" then some off
  else (Level.all.find? (·.name == upper)).map upTo

/-- The threshold for a number of requests to say more; tracing asks for everything. -/
def ofVerbosity (verbosity : Nat) (tracing : Bool) : Threshold :=
  if tracing then upTo .trace
  else
    match verbosity with
    | 0 => upTo .warn
    | 1 => upTo .info
    | 2 => upTo .debug
    | _ => upTo .trace

end Threshold

end Log

/-- Something that happened in a run. -/
inductive Event where
  | started (frames capacity : Nat) (algorithm : Algorithm)
  | accessed (record : Trace.Record)
  | tableMade (table : NewTable)
  | evicted (vpn frame : Nat) (offset : SwapOffset) (dirty : Bool)
  | swappedIn (vpn : Nat) (offset : SwapOffset) (frame : Nat)
  | firstTouch (vpn frame : Nat)
  | mismatched (line : Nat) (found expected : UInt8)
  | replayed (references : Nat)
  | dumped (pageTable : String)
deriving DecidableEq

namespace Event

def level : Event → Log.Level
  | started .. => .info
  | accessed .. => .trace
  | tableMade .. => .trace
  | evicted .. => .debug
  | swappedIn .. => .debug
  | firstTouch .. => .debug
  | mismatched .. => .error
  | replayed .. => .info
  | dumped .. => .debug

/-- The text of an event; `elapsed` is how long the replay took. -/
def text (elapsed : String) : Event → String
  | started frames capacity algorithm =>
    "simulating " ++ toString frames ++ " frames, " ++ toString capacity ++ " swap pages, " ++
      algorithm.name ++ " replacement"
  | accessed record => record.text
  | tableMade (.mid id top) =>
    "created mid table " ++ toString id ++ " for top index " ++ toString top.val
  | tableMade (.leaf id top mid) =>
    "created leaf table " ++ toString id ++ " for " ++ toString top.val ++ "/" ++ toString mid.val
  | evicted vpn frame offset dirty =>
    "evicted vpn " ++ Text.hexText vpn ++ " from frame " ++ toString frame ++ " to swap " ++
      offset.text ++ (if dirty then " (dirty)" else " (clean)")
  | swappedIn vpn offset frame =>
    "vpn " ++ Text.hexText vpn ++ ": swapped in from " ++ offset.text ++ " to frame " ++
      toString frame
  | firstTouch vpn frame =>
    "vpn " ++ Text.hexText vpn ++ ": first touch in frame " ++ toString frame
  | mismatched line found expected =>
    "ERROR at trace line " ++ toString line ++ ": vaddr has " ++ toString found.toNat ++
      " but should have " ++ toString expected.toNat
  | replayed references => "replayed " ++ toString references ++ " references in " ++ elapsed
  | dumped pageTable => pageTable

/-- An event as a line of the log: its level in five columns, then its text. -/
def line (elapsed : String) (e : Event) : String :=
  let name := e.level.name
  "[" ++ String.ofList (List.replicate (5 - name.length) ' ') ++ name ++ "] " ++ e.text elapsed ++
    "\n"

end Event

/-- The lines of a log that a threshold admits. -/
def Log.render (threshold : Log.Threshold) (elapsed : String) (events : Array Event) : String :=
  String.join ((events.toList.filter fun e => threshold.admits e.level).map (·.line elapsed))

end DemandPaging
