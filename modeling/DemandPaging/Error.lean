import DemandPaging.Swap.Offset

/-!
# Errors and their messages

Everything that can be refused, as a cause with its facts, and one function that words it. A trace
line that cannot be replayed is a `LineError` and carries the number of the line, counted from 1;
whatever else stops an access or a run is a `PagingError`.
-/

namespace DemandPaging

/-- Why a trace line cannot be replayed. -/
inductive LineError where
  /-- Not three words, or a number that cannot be read. -/
  | malformed (line : Nat) (text : String)
  /-- The first word is not the letter of an access. -/
  | invalidKind (line : Nat) (text : String)
  /-- The address lies beyond the simulated bytes of its page. -/
  | invalidOffset (line : Nat) (text : String)
  /-- The line could not be read at all. -/
  | unreadable (line : Nat) (reason : String)
deriving DecidableEq

namespace LineError

def line : LineError → Nat
  | malformed line _ | invalidKind line _ | invalidOffset line _ | unreadable line _ => line

def message : LineError → String
  | malformed line text => "Invalid trace line " ++ toString line ++ ": " ++ text
  | invalidKind line text => "Invalid reftype, line " ++ toString line ++ ": " ++ text
  | invalidOffset line text =>
    "Invalid vaddr, offset must be in range of simulated page frame size, line " ++
      toString line ++ ": " ++ text
  | unreadable line reason =>
    "Failed to read trace at line " ++ toString line ++ ": " ++ reason

end LineError

/-- Why an access or a run was refused. -/
inductive PagingError where
  | trace (error : LineError)
  | io (reason : String)
  | invalidConfig (reason : String)
  | unknownAlgorithm (name : String)
  /-- No slot was left for the victim in `frame`; it stays resident. -/
  | swapExhausted (frame capacity : Nat)
  | invalidOffset (address : Address)
  | noVictim
  | victimNotResident (frame : Nat)
  | unknownSwapOffset (offset : SwapOffset)
deriving DecidableEq

namespace PagingError

def message : PagingError → String
  | trace error => error.message
  | io reason => "IO error: " ++ reason
  | invalidConfig reason => "Invalid configuration: " ++ reason
  | unknownAlgorithm name => "invalid replacement algorithm - " ++ name
  | swapExhausted frame capacity =>
    "Swap exhausted while evicting frame " ++ toString frame ++ " (capacity " ++
      toString capacity ++ " pages)"
  | invalidOffset address =>
    "Invalid vaddr " ++ Text.hexText address.raw.toNat ++
      ", offset must be in range of simulated page frame size"
  | noVictim => "Replacement policy had no frame to evict"
  | victimNotResident frame =>
    "Replacement policy chose frame " ++ toString frame ++ ", which holds no page"
  | unknownSwapOffset offset =>
    "Swap offset " ++ offset.text ++ " was never returned by pageout"

end PagingError

end DemandPaging
