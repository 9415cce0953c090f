import DemandPaging.Machine.Outcome

/-!
# Checking a machine

The page table and the frame table say the same thing from two sides: an entry is resident in a
frame exactly if it is the occupant of that frame. `audit` checks this for any machine, built or
made up, by turning the page table around into a table of owners and comparing that with the frame
table, and then checks that every reference was counted as a hit or as a miss.
-/

namespace DemandPaging

/-- A disagreement found in a machine. -/
inductive Inconsistency where
  | frameOutOfRange (vpn frame : Nat)
  | frameShared (frame vpn otherVpn : Nat)
  | occupantDiffers (frame : Nat) (claimed resident : Option EntryRef)
  | countersDiffer (hits misses references : Nat)
deriving DecidableEq

/-- A reference as messages show it. -/
def EntryRef.text (r : EntryRef) : String :=
  "PteRef \x7b leaf: " ++ toString r.leaf ++ ", index: " ++ toString r.index.val ++ " \x7d"

namespace Inconsistency

/-- An occupant as messages show it. -/
def occupantText : Option EntryRef → String
  | none => "None"
  | some r => "Some(" ++ r.text ++ ")"

def message : Inconsistency → String
  | frameOutOfRange vpn frame =>
    "vpn " ++ Text.hexText vpn ++ " maps to frame " ++ toString frame ++ " out of range"
  | frameShared frame vpn otherVpn =>
    "frame " ++ toString frame ++ " mapped by both vpn " ++ Text.hexText vpn ++ " and vpn " ++
      Text.hexText otherVpn
  | occupantDiffers frame claimed resident =>
    "frame " ++ toString frame ++ ": coremap says " ++ occupantText claimed ++
      ", page table says " ++ occupantText resident
  | countersDiffer hits misses references =>
    toString hits ++ " hits + " ++ toString misses ++ " misses != " ++ toString references ++
      " references"

end Inconsistency

namespace Machine

variable {σ : Type}

/-- The owner of a frame by the page table, with its page number. -/
abbrev Owner : Type := EntryRef × Nat

/-- Enters the entries that are resident as the owners of their frames. -/
def enterOwners (owners : Array (Option Owner)) :
    List (EntryRef × PageEntry) → Except Inconsistency (Array (Option Owner))
  | [] => .ok owners
  | (r, page) :: rest =>
    match page.entry.frame? with
    | none => enterOwners owners rest
    | some frame =>
      match owners[frame]? with
      | none => .error (.frameOutOfRange page.vpn frame)
      | some (some (_, vpn)) => .error (.frameShared frame vpn page.vpn)
      | some none => enterOwners (owners.setIfInBounds frame (some (r, page.vpn))) rest

/-- Compares occupants with owners, frame by frame from a given one on. -/
def compareOwners : (frame : Nat) → List (Option EntryRef × Option Owner) →
    Except Inconsistency Unit
  | _, [] => .ok ()
  | frame, (occupant, owner) :: rest =>
    if occupant = owner.map (·.1) then compareOwners (frame + 1) rest
    else .error (.occupantDiffers frame occupant (owner.map (·.1)))

/-- Checks that every reference was counted as a hit or as a miss. -/
def checkCounters (c : Counters) : Except Inconsistency Unit :=
  if c.hits + c.misses = c.references then .ok ()
  else .error (.countersDiffer c.hits c.misses c.references)

/-- Says the first disagreement found, if there is any. -/
def audit (m : Machine σ) : Except Inconsistency Unit := do
  let owners ← enterOwners (Array.replicate m.frameTable.size none) m.pageTable.mapped
  compareOwners 0 (m.frameTable.occupants.toList.zip owners.toList)
  checkCounters m.counters

end Machine

end DemandPaging
