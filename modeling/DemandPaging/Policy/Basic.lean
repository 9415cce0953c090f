import DemandPaging.Error
import DemandPaging.Policy.Clock
import DemandPaging.Policy.Recency
import DemandPaging.Policy.RoundRobin
import DemandPaging.Policy.Uniform

/-!
# Replacement policies

A policy chooses the frame that is given up when memory is full. Four algorithms are known by name
(`Algorithm`); a `Policy` is one of them together with what it remembers. It is started with the
number of frames, told of the frame that served each access, and asked for victims. Only second
chance looks at the pages themselves, and it alone changes them, by taking marks away.
-/

namespace DemandPaging

inductive Algorithm where
  | random
  | roundRobin
  | clock
  | lru
deriving DecidableEq, Inhabited

namespace Algorithm

/-- All algorithms, in the order in which they are listed. -/
def all : List Algorithm := [random, roundRobin, clock, lru]

def name : Algorithm → String
  | random => "rand"
  | roundRobin => "rr"
  | clock => "clock"
  | lru => "lru"

/-- The algorithm of a name, which is written in lower case. -/
def ofName (name : String) : Except PagingError Algorithm :=
  match all.find? (·.name == name) with
  | some algorithm => .ok algorithm
  | none => .error (.unknownAlgorithm name)

/-- The name of an algorithm is read back as that algorithm. -/
theorem ofName_name (a : Algorithm) : ofName a.name = .ok a := by
  cases a <;> rfl

end Algorithm

/-- An algorithm with what it remembers. -/
inductive Policy where
  | random (state : Policy.Uniform)
  | roundRobin (state : Policy.RoundRobin)
  | clock (state : Policy.Clock)
  | lru (state : Policy.Recency)

namespace Policy

/-- A victim, if the policy has one to offer, with the policy and the pages afterwards. -/
structure Choice where
  victim : Option Nat
  policy : Policy
  residents : ResidentPages

/-- A policy before it is started: there are no frames yet. -/
def ofAlgorithm (algorithm : Algorithm) (seed : UInt64) : Policy :=
  match algorithm with
  | .random => random (.start seed 0)
  | .roundRobin => roundRobin (.start 0)
  | .clock => clock (.start 0)
  | .lru => lru (.empty 0)

def algorithm : Policy → Algorithm
  | random _ => .random
  | roundRobin _ => .roundRobin
  | clock _ => .clock
  | lru _ => .lru

/-- Prepares for a run over a number of frames, forgetting all before. -/
def start (p : Policy) (frames : Nat) : Policy :=
  match p with
  | random state => random (.start state.seed frames)
  | roundRobin _ => roundRobin (.start frames)
  | clock _ => clock (.start frames)
  | lru _ => lru (.empty frames)

/-- Takes note of the frame that served an access. -/
def reference (p : Policy) (frame : Nat) : Policy :=
  match p with
  | lru state => lru (state.reference frame)
  | p => p

/-- Chooses the frame to give up. There is no answer if an occupant's reference points nowhere. -/
def evict? (p : Policy) (r : ResidentPages) : Option Choice :=
  match p with
  | random state =>
    let (victim, state) := state.evict
    some ⟨victim, random state, r⟩
  | roundRobin state =>
    let (victim, state) := state.evict
    some ⟨victim, roundRobin state, r⟩
  | clock state => (state.evict? r).map fun (victim, state, r) => ⟨victim, clock state, r⟩
  | lru state =>
    let (victim, state) := state.evict
    some ⟨victim, lru state, r⟩

/-- Gives up what is remembered about a run; only the recency list takes room. -/
def finish (p : Policy) : Policy :=
  match p with
  | lru _ => lru (.empty 0)
  | p => p

end Policy

end DemandPaging
