import DemandPaging.Counters
import DemandPaging.Log
import DemandPaging.Memory
import DemandPaging.Swap.Slots

/-!
# The machine and what a step of it gives

A machine is one page table, one frame table, memory, a swap store, a replacement policy and the
counters of a run. Every operation on it is a function to an `Outcome`: a result or the reason why
there is none, the machine as it is afterwards in either case, and the events on the way.

There are two kinds of failure. An operation may be refused, for a cause that is reported; or it
may find the machine broken, which means that some reference, frame or address was out of place.
No machine that was built and then only run is ever broken.
-/

namespace DemandPaging

/-- The sizes and the policy of a run. -/
structure Config where
  /-- Frames of physical memory. -/
  frames : Nat
  /-- Pages that the swap store can hold. -/
  swapPages : Nat
  algorithm : Algorithm
  seed : UInt64
deriving DecidableEq

namespace Config

/-- The seed when none is given, so that runs repeat. -/
def defaultSeed : UInt64 := 369

/-- There must be memory, and there must be swap space; memory is looked at first. -/
def validate (c : Config) : Except PagingError Unit :=
  if c.frames = 0 then .error (.invalidConfig "memsize must be greater than 0")
  else if c.swapPages = 0 then .error (.invalidConfig "swapsize must be greater than 0")
  else .ok ()

end Config

structure Machine (σ : Type) where
  pageTable : PageTable
  frameTable : FrameTable
  memory : Memory
  swap : σ
  policy : Policy
  counters : Counters

/-- Why an operation has no result. -/
inductive Failure where
  /-- It was refused, and the machine is in order. -/
  | refused (error : PagingError)
  /-- Something in the machine was out of place. -/
  | broken
deriving DecidableEq

/-- What an operation on a machine gives. -/
structure Outcome (σ α : Type) where
  result : Except Failure α
  machine : Machine σ
  events : Array Event

namespace Outcome

variable {σ α β : Type}

def ok (m : Machine σ) (value : α) : Outcome σ α := ⟨.ok value, m, #[]⟩

def refused (m : Machine σ) (error : PagingError) : Outcome σ α := ⟨.error (.refused error), m, #[]⟩

def broken (m : Machine σ) : Outcome σ α := ⟨.error .broken, m, #[]⟩

/-- Puts events before those of an outcome. -/
def after (events : Array Event) (o : Outcome σ α) : Outcome σ α :=
  { o with events := events ++ o.events }

/-- Goes on with the value and the machine of an outcome, unless it has failed. -/
def andThen (o : Outcome σ α) (next : Machine σ → α → Outcome σ β) : Outcome σ β :=
  match o with
  | ⟨.ok value, m, events⟩ => (next m value).after events
  | ⟨.error failure, m, events⟩ => ⟨.error failure, m, events⟩

/-- Earlier events change neither the result nor the machine. -/
@[simp] theorem result_after (events : Array Event) (o : Outcome σ α) :
    (o.after events).result = o.result := rfl

@[simp] theorem machine_after (events : Array Event) (o : Outcome σ α) :
    (o.after events).machine = o.machine := rfl

/-- What follows a success runs on its machine, and the events come after the earlier ones. -/
@[simp] theorem andThen_ok (m : Machine σ) (value : α) (events : Array Event)
    (next : Machine σ → α → Outcome σ β) :
    (⟨.ok value, m, events⟩ : Outcome σ α).andThen next = (next m value).after events := rfl

/-- After a failure nothing more is run. -/
@[simp] theorem andThen_error (m : Machine σ) (failure : Failure) (events : Array Event)
    (next : Machine σ → α → Outcome σ β) :
    (⟨.error failure, m, events⟩ : Outcome σ α).andThen next = ⟨.error failure, m, events⟩ := rfl

end Outcome

namespace Machine

variable {σ : Type} [BackingStore σ]

/-- A machine at rest over a given store, its policy started; no page was touched yet. -/
def build (frames : Nat) (policy : Policy) (swap : σ) : Machine σ where
  pageTable := .empty
  frameTable := .empty frames
  memory := .zeroed frames
  swap := swap
  policy := policy.start frames
  counters := .zero

/-- What is logged when a machine is built. -/
def startEvent (m : Machine σ) : Event :=
  .started m.frameTable.size (BackingStore.capacity m.swap) m.policy.algorithm

/-- The machine of a configuration, if that is valid. -/
def ofConfig (c : Config) : Except PagingError (Machine SlotStore) :=
  match c.validate with
  | .error e => .error e
  | .ok () => .ok (build c.frames (.ofAlgorithm c.algorithm c.seed) (.empty c.swapPages))

/-- The frame that holds the page of an address, if it is resident. -/
def frameOf? (m : Machine σ) (a : Address) : Option Nat :=
  ((m.pageTable.lookup a).bind m.pageTable.entry?).bind (·.frame?)

/-- Bytes held by the machine. -/
def footprint (m : Machine σ) : Nat :=
  m.memory.footprint + m.frameTable.footprint + m.pageTable.footprint +
    BackingStore.footprint m.swap

/-- Gives up what the policy remembers, at the end of a run. -/
def finish (m : Machine σ) : Machine σ := { m with policy := m.policy.finish }

end Machine

end DemandPaging
