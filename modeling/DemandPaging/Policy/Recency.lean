/-!
# Recency

The least recently used frame is kept at hand by a doubly linked list of frames, from the most to
the least recently used. The links are tables indexed by frame: `next` leads to the frame used
just before, `prev` to the one used just after, and `linked` says which frames are in the list.
`head` and `tail` are its ends. Every operation takes a bounded number of steps.

A link is a number below the number of frames by its type, so following one never leaves the
tables.
-/

namespace DemandPaging.Policy

/-- A doubly linked list of some of `n` frames, most recently used first. -/
structure Links (n : Nat) where
  next : Vector (Option (Fin n)) n
  prev : Vector (Option (Fin n)) n
  linked : Vector Bool n
  head : Option (Fin n)
  tail : Option (Fin n)

namespace Links

variable {n : Nat}

/-- The list without frames. -/
def empty (n : Nat) : Links n where
  next := Vector.replicate n none
  prev := Vector.replicate n none
  linked := Vector.replicate n false
  head := none
  tail := none

/-- Lets `after` follow `before`; what follows nothing is the head. -/
def setNext (l : Links n) (before after : Option (Fin n)) : Links n :=
  match before with
  | some b => { l with next := l.next.set b after }
  | none => { l with head := after }

/-- Lets `before` precede `after`; what precedes nothing is the tail. -/
def setPrev (l : Links n) (before after : Option (Fin n)) : Links n :=
  match after with
  | some a => { l with prev := l.prev.set a before }
  | none => { l with tail := before }

/-- Takes a frame out of the list and joins its neighbours. -/
def unlink (l : Links n) (f : Fin n) : Links n :=
  let before := l.prev[f]
  let after := l.next[f]
  let l := (l.setNext before after).setPrev before after
  { l with
    next := l.next.set f none
    prev := l.prev.set f none
    linked := l.linked.set f false }

/-- Puts a frame in front. -/
def pushFront (l : Links n) (f : Fin n) : Links n :=
  let first := l.head
  let l : Links n :=
    { l with
      next := l.next.set f first
      prev := l.prev.set f none
      linked := l.linked.set f true }
  { l.setPrev (some f) first with head := some f }

/-- Makes a frame the most recently used one. -/
def touch (l : Links n) (f : Fin n) : Links n :=
  if l.linked[f] then
    if l.head = some f then l else (l.unlink f).pushFront f
  else l.pushFront f

/-- Takes the least recently used frame out of the list. -/
def evict (l : Links n) : Option (Fin n) × Links n :=
  match l.tail with
  | none => (none, l)
  | some f => (some f, l.unlink f)

/-- The frames met from `current` on, at most `count` of them. -/
def chain (next : Vector (Option (Fin n)) n) :
    (count : Nat) → (current : Option (Fin n)) → List (Fin n)
  | 0, _ => []
  | _, none => []
  | count + 1, some f => f :: chain next count next[f]

/-- The frames of the list, most recently used first. No list is longer than there are frames. -/
def order (l : Links n) : List (Fin n) := chain l.next n l.head

end Links

/-- The recency of a number of frames. -/
structure Recency where
  frames : Nat
  links : Links frames

namespace Recency

/-- No frame was used yet. -/
def empty (frames : Nat) : Recency := ⟨frames, .empty frames⟩

/-- Makes a frame the most recently used one; a frame that does not exist is ignored. -/
def reference (r : Recency) (frame : Nat) : Recency :=
  if h : frame < r.frames then { r with links := r.links.touch ⟨frame, h⟩ } else r

/-- Takes out the least recently used frame, if there is one. -/
def evict (r : Recency) : Option Nat × Recency :=
  match r.links.evict with
  | (victim, links) => (victim.map Fin.val, { r with links := links })

/-- The frames that were used, most recently used first. -/
def order (r : Recency) : List Nat := r.links.order.map Fin.val

end Recency

end DemandPaging.Policy
