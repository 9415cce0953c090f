import DemandPaging.Swap.Slots

/-!
# A store that fails on demand

A memory store behind a switch. Pageouts and pageins are counted, each from 1, and a call whose
number is listed as failing does nothing: such a pageout finds no room, and such a pagein knows no
offset. A store without failures behaves as the memory store behind it.
-/

namespace DemandPaging

structure UnreliableStore where
  store : SlotStore
  /-- Whether the pageout of a given number fails. -/
  failsOut : Nat → Bool
  /-- Whether the pagein of a given number fails. -/
  failsIn : Nat → Bool
  /-- Pageouts so far, failed ones included. -/
  outs : Nat
  /-- Pageins so far, failed ones included. -/
  ins : Nat

namespace UnreliableStore

/-- A store of free slots with the numbers of the calls that fail. -/
def empty (slots : Nat) (failsOut failsIn : Nat → Bool) : UnreliableStore :=
  ⟨.empty slots, failsOut, failsIn, 0, 0⟩

def save (s : UnreliableStore) (page : Page) (current : Option SwapOffset) :
    Option SwapOffset × UnreliableStore :=
  let s := { s with outs := s.outs + 1 }
  if s.failsOut s.outs then (none, s)
  else
    let (offset, store) := s.store.save page current
    (offset, { s with store := store })

def fetch (s : UnreliableStore) (offset : SwapOffset) : Except PagingError Page × UnreliableStore :=
  let s := { s with ins := s.ins + 1 }
  if s.failsIn s.ins then (.error (.unknownSwapOffset offset), s)
  else (s.store.fetch offset, s)

instance : BackingStore UnreliableStore where
  save := save
  fetch := fetch
  capacity s := s.store.capacity

end UnreliableStore

end DemandPaging
