import DemandPaging.Error

/-!
# Swap stores

What paging asks of a backing store: to take the bytes of a page that loses its frame, and to give
back the bytes it took last at an offset. A page comes with the offset it already owns, if any.
-/

namespace DemandPaging

/-- A backing store for pages. -/
class BackingStore (σ : Type) where
  /-- Takes a page and says where it is now, or `none` if there is no room. -/
  save : σ → Page → Option SwapOffset → Option SwapOffset × σ
  /-- Gives back the page at an offset, or says why it cannot. -/
  fetch : σ → SwapOffset → Except PagingError Page × σ
  /-- How many pages the store can hold. -/
  capacity : σ → Nat

/-- Bytes held by a store: a page for every slot, used or not. -/
def BackingStore.footprint {σ : Type} [BackingStore σ] (store : σ) : Nat :=
  BackingStore.capacity store * pageBytes

end DemandPaging
