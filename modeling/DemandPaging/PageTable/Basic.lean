import DemandPaging.Entry

/-!
# The page table

Three levels, each indexed by 12 bits of the address. The tables live in two arenas: the middle
tables, whose slots number leaf tables, and the leaf tables, whose slots are entries; the single
top table numbers the middle ones. A table is made the first time a walk passes through an empty
slot, takes the next number of its arena, and is never removed, so a reference to an entry stays
good for as long as the page table lives.

That every number held in a slot is the number of an existing table is part of the type
(`top_lt`, `mid_lt`): a walk never leaves the arenas.
-/

namespace DemandPaging

/-- A reference to an entry: the number of its leaf table and the place in it. -/
structure EntryRef where
  leaf : Nat
  index : TableIndex
deriving DecidableEq, Inhabited

/-- A table of the top or middle level; a slot holds the number of a table one level below. -/
abbrev Directory : Type := Vector (Option Nat) tableSlots

/-- The directory in which nothing has been entered. -/
def Directory.empty : Directory := Vector.replicate tableSlots none

/-- A table of the last level, with the path that leads to it. -/
structure Leaf where
  top : TableIndex
  mid : TableIndex
  entries : Vector Entry tableSlots

namespace Leaf

/-- The leaf table of a region none of whose pages was touched. -/
def empty (top mid : TableIndex) : Leaf := ⟨top, mid, Vector.replicate tableSlots Entry.unmapped⟩

/-- The number of the page whose entry is at `i`. -/
def vpn (leaf : Leaf) (i : TableIndex) : Nat := pageNumber leaf.top leaf.mid i

/-- Changes one entry. -/
def modify (leaf : Leaf) (i : TableIndex) (f : Entry → Entry) : Leaf :=
  { leaf with entries := leaf.entries.set i (f leaf.entries[i]) }

end Leaf

/-- A page and its entry. -/
structure PageEntry where
  vpn : Nat
  entry : Entry

structure PageTable where
  top : Directory
  mids : Array Directory
  leaves : Array Leaf
  top_lt : ∀ (i : TableIndex) (m : Nat), top[i] = some m → m < mids.size
  mid_lt : ∀ (m : Nat) (_ : m < mids.size) (j : TableIndex) (l : Nat),
    mids[m][j] = some l → l < leaves.size

/-- A table made by a walk. Middle tables count from 1, the top table being number 0. -/
inductive NewTable where
  | mid (id : Nat) (top : TableIndex)
  | leaf (id : Nat) (top mid : TableIndex)
deriving DecidableEq

/-- What a walk leads to: the entry's reference, and the table with what had to be made. -/
structure Walk where
  ref : EntryRef
  table : PageTable
  made : List NewTable

namespace PageTable

/-- Only the top table, with no page under it. -/
def empty : PageTable where
  top := Directory.empty
  mids := #[]
  leaves := #[]
  top_lt := by simp [Directory.empty]
  mid_lt := by simp

/-- Enters a new middle table at slot `i` of the top table. -/
def addMid (t : PageTable) (i : TableIndex) : PageTable where
  top := t.top.set i (some t.mids.size)
  mids := t.mids.push Directory.empty
  leaves := t.leaves
  top_lt := by
    intro k m h
    rw [Array.size_push]
    by_cases hk : i.val = k.val
    · simp [hk] at h
      omega
    · have h' : t.top[k] = some m := by simpa [Vector.getElem_set, hk] using h
      exact Nat.lt_succ_of_lt (t.top_lt k m h')
  mid_lt := by
    intro m hm j l h
    by_cases hlt : m < t.mids.size
    · rw [Array.getElem_push_lt hlt] at h
      exact t.mid_lt m hlt j l h
    · have hmEq : m = t.mids.size := by
        rw [Array.size_push] at hm
        omega
      subst hmEq
      simp [Directory.empty] at h

/-- Enters a new leaf table at slot `j` of middle table `m`. -/
def addLeaf (t : PageTable) (i j : TableIndex) (m : Nat) (hm : m < t.mids.size) : PageTable where
  top := t.top
  mids := t.mids.set m (t.mids[m].set j (some t.leaves.size))
  leaves := t.leaves.push (Leaf.empty i j)
  top_lt := by simpa using t.top_lt
  mid_lt := by
    intro n hn k l h
    rw [Array.size_push]
    rw [Array.getElem_set] at h
    split at h
    · next hmn =>
      by_cases hk : j.val = k.val
      · simp [hk] at h
        omega
      · have h' : t.mids[m][k] = some l := by simpa [Vector.getElem_set, hk] using h
        exact Nat.lt_succ_of_lt (t.mid_lt m hm k l h')
    · exact Nat.lt_succ_of_lt (t.mid_lt n (by simpa using hn) k l h)

/-- The part of a walk below the top table. -/
def walkMid (t : PageTable) (a : Address) (m : Nat) (hm : m < t.mids.size)
    (made : List NewTable) : Walk :=
  match t.mids[m][a.mid] with
  | some l => ⟨⟨l, a.bottom⟩, t, made⟩
  | none =>
    ⟨⟨t.leaves.size, a.bottom⟩, t.addLeaf a.top a.mid m hm,
      made ++ [.leaf t.leaves.size a.top a.mid]⟩

/-- Finds the entry of an address, making the tables that are missing on the way. -/
def walk (t : PageTable) (a : Address) : Walk :=
  match h : t.top[a.top] with
  | some m => t.walkMid a m (t.top_lt _ _ h) []
  | none =>
    (t.addMid a.top).walkMid a t.mids.size (by simp [addMid]) [.mid (t.mids.size + 1) a.top]

/-- Finds the entry of an address without making anything. -/
def lookup (t : PageTable) (a : Address) : Option EntryRef :=
  match h : t.top[a.top] with
  | none => none
  | some m =>
    have : m < t.mids.size := t.top_lt _ _ h
    t.mids[m][a.mid].map fun l => ⟨l, a.bottom⟩

/-- The page behind a reference, unless the reference points at no table. -/
def page? (t : PageTable) (r : EntryRef) : Option PageEntry :=
  t.leaves[r.leaf]?.map fun leaf => ⟨leaf.vpn r.index, leaf.entries[r.index]⟩

/-- The entry behind a reference. -/
def entry? (t : PageTable) (r : EntryRef) : Option Entry := (t.page? r).map (·.entry)

/-- Changes the entry behind a reference. A reference that points at no table changes nothing. -/
def modify (t : PageTable) (r : EntryRef) (f : Entry → Entry) : PageTable :=
  { t with
    leaves := t.leaves.modify r.leaf fun leaf => leaf.modify r.index f
    mid_lt := by simpa using t.mid_lt }

/-- Every entry that was ever mapped, leaf tables in the order in which they were made. -/
def mapped (t : PageTable) : List (EntryRef × PageEntry) :=
  t.leaves.toList.zipIdx.flatMap fun (leaf, id) =>
    (List.finRange tableSlots).filterMap fun i =>
      let entry := leaf.entries[i]
      if entry.isUnmapped then none else some (⟨id, i⟩, ⟨leaf.vpn i, entry⟩)

/-- Bytes of one directory: eight for each slot. -/
def directoryBytes : Nat := tableSlots * 8

/-- Bytes of one leaf table: thirty-two for each entry. -/
def leafBytes : Nat := tableSlots * 32

/-- Bytes held by the tables; the top table is there from the start. -/
def footprint (t : PageTable) : Nat :=
  (1 + t.mids.size) * directoryBytes + t.leaves.size * leafBytes

end PageTable

end DemandPaging
