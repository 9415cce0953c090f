import DemandPaging.Machine.Outcome

/-!
# Paging

An access to a page that is not resident needs a frame. The lowest free frame is taken; when there
is none, the policy names a victim, whose page is written to swap, dirty or not, before its frame
is handed on. The page is then read back from swap, or starts out as zeros if it was never touched;
a first touch counts as a write, since swap holds no copy of the page yet.

`translate` is the whole way from an address to a place in memory.
-/

namespace DemandPaging.Machine

variable {σ : Type} [BackingStore σ]

/-- Writes the page in `frame`, whose entry is `victim`, to swap and frees the frame. If the store
has no room, the page stays where it is. -/
def vacate (m : Machine σ) (frame : Nat) (victim : EntryRef) : Outcome σ Nat :=
  match m.pageTable.page? victim, m.memory.page? frame with
  | some page, some bytes =>
    match BackingStore.save m.swap bytes page.entry.slot? with
    | (none, swap) =>
      .refused { m with swap := swap } (.swapExhausted frame (BackingStore.capacity swap))
    | (some offset, swap) =>
      match m.frameTable.release? frame with
      | none => .broken m
      | some frameTable =>
        let m : Machine σ :=
          { m with
            pageTable := m.pageTable.modify victim (·.swapOut offset)
            frameTable := frameTable
            swap := swap
            counters := m.counters.countEviction page.entry.dirty }
        ⟨.ok frame, m, #[.evicted page.vpn frame offset page.entry.dirty]⟩
  | _, _ => .broken m

/-- Frees a frame by evicting the page that the policy chooses. -/
def evict (m : Machine σ) : Outcome σ Nat :=
  match m.policy.evict? ⟨m.frameTable, m.pageTable⟩ with
  | none => .broken m
  | some choice =>
    let m : Machine σ :=
      { m with policy := choice.policy, pageTable := choice.residents.pageTable }
    match choice.victim with
    | none => .refused m .noVictim
    | some frame =>
      match m.frameTable.occupant? frame with
      | none => .refused m (.victimNotResident frame)
      | some victim => m.vacate frame victim

/-- Finds a frame for a page and hands it over. -/
def obtainFrame (m : Machine σ) (r : EntryRef) : Outcome σ Nat :=
  let found : Outcome σ Nat :=
    match m.frameTable.firstFree? with
    | some frame => .ok m frame
    | none => m.evict
  found.andThen fun m frame =>
    match m.frameTable.claim? frame r with
    | none => .broken m
    | some frameTable => .ok { m with frameTable := frameTable } frame

/-- Fills a frame that its page has claimed with the bytes of the page. If they cannot be read,
the frame is free again. -/
def fillFrame (m : Machine σ) (r : EntryRef) (frame : Nat) : Outcome σ Nat :=
  match m.pageTable.page? r with
  | none => .broken m
  | some page =>
    match page.entry.residency with
    | .resident .. => .broken m
    | .onSwap offset =>
      match BackingStore.fetch m.swap offset with
      | (.error e, swap) =>
        match m.frameTable.release? frame with
        | none => .broken m
        | some frameTable => .refused { m with frameTable := frameTable, swap := swap } e
      | (.ok bytes, swap) =>
        match m.memory.setPage? frame bytes with
        | none => .broken m
        | some memory =>
          let m : Machine σ :=
            { m with
              pageTable := m.pageTable.modify r fun e => (e.place frame).setDirty false
              memory := memory
              swap := swap }
          ⟨.ok frame, m, #[.swappedIn page.vpn offset frame]⟩
    | .unmapped =>
      match m.memory.setPage? frame Page.zero with
      | none => .broken m
      | some memory =>
        let m : Machine σ :=
          { m with
            pageTable := m.pageTable.modify r fun e => (e.place frame).setDirty true
            memory := memory }
        ⟨.ok frame, m, #[.firstTouch page.vpn frame]⟩

/-- Brings a page that is not resident into a frame. -/
def bringIn (m : Machine σ) (r : EntryRef) : Outcome σ Nat :=
  (m.obtainFrame r).andThen fun m frame => m.fillFrame r frame

/-- The frame of a page, which is brought in if need be. Counts a hit or a miss; a miss counts
even if no frame can be found. -/
def locate (m : Machine σ) (r : EntryRef) : Outcome σ Nat :=
  match m.pageTable.entry? r with
  | none => .broken m
  | some entry =>
    match entry.frame? with
    | some frame =>
      .ok { m with counters := { m.counters with hits := m.counters.hits + 1 } } frame
    | none =>
      bringIn { m with counters := { m.counters with misses := m.counters.misses + 1 } } r

/-- Uses the page behind `r` in the frame that holds it: marks its entry, dirty too for a write,
and tells the policy. There is such an entry, since `locate` has looked at it. -/
def use (m : Machine σ) (r : EntryRef) (kind : AccessKind) (frame : Nat) : Machine σ :=
  { m with
    pageTable := m.pageTable.modify r (·.touch kind)
    policy := m.policy.reference frame }

/-- The place in memory of an address, whose page is brought in if need be. An offset beyond the
simulated bytes is refused before anything is touched. -/
def translate (m : Machine σ) (a : Address) (kind : AccessKind) : Outcome σ Nat :=
  if a.inFrame then
    match m.pageTable.walk a with
    | ⟨r, pageTable, made⟩ =>
      let m : Machine σ :=
        { m with
          pageTable := pageTable
          counters := { m.counters with references := m.counters.references + 1 } }
      .after (made.map .tableMade).toArray <|
        (m.locate r).andThen fun m frame =>
          .ok (m.use r kind frame) (Memory.addressOf frame + a.offset)
  else
    .refused m (.invalidOffset a)

end DemandPaging.Machine
