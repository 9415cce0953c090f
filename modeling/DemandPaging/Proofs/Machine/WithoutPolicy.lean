import DemandPaging.Proofs.Machine.Location
import DemandPaging.Proofs.Machine.SwapIn

/-!
# Paging without a policy

A policy is told of every use, but it is asked only when memory is full. A page that is resident is
used where it is, and a page that was never touched needs nothing but a free frame. Such a request
(`HasPlace`) never comes to the store either, so there is nothing that could refuse it.

> `HasPlace.served`: it is served, and leaves the store alone.
> `HasPlace.serve`: machines that differ in the policy only serve it alike.
-/

namespace DemandPaging

theorem Entry.residency_of_isUnmapped {e : Entry} (h : e.isUnmapped = true) :
    e.residency = .unmapped := by
  unfold isUnmapped at h
  split at h
  next hresidency => exact hresidency
  next => simp at h

namespace Machine

variable {σ : Type}

/-! ## Machines that differ in the policy -/

/-- The machines have the same tables, memory, store and counters. -/
structure SameButPolicy (m m' : Machine σ) : Prop where
  pageTable : m'.pageTable = m.pageTable
  frameTable : m'.frameTable = m.frameTable
  memory : m'.memory = m.memory
  swap : m'.swap = m.swap
  counters : m'.counters = m.counters

theorem SameButPolicy.eq {m m' : Machine σ} (h : m.SameButPolicy m') :
    m' = { m with policy := m'.policy } := by
  obtain ⟨pageTable, frameTable, memory, swap, policy, counters⟩ := m'
  obtain ⟨rfl, rfl, rfl, rfl, rfl⟩ := h
  rfl

end Machine

namespace Outcome

variable {σ α β : Type}

/-- The outcomes are the same, but for the policies of the machines afterwards. -/
structure SameButPolicy (o o' : Outcome σ α) : Prop where
  result : o'.result = o.result
  events : o'.events = o.events
  machine : o.machine.SameButPolicy o'.machine

theorem SameButPolicy.after {o o' : Outcome σ α} (h : o.SameButPolicy o')
    (events : Array Event) : (o.after events).SameButPolicy (o'.after events) where
  result := h.result
  events := congrArg (events ++ ·) h.events
  machine := h.machine

/-- Steps that agree but for the policy do so together. -/
theorem SameButPolicy.andThen {o o' : Outcome σ α} (h : o.SameButPolicy o')
    {next next' : Machine σ → α → Outcome σ β}
    (hnext : ∀ m m' value, m.SameButPolicy m' → (next m value).SameButPolicy (next' m' value)) :
    (o.andThen next).SameButPolicy (o'.andThen next') := by
  obtain ⟨result, m, events⟩ := o
  obtain ⟨result', m', events'⟩ := o'
  obtain ⟨rfl, rfl, hm⟩ := h
  cases result' with
  | ok value => exact (hnext m m' value hm).after events'
  | error failure => exact ⟨rfl, rfl, hm⟩

end Outcome

namespace Machine

variable {σ : Type} {m m' : Machine σ} {a : Address} {q : Request}

/-- What is done at a place does not concern the policy. -/
theorem SameButPolicy.answer (h : m.SameButPolicy m') (q : Request) (place : Nat) :
    (m.answer q place).SameButPolicy (m'.answer q place) := by
  cases q with
  | translate a kind => exact ⟨rfl, rfl, h⟩
  | access r =>
    refine Outcome.SameButPolicy.andThen ?_ fun _ _ _ hm => ⟨rfl, rfl, hm⟩
    split
    next =>
      unfold store
      rw [h.memory]
      split
      next => exact ⟨rfl, rfl, h⟩
      next => exact ⟨rfl, rfl, h.pageTable, h.frameTable, rfl, h.swap, h.counters⟩
    next =>
      unfold compare
      rw [h.memory, h.counters]
      split
      next => exact ⟨rfl, rfl, h⟩
      next =>
        split
        next => exact ⟨rfl, rfl, h⟩
        next => exact ⟨rfl, rfl, h.pageTable, h.frameTable, rfl, h.swap, rfl⟩

/-! ## Pages that have a place -/

/-- The page of an address is in a frame, or it was never touched and there is a frame for it. -/
inductive HasPlace (m : Machine σ) (a : Address) : Prop where
  | resident {frame : Nat} (found : m.frameOf? a = some frame)
  | fresh {frame : Nat} (free : m.frameTable.firstFree? = some frame)
      (new : a.vpn ∉ m.pageTable.mappedPages)

/-- A page that has a place and is not resident was never touched, and finds a free frame. -/
theorem HasPlace.of_absent (h : m.Consistent) (hplace : m.HasPlace a) {p : PageEntry}
    (hp : (m.entering a false).pageTable.page? (m.refOf a) = some p)
    (habsent : p.entry.frame? = none) :
    p.entry.residency = .unmapped ∧ ∃ frame, m.frameTable.firstFree? = some frame := by
  cases hplace with
  | resident found =>
    have hr := (h.frameOf?_eq_some false).mp found
    exact absurd hr (PageTable.not_resident_of_frame?_eq_none hp habsent)
  | @fresh frame free new =>
    exact ⟨Entry.residency_of_isUnmapped ((h.isUnmapped_iff hp).mpr new), frame, free⟩

variable [BackingStore σ]

/-- It is translated, without a call on the store. -/
theorem HasPlace.translates (h : m.Consistent) (hplace : m.HasPlace a) (hin : a.inFrame = true)
    {kind : AccessKind} {placed : Except Failure Nat} (ht : m.Translates a kind placed m') :
    (∃ place, placed = .ok place) ∧ m'.swap = m.swap := by
  -- a page that has to be brought in finds the frame in the machine as it is, and is not on swap
  have hfresh : ∀ {p : PageEntry}, (m.entering a false).pageTable.page? (m.refOf a) = some p →
      p.entry.frame? = none → p.entry.residency = .unmapped ∧
        ∃ frame, (m.entering a false).Frees (m.entering a false) frame := by
    intro p hp habsent
    obtain ⟨hunmapped, frame, hfree⟩ := hplace.of_absent h hp habsent
    exact ⟨hunmapped, frame, .found hfree⟩
  cases ht with
  | outside hout =>
    rw [hout] at hin
    simp at hin
  | hit _ _ => exact ⟨⟨_, rfl⟩, rfl⟩
  | fault _ page absent brings =>
    obtain ⟨hunmapped, frame, hfrees⟩ := hfresh page absent
    refine ⟨⟨_, rfl⟩, ?_⟩
    cases brings with
    | firstTouch frees _ _ _ _ =>
      obtain ⟨rfl, -⟩ := hfrees.unique frees
      rfl
    | swappedIn frees page₀ onSwap _ _ _ =>
      obtain ⟨rfl, -⟩ := hfrees.unique frees
      obtain rfl := Option.some.inj (page.symm.trans page₀)
      rw [hunmapped] at onSwap
      simp at onSwap
  | refused _ page absent brings =>
    obtain ⟨hunmapped, frame, hfrees⟩ := hfresh page absent
    cases brings with
    | starved starves => exact absurd hfrees starves.not_frees
    | unreadable frees page₀ onSwap _ =>
      obtain ⟨rfl, -⟩ := hfrees.unique frees
      obtain rfl := Option.some.inj (page.symm.trans page₀)
      rw [hunmapped] at onSwap
      simp at onSwap

/-- A request for a page that has a place is served. -/
theorem HasPlace.served (h : m.Consistent) (hplace : m.HasPlace q.address)
    (hin : q.address.inFrame = true) :
    (∃ reply, (m.serve q).result = .ok reply) ∧ (m.serve q).machine.swap = m.swap := by
  have hserves := serve_cases h q
  generalize (m.serve q).machine = m' at hserves ⊢
  generalize (m.serve q).result = result at hserves ⊢
  obtain ⟨placed, m₁, memory, mismatches, translates, rfl, hfailure⟩ := hserves.translates
  obtain ⟨⟨place, rfl⟩, hswap⟩ := hplace.translates h hin translates
  refine ⟨?_, hswap⟩
  cases result with
  | ok reply => exact ⟨reply, rfl⟩
  | error failure =>
    have hfailed := (hfailure failure).mp rfl
    simp at hfailed

/-! ## The same under any policy -/

/-- A page that was never touched takes the lowest frame that is free, filled with zeros. -/
theorem bringIn_of_free {r : EntryRef} {p : PageEntry} {frame : Nat} {frameTable : FrameTable}
    {memory : Memory} (hp : m.pageTable.page? r = some p)
    (hunmapped : p.entry.residency = .unmapped) (hfree : m.frameTable.firstFree? = some frame)
    (hclaimed : m.frameTable.claim? frame r = some frameTable)
    (hfilled : m.memory.setPage? frame Page.zero = some memory) :
    m.bringIn r = ⟨.ok frame, m.placing r frame true m.swap frameTable memory,
      #[.firstTouch p.vpn frame]⟩ := by
  unfold bringIn obtainFrame
  simp only [hfree, Outcome.ok, Outcome.andThen_ok, hclaimed]
  unfold fillFrame
  simp only [Outcome.after, Outcome.andThen_ok, hp, hunmapped, hfilled]
  rfl

/-- A page that comes in for the first time takes the lowest free frame, full of zeros. -/
theorem translate_of_fresh (h : m.Consistent) (hin : a.inFrame = true) {frame : Nat}
    {frameTable : FrameTable} {memory : Memory} (hfree : m.frameTable.firstFree? = some frame)
    (hnew : a.vpn ∉ m.pageTable.mappedPages)
    (hclaimed : m.frameTable.claim? frame (m.refOf a) = some frameTable)
    (hfilled : m.memory.setPage? frame Page.zero = some memory) (kind : AccessKind) :
    m.translate a kind = ⟨.ok (Memory.addressOf frame + a.offset),
      ((m.entering a false).placing (m.refOf a) frame true m.swap frameTable memory).use
        (m.refOf a) kind frame,
      ((m.pageTable.walk a).made.map Event.tableMade).toArray ++ #[.firstTouch a.vpn frame]⟩ := by
  obtain ⟨p, hp, hvpn⟩ := h.rooted.walk_page? a
  have hentry : (m.entering a false).pageTable.page? (m.refOf a) = some p := hp
  have hunmapped := Entry.residency_of_isUnmapped ((h.isUnmapped_iff hentry).mpr hnew)
  have hframe : p.entry.frame? = none := by rw [Entry.frame?, hunmapped]
  have hbrings := bringIn_of_free (m := m.entering a false) hentry hunmapped hfree hclaimed hfilled
  unfold translate
  rw [if_pos hin]
  simp only [locate, PageTable.entry?, hp, Option.map_some, hframe]
  refine (congrArg (fun o => (Outcome.andThen o _).after _) hbrings).trans ?_
  rw [← hvpn]
  rfl

/-- Machines that differ in the policy only translate the address of such a page alike. -/
theorem HasPlace.translate (h : m.Consistent) (hplace : m.HasPlace a) (hin : a.inFrame = true)
    (hsame : m.SameButPolicy m') (kind : AccessKind) :
    (m.translate a kind).SameButPolicy (m'.translate a kind) := by
  cases hplace with
  | resident found =>
    obtain ⟨r, hlookup, hr⟩ := lookup_of_frameOf? found
    have hlookup' : m'.pageTable.lookup a = some r := hsame.pageTable ▸ hlookup
    rw [translate_of_resident hin hlookup hr,
      translate_of_resident hin hlookup' (hsame.pageTable ▸ hr), hsame.eq]
    exact ⟨rfl, rfl, rfl, rfl, rfl, rfl, rfl⟩
  | @fresh frame free new =>
    obtain ⟨hlt, hempty⟩ := FrameTable.firstFree?_eq_some free
    obtain ⟨frameTable, hclaimed⟩ := FrameTable.claim?_isSome hlt hempty (m.refOf a)
    obtain ⟨memory, hfilled⟩ := Memory.setPage?_isSome (h.frames ▸ hlt) Page.zero
    have h' : m'.Consistent := hsame.eq ▸ h.of_eq h.rooted (fun _ _ => Iff.rfl) rfl rfl h.counted
    rw [translate_of_fresh h hin free new hclaimed hfilled kind]
    rw [hsame.eq] at h' ⊢
    rw [translate_of_fresh h' hin free new hclaimed hfilled kind]
    exact ⟨rfl, rfl, rfl, rfl, rfl, rfl, rfl⟩

/-- An offset that is not simulated is turned away before anything is touched. -/
theorem serve_outside (m : Machine σ) (hout : q.address.inFrame = false) :
    m.serve q = ⟨.error (.refused (.invalidOffset q.address)), m, q.logged⟩ := by
  rw [serve_eq, Machine.translate, if_neg (by rw [hout]; decide)]
  simp [Outcome.refused, Outcome.after]

/-- And serve a request for it alike. -/
theorem HasPlace.serve (h : m.Consistent)
    (hplace : q.address.inFrame = true → m.HasPlace q.address) (hsame : m.SameButPolicy m') :
    (m.serve q).SameButPolicy (m'.serve q) := by
  cases hin : q.address.inFrame with
  | false =>
    rw [serve_outside m hin, serve_outside m' hin]
    exact ⟨rfl, rfl, hsame⟩
  | true =>
    rw [serve_eq, serve_eq]
    refine Outcome.SameButPolicy.after (Outcome.SameButPolicy.andThen ?_ ?_) q.logged
    · exact (hplace hin).translate h hin hsame q.kind
    · intro m₁ m₁' place hsame₁
      exact hsame₁.answer q place

end Machine

end DemandPaging
