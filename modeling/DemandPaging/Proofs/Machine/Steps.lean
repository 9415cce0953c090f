import DemandPaging.Proofs.Machine.Consistency

/-!
# What paging does, case by case

For each stage of paging, every way in which it can end: the guards, the answer and the machine
afterwards, which is a composition of the moves of `Consistency`. The stages nest as the program
nests them:

> `Frees`: a frame comes free. `Starves`: none does.
> `BringsIn`: a page that is not resident gets a frame and its bytes, or does not.
> `Translates`: an address is turned into a place in memory, or refused.

`translate_cases` is the inversion: on a consistent machine a translation ends in one of these
ways. In particular it never finds the machine broken. Later files argue by cases on these
relations and do not open the program again.
-/

namespace DemandPaging

/-- What holds of the second step on success, and of the first on failure, holds of both in turn. -/
theorem Outcome.andThen_elim {σ α β : Type} {P : Except Failure β → Machine σ → Prop}
    (o : Outcome σ α) (next : Machine σ → α → Outcome σ β)
    (hok : ∀ value, o.result = .ok value →
      P (next o.machine value).result (next o.machine value).machine)
    (herror : ∀ failure, o.result = .error failure → P (.error failure) o.machine) :
    P (o.andThen next).result (o.andThen next).machine := by
  obtain ⟨result, m, events⟩ := o
  cases result with
  | ok value => exact hok value rfl
  | error failure => exact herror failure rfl

namespace Machine

variable {σ : Type} [BackingStore σ]

/-! ## The stages -/

/-- Memory is full, and the policy names the page behind `victim` in `frame` to be given up. The
page is seen as the choice left it, with the bytes it has in memory. -/
structure Names (m : Machine σ) (choice : Policy.Choice) (frame : Nat) (victim : EntryRef)
    (page : PageEntry) (bytes : Page) : Prop where
  full : m.frameTable.firstFree? = none
  chosen : m.policy.evict? m.residents = some choice
  spares : m.residents.Spares choice.residents
  named : choice.victim = some frame
  occupant : m.frameTable.occupant? frame = some victim
  page : choice.residents.pageTable.page? victim = some page
  bytes : m.memory.page? frame = some bytes

/-- How a frame comes free: it was free, or its page is evicted. -/
inductive Frees (m : Machine σ) : Machine σ → Nat → Prop where
  | found {frame : Nat} (free : m.frameTable.firstFree? = some frame) : Frees m m frame
  | evicted {choice : Policy.Choice} {frame : Nat} {victim : EntryRef} {page : PageEntry}
      {bytes : Page} {offset : SwapOffset} {swap : σ} {frameTable : FrameTable}
      (names : m.Names choice frame victim page bytes)
      (saved : BackingStore.save m.swap bytes page.entry.slot? = (some offset, swap))
      (released : m.frameTable.release? frame = some frameTable) :
      Frees m ((m.choosing choice).vacating victim page.entry.dirty offset swap frameTable) frame

/-- How no frame comes free: the policy has no victim, its victim is not there, or swap is full. -/
inductive Starves (m : Machine σ) : PagingError → Machine σ → Prop where
  | noVictim {choice : Policy.Choice} (full : m.frameTable.firstFree? = none)
      (chosen : m.policy.evict? m.residents = some choice)
      (spares : m.residents.Spares choice.residents) (none : choice.victim = none) :
      Starves m .noVictim (m.choosing choice)
  | vacant {choice : Policy.Choice} {frame : Nat} (full : m.frameTable.firstFree? = none)
      (chosen : m.policy.evict? m.residents = some choice)
      (spares : m.residents.Spares choice.residents) (named : choice.victim = some frame)
      (free : m.frameTable.occupant? frame = none) :
      Starves m (.victimNotResident frame) (m.choosing choice)
  | exhausted {choice : Policy.Choice} {frame : Nat} {victim : EntryRef} {page : PageEntry}
      {bytes : Page} {swap : σ} (names : m.Names choice frame victim page bytes)
      (unsaved : BackingStore.save m.swap bytes page.entry.slot? = (none, swap)) :
      Starves m (.swapExhausted frame (BackingStore.capacity swap))
        ((m.choosing choice).withSwap swap)

/-- How a page that is not resident is brought in. -/
inductive BringsIn (m : Machine σ) (r : EntryRef) : Except Failure Nat → Machine σ → Prop where
  | starved {e : PagingError} {m' : Machine σ} (starves : m.Starves e m') :
      BringsIn m r (.error (.refused e)) m'
  | unreadable {m₀ : Machine σ} {frame : Nat} {p : PageEntry} {offset : SwapOffset}
      {e : PagingError} {swap : σ} (frees : m.Frees m₀ frame)
      (page : m₀.pageTable.page? r = some p) (onSwap : p.entry.residency = .onSwap offset)
      (unread : BackingStore.fetch m₀.swap offset = (.error e, swap)) :
      BringsIn m r (.error (.refused e)) (m₀.withSwap swap)
  | firstTouch {m₀ : Machine σ} {frame : Nat} {p : PageEntry} {frameTable : FrameTable}
      {memory : Memory} (frees : m.Frees m₀ frame) (page : m₀.pageTable.page? r = some p)
      (unmapped : p.entry.residency = .unmapped)
      (claimed : m₀.frameTable.claim? frame r = some frameTable)
      (filled : m₀.memory.setPage? frame Page.zero = some memory) :
      BringsIn m r (.ok frame) (m₀.placing r frame true m₀.swap frameTable memory)
  | swappedIn {m₀ : Machine σ} {frame : Nat} {p : PageEntry} {offset : SwapOffset} {bytes : Page}
      {swap : σ} {frameTable : FrameTable} {memory : Memory} (frees : m.Frees m₀ frame)
      (page : m₀.pageTable.page? r = some p) (onSwap : p.entry.residency = .onSwap offset)
      (read : BackingStore.fetch m₀.swap offset = (.ok bytes, swap))
      (claimed : m₀.frameTable.claim? frame r = some frameTable)
      (filled : m₀.memory.setPage? frame bytes = some memory) :
      BringsIn m r (.ok frame) (m₀.placing r frame false swap frameTable memory)

/-- How an address is translated. -/
inductive Translates (m : Machine σ) (a : Address) (kind : AccessKind) :
    Except Failure Nat → Machine σ → Prop where
  | outside (h : a.inFrame = false) : Translates m a kind (.error (.refused (.invalidOffset a))) m
  | hit {frame : Nat} (h : a.inFrame = true)
      (resident : (m.entering a true).pageTable.Resident (m.refOf a) frame) :
      Translates m a kind (.ok (Memory.addressOf frame + a.offset))
        ((m.entering a true).use (m.refOf a) kind frame)
  | fault {p : PageEntry} {frame : Nat} {m' : Machine σ} (h : a.inFrame = true)
      (page : (m.entering a false).pageTable.page? (m.refOf a) = some p)
      (absent : p.entry.frame? = none)
      (brings : (m.entering a false).BringsIn (m.refOf a) (.ok frame) m') :
      Translates m a kind (.ok (Memory.addressOf frame + a.offset))
        (m'.use (m.refOf a) kind frame)
  | refused {p : PageEntry} {e : PagingError} {m' : Machine σ} (h : a.inFrame = true)
      (page : (m.entering a false).pageTable.page? (m.refOf a) = some p)
      (absent : p.entry.frame? = none)
      (brings : (m.entering a false).BringsIn (m.refOf a) (.error (.refused e)) m') :
      Translates m a kind (.error (.refused e)) m'

/-! ## What the stages keep -/

/-- A search for a frame that fails leaves the machine consistent. -/
theorem Starves.consistent {m m' : Machine σ} {e : PagingError} (h : m.Consistent)
    (hstarves : m.Starves e m') : m'.Consistent := by
  cases hstarves with
  | noVictim _ _ spares _ => exact h.choosing spares
  | vacant _ _ spares _ _ => exact h.choosing spares
  | exhausted names _ => exact (h.choosing names.spares).withSwap _

theorem Frees.consistent {m m₀ : Machine σ} {frame : Nat} (h : m.Consistent)
    (hfrees : m.Frees m₀ frame) : m₀.Consistent := by
  cases hfrees with
  | found _ => exact h
  | evicted names _ released =>
    exact (h.choosing names.spares).vacating names.occupant released _ _ _

/-- The frame that comes free exists and is free. -/
theorem Frees.free {m m₀ : Machine σ} {frame : Nat} (hfrees : m.Frees m₀ frame) :
    frame < m₀.frameTable.size ∧ m₀.frameTable.occupant? frame = none := by
  cases hfrees with
  | found free => exact FrameTable.firstFree?_eq_some free
  | evicted names _ released =>
    obtain ⟨hlt, hsize, hocc⟩ := FrameTable.release?_spec released
    refine ⟨?_, ?_⟩
    · exact hsize.symm ▸ hlt
    · exact (hocc frame).trans (if_pos rfl)

/-- A page that is not resident is not concerned when a frame comes free. -/
theorem Frees.page? {m m₀ : Machine σ} {frame : Nat} (h : m.Consistent)
    (hfrees : m.Frees m₀ frame) {r : EntryRef} {p : PageEntry}
    (hp : m.pageTable.page? r = some p) (habsent : p.entry.frame? = none) :
    m₀.pageTable.page? r = some p := by
  cases hfrees with
  | found _ => exact hp
  | @evicted _ _ victim _ _ _ _ _ names _ _ =>
    -- the victim is resident and this page is not
    have hne : r ≠ victim := by
      intro hr
      have hres := (h.occupant_iff _ _).mp names.occupant
      rw [← hr] at hres
      exact PageTable.not_resident_of_frame?_eq_none hp habsent hres
    exact (PageTable.page?_modify_of_ne hne).trans (h.page?_choosing names.spares hp habsent)

/-- Bringing a page in leaves the machine consistent, at whichever stage it may fail. -/
theorem BringsIn.consistent {m m' : Machine σ} {r : EntryRef} {result : Except Failure Nat}
    {p : PageEntry} (h : m.Consistent) (hp : m.pageTable.page? r = some p)
    (habsent : p.entry.frame? = none) (hbrings : m.BringsIn r result m') : m'.Consistent := by
  cases hbrings with
  | starved starves => exact starves.consistent h
  | unreadable frees _ _ _ => exact (frees.consistent h).withSwap _
  | firstTouch frees _ _ claimed filled =>
    exact (frees.consistent h).placing (frees.page? h hp habsent) habsent claimed
      (Memory.setPage?_spec filled).2.1 _ _
  | swappedIn frees _ _ _ claimed filled =>
    exact (frees.consistent h).placing (frees.page? h hp habsent) habsent claimed
      (Memory.setPage?_spec filled).2.1 _ _

/-- A translation leaves the machine consistent. -/
theorem Translates.consistent {m m' : Machine σ} {a : Address} {kind : AccessKind}
    {result : Except Failure Nat} (h : m.Consistent) (ht : m.Translates a kind result m') :
    m'.Consistent := by
  cases ht with
  | outside _ => exact h
  | hit _ _ => exact (h.entering a true).use _ _ _
  | fault _ page absent brings =>
    exact (brings.consistent (h.entering a false) page absent).use _ _ _
  | refused _ page absent brings => exact brings.consistent (h.entering a false) page absent

/-! Tables are made by walks alone, so a lookup leads where it led before. -/

/-- Freeing a frame moves no entry. -/
theorem Frees.lookup {m m₀ : Machine σ} {frame : Nat} (hfrees : m.Frees m₀ frame) (a : Address) :
    m₀.pageTable.lookup a = m.pageTable.lookup a := by
  cases hfrees with
  | found _ => rfl
  | evicted names _ _ => exact names.spares.swept.lookup a

/-- Bringing a page in moves no entry. -/
theorem BringsIn.lookup {m m' : Machine σ} {r : EntryRef} {frame : Nat}
    (hbrings : m.BringsIn r (.ok frame) m') (a : Address) :
    m'.pageTable.lookup a = m.pageTable.lookup a := by
  cases hbrings with
  | firstTouch frees _ _ _ _ => exact frees.lookup a
  | swappedIn frees _ _ _ _ _ => exact frees.lookup a

/-- An address that was translated leads to its entry. -/
theorem Translates.lookup {m m' : Machine σ} {a : Address} {kind : AccessKind} {place : Nat}
    (h : m.Consistent) (ht : m.Translates a kind (.ok place) m') :
    m'.pageTable.lookup a = some (m.refOf a) := by
  have hwalk := h.rooted.lookup_walk a
  cases ht with
  | hit _ _ => exact hwalk
  | fault _ _ _ brings => exact (brings.lookup a).trans hwalk

/-! ## The inversion -/

/-- When memory is full, an eviction frees a frame or is refused. -/
theorem evict_cases {m : Machine σ} (h : m.Consistent) (hfull : m.frameTable.firstFree? = none) :
    (∃ e, m.evict.result = .error (.refused e) ∧ m.Starves e m.evict.machine) ∨
      ∃ frame, m.evict.result = .ok frame ∧ m.Frees m.evict.machine frame := by
  obtain ⟨choice, hchosen, hspares⟩ := Policy.evict?_spares h.grounded m.policy
  have hchosen' : m.policy.evict? ⟨m.frameTable, m.pageTable⟩ = some choice := hchosen
  unfold evict
  rw [hchosen']
  dsimp only
  split
  next hnone => exact Or.inl ⟨_, rfl, .noVictim hfull hchosen hspares hnone⟩
  next frame hnamed =>
    split
    next hfree => exact Or.inl ⟨_, rfl, .vacant hfull hchosen hspares hnamed hfree⟩
    next victim hocc =>
      obtain ⟨p, hp, hf⟩ := (h.occupant_iff frame victim).mp hocc
      obtain ⟨page, hpage, -⟩ := hspares.swept.page?_some hp
      have hlt := FrameTable.lt_size_of_occupant? hocc
      obtain ⟨bytes, hbytes⟩ := Memory.page?_isSome (m := m.memory) (h.frames ▸ hlt)
      obtain ⟨frameTable, hreleased⟩ := FrameTable.release?_isSome hlt
      -- consistency leaves nothing that the eviction could stumble over, but the store
      have names : m.Names choice frame victim page bytes :=
        ⟨hfull, hchosen, hspares, hnamed, hocc, hpage, hbytes⟩
      unfold vacate
      simp only [hpage, hbytes, hreleased]
      split
      next swap hsave => exact Or.inl ⟨_, rfl, .exhausted names hsave⟩
      next offset swap hsave => exact Or.inr ⟨frame, rfl, .evicted names hsave hreleased⟩

/-- How a page claims a frame that came free. -/
inductive Obtains (m : Machine σ) (r : EntryRef) : Except Failure Nat → Machine σ → Prop where
  | starved {e : PagingError} {m' : Machine σ} (starves : m.Starves e m') :
      Obtains m r (.error (.refused e)) m'
  | claimed {m₀ : Machine σ} {frame : Nat} {frameTable : FrameTable} (frees : m.Frees m₀ frame)
      (claimed : m₀.frameTable.claim? frame r = some frameTable) :
      Obtains m r (.ok frame) { m₀ with frameTable := frameTable }

/-- A frame is obtained in one of the ways of `Obtains`. -/
theorem obtainFrame_cases {m : Machine σ} (h : m.Consistent) (r : EntryRef) :
    m.Obtains r (m.obtainFrame r).result (m.obtainFrame r).machine := by
  -- a frame that came free can be claimed, whichever way it did
  have hclaim : ∀ {m₀ : Machine σ} {frame : Nat}, m.Frees m₀ frame →
      ∃ frameTable, m₀.frameTable.claim? frame r = some frameTable := fun hfrees =>
    FrameTable.claim?_isSome hfrees.free.1 hfrees.free.2 r
  unfold obtainFrame
  split
  next frame hfree =>
    obtain ⟨frameTable, hclaimed⟩ := hclaim (.found hfree)
    simp only [Outcome.ok, Outcome.andThen_ok, hclaimed]
    exact .claimed (.found hfree) hclaimed
  next hfull =>
    apply Outcome.andThen_elim (P := m.Obtains r)
    · intro frame hok
      rcases evict_cases h hfull with ⟨e, he, -⟩ | ⟨frame', hok', hfrees⟩
      · exact absurd (hok.symm.trans he) (by simp)
      · have hframe : frame = frame' := Except.ok.inj (hok.symm.trans hok')
        subst hframe
        obtain ⟨frameTable, hclaimed⟩ := hclaim hfrees
        simp only [hclaimed]
        exact .claimed hfrees hclaimed
    · intro failure herror
      rcases evict_cases h hfull with ⟨e, he, hstarves⟩ | ⟨frame', hok', -⟩
      · have hfailure : failure = .refused e := Except.error.inj (herror.symm.trans he)
        subst hfailure
        exact .starved hstarves
      · exact absurd (herror.symm.trans hok') (by simp)

/-- Filling a frame right after its page has claimed it. -/
theorem fillFrame_cases {m m₀ : Machine σ} (h : m.Consistent) {r : EntryRef} {p : PageEntry}
    (hp : m.pageTable.page? r = some p) (habsent : p.entry.frame? = none) {frame : Nat}
    (hfrees : m.Frees m₀ frame) {frameTable : FrameTable}
    (hclaimed : m₀.frameTable.claim? frame r = some frameTable) :
    m.BringsIn r
      (fillFrame { m₀ with frameTable := frameTable } r frame).result
      (fillFrame { m₀ with frameTable := frameTable } r frame).machine := by
  have hp₀ := hfrees.page? h hp habsent
  have hlt : frame < m₀.memory.frames := (hfrees.consistent h).frames ▸ hfrees.free.1
  have hreleased := FrameTable.release?_of_claim? hclaimed
  unfold fillFrame
  simp only [hp₀]
  split
  next g slot hres => exact absurd habsent (by simp [Entry.frame?, hres])
  next offset hres =>
    split
    next e swap hfetch =>
      -- the claim is undone, and the table is the one before it
      simp only [hreleased]
      exact .unreadable hfrees hp₀ hres hfetch
    next bytes swap hfetch =>
      obtain ⟨memory, hfilled⟩ := Memory.setPage?_isSome hlt bytes
      simp only [hfilled]
      exact .swappedIn hfrees hp₀ hres hfetch hclaimed hfilled
  next hres =>
    obtain ⟨memory, hfilled⟩ := Memory.setPage?_isSome hlt Page.zero
    simp only [hfilled]
    exact .firstTouch hfrees hp₀ hres hclaimed hfilled

/-- A page is brought in in one of the ways of `BringsIn`. -/
theorem bringIn_cases {m : Machine σ} (h : m.Consistent) {r : EntryRef} {p : PageEntry}
    (hp : m.pageTable.page? r = some p) (habsent : p.entry.frame? = none) :
    m.BringsIn r (m.bringIn r).result (m.bringIn r).machine := by
  have hobtains := obtainFrame_cases h r
  unfold bringIn
  apply Outcome.andThen_elim (P := m.BringsIn r)
  · intro frame hok
    generalize (m.obtainFrame r).machine = m₁ at hobtains ⊢
    rw [hok] at hobtains
    cases hobtains with
    | claimed hfrees hclaimed => exact fillFrame_cases h hp habsent hfrees hclaimed
  · intro failure herror
    rw [herror] at hobtains
    cases hobtains with
    | starved hstarves => exact .starved hstarves

/-- A page that is not brought in is refused for a cause: the machine is never found broken. -/
theorem BringsIn.refusal {m m' : Machine σ} {r : EntryRef} {failure : Failure}
    (hbrings : m.BringsIn r (.error failure) m') : ∃ e, failure = .refused e := by
  cases hbrings with
  | starved _ => exact ⟨_, rfl⟩
  | unreadable _ _ _ _ => exact ⟨_, rfl⟩

/-- A translation that fails is refused; the machine is not broken. -/
theorem Translates.refusal {m m' : Machine σ} {a : Address} {kind : AccessKind}
    {failure : Failure} (ht : m.Translates a kind (.error failure) m') :
    ∃ e, failure = .refused e := by
  cases ht with
  | outside _ => exact ⟨_, rfl⟩
  | refused _ _ _ _ => exact ⟨_, rfl⟩

/-- On a consistent machine every translation ends in one of the ways of `Translates`. -/
theorem translate_cases {m : Machine σ} (h : m.Consistent) (a : Address) (kind : AccessKind) :
    m.Translates a kind (m.translate a kind).result (m.translate a kind).machine := by
  unfold translate
  by_cases hin : a.inFrame = true
  · rw [if_pos hin]
    obtain ⟨p, hp, -⟩ := h.rooted.walk_page? a
    rw [Outcome.result_after, Outcome.machine_after]
    unfold locate
    simp only [PageTable.entry?, hp, Option.map_some]
    cases hf : p.entry.frame? with
    | some frame => exact .hit hin ⟨p, hp, hf⟩
    | none =>
      have hbrings := bringIn_cases (h.entering a false) hp hf
      apply Outcome.andThen_elim (P := m.Translates a kind)
      · intro frame hok
        exact .fault hin hp hf (hok ▸ hbrings)
      · intro failure herror
        have herror' : (bringIn (m.entering a false) (m.refOf a)).result = .error failure := herror
        have hrefused := hbrings
        rw [show (m.pageTable.walk a).ref = m.refOf a from rfl, herror'] at hrefused
        obtain ⟨e, rfl⟩ := hrefused.refusal
        exact .refused hin hp hf hrefused
  · rw [if_neg hin]
    exact .outside (by simpa using hin)

end Machine

end DemandPaging
