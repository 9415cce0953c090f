import DemandPaging.Proofs.Machine.Contents
import DemandPaging.Proofs.Machine.Residents

/-!
# How a page comes in from swap

The stages of paging were turned into relations, each with its ways to end. A stage is a function
all the same: it ends in one of them, and the machine before it says in which. For a page on swap
that leaves the store with the last word:

> `serve_onSwap`: once a frame has come free, the request is refused if the pagein is, and otherwise
> the page is in that frame and the request is answered there.

The frame that came free is the lowest that is free then (`Frees.firstFree?`), and its former page
is on swap with the bytes it had (`Frees.saved`).
-/

namespace DemandPaging

/-- What is logged of a request before it is served. -/
def Request.logged : Request → Array Event
  | .translate _ _ => #[]
  | .access r => #[.accessed r]

namespace Machine

variable {σ : Type} {m m' m₀ m₁ : Machine σ}

/-! ## The answer to a request -/

/-- What is done with the place that the address of a request was translated to. -/
def answer (m : Machine σ) (q : Request) (place : Nat) : Outcome σ Reply :=
  match q with
  | .translate _ _ => .ok m (.place place)
  | .access r =>
    (if r.kind.writes then m.store place r.value else m.compare place r.line r.value).andThen
      fun m mismatch => .ok m (.checked mismatch)

/-- Answering changes bytes and counts mismatches. -/
theorem pageTable_answer (m : Machine σ) (q : Request) (place : Nat) :
    (m.answer q place).machine.pageTable = m.pageTable := by
  cases q with
  | translate a kind => rfl
  | access r =>
    have hchecked : (if r.kind.writes then m.store place r.value
        else m.compare place r.line r.value).machine.pageTable = m.pageTable := by
      unfold store compare
      repeat' split
      all_goals rfl
    exact Outcome.andThen_elim (P := fun _ m' => m'.pageTable = m.pageTable) _ _
      (fun _ _ => hchecked) (fun _ _ => hchecked)

/-- A policy names one page. -/
theorem Names.unique {choice choice' : Policy.Choice} {frame frame' : Nat}
    {victim victim' : EntryRef} {page page' : PageEntry} {bytes bytes' : Page}
    (names : m.Names choice frame victim page bytes)
    (names' : m.Names choice' frame' victim' page' bytes') :
    choice' = choice ∧ frame' = frame ∧ victim' = victim ∧ page' = page ∧ bytes' = bytes := by
  have hchoice : choice' = choice := Option.some.inj (names'.chosen.symm.trans names.chosen)
  subst hchoice
  have hframe : frame' = frame := Option.some.inj (names'.named.symm.trans names.named)
  subst hframe
  have hvictim : victim' = victim := Option.some.inj (names'.occupant.symm.trans names.occupant)
  subst hvictim
  exact ⟨rfl, rfl, rfl, Option.some.inj (names'.page.symm.trans names.page),
    Option.some.inj (names'.bytes.symm.trans names.bytes)⟩

variable [BackingStore σ]

/-- A request is logged if it is an access, then its address is translated, and what is found at the
place is its answer. -/
theorem serve_eq (m : Machine σ) (q : Request) :
    m.serve q = ((m.translate q.address q.kind).andThen fun m place =>
      m.answer q place).after q.logged := by
  cases q with
  | translate a kind => simp [serve, answer, Request.address, Request.kind, Request.logged,
      Outcome.after]
  | access r =>
    simp only [serve, access, Request.address, Request.kind, Request.logged]
    generalize m.translate r.address r.kind = o
    obtain ⟨result, m', events⟩ := o
    cases result with
    | error failure => rfl
    | ok place =>
      simp only [Outcome.andThen_ok, answer]
      generalize (if r.kind.writes then m'.store place r.value
        else m'.compare place r.line r.value) = checked
      obtain ⟨result, m'', events'⟩ := checked
      cases result with
      | error failure => rfl
      | ok mismatch => simp [Outcome.after, Array.append_assoc]

theorem serve_eq_answer (m : Machine σ) (q : Request) :
    (m.serve q).result = ((m.translate q.address q.kind).andThen fun m place =>
        m.answer q place).result ∧
      (m.serve q).machine = ((m.translate q.address q.kind).andThen fun m place =>
        m.answer q place).machine := by
  rw [serve_eq]
  exact ⟨rfl, rfl⟩

/-! ## One way to end -/

/-- One frame comes free, in one way. -/
theorem Frees.unique {frame frame' : Nat} (hfrees : m.Frees m₀ frame)
    (hfrees' : m.Frees m₁ frame') : m₁ = m₀ ∧ frame' = frame := by
  cases hfrees with
  | found free =>
    cases hfrees' with
    | found free' => exact ⟨rfl, Option.some.inj (free'.symm.trans free)⟩
    | evicted names _ _ =>
      rw [names.full] at free
      simp at free
  | evicted names saved released =>
    cases hfrees' with
    | found free =>
      rw [names.full] at free
      simp at free
    | evicted names' saved' released' =>
      obtain ⟨rfl, rfl, rfl, rfl, rfl⟩ := names.unique names'
      obtain ⟨hoffset, rfl⟩ := Prod.mk.inj (saved'.symm.trans saved)
      rw [released, Option.some.injEq] at released'
      rw [Option.some.inj hoffset, released']
      exact ⟨rfl, rfl⟩

/-- Either a frame comes free or none does. -/
theorem Starves.not_frees {e : PagingError} {frame : Nat} (hstarves : m.Starves e m') :
    ¬ m.Frees m₀ frame := by
  intro hfrees
  cases hfrees with
  | found free =>
    have hfull : m.frameTable.firstFree? = none := by
      cases hstarves with
      | noVictim full _ _ _ => exact full
      | vacant full _ _ _ _ => exact full
      | exhausted names _ => exact names.full
    rw [hfull] at free
    simp at free
  | evicted names saved _ =>
    cases hstarves with
    | noVictim _ chosen _ none =>
      have hchoice := Option.some.inj (chosen.symm.trans names.chosen)
      rw [hchoice, names.named] at none
      simp at none
    | vacant _ chosen _ named free =>
      have hchoice := Option.some.inj (chosen.symm.trans names.chosen)
      rw [hchoice, names.named, Option.some.injEq] at named
      rw [← named, names.occupant] at free
      simp at free
    | exhausted names' unsaved =>
      obtain ⟨rfl, rfl, rfl, rfl, rfl⟩ := names.unique names'
      have hanswer := (Prod.mk.inj (saved.symm.trans unsaved)).1
      simp at hanswer

/-- The frame that has come free is the lowest that is free. -/
theorem Frees.firstFree? {frame : Nat} (hfrees : m.Frees m₀ frame) :
    m₀.frameTable.firstFree? = some frame := by
  cases hfrees with
  | found free => exact free
  | evicted names _ released => exact FrameTable.firstFree?_of_release? names.full released

/-- The page that was in the frame is on swap, with the bytes that it had there. -/
theorem Frees.saved [LawfulStore σ] {frame v : Nat} {bytes : Page} (hfrees : m.Frees m₀ frame)
    (hv : m.residents.vpn? frame = some v) (hbytes : m.memory.page? frame = some bytes) :
    ∃ r p o, m₀.pageTable.page? r = some p ∧ p.vpn = v ∧ p.entry.residency = .onSwap o ∧
      LawfulStore.held m₀.swap o = some bytes := by
  cases hfrees with
  | found free =>
    rw [ResidentPages.vpn?_of_free (FrameTable.firstFree?_eq_some free).2] at hv
    simp at hv
  | @evicted choice _ victim page bytes' offset swap frameTable names saved released =>
    have hvpn : page.vpn = v := Option.some.inj (names.vpn?_frame.symm.trans hv)
    have hsame : bytes' = bytes := Option.some.inj (names.bytes.symm.trans hbytes)
    have hpage : (choice.residents.pageTable.modify victim (·.swapOut offset)).page? victim
        = some (page.update (·.swapOut offset)) := by
      rw [PageTable.page?_modify_self, names.page, Option.map_some]
    have hheld : LawfulStore.held swap offset = some bytes := by
      rw [LawfulStore.save_held saved, if_pos rfl, hsame]
    exact ⟨victim, _, offset, hpage, hvpn, rfl, hheld⟩

/-! ## The last word of the store -/

/-- A page on swap, when a frame has come free for it. -/
theorem BringsIn.of_onSwap {r : EntryRef} {p : PageEntry} {offset : SwapOffset} {frame : Nat}
    (hfrees : m.Frees m₀ frame) (hp : m₀.pageTable.page? r = some p)
    (honSwap : p.entry.residency = .onSwap offset) {result : Except Failure Nat}
    (hbrings : m.BringsIn r result m') :
    (∃ e swap, BackingStore.fetch m₀.swap offset = (.error e, swap) ∧
        result = .error (.refused e) ∧ m' = m₀.withSwap swap) ∨
      ∃ bytes swap frameTable memory, BackingStore.fetch m₀.swap offset = (.ok bytes, swap) ∧
        m₀.frameTable.claim? frame r = some frameTable ∧
        m₀.memory.setPage? frame bytes = some memory ∧ result = .ok frame ∧
        m' = m₀.placing r frame false swap frameTable memory := by
  -- what is behind the entry is this page, at this offset
  have hresidency : ∀ {q : PageEntry}, m₀.pageTable.page? r = some q →
      q.entry.residency = .onSwap offset := by
    intro q hq
    rw [hp, Option.some.injEq] at hq
    exact hq ▸ honSwap
  cases hbrings with
  | starved starves => exact absurd hfrees starves.not_frees
  | unreadable frees page onSwap unread =>
    obtain ⟨rfl, rfl⟩ := frees.unique hfrees
    obtain rfl := Residency.onSwap.inj (onSwap.symm.trans (hresidency page))
    exact Or.inl ⟨_, _, unread, rfl, rfl⟩
  | firstTouch frees page unmapped _ _ =>
    obtain ⟨rfl, rfl⟩ := frees.unique hfrees
    exact absurd (unmapped.symm.trans (hresidency page)) (by simp)
  | swappedIn frees page onSwap read claimed filled =>
    obtain ⟨rfl, rfl⟩ := frees.unique hfrees
    obtain rfl := Residency.onSwap.inj (onSwap.symm.trans (hresidency page))
    exact Or.inr ⟨_, _, _, _, read, claimed, filled, rfl, rfl⟩

theorem Translates.of_onSwap (h : m.Consistent) {a : Address} {kind : AccessKind}
    (hin : a.inFrame = true) {p : PageEntry} {offset : SwapOffset}
    (hp : (m.entering a false).pageTable.page? (m.refOf a) = some p)
    (honSwap : p.entry.residency = .onSwap offset) {frame : Nat}
    (hfrees : (m.entering a false).Frees m₀ frame) {result : Except Failure Nat}
    (ht : m.Translates a kind result m') :
    (∃ e swap, BackingStore.fetch m₀.swap offset = (.error e, swap) ∧
        result = .error (.refused e) ∧ m' = m₀.withSwap swap) ∨
      ∃ bytes swap frameTable memory, BackingStore.fetch m₀.swap offset = (.ok bytes, swap) ∧
        m₀.frameTable.claim? frame (m.refOf a) = some frameTable ∧
        m₀.memory.setPage? frame bytes = some memory ∧
        result = .ok (Memory.addressOf frame + a.offset) ∧
        m' = (m₀.placing (m.refOf a) frame false swap frameTable memory).use (m.refOf a) kind
          frame := by
  have habsent : p.entry.frame? = none := by
    unfold Entry.frame?
    rw [honSwap]
  have hp₀ := hfrees.page? (h.entering a false) hp habsent
  cases ht with
  | outside hout => exact absurd (hin.symm.trans hout) (by simp)
  | hit _ resident =>
    have hresident : (m.entering a false).pageTable.Resident (m.refOf a) _ := resident
    exact absurd hresident (PageTable.not_resident_of_frame?_eq_none hp habsent)
  | fault _ _ _ brings =>
    rcases brings.of_onSwap hfrees hp₀ honSwap with ⟨e, swap, -, herror, -⟩ |
      ⟨bytes, swap, frameTable, memory, hread, hclaimed, hfilled, hok, rfl⟩
    · simp at herror
    · obtain rfl := Except.ok.inj hok
      exact Or.inr ⟨bytes, swap, frameTable, memory, hread, hclaimed, hfilled, rfl, rfl⟩
  | refused _ _ _ brings =>
    rcases brings.of_onSwap hfrees hp₀ honSwap with
      ⟨e, swap, hunread, herror, rfl⟩ | ⟨_, _, _, _, -, -, -, hok, -⟩
    · exact Or.inl ⟨e, swap, hunread, herror, rfl⟩
    · simp at hok

/-- A request for a page on swap, when a frame has come free for it: the pagein decides. -/
theorem serve_onSwap (h : m.Consistent) {q : Request} (hin : q.address.inFrame = true)
    {p : PageEntry} {offset : SwapOffset}
    (hp : (m.entering q.address false).pageTable.page? (m.refOf q.address) = some p)
    (honSwap : p.entry.residency = .onSwap offset) {frame : Nat}
    (hfrees : (m.entering q.address false).Frees m₀ frame) :
    (∃ e swap, BackingStore.fetch m₀.swap offset = (.error e, swap) ∧
        (m.serve q).result = .error (.refused e) ∧ (m.serve q).machine = m₀.withSwap swap) ∨
      ∃ bytes swap frameTable memory, BackingStore.fetch m₀.swap offset = (.ok bytes, swap) ∧
        m₀.frameTable.claim? frame (m.refOf q.address) = some frameTable ∧
        m₀.memory.setPage? frame bytes = some memory ∧ (∃ reply, (m.serve q).result = .ok reply) ∧
        let m₁ := (m₀.placing (m.refOf q.address) frame false swap frameTable memory).use
          (m.refOf q.address) q.kind frame
        let place := Memory.addressOf frame + q.address.offset
        (m.serve q).result = (m₁.answer q place).result ∧
          (m.serve q).machine = (m₁.answer q place).machine := by
  have hends := fun {result m'} (ht : m.Translates q.address q.kind result m') =>
    ht.of_onSwap h hin hp honSwap hfrees
  obtain ⟨hresult, hmachine⟩ := serve_eq_answer m q
  obtain ⟨placed, m₂, memory', mismatches, translates, -, hfailure⟩ :=
    (serve_cases h q).translates
  have ht := translate_cases h q.address q.kind
  rcases hends ht with ⟨e, swap, hunread, herror, hm⟩ |
    ⟨bytes, swap, frameTable, memory, hread, hclaimed, hfilled, hok, hm⟩
  · refine Or.inl ⟨e, swap, hunread, ?_⟩
    rw [hresult, hmachine]
    generalize m.translate q.address q.kind = o at herror hm
    obtain ⟨result, m', events⟩ := o
    subst herror hm
    exact ⟨rfl, rfl⟩
  · refine Or.inr ⟨bytes, swap, frameTable, memory, hread, hclaimed, hfilled, ?_, ?_⟩
    · cases hserved : (m.serve q).result with
      | ok reply => exact ⟨reply, rfl⟩
      | error failure =>
        -- then the translation would have failed, with another answer from the store
        have hplaced := (hfailure failure).mp hserved
        rcases hends translates with ⟨e, swap', hunread, -, -⟩ | ⟨_, _, _, _, -, -, -, hok', -⟩
        · exact absurd (hread.symm.trans hunread) (by simp)
        · rw [hplaced] at hok'
          simp at hok'
    · rw [hresult, hmachine]
      generalize m.translate q.address q.kind = o at hok hm
      obtain ⟨result, m', events⟩ := o
      subst hok hm
      exact ⟨rfl, rfl⟩

end Machine

end DemandPaging
