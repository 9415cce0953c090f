import DemandPaging.Proofs.Machine.Requests
import DemandPaging.Proofs.Swap.Lawful

/-!
# Where the bytes of a page are

The bytes of a page are in its frame, in its slot on swap, or nowhere yet, which counts as zeros
(`content?`). Paging moves them about and must neither lose nor mix them up: `Keeps m m'` says that
every page of `m` has the same bytes in `m'`, and that a page which is new there has zeros.

What could mix pages up is a slot with two owners. `SlotsOwned` is the invariant against it: every
slot that an entry owns is held by the store, and no two entries own the same. Both together are
preserved by each move and hence by each stage:

> `Translates.keeps`: translating changes the bytes of no page, whether or not it succeeds.
-/

namespace DemandPaging

namespace PageTable

/-- `t'` has the pages of `t`, each where it was. -/
def SamePlaces (t t' : PageTable) : Prop :=
  ∀ r, (t'.page? r).map (fun p => (p.vpn, p.entry.residency))
    = (t.page? r).map fun p => (p.vpn, p.entry.residency)

variable {t t' : PageTable} {r : EntryRef}

/-- A page that is found in one table is found in the other, in the same place. -/
theorem SamePlaces.page?_some (h : SamePlaces t t') {p : PageEntry} (hp : t.page? r = some p) :
    ∃ p', t'.page? r = some p' ∧ p'.vpn = p.vpn ∧ p'.entry.residency = p.entry.residency := by
  have hr := h r
  rw [hp, Option.map_some, Option.map_eq_some_iff] at hr
  obtain ⟨p', hp', heq⟩ := hr
  obtain ⟨hvpn, hresidency⟩ := Prod.mk.inj heq
  exact ⟨p', hp', hvpn, hresidency⟩

theorem SamePlaces.symm (h : SamePlaces t t') : SamePlaces t' t := fun r => (h r).symm

/-- Changing the marks of one entry moves no page. -/
theorem SamePlaces.modify {f : Entry → Entry} (hf : ∀ e, (f e).residency = e.residency) :
    SamePlaces t (t.modify r f) := by
  intro s
  rw [page?_modify]
  split
  next =>
    rw [Option.map_map]
    congr 1
    funext p
    exact congrArg (Prod.mk p.vpn) (hf p.entry)
  next => rfl

/-- The sweep of a policy takes marks away and moves no page. -/
theorem Swept.samePlaces (h : Swept t t') : SamePlaces t t' := by
  induction h with
  | refl => exact fun _ => rfl
  | @unmark t _ r _ ih =>
    have hmodify : SamePlaces t (t.modify r (·.setReferenced false)) := .modify fun _ => rfl
    exact fun s => (ih s).trans (hmodify s)

end PageTable

/-- Touching a page does not move it. -/
theorem Entry.residency_touch (e : Entry) (kind : AccessKind) :
    (e.touch kind).residency = e.residency := by
  unfold Entry.touch
  split <;> rfl

namespace Machine

open PageTable (SamePlaces)

variable {σ : Type} [BackingStore σ] [LawfulStore σ]

/-! ## Contents and slots -/

/-- The bytes of the page behind an entry. -/
def content? (m : Machine σ) (e : Entry) : Option Page :=
  match e.residency with
  | .unmapped => some Page.zero
  | .resident frame _ => m.memory.page? frame
  | .onSwap offset => LawfulStore.held m.swap offset

/-- Every slot that an entry owns is held, and has one owner. -/
structure SlotsOwned (m : Machine σ) : Prop where
  held : ∀ r p o, m.pageTable.page? r = some p → p.entry.slot? = some o →
    (LawfulStore.held m.swap o).isSome
  unique : ∀ r s p q o, m.pageTable.page? r = some p → m.pageTable.page? s = some q →
    p.entry.slot? = some o → q.entry.slot? = some o → r = s

/-- Every page of `m` has the same bytes in `m'`, and a page that is new there has zeros. -/
structure Keeps (m m' : Machine σ) : Prop where
  old : ∀ r p, m.pageTable.page? r = some p →
    ∃ p', m'.pageTable.page? r = some p' ∧ p'.vpn = p.vpn ∧
      m'.content? p'.entry = m.content? p.entry
  new : ∀ r p', m'.pageTable.page? r = some p' →
    (∃ p, m.pageTable.page? r = some p) ∨ m'.content? p'.entry = some Page.zero

variable {m m' m₁ m₂ m₃ : Machine σ}

/-- What a resident page holds is what its frame holds. -/
theorem content?_of_frame? {e : Entry} {frame : Nat} (h : e.frame? = some frame) :
    m.content? e = m.memory.page? frame := by
  unfold Entry.frame? at h
  unfold content?
  split at h
  next hresidency =>
    simp only [Option.some.injEq] at h
    rw [hresidency, h]
  next => simp at h

/-- Contents are the same where the frame and the slot of the entry hold the same. -/
theorem content?_congr {e : Entry}
    (hframe : ∀ frame, e.frame? = some frame → m'.memory.page? frame = m.memory.page? frame)
    (hslot : ∀ o, e.slot? = some o → LawfulStore.held m'.swap o = LawfulStore.held m.swap o) :
    m'.content? e = m.content? e := by
  unfold Entry.frame? at hframe
  unfold Entry.slot? at hslot
  unfold content?
  cases hresidency : e.residency with
  | unmapped => rfl
  | resident frame _ =>
    rw [hresidency] at hframe
    exact hframe frame rfl
  | onSwap o =>
    rw [hresidency] at hslot
    exact hslot o rfl

/-- Where a page is tells its slot. -/
theorem slot?_eq_of_residency_eq {e e' : Entry} (h : e'.residency = e.residency) :
    e'.slot? = e.slot? := by
  unfold Entry.slot?
  rw [h]

/-- Where a page is tells its frame. -/
theorem frame?_eq_of_residency_eq {e e' : Entry} (h : e'.residency = e.residency) :
    e'.frame? = e.frame? := by
  unfold Entry.frame?
  rw [h]

theorem Keeps.refl (m : Machine σ) : m.Keeps m :=
  ⟨fun _ p hp => ⟨p, hp, rfl, rfl⟩, fun _ p hp => Or.inl ⟨p, hp⟩⟩

theorem Keeps.trans (h₁ : m₁.Keeps m₂) (h₂ : m₂.Keeps m₃) : m₁.Keeps m₃ where
  old r p hp := by
    obtain ⟨p', hp', hvpn', hbytes'⟩ := h₁.old r p hp
    obtain ⟨p'', hp'', hvpn'', hbytes''⟩ := h₂.old r p' hp'
    exact ⟨p'', hp'', hvpn''.trans hvpn', hbytes''.trans hbytes'⟩
  new r p'' hp'' := by
    rcases h₂.new r p'' hp'' with ⟨p', hp'⟩ | hzero
    · rcases h₁.new r p' hp' with hold | hzero
      · exact Or.inl hold
      · -- a page that is new in between still has its zeros at the end
        right
        obtain ⟨q, hq, -, hbytes⟩ := h₂.old r p' hp'
        rw [hp'', Option.some.injEq] at hq
        rw [hq, hbytes, hzero]
    · exact Or.inr hzero

/-! ## The moves -/

/-- Where places, memory and the pages on swap are the same, so are contents. -/
theorem Keeps.of_samePlaces (hplaces : SamePlaces m.pageTable m'.pageTable)
    (hmemory : m'.memory = m.memory) (hheld : LawfulStore.held m'.swap = LawfulStore.held m.swap) :
    m.Keeps m' where
  old r p hp := by
    obtain ⟨p', hp', hvpn, hresidency⟩ := hplaces.page?_some hp
    refine ⟨p', hp', hvpn, ?_⟩
    unfold content?
    rw [hresidency, hmemory, hheld]
  new r p' hp' := by
    obtain ⟨p, hp, -⟩ := hplaces.symm.page?_some hp'
    exact Or.inl ⟨p, hp⟩

/-- Who owns a slot is told by the places of the pages and by what the store holds. -/
theorem SlotsOwned.of_samePlaces (h : m.SlotsOwned)
    (hplaces : SamePlaces m.pageTable m'.pageTable)
    (hheld : LawfulStore.held m'.swap = LawfulStore.held m.swap) : m'.SlotsOwned where
  held r p o hp ho := by
    obtain ⟨q, hq, -, hresidency⟩ := hplaces.symm.page?_some hp
    rw [hheld]
    exact h.held r q o hq ((slot?_eq_of_residency_eq hresidency).trans ho)
  unique r s p q o hp hq ho ho' := by
    obtain ⟨p', hp', -, hresidency⟩ := hplaces.symm.page?_some hp
    obtain ⟨q', hq', -, hresidency'⟩ := hplaces.symm.page?_some hq
    exact h.unique r s p' q' o hp' hq' ((slot?_eq_of_residency_eq hresidency).trans ho)
      ((slot?_eq_of_residency_eq hresidency').trans ho')

/-- A page that is entered into the table is new, and the others keep their contents. -/
theorem Keeps.entering (h : m.Consistent) (a : Address) (hit : Bool) :
    m.Keeps (m.entering a hit) where
  old r p hp := ⟨p, (h.rooted.extends_walk a).kept r p hp, rfl, rfl⟩
  new r p hp := by
    rcases (h.rooted.extends_walk a).fresh r p hp with hold | ⟨-, hunmapped⟩
    · exact Or.inl ⟨p, hold⟩
    · rw [hunmapped]
      exact Or.inr rfl

/-- A page that is entered owns no slot yet. -/
theorem SlotsOwned.entering (hs : m.SlotsOwned) (h : m.Consistent) (a : Address) (hit : Bool) :
    (m.entering a hit).SlotsOwned := by
  -- an entry that owns a slot is not a new one
  have hold : ∀ r p o, (m.entering a hit).pageTable.page? r = some p → p.entry.slot? = some o →
      m.pageTable.page? r = some p := by
    intro r p o hp ho
    rcases (h.rooted.extends_walk a).fresh r p hp with hp' | ⟨-, hunmapped⟩
    · exact hp'
    · rw [hunmapped] at ho
      simp [Entry.unmapped, Entry.slot?] at ho
  refine ⟨fun r p o hp ho => hs.held r p o (hold r p o hp ho) ho, ?_⟩
  intro r s p q o hp hq ho ho'
  exact hs.unique r s p q o (hold r p o hp ho) (hold s q o hq ho') ho ho'

/-- A pageout never takes the slot of another page. -/
theorem SlotsOwned.ne_of_saved (hs : m.SlotsOwned) {victim r : EntryRef} {p q : PageEntry}
    (hp : m.pageTable.page? victim = some p) {bytes : Page} {offset o : SwapOffset} {swap : σ}
    (hsaved : BackingStore.save m.swap bytes p.entry.slot? = (some offset, swap))
    (hr : r ≠ victim) (hq : m.pageTable.page? r = some q) (ho : q.entry.slot? = some o) :
    o ≠ offset := by
  intro heq
  subst heq
  -- the answer is the victim's own slot, or one that was not held
  rcases LawfulStore.save_offset hsaved with howned | hfree
  · exact hr (hs.unique r victim q p o hq hp ho howned)
  · have hheld := hs.held r q o hq ho
    rw [hfree] at hheld
    simp at hheld

/-- The victim owns the slot that it was written to, and it is the only owner. -/
theorem SlotsOwned.vacating (hs : m.SlotsOwned) {victim : EntryRef} {p : PageEntry}
    (hp : m.pageTable.page? victim = some p) {bytes : Page} {offset : SwapOffset} {swap : σ}
    (hsaved : BackingStore.save m.swap bytes p.entry.slot? = (some offset, swap))
    (dirty : Bool) (frameTable : FrameTable) :
    (m.vacating victim dirty offset swap frameTable).SlotsOwned := by
  have hheld := LawfulStore.save_held hsaved
  -- an owner of a slot is the victim, with the new slot, or another page with another slot
  have howner : ∀ r q o, (m.vacating victim dirty offset swap frameTable).pageTable.page? r
      = some q → q.entry.slot? = some o →
      r = victim ∧ o = offset ∨ r ≠ victim ∧ o ≠ offset ∧ m.pageTable.page? r = some q := by
    intro r q o hq ho
    by_cases hr : r = victim
    · left
      subst hr
      have hq' : (m.pageTable.page? r).map (·.update (·.swapOut offset)) = some q :=
        (PageTable.page?_modify_self _ _ _).symm.trans hq
      rw [hp, Option.map_some, Option.some.injEq] at hq'
      rw [← hq', PageEntry.entry_update, Entry.slot?_swapOut, Option.some.injEq] at ho
      exact ⟨rfl, ho.symm⟩
    · right
      have hq' : m.pageTable.page? r = some q := (PageTable.page?_modify_of_ne hr).symm.trans hq
      exact ⟨hr, hs.ne_of_saved hp hsaved hr hq' ho, hq'⟩
  refine ⟨?_, ?_⟩
  · intro r q o hq ho
    show (LawfulStore.held swap o).isSome
    rw [hheld]
    rcases howner r q o hq ho with ⟨-, hoffset⟩ | ⟨-, hoffset, hq'⟩
    · rw [if_pos hoffset]
      rfl
    · rw [if_neg hoffset]
      exact hs.held r q o hq' ho
  · intro r s q q' o hq hq' ho ho'
    rcases howner r q o hq ho with ⟨hr, hoffset⟩ | ⟨-, hoffset, hold⟩
    · rcases howner s q' o hq' ho' with ⟨hs', -⟩ | ⟨-, hne, -⟩
      · exact hr.trans hs'.symm
      · exact absurd hoffset hne
    · rcases howner s q' o hq' ho' with ⟨-, heq⟩ | ⟨-, -, hold'⟩
      · exact absurd heq hoffset
      · exact hs.unique r s q q' o hold hold' ho ho'

/-- A victim takes its bytes along, and every other page keeps its own. -/
theorem Keeps.vacating (hs : m.SlotsOwned) {victim : EntryRef} {p : PageEntry}
    (hp : m.pageTable.page? victim = some p) {bytes : Page} {offset : SwapOffset} {swap : σ}
    (hbytes : m.content? p.entry = some bytes)
    (hsaved : BackingStore.save m.swap bytes p.entry.slot? = (some offset, swap))
    (dirty : Bool) (frameTable : FrameTable) :
    m.Keeps (m.vacating victim dirty offset swap frameTable) where
  old r q hq := by
    have hheld := LawfulStore.save_held hsaved
    by_cases hr : r = victim
    · subst hr
      rw [hp, Option.some.injEq] at hq
      subst hq
      refine ⟨p.update (·.swapOut offset), ?_, rfl, ?_⟩
      · exact (PageTable.page?_modify_self _ _ _).trans (by rw [hp, Option.map_some])
      · show LawfulStore.held swap offset = _
        rw [hheld, if_pos rfl, hbytes]
    · refine ⟨q, (PageTable.page?_modify_of_ne hr).trans hq, rfl, ?_⟩
      refine content?_congr (fun _ _ => rfl) fun o ho => ?_
      show LawfulStore.held swap o = LawfulStore.held m.swap o
      rw [hheld, if_neg (hs.ne_of_saved hp hsaved hr hq ho)]
  new r q hq := by
    by_cases hr : r = victim
    · exact Or.inl ⟨p, hr ▸ hp⟩
    · exact Or.inl ⟨q, (PageTable.page?_modify_of_ne hr).symm.trans hq⟩

theorem slot?_placed (e : Entry) (frame : Nat) (dirty : Bool) :
    ((e.place frame).setDirty dirty).slot? = e.slot? := rfl

/-- A page that is brought in keeps its slot, and nobody else gets it. -/
theorem SlotsOwned.placing (hs : m.SlotsOwned) {r : EntryRef} {swap : σ}
    (hheld : LawfulStore.held swap = LawfulStore.held m.swap) (frame : Nat) (dirty : Bool)
    (frameTable : FrameTable) (memory : Memory) :
    (m.placing r frame dirty swap frameTable memory).SlotsOwned := by
  -- a page owns the slot it owned before
  have howner : ∀ s q o, (m.placing r frame dirty swap frameTable memory).pageTable.page? s
      = some q → q.entry.slot? = some o → ∃ p, m.pageTable.page? s = some p ∧
        p.entry.slot? = some o := by
    intro s q o hq ho
    by_cases hsr : s = r
    · subst hsr
      obtain ⟨p, hp, rfl⟩ := Option.map_eq_some_iff.mp
        ((PageTable.page?_modify_self _ _ _).symm.trans hq)
      exact ⟨p, hp, (slot?_placed p.entry frame dirty).symm.trans ho⟩
    · exact ⟨q, (PageTable.page?_modify_of_ne hsr).symm.trans hq, ho⟩
  refine ⟨?_, ?_⟩
  · intro s q o hq ho
    obtain ⟨p, hp, ho'⟩ := howner s q o hq ho
    show (LawfulStore.held swap o).isSome
    rw [hheld]
    exact hs.held s p o hp ho'
  · intro s s' q q' o hq hq' ho ho'
    obtain ⟨p, hp, hop⟩ := howner s q o hq ho
    obtain ⟨p', hp', hop'⟩ := howner s' q' o hq' ho'
    exact hs.unique s s' p p' o hp hp' hop hop'

/-- A page that enters a free frame with its own bytes keeps them, and so does every other. -/
theorem Keeps.placing (h : m.Consistent) {r : EntryRef} {p : PageEntry}
    (hp : m.pageTable.page? r = some p) {frame : Nat} {bytes : Page}
    (hbytes : m.content? p.entry = some bytes) {frameTable : FrameTable}
    (hclaimed : m.frameTable.claim? frame r = some frameTable) {memory : Memory}
    (hfilled : m.memory.setPage? frame bytes = some memory) {swap : σ}
    (hheld : LawfulStore.held swap = LawfulStore.held m.swap) (dirty : Bool) :
    m.Keeps (m.placing r frame dirty swap frameTable memory) where
  old s q hq := by
    obtain ⟨-, -, hpages⟩ := Memory.setPage?_spec hfilled
    by_cases hsr : s = r
    · subst hsr
      rw [hp, Option.some.injEq] at hq
      subst hq
      refine ⟨p.update fun e => (e.place frame).setDirty dirty, ?_, rfl, ?_⟩
      · exact (PageTable.page?_modify_self _ _ _).trans (by rw [hp, Option.map_some])
      · show memory.page? frame = _
        rw [hpages, if_pos rfl, hbytes]
    · refine ⟨q, (PageTable.page?_modify_of_ne hsr).trans hq, rfl, ?_⟩
      refine content?_congr (fun g hg => ?_) fun o _ => congrFun hheld o
      -- the frame was free, so no other page is in it
      have hne : g ≠ frame := by
        intro heq
        obtain ⟨-, hfree, -, -⟩ := FrameTable.claim?_spec hclaimed
        have hresident : m.pageTable.Resident s g := ⟨q, hq, hg⟩
        rw [← h.occupant_iff, heq, hfree] at hresident
        simp at hresident
      show memory.page? g = m.memory.page? g
      rw [hpages, if_neg hne]
  new s q hq := by
    by_cases hsr : s = r
    · exact Or.inl ⟨p, hsr ▸ hp⟩
    · exact Or.inl ⟨q, (PageTable.page?_modify_of_ne hsr).symm.trans hq⟩

/-! ## The stages -/

/-- Choosing a victim takes marks away, which own nothing. -/
theorem SlotsOwned.choosing (hs : m.SlotsOwned) {choice : Policy.Choice}
    (hspares : m.residents.Spares choice.residents) : (m.choosing choice).SlotsOwned :=
  hs.of_samePlaces hspares.swept.samePlaces rfl

/-- Choosing a victim changes no contents. -/
theorem Keeps.choosing {choice : Policy.Choice} (hspares : m.residents.Spares choice.residents) :
    m.Keeps (m.choosing choice) :=
  .of_samePlaces hspares.swept.samePlaces rfl rfl

/-- When no frame is found, every page has kept its contents. -/
theorem Starves.keeps (hs : m.SlotsOwned) {e : PagingError} (hstarves : m.Starves e m') :
    m'.SlotsOwned ∧ m.Keeps m' := by
  cases hstarves with
  | noVictim _ _ spares _ => exact ⟨hs.choosing spares, .choosing spares⟩
  | vacant _ _ spares _ _ => exact ⟨hs.choosing spares, .choosing spares⟩
  | exhausted names unsaved =>
    have hplaces := names.spares.swept.samePlaces
    have hheld := LawfulStore.save_none unsaved
    exact ⟨hs.of_samePlaces hplaces hheld, .of_samePlaces hplaces rfl hheld⟩

/-- An eviction moves the contents of its victim to swap and changes none. -/
theorem Frees.keeps (h : m.Consistent) (hs : m.SlotsOwned) {frame : Nat}
    (hfrees : m.Frees m' frame) : m'.SlotsOwned ∧ m.Keeps m' := by
  cases hfrees with
  | found _ => exact ⟨hs, .refl m⟩
  | @evicted choice _ victim page bytes _ _ _ names saved _ =>
    have hs' := hs.choosing names.spares
    -- the bytes that are saved are those of the victim, which is still in its frame
    obtain ⟨p, hp, hf⟩ := ((h.choosing names.spares).occupant_iff _ _).mp names.occupant
    have heq : p = page := Option.some.inj (hp.symm.trans names.page)
    subst heq
    have hbytes : (m.choosing choice).content? p.entry = some bytes :=
      (content?_of_frame? hf).trans names.bytes
    exact ⟨hs'.vacating names.page saved _ _,
      (Keeps.choosing names.spares).trans (.vacating hs' names.page hbytes saved _ _)⟩

/-- Bringing a page in moves its contents to a frame and changes none. -/
theorem BringsIn.keeps (h : m.Consistent) (hs : m.SlotsOwned) {r : EntryRef}
    {result : Except Failure Nat} (hbrings : m.BringsIn r result m') :
    m'.SlotsOwned ∧ m.Keeps m' := by
  cases hbrings with
  | starved starves => exact starves.keeps hs
  | unreadable frees _ _ unread =>
    obtain ⟨hs₀, hkeeps⟩ := frees.keeps h hs
    have hheld := LawfulStore.fetch_held unread
    exact ⟨hs₀.of_samePlaces (fun _ => rfl) hheld,
      hkeeps.trans (.of_samePlaces (fun _ => rfl) rfl hheld)⟩
  | @firstTouch m₀ _ p _ _ frees page unmapped claimed filled =>
    obtain ⟨hs₀, hkeeps⟩ := frees.keeps h hs
    have hbytes : m₀.content? p.entry = some Page.zero := by
      unfold content?
      rw [unmapped]
    exact ⟨hs₀.placing rfl _ _ _ _,
      hkeeps.trans (.placing (frees.consistent h) page hbytes claimed filled rfl _)⟩
  | @swappedIn m₀ _ p _ bytes _ _ _ frees page onSwap read claimed filled =>
    obtain ⟨hs₀, hkeeps⟩ := frees.keeps h hs
    have hheld := LawfulStore.fetch_held read
    have hbytes : m₀.content? p.entry = some bytes := by
      unfold content?
      rw [onSwap]
      exact LawfulStore.fetch_ok read
    exact ⟨hs₀.placing hheld _ _ _ _,
      hkeeps.trans (.placing (frees.consistent h) page hbytes claimed filled hheld _)⟩

/-- Using a page writes nothing to it; the bytes are stored afterwards. -/
theorem Keeps.use (r : EntryRef) (kind : AccessKind) (frame : Nat) : m.Keeps (m.use r kind frame) :=
  .of_samePlaces (.modify fun e => e.residency_touch kind) rfl rfl

theorem SlotsOwned.use (hs : m.SlotsOwned) (r : EntryRef) (kind : AccessKind) (frame : Nat) :
    (m.use r kind frame).SlotsOwned :=
  hs.of_samePlaces (.modify fun e => e.residency_touch kind) rfl

/-- Translating changes the bytes of no page. -/
theorem Translates.keeps (h : m.Consistent) (hs : m.SlotsOwned) {a : Address} {kind : AccessKind}
    {result : Except Failure Nat} (ht : m.Translates a kind result m') :
    m'.SlotsOwned ∧ m.Keeps m' := by
  cases ht with
  | outside _ => exact ⟨hs, .refl m⟩
  | hit _ _ =>
    exact ⟨(hs.entering h a true).use _ _ _, (Keeps.entering h a true).trans (.use _ _ _)⟩
  | fault _ _ _ brings =>
    obtain ⟨hs', hkeeps⟩ := brings.keeps (h.entering a false) (hs.entering h a false)
    exact ⟨hs'.use _ _ _, ((Keeps.entering h a false).trans hkeeps).trans (.use _ _ _)⟩
  | refused _ _ _ brings =>
    obtain ⟨hs', hkeeps⟩ := brings.keeps (h.entering a false) (hs.entering h a false)
    exact ⟨hs', (Keeps.entering h a false).trans hkeeps⟩

/-- Every request leaves each slot with one owner. -/
theorem Serves.slotsOwned (h : m.Consistent) (hs : m.SlotsOwned) {q : Request}
    {result : Except Failure Reply} (hserves : m.Serves q result m') : m'.SlotsOwned := by
  cases hserves with
  | refused translates => exact (translates.keeps h hs).1
  | translated translates => exact (translates.keeps h hs).1
  | stored _ translates _ =>
    have hs' := (translates.keeps h hs).1
    exact ⟨hs'.held, hs'.unique⟩
  | agreed _ translates _ => exact (translates.keeps h hs).1
  | differed _ translates _ _ =>
    have hs' := (translates.keeps h hs).1
    exact ⟨hs'.held, hs'.unique⟩

theorem slotsOwned_build (frames : Nat) (policy : Policy) (swap : σ) :
    (build frames policy swap).SlotsOwned := by
  constructor <;> simp [build, PageTable.page?_empty]

end Machine

end DemandPaging
