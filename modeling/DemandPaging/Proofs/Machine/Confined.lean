import DemandPaging.Proofs.Machine.Balance
import DemandPaging.Proofs.Machine.Bounds
import DemandPaging.Proofs.Machine.Exhaustion

/-!
# What a request leaves alone

A request is about one page, and it may cost another page its frame. `Confined` says what becomes
of all the others: nothing, but that the hand of second chance may have taken their marks on its
way to a victim. It is a relation between the machine before and after, with one lemma for each move
that a machine makes, and holds of every stage, whether the stage succeeds or fails:

> `Confined.choosing`, `Confined.vacating`: on the way to a free frame.
> `Confined.changes_own`: whatever is done to the page of the request itself.
> `Confined.of_entering`: the walk before all that only adds pages that were never mapped.

Memory is simpler. Paging writes to it where it fills a frame, and an access where it stores its
byte, and both are in the frame that serves the request.
-/

namespace DemandPaging

namespace Machine

variable {σ : Type} {m m' m'' : Machine σ} {own : EntryRef} {victim : Option EntryRef}

/-! ## Memory -/

section

variable [BackingStore σ]

/-- Freeing a frame writes nothing to memory. -/
theorem Frees.memory_eq {frame : Nat} (hfrees : m.Frees m' frame) : m'.memory = m.memory := by
  cases hfrees with
  | found _ => rfl
  | evicted _ _ _ => rfl

/-- A page that is brought in is written to its frame and nowhere else; a page that is not is
written nowhere. -/
theorem BringsIn.memory_eq {result : Except Failure Nat} (hbrings : m.BringsIn own result m') :
    (∀ failure, result = .error failure → m'.memory = m.memory) ∧
      ∀ frame, result = .ok frame → ∀ g, g ≠ frame → m'.memory.page? g = m.memory.page? g := by
  have hfilled : ∀ {m₀ : Machine σ} {frame : Nat} {bytes : Page} {memory : Memory},
      m.Frees m₀ frame → m₀.memory.setPage? frame bytes = some memory →
        ∀ g, g ≠ frame → memory.page? g = m.memory.page? g := by
    intro m₀ frame bytes memory hfrees hfilled g hg
    rw [(Memory.setPage?_spec hfilled).2.2 g, if_neg hg, hfrees.memory_eq]
  cases hbrings with
  | starved starves =>
    refine ⟨fun _ _ => ?_, by simp⟩
    cases starves with
    | noVictim _ _ _ _ => rfl
    | vacant _ _ _ _ _ => rfl
    | exhausted _ _ => rfl
  | unreadable frees _ _ _ => exact ⟨fun _ _ => frees.memory_eq, by simp⟩
  | firstTouch frees _ _ _ filled =>
    refine ⟨by simp, ?_⟩
    rintro _ ⟨⟩
    exact hfilled frees filled
  | swappedIn frees _ _ _ _ filled =>
    refine ⟨by simp, ?_⟩
    rintro _ ⟨⟩
    exact hfilled frees filled

/-- A translation that fails writes nothing; one that succeeds writes to the frame of its page at
most, and not even there if the page was in it before. -/
theorem Translates.memory_eq (h : m.Consistent) {a : Address} {kind : AccessKind}
    {result : Except Failure Nat} (ht : m.Translates a kind result m') :
    (∀ failure, result = .error failure → m'.memory = m.memory) ∧
      ∀ place, result = .ok place → ∃ frame, place = Memory.addressOf frame + a.offset ∧
        m'.frameOf? a = some frame ∧ (∀ g, g ≠ frame → m'.memory.page? g = m.memory.page? g) ∧
        ∀ g, m.frameOf? a = some g → g = frame ∧ m'.memory = m.memory := by
  have hframe : ∀ {m' : Machine σ} {place : Nat}, m.Translates a kind (.ok place) m' →
      ∀ frame, m'.pageTable.Resident (m.refOf a) frame → m'.frameOf? a = some frame :=
    fun ht _ hresident => frameOf?_of_lookup (ht.lookup h) hresident
  have ht' := ht
  cases ht with
  | outside _ => exact ⟨fun _ _ => rfl, by simp⟩
  | @hit frame _ resident =>
    refine ⟨by simp, ?_⟩
    rintro _ ⟨⟩
    refine ⟨frame, rfl, hframe ht' frame ?_, fun _ _ => rfl, fun g hg => ⟨?_, rfl⟩⟩
    · exact (PageTable.resident_modify fun e => e.frame?_touch kind).mpr resident
    · exact ((h.frameOf?_eq_some true).mp hg).unique resident
  | @fault p frame m₁ _ page absent brings =>
    refine ⟨by simp, ?_⟩
    rintro _ ⟨⟩
    refine ⟨frame, rfl, hframe ht' frame ?_, brings.memory_eq.2 frame rfl, fun g hg => ?_⟩
    · exact (PageTable.resident_modify fun e => e.frame?_touch kind).mpr brings.resident
    · rw [h.frameOf?_eq_none page absent] at hg
      exact absurd hg (by simp)
  | refused _ _ _ brings => exact ⟨fun failure _ => brings.memory_eq.1 _ rfl, by simp⟩

/-- A request that fails writes nothing, and one that succeeds writes to the frame that serves it at
most. If its page was in a frame, all it may write is the byte at its address, when it stores. -/
theorem Serves.memory_eq (h : m.Consistent) {q : Request} {result : Except Failure Reply}
    (hs : m.Serves q result m') :
    (∀ failure, result = .error failure → m'.memory = m.memory) ∧
      (∀ reply, result = .ok reply → ∃ frame, m'.frameOf? q.address = some frame ∧
        ∀ g, g ≠ frame → m'.memory.page? g = m.memory.page? g) ∧
      ∀ frame, m.frameOf? q.address = some frame →
        (q.stores = false → m'.memory = m.memory) ∧
          ∀ place, place ≠ Memory.addressOf frame + q.address.offset →
            m'.memory.read? place = m.memory.read? place := by
  -- a request that only translates or reads leaves the bytes to its translation
  have hreads : ∀ {a : Address} {kind : AccessKind} {place : Nat} {m₁ : Machine σ},
      m.Translates a kind (.ok place) m₁ →
        (∃ frame, m₁.frameOf? a = some frame ∧
          ∀ g, g ≠ frame → m₁.memory.page? g = m.memory.page? g) ∧
        ∀ frame, m.frameOf? a = some frame → m₁.memory = m.memory := by
    intro a kind place m₁ ht
    obtain ⟨frame, -, hframe, hothers, hhit⟩ := (ht.memory_eq h).2 place rfl
    exact ⟨⟨frame, hframe, hothers⟩, fun g hg => (hhit g hg).2⟩
  cases hs with
  | refused translates =>
    have hsame := (translates.memory_eq h).1 _ rfl
    exact ⟨fun _ _ => hsame, by simp, fun _ _ => ⟨fun _ => hsame, fun _ _ => by rw [hsame]⟩⟩
  | translated translates =>
    obtain ⟨hframe, hsame⟩ := hreads translates
    exact ⟨by simp, fun _ _ => hframe,
      fun f hf => ⟨fun _ => hsame f hf, fun _ _ => by rw [hsame f hf]⟩⟩
  | agreed _ translates _ =>
    obtain ⟨hframe, hsame⟩ := hreads translates
    exact ⟨by simp, fun _ _ => hframe,
      fun f hf => ⟨fun _ => hsame f hf, fun _ _ => by rw [hsame f hf]⟩⟩
  | differed _ translates _ _ =>
    obtain ⟨hframe, hsame⟩ := hreads translates
    refine ⟨by simp, fun _ _ => hframe, fun f hf => ⟨fun _ => hsame f hf, fun place _ => ?_⟩⟩
    exact congrArg (fun memory : Memory => memory.read? place) (hsame f hf)
  | @stored r place m₁ memory writes translates written =>
    obtain ⟨frame, hplace, hframe, hothers, hhit⟩ := (translates.memory_eq h).2 place rfl
    have hoffset : r.address.offset < pageBytes := by
      obtain ⟨-, -, hlt, -⟩ := translates.place_eq
      exact hlt
    refine ⟨by simp, fun _ _ => ⟨frame, hframe, fun g hg => ?_⟩, fun f hf => ⟨fun hreads => ?_, ?_⟩⟩
    · rw [hplace] at written
      exact (Memory.page?_of_write? written hoffset hg).trans (hothers g hg)
    · exact absurd (writes.symm.trans hreads) (by simp)
    · obtain ⟨rfl, hsame⟩ := hhit f hf
      intro other hother
      rw [← hsame]
      exact Memory.read?_of_write? written (hplace ▸ hother)

/-- An offset beyond the bytes of a page is refused before anything is touched. -/
theorem Serves.outside {q : Request} {result : Except Failure Reply} (hs : m.Serves q result m')
    (hout : q.address.inFrame = false) :
    result = .error (.refused (.invalidOffset q.address)) ∧ m' = m := by
  have htranslates : ∀ {a : Address} {kind : AccessKind} {placed : Except Failure Nat}
      {m₁ : Machine σ}, a.inFrame = false → m.Translates a kind placed m₁ →
        placed = .error (.refused (.invalidOffset a)) ∧ m₁ = m := by
    intro a kind placed m₁ hout ht
    cases ht with
    | outside _ => exact ⟨rfl, rfl⟩
    | hit hin _ => exact absurd (hin.symm.trans hout) (by simp)
    | fault hin _ _ _ => exact absurd (hin.symm.trans hout) (by simp)
    | refused hin _ _ _ => exact absurd (hin.symm.trans hout) (by simp)
  obtain ⟨placed, m₁, memory, mismatches, ht, hm', hfails⟩ := hs.translates
  obtain ⟨hplaced, -⟩ := htranslates hout ht
  have hresult := (hfails _).mpr hplaced
  subst hresult
  cases hs with
  | refused translates => exact ⟨rfl, (htranslates hout translates).2⟩

end

/-! ## Pages -/

/-- No frame is free, and the page behind `own` is not in one. -/
def NeedsVictim (m : Machine σ) (own : EntryRef) : Prop :=
  m.frameTable.firstFree? = none ∧ ∀ frame, ¬ m.pageTable.Resident own frame

/-- `p'` is `p`, or has lost its mark to second chance on the way to a victim. -/
def Spared (m : Machine σ) (own : EntryRef) (p p' : PageEntry) : Prop :=
  p' = p ∨ m.policy.algorithm = .clock ∧ m.NeedsVictim own ∧ p' = p.unmarked

/-- A page that was spared is where it was. -/
theorem Spared.residency {p p' : PageEntry} (h : m.Spared own p p') :
    p'.vpn = p.vpn ∧ p'.entry.residency = p.entry.residency := by
  rcases h with rfl | ⟨-, -, rfl⟩
  · exact ⟨rfl, rfl⟩
  · exact ⟨rfl, rfl⟩

/-- The choice of a victim takes marks at most, and second chance alone does. -/
theorem NeedsVictim.spared_choosing {choice : Policy.Choice} (hneeds : m.NeedsVictim own)
    (hchosen : m.policy.evict? m.residents = some choice)
    (hspares : m.residents.Spares choice.residents) {r : EntryRef} {p : PageEntry}
    (hp : m.pageTable.page? r = some p) :
    ∃ p', (m.choosing choice).pageTable.page? r = some p' ∧ m.Spared own p p' := by
  by_cases hclock : m.policy.algorithm = .clock
  · obtain ⟨p', hp', rfl | rfl⟩ := hspares.swept.page?_some hp
    · exact ⟨p', hp', Or.inl rfl⟩
    · exact ⟨_, hp', Or.inr ⟨hclock, hneeds, rfl⟩⟩
  · have hsame : choice.residents = m.residents := Policy.evict?_residents hclock hchosen
    refine ⟨p, ?_, Or.inl rfl⟩
    show choice.residents.pageTable.page? r = some p
    rw [hsame]
    exact hp

theorem NeedsVictim.frame?_eq_none (hneeds : m.NeedsVictim own) {p : PageEntry}
    (hp : m.pageTable.page? own = some p) : p.entry.frame? = none := by
  cases hf : p.entry.frame? with
  | none => rfl
  | some frame => exact absurd ⟨p, hp, hf⟩ (hneeds.2 frame)

/-- Looking the page up does not change whether there has to be a victim. -/
theorem Consistent.needsVictim_entering (h : m.Consistent) (a : Address) (hit : Bool) :
    (m.entering a hit).NeedsVictim own ↔ m.NeedsVictim own := by
  refine and_congr Iff.rfl (forall_congr' fun frame => not_congr ?_)
  exact (h.rooted.extends_walk a).resident

variable [BackingStore σ] [LawfulStore σ]

/-- What `m'` has changed of the pages of `m` and of the store, when the page behind `own` is the
one asked for and that behind `victim`, if there is one, has given up its frame. -/
structure Confined (m : Machine σ) (own : EntryRef) (victim : Option EntryRef) (m' : Machine σ) :
    Prop where
  /-- Other pages are as they were, but for marks. -/
  others : ∀ r p, r ≠ own → victim ≠ some r → m.pageTable.page? r = some p →
    ∃ p', m'.pageTable.page? r = some p' ∧ m.Spared own p p'
  /-- Other entries that were not there are those of pages never mapped. -/
  fresh : ∀ r p', r ≠ own → m'.pageTable.page? r = some p' →
    (∃ p, m.pageTable.page? r = some p) ∨ p'.entry = .unmapped
  /-- The page asked for stays where it is, unless it had no frame and has one now. -/
  asked : ∀ p, m.pageTable.page? own = some p →
    ∃ p', m'.pageTable.page? own = some p' ∧ p'.vpn = p.vpn ∧
      (p'.entry.residency = p.entry.residency ∨ p.entry.frame? = none ∧ p'.entry.frame? ≠ none)
  /-- There is a victim only where one is needed. It was in a frame and is now on swap and clean,
  at the offset that it owned or at a free one; no other offset of the store is touched. -/
  evicted : ∀ v, victim = some v → v ≠ own ∧ m.NeedsVictim own ∧ ∃ p q frame offset,
    m.pageTable.page? v = some p ∧ p.entry.frame? = some frame ∧ m.Spared own p q ∧
      m'.pageTable.page? v = some (q.update (·.swapOut offset)) ∧
      (p.entry.slot? = some offset ∨ LawfulStore.held m.swap offset = none) ∧
      ∀ o, o ≠ offset → LawfulStore.held m'.swap o = LawfulStore.held m.swap o
  /-- Without a victim the store is as it was. -/
  stored : victim = none → LawfulStore.held m'.swap = LawfulStore.held m.swap

theorem Confined.refl (m : Machine σ) (own : EntryRef) : m.Confined own none m where
  others _ p _ _ hp := ⟨p, hp, Or.inl rfl⟩
  fresh _ p' _ hp' := Or.inl ⟨p', hp'⟩
  asked p hp := ⟨p, hp, rfl, Or.inl rfl⟩
  evicted _ hv := absurd hv (by simp)
  stored _ := rfl

/-- Choosing a victim takes marks, if the policy is second chance, and does nothing else. -/
theorem Confined.choosing (h : m.Consistent) (hneeds : m.NeedsVictim own) {choice : Policy.Choice}
    (hchosen : m.policy.evict? m.residents = some choice)
    (hspares : m.residents.Spares choice.residents) :
    m.Confined own none (m.choosing choice) where
  others r p _ _ hp := hneeds.spared_choosing hchosen hspares hp
  fresh r p' _ hp' := by
    obtain ⟨p, hp, -⟩ := hspares.swept.page?_of_some hp'
    exact Or.inl ⟨p, hp⟩
  asked p hp :=
    ⟨p, h.page?_choosing hspares hp (hneeds.frame?_eq_none hp), rfl, Or.inl rfl⟩
  evicted _ hv := absurd hv (by simp)
  stored _ := rfl

/-- Vacating a frame changes its page and the slot of that page. -/
theorem Confined.vacating (h : m.Consistent) (hneeds : m.NeedsVictim own) {choice : Policy.Choice}
    {frame : Nat} {v : EntryRef} {page : PageEntry} {bytes : Page} {offset : SwapOffset} {swap : σ}
    (names : m.Names choice frame v page bytes)
    (hsaved : BackingStore.save m.swap bytes page.entry.slot? = (some offset, swap))
    (frameTable : FrameTable) :
    m.Confined own (some v)
      ((m.choosing choice).vacating v page.entry.dirty offset swap frameTable) := by
  have hchoosing := Confined.choosing h hneeds names.chosen names.spares
  obtain ⟨p, hp, hf⟩ := (h.occupant_iff frame v).mp names.occupant
  have hown : v ≠ own := fun heq => hneeds.2 frame (heq ▸ ⟨p, hp, hf⟩)
  have hpage : ∀ r, r ≠ v →
      ((m.choosing choice).vacating v page.entry.dirty offset swap frameTable).pageTable.page? r
        = (m.choosing choice).pageTable.page? r := fun r hr => PageTable.page?_modify_of_ne hr
  constructor
  case others =>
    intro r q hr hv hq
    rw [hpage r fun heq => hv (congrArg some heq.symm)]
    exact hchoosing.others r q hr (by simp) hq
  case fresh =>
    intro r q hr hq
    by_cases hv : r = v
    · exact Or.inl ⟨p, hv ▸ hp⟩
    · exact hchoosing.fresh r q hr (hpage r hv ▸ hq)
  case asked =>
    intro q hq
    rw [hpage own (Ne.symm hown)]
    exact hchoosing.asked q hq
  case evicted =>
    rintro _ ⟨⟩
    obtain ⟨page', hpage', hspared⟩ := hneeds.spared_choosing names.chosen names.spares hp
    have heq : page' = page := Option.some.inj (hpage'.symm.trans names.page)
    subst heq
    have hslot : page'.entry.slot? = p.entry.slot? := slot?_eq_of_residency_eq hspared.residency.2
    refine ⟨hown, hneeds, p, page', frame, offset, hp, hf, hspared, ?_, ?_, ?_⟩
    · show ((m.choosing choice).pageTable.modify v _).page? v = _
      rw [PageTable.page?_modify_self, hpage', Option.map_some]
    · rw [← hslot]
      exact LawfulStore.save_offset hsaved
    · intro o ho
      exact (LawfulStore.save_held hsaved o).trans (if_neg ho)
  case stored => exact fun hnone => absurd hnone (by simp)

/-- What is done to the page asked for, and to nothing that `Confined` is about. -/
theorem Confined.changes_own (hc : m.Confined own victim m')
    (hpages : ∀ r, r ≠ own → m''.pageTable.page? r = m'.pageTable.page? r)
    (hheld : LawfulStore.held m''.swap = LawfulStore.held m'.swap)
    (hown : ∀ p', m'.pageTable.page? own = some p' →
      ∃ p'', m''.pageTable.page? own = some p'' ∧ p''.vpn = p'.vpn ∧
        (p''.entry.residency = p'.entry.residency ∨
          p'.entry.frame? = none ∧ p''.entry.frame? ≠ none)) :
    m.Confined own victim m'' where
  others r p hr hv hp := by
    rw [hpages r hr]
    exact hc.others r p hr hv hp
  fresh r p hr hp := hc.fresh r p hr (hpages r hr ▸ hp)
  asked p hp := by
    obtain ⟨p', hp', hvpn', hplace'⟩ := hc.asked p hp
    obtain ⟨p'', hp'', hvpn'', hplace''⟩ := hown p' hp'
    refine ⟨p'', hp'', hvpn''.trans hvpn', ?_⟩
    rcases hplace' with hsame' | ⟨habsent, hpresent⟩
    · rcases hplace'' with hsame'' | ⟨habsent, hpresent⟩
      · exact Or.inl (hsame''.trans hsame')
      · exact Or.inr ⟨(frame?_eq_of_residency_eq hsame').symm.trans habsent, hpresent⟩
    · rcases hplace'' with hsame'' | ⟨-, hpresent⟩
      · have hframe := frame?_eq_of_residency_eq hsame''
        exact Or.inr ⟨habsent, fun hnone => hpresent (hframe.symm.trans hnone)⟩
      · exact Or.inr ⟨habsent, hpresent⟩
  evicted v hv := by
    obtain ⟨hne, hneeds, p, q, frame, offset, hp, hf, hspared, hq, hslot, hothers⟩ :=
      hc.evicted v hv
    refine ⟨hne, hneeds, p, q, frame, offset, hp, hf, hspared, (hpages v hne).trans hq, hslot, ?_⟩
    intro o ho
    rw [hheld]
    exact hothers o ho
  stored hnone := hheld.trans (hc.stored hnone)

/-- A call on the store that changes nothing that it holds. -/
theorem Confined.withSwap (hc : m.Confined own victim m') {swap : σ}
    (hheld : LawfulStore.held swap = LawfulStore.held m'.swap) :
    m.Confined own victim (m'.withSwap swap) :=
  hc.changes_own (fun _ _ => rfl) hheld fun p' hp' => ⟨p', hp', rfl, Or.inl rfl⟩

/-- Placing the page that was asked for changes that page only. -/
theorem Confined.placing (hc : m.Confined own victim m') {p : PageEntry}
    (hp : m'.pageTable.page? own = some p) (habsent : p.entry.frame? = none) {frame : Nat}
    {dirty : Bool} {swap : σ} {frameTable : FrameTable} {memory : Memory}
    (hheld : LawfulStore.held swap = LawfulStore.held m'.swap) :
    m.Confined own victim (m'.placing own frame dirty swap frameTable memory) := by
  refine hc.changes_own (fun r hr => PageTable.page?_modify_of_ne hr) hheld fun p' hp' => ?_
  have heq : p = p' := Option.some.inj (hp.symm.trans hp')
  subst heq
  refine ⟨p.update fun e => (e.place frame).setDirty dirty, ?_, rfl, Or.inr ⟨habsent, by simp⟩⟩
  show (m'.pageTable.modify own _).page? own = _
  rw [PageTable.page?_modify_self, hp, Option.map_some]

theorem Confined.use (hc : m.Confined own victim m') (kind : AccessKind) (frame : Nat) :
    m.Confined own victim (m'.use own kind frame) := by
  refine hc.changes_own (fun r hr => PageTable.page?_modify_of_ne hr) rfl fun p hp => ?_
  refine ⟨p.update (·.touch kind), ?_, rfl, Or.inl (p.entry.residency_touch kind)⟩
  show (m'.pageTable.modify own _).page? own = _
  rw [PageTable.page?_modify_self, hp, Option.map_some]

/-- The walk comes first, and changes no page that was there. -/
theorem Confined.of_entering (h : m.Consistent) {a : Address} {hit : Bool}
    (hc : (m.entering a hit).Confined own victim m') : m.Confined own victim m' := by
  have hextends := h.rooted.extends_walk a
  have hspared : ∀ p p', (m.entering a hit).Spared own p p' → m.Spared own p p' := fun p p' hp =>
    hp.imp_right fun ⟨hclock, hneeds, heq⟩ =>
      ⟨hclock, (h.needsVictim_entering a hit).mp hneeds, heq⟩
  constructor
  case others =>
    intro r p hr hv hp
    obtain ⟨p', hp', hsp⟩ := hc.others r p hr hv (hextends.kept r p hp)
    exact ⟨p', hp', hspared p p' hsp⟩
  case fresh =>
    intro r p' hr hp'
    rcases hc.fresh r p' hr hp' with ⟨p, hp⟩ | hunmapped
    · rcases hextends.fresh r p hp with hold | ⟨-, hunmapped⟩
      · exact Or.inl ⟨p, hold⟩
      · -- a page that the walk has added is not the victim, and has no mark to lose
        right
        have hv : victim ≠ some r := by
          intro hv
          obtain ⟨-, -, q, -, frame, -, hq, hf, -⟩ := hc.evicted r hv
          rw [Option.some.inj (hq.symm.trans hp), hunmapped] at hf
          exact absurd hf (by simp [Entry.unmapped, Entry.frame?])
        obtain ⟨p'', hp'', hsp⟩ := hc.others r p hr hv hp
        rw [Option.some.inj (hp'.symm.trans hp'')]
        rcases hsp with rfl | ⟨-, -, rfl⟩
        · exact hunmapped
        · show p.entry.setReferenced false = _
          rw [hunmapped]
          rfl
    · exact Or.inr hunmapped
  case asked => exact fun p hp => hc.asked p (hextends.kept own p hp)
  case evicted =>
    intro v hv
    obtain ⟨hne, hneeds, p, q, frame, offset, hp, hf, hsp, hrest⟩ := hc.evicted v hv
    refine ⟨hne, (h.needsVictim_entering a hit).mp hneeds, p, q, frame, offset, ?_, hf,
      hspared p q hsp, hrest⟩
    obtain ⟨p₀, hp₀, -⟩ := hextends.resident.mp ⟨p, hp, hf⟩
    rw [Option.some.inj (hp.symm.trans (hextends.kept v p₀ hp₀))]
    exact hp₀
  case stored => exact hc.stored

/-- Pages stay mapped, and those that stay in a frame stay in theirs. -/
theorem Confined.stays (hc : m.Confined own victim m') {r : EntryRef} {p : PageEntry}
    (hp : m.pageTable.page? r = some p) :
    ∃ p', m'.pageTable.page? r = some p' ∧ p'.vpn = p.vpn ∧
      (p'.entry.isUnmapped = true → p.entry.isUnmapped = true) ∧
      ∀ frame frame', p.entry.frame? = some frame → p'.entry.frame? = some frame' →
        frame' = frame := by
  have hsame : ∀ p' : PageEntry, p'.entry.residency = p.entry.residency →
      (p'.entry.isUnmapped = true → p.entry.isUnmapped = true) ∧
        ∀ frame frame', p.entry.frame? = some frame → p'.entry.frame? = some frame' →
          frame' = frame := by
    intro p' hresidency
    refine ⟨?_, ?_⟩
    · rw [Entry.isUnmapped, Entry.isUnmapped, hresidency]
      exact id
    · intro frame frame' hf hf'
      rw [frame?_eq_of_residency_eq hresidency, hf] at hf'
      exact (Option.some.inj hf').symm
  by_cases hown : r = own
  · subst hown
    obtain ⟨p', hp', hvpn, hresidency | ⟨habsent, hpresent⟩⟩ := hc.asked p hp
    · exact ⟨p', hp', hvpn, hsame p' hresidency⟩
    · obtain ⟨frame', hf'⟩ := Option.ne_none_iff_exists'.mp hpresent
      refine ⟨p', hp', hvpn, ?_, ?_⟩
      · rw [Entry.isUnmapped_eq_false_of_frame? hf']
        simp
      · intro frame _ hf
        rw [habsent] at hf
        exact absurd hf (by simp)
  · by_cases hv : victim = some r
    · obtain ⟨-, -, p₀, q, frame, offset, hp₀, -, hspared, hq, -⟩ := hc.evicted r hv
      have heq : p₀ = p := Option.some.inj (hp₀.symm.trans hp)
      subst heq
      exact ⟨_, hq, hspared.residency.1, by simp [Entry.isUnmapped, Entry.swapOut], by simp⟩
    · obtain ⟨p', hp', hspared⟩ := hc.others r p hown hv hp
      exact ⟨p', hp', hspared.residency.1, hsame p' hspared.residency.2⟩

/-! ## The stages -/

/-- A search for a frame that fails has no victim. -/
theorem Starves.confined (h : m.Consistent) (habsent : ∀ frame, ¬ m.pageTable.Resident own frame)
    {e : PagingError} (hstarves : m.Starves e m') : m.Confined own none m' := by
  cases hstarves with
  | noVictim full chosen spares _ => exact .choosing h ⟨full, habsent⟩ chosen spares
  | vacant full chosen spares _ _ => exact .choosing h ⟨full, habsent⟩ chosen spares
  | exhausted names unsaved =>
    have hchoosing := Confined.choosing h ⟨names.full, habsent⟩ names.chosen names.spares
    exact hchoosing.withSwap (LawfulStore.save_none unsaved)

/-- Freeing a frame has one victim at most. -/
theorem Frees.confined (h : m.Consistent) (habsent : ∀ frame, ¬ m.pageTable.Resident own frame)
    {frame : Nat} (hfrees : m.Frees m' frame) : ∃ victim, m.Confined own victim m' := by
  cases hfrees with
  | found _ => exact ⟨none, .refl m own⟩
  | evicted names saved _ => exact ⟨_, .vacating h ⟨names.full, habsent⟩ names saved _⟩

/-- Bringing a page in has one victim at most, also where it fails. -/
theorem BringsIn.confined (h : m.Consistent) (habsent : ∀ frame, ¬ m.pageTable.Resident own frame)
    {result : Except Failure Nat} (hbrings : m.BringsIn own result m') :
    ∃ victim, m.Confined own victim m' := by
  cases hbrings with
  | starved starves => exact ⟨none, starves.confined h habsent⟩
  | unreadable frees _ _ unread =>
    obtain ⟨victim, hc⟩ := frees.confined h habsent
    exact ⟨victim, hc.withSwap (LawfulStore.fetch_held unread)⟩
  | firstTouch frees page unmapped _ _ =>
    obtain ⟨victim, hc⟩ := frees.confined h habsent
    exact ⟨victim, hc.placing page (by rw [Entry.frame?, unmapped]) rfl⟩
  | swappedIn frees page onSwap read _ _ =>
    obtain ⟨victim, hc⟩ := frees.confined h habsent
    exact ⟨victim, hc.placing page (by rw [Entry.frame?, onSwap]) (LawfulStore.fetch_held read)⟩

theorem Translates.confined (h : m.Consistent) {a : Address} {kind : AccessKind}
    {result : Except Failure Nat} (ht : m.Translates a kind result m') :
    ∃ victim, m.Confined (m.refOf a) victim m' := by
  cases ht with
  | outside _ => exact ⟨none, .refl m _⟩
  | hit _ _ => exact ⟨none, .of_entering h ((Confined.refl (m.entering a true) _).use kind _)⟩
  | fault _ page absent brings =>
    obtain ⟨victim, hc⟩ := brings.confined (h.entering a false)
      fun _ => PageTable.not_resident_of_frame?_eq_none page absent
    exact ⟨victim, .of_entering h (hc.use kind _)⟩
  | refused _ page absent brings =>
    obtain ⟨victim, hc⟩ := brings.confined (h.entering a false)
      fun _ => PageTable.not_resident_of_frame?_eq_none page absent
    exact ⟨victim, .of_entering h hc⟩

/-- A request has one victim at most. -/
theorem Serves.confined (h : m.Consistent) {q : Request} {result : Except Failure Reply}
    (hs : m.Serves q result m') : ∃ victim, m.Confined (m.refOf q.address) victim m' := by
  obtain ⟨placed, m₁, memory, mismatches, ht, rfl, -⟩ := hs.translates
  obtain ⟨victim, hc⟩ := ht.confined h
  exact ⟨victim, hc.changes_own (fun _ _ => rfl) rfl fun p hp => ⟨p, hp, rfl, Or.inl rfl⟩⟩

/-! ## Requests after any calls -/

/-- What a request may touch, after any calls and whether it succeeds or fails. It is about the
entry of its page, and all others are `Confined`: one page at most loses its frame, and only if the
page of the request has none and no frame is free; beyond that, second chance may have swept marks.
No page is unmapped again, and none moves to another frame. Bytes are written in the frame that
serves the request only; and if the page was in its frame before, only the byte at the address is,
by a request that stores. An offset beyond the bytes of a page, and nothing else, is refused as one,
and then the whole machine is as it was. -/
theorem serve_confined (frames slots : Nat) (algorithm : Algorithm) (seed : UInt64)
    (failsOut failsIn : Nat → Bool) (calls : List Call) (q : Request) :
    let m := (build frames (.ofAlgorithm algorithm seed)
      (UnreliableStore.empty slots failsOut failsIn)).callAll calls
    let o := m.serve q
    let m' := o.machine
    let a := q.address
    m.policy.algorithm = algorithm ∧
      (∀ r p, m.pageTable.page? r = some p → (r = m.refOf a ↔ p.vpn = a.vpn)) ∧
      ((∀ frame, ¬ m.pageTable.Resident (m.refOf a) frame) ↔ m.frameOf? a = none) ∧
      (∃ victim, m.Confined (m.refOf a) victim m') ∧
      (∀ r p, m.pageTable.page? r = some p → ∃ p', m'.pageTable.page? r = some p' ∧
        p'.vpn = p.vpn ∧ (p'.entry.isUnmapped = true → p.entry.isUnmapped = true) ∧
        ∀ frame frame', p.entry.frame? = some frame → p'.entry.frame? = some frame' →
          frame' = frame) ∧
      (∀ failure, o.result = .error failure → m'.memory = m.memory) ∧
      (∀ reply, o.result = .ok reply → ∃ frame, m'.frameOf? a = some frame ∧
        ∀ g, g ≠ frame → m'.memory.page? g = m.memory.page? g) ∧
      (∀ frame, m.frameOf? a = some frame → (q.stores = false → m'.memory = m.memory) ∧
        ∀ place, place ≠ Memory.addressOf frame + a.offset →
          m'.memory.read? place = m.memory.read? place) ∧
      (o.refusal? = some (.invalidOffset a) ↔ a.inFrame = false) ∧
      (a.inFrame = false → m' = m) := by
  intro m o m' a
  have hinOrder := inOrder_unreliable frames slots (.ofAlgorithm algorithm seed) failsOut failsIn
    calls
  have h : m.Consistent := hinOrder.consistent
  have hs : m.Serves q o.result m' := serve_cases h q
  obtain ⟨hfailed, hserved, hhit⟩ := hs.memory_eq h
  obtain ⟨victim, hc⟩ := hs.confined h
  refine ⟨(policy_callAll_build frames algorithm seed _ calls).2.1, ?_, ?_, ⟨victim, hc⟩,
    fun _ _ hp => hc.stays hp, hfailed, hserved, hhit, ?_, fun hout => (hs.outside hout).2⟩
  · intro r p hp
    have hkept : (m.entering a true).pageTable.page? r = some p :=
      (h.rooted.extends_walk a).kept r p hp
    obtain ⟨own, hown, hvpn⟩ := h.rooted.walk_page? a
    constructor
    · rintro rfl
      exact h.vpn_refOf hkept
    · intro heq
      exact (h.rooted.walk a).ref_eq_of_vpn_eq hkept hown (heq.trans hvpn.symm)
  · rw [Option.eq_none_iff_forall_not_mem]
    refine forall_congr' fun frame => not_congr ?_
    rw [Option.mem_def, h.frameOf?_eq_some true]
    exact (h.rooted.extends_walk a).resident.symm
  · constructor
    · intro hrefusal
      have herror := Outcome.refusal?_eq_some.mp hrefusal
      rw [herror] at hs
      obtain ⟨e, he, hmay⟩ := hs.mayRefuse hinOrder
      cases he
      cases hmay with
      | invalidOffset hout => exact hout
    · intro hout
      exact Outcome.refusal?_eq_some.mpr (hs.outside hout).1

end Machine

end DemandPaging
