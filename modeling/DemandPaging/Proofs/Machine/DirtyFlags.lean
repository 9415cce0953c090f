import DemandPaging.Proofs.Machine.MappedPages
import DemandPaging.Proofs.Machine.Balance

/-!
# The dirty flags of the pages in memory

The flags are followed frame by frame (`stain?`), as the numbers of the pages are in `Residents`. A
page that comes from swap is clean, one that is touched for the first time is dirty, and using a
page for a write makes it dirty; nothing else changes a flag while its page is in memory.

> `Translates.stain?_cases`: a translation changes the flag of its own page only.
> `Translates.evictsOne`: it evicts one page at most, and counts it by its flag.
-/

namespace DemandPaging

namespace ResidentPages

/-- The number of the page in a frame, and whether it is dirty. -/
def stain? (r : ResidentPages) (frame : Nat) : Option (Nat × Bool) :=
  (r.page? frame).map fun p => (p.vpn, p.entry.dirty)

variable {r r' : ResidentPages} {frame v : Nat} {d : Bool}

theorem stain?_eq_some : r.stain? frame = some (v, d) ↔
    ∃ p, r.page? frame = some p ∧ p.vpn = v ∧ p.entry.dirty = d := by
  unfold stain?
  rw [Option.map_eq_some_iff]
  simp only [Prod.mk.injEq]

/-- A frame with a stain holds the page that the stain names. -/
theorem vpn?_of_stain? (h : r.stain? frame = some (v, d)) : r.vpn? frame = some v := by
  obtain ⟨p, hp, hv, -⟩ := stain?_eq_some.mp h
  exact vpn?_eq_some.mpr ⟨p, hp, hv⟩

/-- Losing marks, pages stay as clean as they are. -/
theorem Spares.stain?_eq (h : r.Spares r') (frame : Nat) : r'.stain? frame = r.stain? frame := by
  unfold stain? page?
  rw [h.frames]
  cases r.frames.occupant? frame with
  | none => rfl
  | some ref =>
    rw [Option.bind_some, Option.bind_some]
    rcases h.swept.page?_eq ref with heq | heq
    · rw [heq]
    · rw [heq, Option.map_map]
      rfl

end ResidentPages

namespace Machine

variable {σ : Type} {m m' m₀ : Machine σ} {v : Nat}

/-- Entering a page changes no flag of a page in memory. -/
theorem Consistent.stain?_entering (h : m.Consistent) (a : Address) (hit : Bool) (frame : Nat) :
    (m.entering a hit).residents.stain? frame = m.residents.stain? frame :=
  congrArg (Option.map _) (h.page?_entering a hit frame)

/-- Using a page makes it dirty if it is written, and changes no other flag. -/
theorem Consistent.stain?_use (h : m.Consistent) {r : EntryRef} {frame : Nat}
    (hr : m.pageTable.Resident r frame) (kind : AccessKind) (g : Nat) :
    (m.use r kind frame).residents.stain? g
      = if g = frame then (m.residents.stain? g).map fun c => (c.1, c.2 || kind.writes)
        else m.residents.stain? g := by
  have htouch : ∀ e : Entry, (e.touch kind).dirty = (e.dirty || kind.writes) := by
    intro e
    cases kind <;> simp [Entry.touch, AccessKind.writes, Entry.setDirty, Entry.setReferenced]
  unfold ResidentPages.stain?
  rw [h.page?_use ((h.occupant_iff frame r).mpr hr)]
  split
  next =>
    rw [Option.map_map, Option.map_map]
    refine congrArg (Option.map · _) (funext fun p => ?_)
    exact congrArg (Prod.mk p.vpn) (htouch p.entry)
  next => rfl

/-- A page with a stain is in memory. -/
theorem mem_pagesInMemory_of_stain? {frame : Nat} {d : Bool}
    (h : m.residents.stain? frame = some (v, d)) : v ∈ m.pagesInMemory :=
  mem_pagesInMemory.mpr ⟨frame, ResidentPages.vpn?_of_stain? h⟩

section

variable [BackingStore σ]

/-- When no frame is found, all flags are as they were. -/
theorem Starves.stain? {e : PagingError} (hstarves : m.Starves e m') (frame : Nat) :
    m'.residents.stain? frame = m.residents.stain? frame := by
  cases hstarves with
  | noVictim _ _ spares _ =>
    rw [residents_choosing spares]
    exact spares.stain?_eq frame
  | vacant _ _ spares _ _ =>
    rw [residents_choosing spares]
    exact spares.stain?_eq frame
  | @exhausted choice _ _ _ _ _ names _ =>
    show (m.choosing choice).residents.stain? frame = _
    rw [residents_choosing names.spares]
    exact names.spares.stain?_eq frame

/-- An eviction empties one frame and changes no flag in the others. -/
theorem Frees.stain? (h : m.Consistent) {frame : Nat} (hfrees : m.Frees m₀ frame) (g : Nat) :
    m₀.residents.stain? g = if g = frame then none else m.residents.stain? g := by
  cases hfrees with
  | found free =>
    split
    next hg =>
      subst hg
      unfold ResidentPages.stain?
      rw [ResidentPages.page?_of_free (FrameTable.firstFree?_eq_some free).2, Option.map_none]
    next => rfl
  | evicted names _ released =>
    have hspares := names.spares
    have hpage := (h.choosing hspares).page?_vacating names.occupant released
    unfold ResidentPages.stain?
    rw [hpage, residents_choosing hspares]
    split
    next => rfl
    next => exact hspares.stain?_eq g

/-- A page that is brought in is dirty if it was never mapped, and clean if it comes from swap. -/
theorem BringsIn.stain? (h : m.Consistent) {r : EntryRef} {p : PageEntry}
    (hp : m.pageTable.page? r = some p) (habsent : p.entry.frame? = none) {frame : Nat}
    (hbrings : m.BringsIn r (.ok frame) m') (g : Nat) :
    m'.residents.stain? g
      = if g = frame then some (p.vpn, p.entry.isUnmapped) else m.residents.stain? g := by
  have hplaced : ∀ {x : Machine σ} {frameTable : FrameTable} (memory : Memory) (swap : σ)
      {dirty : Bool}, m.Frees x frame → x.frameTable.claim? frame r = some frameTable →
      p.entry.isUnmapped = dirty →
      (x.placing r frame dirty swap frameTable memory).residents.stain? g
        = if g = frame then some (p.vpn, p.entry.isUnmapped) else m.residents.stain? g := by
    intro x frameTable memory swap dirty hfrees hclaimed hdirty
    have hpage := (hfrees.consistent h).page?_placing (hfrees.page? h hp habsent) habsent hclaimed
      memory dirty swap g
    unfold ResidentPages.stain?
    rw [hpage]
    split
    next =>
      rw [hdirty]
      rfl
    next hg => exact (hfrees.stain? h g).trans (if_neg hg)
  cases hbrings with
  | firstTouch frees page unmapped claimed _ =>
    have heq := Option.some.inj ((frees.page? h hp habsent).symm.trans page)
    refine hplaced _ _ frees claimed ?_
    rw [heq, Entry.isUnmapped, unmapped]
  | swappedIn frees page onSwap _ claimed _ =>
    have heq := Option.some.inj ((frees.page? h hp habsent).symm.trans page)
    refine hplaced _ _ frees claimed ?_
    rw [heq, Entry.isUnmapped, onSwap]

/-- A page that stays in a frame while another one is not brought in stays as clean as it is. -/
theorem BringsIn.stain?_of_error (h : m.Consistent) {r : EntryRef} {failure : Failure}
    (hbrings : m.BringsIn r (.error failure) m') {g : Nat} {c : Nat × Bool}
    (hg : m'.residents.stain? g = some c) : m.residents.stain? g = some c := by
  cases hbrings with
  | starved starves => exact (starves.stain? g).symm.trans hg
  | unreadable frees _ _ _ =>
    have hfreed := (frees.stain? h g).symm.trans hg
    split at hfreed
    next => simp at hfreed
    next => exact hfreed

/-- After a translation, a page in a frame is as it was, unless it is the page asked for: that one
is dirty if it was dirty before or is written now, or, if it was brought in, if it is written now or
was never mapped. -/
theorem Translates.stain?_cases (h : m.Consistent) {a : Address} {kind : AccessKind}
    {result : Except Failure Nat} (ht : m.Translates a kind result m') {g : Nat} {d : Bool}
    (hg : m'.residents.stain? g = some (v, d)) :
    m.residents.stain? g = some (v, d) ∧ (result.isOk = true → a.vpn ≠ v) ∨
      result.isOk = true ∧ a.vpn = v ∧
        ((∃ d₀, m.residents.stain? g = some (v, d₀) ∧ d = (d₀ || kind.writes)) ∨
          m.frameOf? a = none ∧
            (d = true ↔ v ∉ m.pageTable.mappedPages ∨ kind.writes = true)) := by
  cases ht with
  | outside _ => exact Or.inl ⟨hg, by simp [Except.isOk, Except.toBool]⟩
  | @hit frame _ resident =>
    have h' := h.entering a true
    rw [h'.stain?_use resident, h.stain?_entering] at hg
    obtain ⟨p, hp, hf⟩ := resident
    have hpage : m.residents.vpn? frame = some a.vpn := by
      refine ResidentPages.vpn?_eq_some.mpr ⟨p, ?_, h.vpn_refOf hp⟩
      rw [← h.page?_entering a true]
      exact h'.page?_residents.mpr ⟨_, hp, hf⟩
    split at hg
    next hgf =>
      obtain ⟨⟨w, d₀⟩, hw, heq⟩ := Option.map_eq_some_iff.mp hg
      obtain ⟨rfl, rfl⟩ := Prod.mk.inj heq
      have hv : a.vpn = w :=
        Option.some.inj (hpage.symm.trans (hgf ▸ ResidentPages.vpn?_of_stain? hw))
      exact Or.inr ⟨rfl, hv, Or.inl ⟨d₀, hw, rfl⟩⟩
    next hgf =>
      refine Or.inl ⟨hg, fun _ hv => hgf ?_⟩
      exact h.frame_eq_of_vpn? (ResidentPages.vpn?_of_stain? hg) (hv ▸ hpage)
  | @fault p frame m₁ _ page absent brings =>
    have h' := h.entering a false
    have hvpn := h.vpn_refOf page
    rw [(brings.consistent h' page absent).stain?_use brings.resident,
      brings.stain? h' page absent, h.stain?_entering, hvpn] at hg
    split at hg
    next hgf =>
      rw [Option.map_some, Option.some.injEq, Prod.mk.injEq] at hg
      obtain ⟨rfl, rfl⟩ := hg
      refine Or.inr ⟨rfl, rfl, Or.inr ⟨h.frameOf?_eq_none page absent, ?_⟩⟩
      rw [Bool.or_eq_true, h.isUnmapped_iff page]
    next =>
      refine Or.inl ⟨hg, fun _ hv => ?_⟩
      have hin := h.isSome_frameOf?_iff.mpr (hv ▸ mem_pagesInMemory_of_stain? hg)
      rw [h.frameOf?_eq_none page absent] at hin
      simp at hin
  | refused _ _ _ brings =>
    refine Or.inl ⟨?_, by simp [Except.isOk, Except.toBool]⟩
    rw [← h.stain?_entering a false]
    exact brings.stain?_of_error (h.entering a false) hg

/-! ## How evictions are counted -/

/-- No page is evicted and none is counted, or one is, and is counted by its flag. -/
inductive EvictsOne (m m' : Machine σ) : Prop where
  | none (evicted : m.evicted m' = [])
      (clean : m'.counters.cleanEvictions = m.counters.cleanEvictions)
      (dirty : m'.counters.dirtyEvictions = m.counters.dirtyEvictions)
  | one {frame v : Nat} {d : Bool} (stain : m.residents.stain? frame = some (v, d))
      (evicted : m.evicted m' = [v])
      (clean : m'.counters.cleanEvictions = (m.counters.countEviction d).cleanEvictions)
      (dirty : m'.counters.dirtyEvictions = (m.counters.countEviction d).dirtyEvictions)

omit [BackingStore σ] in
/-- What is evicted and counted on the way is what is evicted and counted in the end. -/
theorem EvictsOne.congr (h : m.EvictsOne m₀) (hevicted : m.evicted m' = m.evicted m₀)
    (hclean : m'.counters.cleanEvictions = m₀.counters.cleanEvictions)
    (hdirty : m'.counters.dirtyEvictions = m₀.counters.dirtyEvictions) : m.EvictsOne m' := by
  cases h with
  | none evicted clean dirty =>
    exact .none (hevicted.trans evicted) (hclean.trans clean) (hdirty.trans dirty)
  | one stain evicted clean dirty =>
    exact .one stain (hevicted.trans evicted) (hclean.trans clean) (hdirty.trans dirty)

omit [BackingStore σ] in
/-- Entering a page evicts none and counts none. -/
theorem EvictsOne.of_entering (h : m.Consistent) {a : Address} {hit : Bool}
    (hevicts : (m.entering a hit).EvictsOne m') : m.EvictsOne m' := by
  have hevicted : (m.entering a hit).evicted m' = m.evicted m' := h.evicted_entering a hit
  have hcounted : ∀ d, ((m.counters.countReference hit).countEviction d).cleanEvictions
        = (m.counters.countEviction d).cleanEvictions ∧
      ((m.counters.countReference hit).countEviction d).dirtyEvictions
        = (m.counters.countEviction d).dirtyEvictions := by
    intro d
    cases hit <;> cases d <;> exact ⟨rfl, rfl⟩
  cases hevicts with
  | none evicted clean dirty =>
    refine .none (hevicted.symm.trans evicted) (clean.trans ?_) (dirty.trans ?_)
    · cases hit <;> rfl
    · cases hit <;> rfl
  | one stain evicted clean dirty =>
    exact .one ((h.stain?_entering a hit _).symm.trans stain) (hevicted.symm.trans evicted)
      (clean.trans (hcounted _).1) (dirty.trans (hcounted _).2)

/-- When no frame is found, no page was evicted and none was counted. -/
theorem Starves.evictsOne {e : PagingError} (hstarves : m.Starves e m') : m.EvictsOne m' := by
  have hevicted := hstarves.evicted_eq
  cases hstarves with
  | noVictim _ _ _ _ => exact .none hevicted rfl rfl
  | vacant _ _ _ _ _ => exact .none hevicted rfl rfl
  | exhausted _ _ => exact .none hevicted rfl rfl

/-- An eviction is of one page and is counted by its flag. -/
theorem Frees.evictsOne (h : m.Consistent) {frame : Nat} (hfrees : m.Frees m₀ frame) :
    m.EvictsOne m₀ := by
  have hevicted := hfrees.evicted_eq h
  cases hfrees with
  | found _ => exact .none (evicted_eq_nil fun _ => rfl) rfl rfl
  | @evicted choice _ victim page _ _ _ _ names _ _ =>
    rw [names.vpn?_frame] at hevicted
    have hframes : choice.residents.frames = m.frameTable := names.spares.frames
    have hpage : choice.residents.page? frame = some page :=
      ResidentPages.page?_eq_some.mpr ⟨victim, hframes ▸ names.occupant, names.page⟩
    have hstain : m.residents.stain? frame = some (page.vpn, page.entry.dirty) := by
      rw [← names.spares.stain?_eq]
      exact ResidentPages.stain?_eq_some.mpr ⟨page, hpage, rfl, rfl⟩
    exact .one hstain hevicted rfl rfl

/-- Bringing a page in evicts one page at most and counts it. -/
theorem BringsIn.evictsOne (h : m.Consistent) {r : EntryRef} {p : PageEntry}
    (hp : m.pageTable.page? r = some p) (habsent : p.entry.frame? = none)
    {result : Except Failure Nat} (hbrings : m.BringsIn r result m') : m.EvictsOne m' := by
  have hevicted : ∀ {frame : Nat} {x : Machine σ}, result = .ok frame → m.Frees x frame →
      m.evicted m' = m.evicted x := by
    intro frame x hok hfrees
    rw [hfrees.evicted_eq h, BringsIn.evicted_eq h hp habsent (hok ▸ hbrings)]
  cases hbrings with
  | starved starves => exact starves.evictsOne
  | unreadable frees _ _ _ => exact (frees.evictsOne h).congr rfl rfl rfl
  | firstTouch frees _ _ _ _ => exact (frees.evictsOne h).congr (hevicted rfl frees) rfl rfl
  | swappedIn frees _ _ _ _ _ => exact (frees.evictsOne h).congr (hevicted rfl frees) rfl rfl

/-- A translation evicts one page at most and counts it. -/
theorem Translates.evictsOne (h : m.Consistent) {a : Address} {kind : AccessKind}
    {result : Except Failure Nat} (ht : m.Translates a kind result m') : m.EvictsOne m' := by
  cases ht with
  | outside _ => exact .none (evicted_eq_nil fun _ => rfl) rfl rfl
  | hit _ resident =>
    have hevicted := (h.entering a true).evicted_use (m := m.entering a true) resident kind
    rw [evicted_eq_nil fun _ => rfl] at hevicted
    exact EvictsOne.of_entering h (.none hevicted rfl rfl)
  | fault _ page absent brings =>
    have h' := h.entering a false
    have hevicts := brings.evictsOne h' page absent
    refine EvictsOne.of_entering h (hevicts.congr ?_ rfl rfl)
    exact (brings.consistent h' page absent).evicted_use brings.resident kind
  | refused _ page absent brings =>
    exact (brings.evictsOne (h.entering a false) page absent).of_entering h

/-- A request evicts one page at most and counts it. -/
theorem Serves.evictsOne (h : m.Consistent) {q : Request} {result : Except Failure Reply}
    (hserves : m.Serves q result m') : m.EvictsOne m' := by
  obtain ⟨placed, m₁, memory, mismatches, translates, rfl, -⟩ := hserves.translates
  exact (translates.evictsOne h).congr rfl rfl rfl

end

end Machine

end DemandPaging
