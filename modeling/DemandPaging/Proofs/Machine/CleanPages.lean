import DemandPaging.Proofs.Machine.Contents
import DemandPaging.Proofs.Machine.Residents

/-!
# Clean pages

A page in memory that is not dirty has a copy on swap: it owns a slot, and the bytes there are
those of its frame (`Mirrored`). Each move keeps this. A page that is brought in is dirty, or its
bytes have just been read from its slot; the slots of other pages are left alone when a victim is
written out, because no two pages own the same; and whoever is about to write marks the page first.

> `clean_pages_mirrored`: so it is after any run, and paging out a clean victim writes back what its
> slot holds already.
-/

namespace DemandPaging.Machine

/-- A translation for writing leaves the page of its address dirty. -/
theorem Translates.dirty {σ : Type} [BackingStore σ] {m m' : Machine σ} {a : Address}
    {kind : AccessKind} (hwrites : kind.writes = true) {place : Nat}
    (ht : m.Translates a kind (.ok place) m') {p : PageEntry}
    (hp : m'.pageTable.page? (m.refOf a) = some p) : p.entry.dirty = true := by
  have htouched : ∀ {m₁ : Machine σ} {frame : Nat},
      (m₁.use (m.refOf a) kind frame).pageTable.page? (m.refOf a) = some p →
        p.entry.dirty = true := by
    intro m₁ frame hp
    obtain ⟨q, -, rfl⟩ :=
      Option.map_eq_some_iff.mp ((PageTable.page?_modify_self _ _ _).symm.trans hp)
    rw [PageEntry.entry_update, Entry.touch, if_pos hwrites]
    rfl
  cases ht with
  | hit _ _ => exact htouched hp
  | fault _ _ _ _ => exact htouched hp

section

variable {σ : Type} [BackingStore σ] [LawfulStore σ] {m m' m₀ : Machine σ}

/-- Every clean page in memory owns a slot, and the bytes there are those of its frame. -/
def Mirrored (m : Machine σ) : Prop :=
  ∀ r p frame, m.pageTable.page? r = some p → p.entry.frame? = some frame →
    p.entry.dirty = false → ∃ offset bytes, p.entry.slot? = some offset ∧
      LawfulStore.held m.swap offset = some bytes ∧ m.memory.page? frame = some bytes

/-- A clean page that was clean in the same place before, with the same bytes there, is mirrored if
it was. -/
theorem Mirrored.page (h : m.Mirrored) {r : EntryRef} {p q : PageEntry} {frame : Nat}
    (hq : m.pageTable.page? r = some q) (hresidency : q.entry.residency = p.entry.residency)
    (hclean : q.entry.dirty = false) (hf : p.entry.frame? = some frame)
    (hmemory : m'.memory.page? frame = m.memory.page? frame)
    (hheld : ∀ o, p.entry.slot? = some o →
      LawfulStore.held m'.swap o = LawfulStore.held m.swap o) :
    ∃ offset bytes, p.entry.slot? = some offset ∧
      LawfulStore.held m'.swap offset = some bytes ∧ m'.memory.page? frame = some bytes := by
  obtain ⟨offset, bytes, hslot, hbytes, hframe⟩ :=
    h r q frame hq ((frame?_eq_of_residency_eq hresidency).trans hf) hclean
  rw [slot?_eq_of_residency_eq hresidency] at hslot
  exact ⟨offset, bytes, hslot, (hheld offset hslot).trans hbytes, hmemory.trans hframe⟩

/-! ## The moves -/

theorem mirrored_build (frames : Nat) (policy : Policy) (swap : σ) :
    (build frames policy swap).Mirrored := by
  intro r p frame hp
  simp [build, PageTable.page?_empty] at hp

/-- A page that is entered is not in memory yet. -/
theorem Mirrored.entering (hm : m.Mirrored) (h : m.Consistent) (a : Address) (hit : Bool) :
    (m.entering a hit).Mirrored := by
  intro r p frame hp hf hclean
  rcases (h.rooted.extends_walk a).fresh r p hp with hold | ⟨-, hunmapped⟩
  · exact hm r p frame hold hf hclean
  · rw [hunmapped] at hf
    simp [Entry.unmapped, Entry.frame?] at hf

/-- Choosing a victim touches neither the dirty flags nor the bytes. -/
theorem Mirrored.choosing (hm : m.Mirrored) {choice : Policy.Choice}
    (hspares : m.residents.Spares choice.residents) : (m.choosing choice).Mirrored := by
  intro r p frame hp hf hclean
  -- a mark is all that the choice may have taken
  obtain ⟨q, hq, hcases⟩ := hspares.swept.page?_of_some hp
  rcases hcases with rfl | rfl
  · exact hm r p frame hq hf hclean
  · exact hm.page hq rfl hclean hf rfl fun _ _ => rfl

/-- What matters of the store is what it holds. -/
theorem Mirrored.withSwap (hm : m.Mirrored) {swap : σ}
    (hheld : LawfulStore.held swap = LawfulStore.held m.swap) : (m.withSwap swap).Mirrored := by
  intro r p frame hp hf hclean
  exact hm.page hp rfl hclean hf rfl fun o _ => congrFun hheld o

/-- Writing the victim out overwrites no slot of another page. -/
theorem Mirrored.vacating (hm : m.Mirrored) (hs : m.SlotsOwned) {victim : EntryRef}
    {page : PageEntry} (hpage : m.pageTable.page? victim = some page) {bytes : Page}
    {offset : SwapOffset} {swap : σ}
    (hsaved : BackingStore.save m.swap bytes page.entry.slot? = (some offset, swap))
    (dirty : Bool) (frameTable : FrameTable) :
    (m.vacating victim dirty offset swap frameTable).Mirrored := by
  intro r p frame hp hf hclean
  by_cases hr : r = victim
  · -- the victim is in no frame
    subst hr
    have hp' : (m.pageTable.page? r).map (·.update (·.swapOut offset)) = some p :=
      (PageTable.page?_modify_self _ _ _).symm.trans hp
    obtain ⟨q, -, rfl⟩ := Option.map_eq_some_iff.mp hp'
    simp at hf
  · have hp' : m.pageTable.page? r = some p := (PageTable.page?_modify_of_ne hr).symm.trans hp
    refine hm.page hp' rfl hclean hf rfl fun o ho => ?_
    show LawfulStore.held swap o = LawfulStore.held m.swap o
    rw [LawfulStore.save_held hsaved, if_neg (hs.ne_of_saved hpage hsaved hr hp' ho)]

/-- A page that enters a frame is dirty, or it has the bytes of its slot. -/
theorem Mirrored.placing (hm : m.Mirrored) (h : m.Consistent) {r : EntryRef} {p : PageEntry}
    (hp : m.pageTable.page? r = some p) {frame : Nat} {bytes : Page} {frameTable : FrameTable}
    (hclaimed : m.frameTable.claim? frame r = some frameTable) {memory : Memory}
    (hfilled : m.memory.setPage? frame bytes = some memory) {swap : σ}
    (hheld : LawfulStore.held swap = LawfulStore.held m.swap) {dirty : Bool}
    (hcopy : dirty = false → ∃ offset, p.entry.slot? = some offset ∧
      LawfulStore.held m.swap offset = some bytes) :
    (m.placing r frame dirty swap frameTable memory).Mirrored := by
  obtain ⟨-, -, hpages⟩ := Memory.setPage?_spec hfilled
  intro s q g hq hg hclean
  by_cases hsr : s = r
  · subst hsr
    have hq' : (m.pageTable.page? s).map (·.update fun e => (e.place frame).setDirty dirty)
        = some q := (PageTable.page?_modify_self _ _ _).symm.trans hq
    rw [hp, Option.map_some, Option.some.injEq] at hq'
    subst hq'
    obtain ⟨offset, hslot, hbytes⟩ := hcopy hclean
    have hgf : frame = g := Option.some.inj hg
    subst hgf
    refine ⟨offset, bytes, hslot, (congrFun hheld offset).trans hbytes, ?_⟩
    exact (hpages frame).trans (if_pos rfl)
  · have hq' : m.pageTable.page? s = some q := (PageTable.page?_modify_of_ne hsr).symm.trans hq
    refine hm.page hq' rfl hclean hg ?_ fun o _ => congrFun hheld o
    -- the frame was free, so the other page is not in it
    have hne : g ≠ frame := by
      intro heq
      obtain ⟨-, hfree, -, -⟩ := FrameTable.claim?_spec hclaimed
      have hocc := (h.occupant_iff g s).mpr ⟨q, hq', hg⟩
      rw [heq, hfree] at hocc
      simp at hocc
    exact (hpages g).trans (if_neg hne)

/-- A page that is used stays clean only if it was not written. -/
theorem Mirrored.use (hm : m.Mirrored) (r : EntryRef) (kind : AccessKind) (frame : Nat) :
    (m.use r kind frame).Mirrored := by
  intro s q g hq hg hclean
  by_cases hsr : s = r
  · subst hsr
    have hq' : (m.pageTable.page? s).map (·.update (·.touch kind)) = some q :=
      (PageTable.page?_modify_self _ _ _).symm.trans hq
    obtain ⟨p, hp, rfl⟩ := Option.map_eq_some_iff.mp hq'
    refine hm.page hp (p.entry.residency_touch kind).symm ?_ hg rfl fun _ _ => rfl
    -- a write would have left a mark
    rw [PageEntry.entry_update, Entry.touch] at hclean
    split at hclean
    next => simp [Entry.setDirty] at hclean
    next => exact hclean
  · have hq' : m.pageTable.page? s = some q := (PageTable.page?_modify_of_ne hsr).symm.trans hq
    exact hm.page hq' rfl hclean hg rfl fun _ _ => rfl

/-! ## The stages -/

/-- When no frame is found, the clean pages are mirrored still. -/
theorem Starves.mirrored (hm : m.Mirrored) {e : PagingError} (hstarves : m.Starves e m') :
    m'.Mirrored := by
  cases hstarves with
  | noVictim _ _ spares _ => exact hm.choosing spares
  | vacant _ _ spares _ _ => exact hm.choosing spares
  | exhausted names unsaved =>
    exact (hm.choosing names.spares).withSwap (LawfulStore.save_none unsaved)

/-- After an eviction the clean pages that are left are mirrored. -/
theorem Frees.mirrored (hm : m.Mirrored) (hs : m.SlotsOwned) {frame : Nat}
    (hfrees : m.Frees m₀ frame) : m₀.Mirrored := by
  cases hfrees with
  | found _ => exact hm
  | evicted names saved _ =>
    exact (hm.choosing names.spares).vacating (hs.choosing names.spares) names.page saved _ _

/-- A page that is brought in from swap is clean and is mirrored in its slot. -/
theorem BringsIn.mirrored (hm : m.Mirrored) (h : m.Consistent) (hs : m.SlotsOwned) {r : EntryRef}
    {result : Except Failure Nat} (hbrings : m.BringsIn r result m') : m'.Mirrored := by
  cases hbrings with
  | starved starves => exact starves.mirrored hm
  | unreadable frees _ _ unread =>
    exact (frees.mirrored hm hs).withSwap (LawfulStore.fetch_held unread)
  | firstTouch frees page _ claimed filled =>
    exact (frees.mirrored hm hs).placing (frees.consistent h) page claimed filled rfl (by simp)
  | @swappedIn _ _ p offset _ _ _ _ frees page onSwap read claimed filled =>
    refine (frees.mirrored hm hs).placing (frees.consistent h) page claimed filled
      (LawfulStore.fetch_held read) fun _ => ⟨offset, ?_, LawfulStore.fetch_ok read⟩
    unfold Entry.slot?
    rw [onSwap]

/-- Every translation keeps the clean pages mirrored. -/
theorem Translates.mirrored (hm : m.Mirrored) (h : m.Consistent) (hs : m.SlotsOwned) {a : Address}
    {kind : AccessKind} {result : Except Failure Nat} (ht : m.Translates a kind result m') :
    m'.Mirrored := by
  cases ht with
  | outside _ => exact hm
  | hit _ _ => exact (hm.entering h a true).use _ _ _
  | fault _ _ _ brings =>
    have hm' := brings.mirrored (hm.entering h a false) (h.entering a false) (hs.entering h a false)
    exact hm'.use _ _ _
  | refused _ _ _ brings =>
    exact brings.mirrored (hm.entering h a false) (h.entering a false) (hs.entering h a false)

/-- A byte stored in the frame of a dirty page is in no copy. -/
theorem Mirrored.write (hm : m.Mirrored) (h : m.Consistent) {r : EntryRef} {p : PageEntry}
    {frame offset : Nat} (hp : m.pageTable.page? r = some p) (hf : p.entry.frame? = some frame)
    (hdirty : p.entry.dirty = true) (hoffset : offset < pageBytes) {value : UInt8}
    {memory : Memory}
    (hwritten : m.memory.write? (Memory.addressOf frame + offset) value = some memory) :
    { m with memory := memory }.Mirrored := by
  intro s q g hq hg hclean
  have hne : g ≠ frame := by
    intro heq
    have hsr : s = r := h.eq_of_resident ⟨q, hq, heq ▸ hg⟩ ⟨p, hp, hf⟩
    subst hsr
    have hpq : p = q := Option.some.inj (hp.symm.trans hq)
    rw [← hpq, hdirty] at hclean
    simp at hclean
  obtain ⟨page, hpage⟩ := Memory.page?_isSome (m := m.memory) (h.frames ▸ h.lt_size ⟨p, hp, hf⟩)
  obtain ⟨memory', hwritten', -, hpages⟩ := Memory.write?_addressOf_add hpage hoffset value
  have heq : memory = memory' := Option.some.inj (hwritten.symm.trans hwritten')
  subst heq
  exact hm.page hq rfl hclean hg ((hpages g).trans (if_neg hne)) fun _ _ => rfl

/-- Every request keeps the clean pages mirrored: a page is dirty before its bytes differ. -/
theorem Serves.mirrored (hm : m.Mirrored) (h : m.Consistent) (hs : m.SlotsOwned) {q : Request}
    {result : Except Failure Reply} (hserves : m.Serves q result m') : m'.Mirrored := by
  cases hserves with
  | refused translates => exact translates.mirrored hm h hs
  | translated translates => exact translates.mirrored hm h hs
  | agreed _ translates _ => exact translates.mirrored hm h hs
  | differed _ translates _ _ =>
    have hm' := translates.mirrored hm h hs
    exact hm'
  | stored writes translates written =>
    obtain ⟨frame, hplace, hoffset, p, hp, hf⟩ := translates.place_eq
    exact (translates.mirrored hm h hs).write (translates.consistent h) hp hf
      (translates.dirty writes hp) hoffset (hplace ▸ written)

end

/-! ## Runs over a store that fails on demand -/

section

variable {m m' m₀ : Machine UnreliableStore}

/-- The pages that are in memory in `m` and not in `m'` are clean. -/
def EvictsClean (m m' : Machine UnreliableStore) : Prop :=
  ∀ r p, m.pageTable.page? r = some p → p.vpn ∈ m.evicted m' → p.entry.dirty = false

theorem EvictsClean.congr (hclean : m.EvictsClean m') (h : m.evicted m' = m.evicted m₀) :
    m.EvictsClean m₀ :=
  fun r p hp hmem => hclean r p hp (h ▸ hmem)

/-- A clean victim is written back with the bytes that its slot has. -/
theorem Frees.store_eq (hm : m.Mirrored) (h : m.Consistent) {frame : Nat}
    (hfrees : m.Frees m₀ frame) (hclean : m.EvictsClean m₀) : m₀.swap.store = m.swap.store := by
  have hevicted := hfrees.evicted_eq h
  cases hfrees with
  | found _ => rfl
  | @evicted choice _ victim page bytes offset swap _ names saved _ =>
    obtain ⟨q, hq, hcases⟩ := names.spares.swept.page?_of_some names.page
    have hvictim : page.vpn ∈ (m.residents.vpn? frame).toList := by
      rw [names.vpn?_frame]
      exact Option.mem_toList.mpr rfl
    rw [← hevicted] at hvictim
    have hdirty : page.entry.dirty = false := by
      rcases hcases with rfl | rfl
      · exact hclean victim page hq hvictim
      · exact hclean victim q hq hvictim
    obtain ⟨p, hp, hf⟩ := ((h.choosing names.spares).occupant_iff _ _).mp names.occupant
    have heq : p = page := Option.some.inj (hp.symm.trans names.page)
    subst heq
    obtain ⟨owned, copy, hslot, hheld, hframe⟩ :=
      hm.choosing names.spares victim p frame hp hf hdirty
    have hbytes : copy = bytes := Option.some.inj (hframe.symm.trans names.bytes)
    subst hbytes
    rw [hslot] at saved
    have hsame : m.swap.save copy (some owned) = _ := UnreliableStore.save_same hheld
    have hswap : m.swap.save copy (some owned) = (some offset, swap) := saved
    rw [hsame] at hswap
    show swap.store = m.swap.store
    rw [← (Prod.mk.inj hswap).2]

/-- When no frame is found, nothing was written to swap. -/
theorem Starves.store_eq {e : PagingError} (hstarves : m.Starves e m') :
    m'.swap.store = m.swap.store := by
  cases hstarves with
  | noVictim _ _ _ _ => rfl
  | vacant _ _ _ _ _ => rfl
  | exhausted _ unsaved => exact UnreliableStore.save_none unsaved

/-- Making room at the cost of a clean page leaves the store as it was. -/
theorem BringsIn.store_eq (hm : m.Mirrored) (h : m.Consistent) {r : EntryRef} {p : PageEntry}
    (hp : m.pageTable.page? r = some p) (habsent : p.entry.frame? = none)
    {result : Except Failure Nat} (hbrings : m.BringsIn r result m')
    (hclean : m.EvictsClean m') : m'.swap.store = m.swap.store := by
  -- what is evicted on the whole way is what is evicted to free the frame
  have hevicted : ∀ {frame : Nat}, result = .ok frame →
      m.evicted m' = (m.residents.vpn? frame).toList :=
    fun hok => BringsIn.evicted_eq h hp habsent (hok ▸ hbrings)
  cases hbrings with
  | starved starves => exact starves.store_eq
  | unreadable frees _ _ unread =>
    exact (UnreliableStore.fetch_cases unread).1.trans (frees.store_eq hm h hclean)
  | firstTouch frees _ _ _ _ =>
    have hfreed := hclean.congr ((hevicted rfl).trans (frees.evicted_eq h).symm)
    have hstore := frees.store_eq hm h hfreed
    exact hstore
  | swappedIn frees _ _ read _ _ =>
    have hfreed := hclean.congr ((hevicted rfl).trans (frees.evicted_eq h).symm)
    exact (UnreliableStore.fetch_cases read).1.trans (frees.store_eq hm h hfreed)

/-- A translation that evicts clean pages only leaves the store as it was. -/
theorem Translates.store_eq (hm : m.Mirrored) (h : m.Consistent) {a : Address} {kind : AccessKind}
    {result : Except Failure Nat} (ht : m.Translates a kind result m')
    (hclean : m.EvictsClean m') : m'.swap.store = m.swap.store := by
  -- the walk maps no page, so a page that is evicted was there before it
  have hentering : ∀ {m₁ : Machine UnreliableStore}, m.evicted m' = m.evicted m₁ →
      (m.entering a false).EvictsClean m₁ := by
    intro m₁ hevicted r p hp hmem
    rw [h.evicted_entering, ← hevicted] at hmem
    rcases (h.rooted.extends_walk a).fresh r p hp with hold | ⟨-, hunmapped⟩
    · exact hclean r p hold hmem
    · rw [hunmapped]
      rfl
  cases ht with
  | outside _ => rfl
  | hit _ _ => rfl
  | fault _ page absent brings =>
    have h' := brings.consistent (h.entering a false) page absent
    have hevicts := hentering (h'.evicted_use brings.resident kind)
    have hstore := brings.store_eq (hm.entering h a false) (h.entering a false) page absent hevicts
    exact hstore
  | refused _ page absent brings =>
    have hstore :=
      brings.store_eq (hm.entering h a false) (h.entering a false) page absent (hentering rfl)
    exact hstore

/-- A request that evicts clean pages only leaves the store as it was. -/
theorem Serves.store_eq (hm : m.Mirrored) (h : m.Consistent) {q : Request}
    {result : Except Failure Reply} (hserves : m.Serves q result m')
    (hclean : m.EvictsClean m') : m'.swap.store = m.swap.store := by
  obtain ⟨placed, m₁, memory, mismatches, translates, rfl, -⟩ := hserves.translates
  have hstore : m₁.swap.store = m.swap.store := translates.store_eq hm h hclean
  exact hstore

/-- After any run over a store whose calls may fail at will, a clean page in memory has its bytes on
swap, in the slot that it owns. So paging it out leaves the pages on swap as they are: the pageout
itself, and any request by which no other page is evicted. -/
theorem clean_pages_mirrored (frames slots : Nat) (algorithm : Algorithm) (seed : UInt64)
    (failsOut failsIn : Nat → Bool) (qs : List Request) :
    let m := (build frames (.ofAlgorithm algorithm seed)
      (UnreliableStore.empty slots failsOut failsIn)).serveAll qs
    (∀ r p frame, m.pageTable.page? r = some p → p.entry.frame? = some frame →
      p.entry.dirty = false → ∃ offset bytes, p.entry.slot? = some offset ∧
        m.swap.store.page? offset = some bytes ∧ m.memory.page? frame = some bytes ∧
        BackingStore.save m.swap bytes p.entry.slot?
          = (if m.swap.failsOut (m.swap.outs + 1) then none else some offset,
            { m.swap with outs := m.swap.outs + 1 })) ∧
      ∀ q : Request, m.EvictsClean (m.serve q).machine →
        (m.serve q).machine.swap.store = m.swap.store := by
  intro m
  have hrun : m.Consistent ∧ m.SlotsOwned ∧ m.Mirrored := by
    refine serveAll_induction
      (P := fun m : Machine UnreliableStore => m.Consistent ∧ m.SlotsOwned ∧ m.Mirrored) ?_ qs
      ⟨consistent_build frames _ _, slotsOwned_build frames _ _, mirrored_build frames _ _⟩
    intro m q hm
    obtain ⟨h, hs, hm⟩ := hm
    have hserves := serve_cases h q
    exact ⟨h.serve q, hserves.slotsOwned h hs, hserves.mirrored hm h hs⟩
  obtain ⟨h, -, hm⟩ := hrun
  refine ⟨?_, ?_⟩
  · intro r p frame hp hf hclean
    obtain ⟨offset, bytes, hslot, hheld, hframe⟩ := hm r p frame hp hf hclean
    refine ⟨offset, bytes, hslot, hheld, hframe, ?_⟩
    rw [hslot]
    exact UnreliableStore.save_same hheld
  · intro q hclean
    exact (serve_cases h q).store_eq hm h hclean

end

end DemandPaging.Machine
