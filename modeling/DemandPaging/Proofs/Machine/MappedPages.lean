import DemandPaging.Proofs.Machine.Contents
import DemandPaging.Proofs.Machine.Residents
import DemandPaging.Proofs.PageTable.Mapped
import Mathlib.Data.List.Basic

/-!
# The pages that are mapped

A page is mapped by the first translation that succeeds for it, and stays mapped: what happens
later only moves it between a frame and swap. So the mapped pages are those that some translation
was answered for, stage by stage:

> `Frees.mem_mappedPages`: making room maps nothing.
> `BringsIn.mem_mappedPages`, `Translates.mem_mappedPages`: success maps the page asked for.

At any time each of them is in a frame or on swap (`PageTable.length_mappedPages`), and those in
frames are as many as the frames in use (`Consistent.inUse_eq`).
-/

namespace DemandPaging

namespace PageTable

/-- The pages whose data is on swap alone. -/
def pagesOnSwap (t : PageTable) : List Nat :=
  (t.mapped.filter (·.2.entry.swapOffset?.isSome)).map (·.2.vpn)

/-- The pages that are in some frame. -/
def pagesInFrames (t : PageTable) : List Nat :=
  (t.mapped.filter (·.2.entry.frame?.isSome)).map (·.2.vpn)

/-- A mapped page is in a frame or on swap. -/
theorem length_mappedPages (t : PageTable) :
    t.mappedPages.length = t.pagesInFrames.length + t.pagesOnSwap.length := by
  have hswap : t.mapped.filter (·.2.entry.swapOffset?.isSome)
      = t.mapped.filter fun x => !x.2.entry.frame?.isSome := by
    refine List.filter_congr fun x hx => ?_
    have hmapped := (mem_mapped.mp hx).2
    unfold Entry.isUnmapped at hmapped
    unfold Entry.swapOffset? Entry.frame?
    cases hresidency : x.2.entry.residency with
    | unmapped =>
      rw [hresidency] at hmapped
      simp at hmapped
    | resident _ _ => rfl
    | onSwap _ => rfl
  unfold mappedPages pagesInFrames pagesOnSwap
  rw [List.length_map, List.length_map, List.length_map, hswap]
  exact List.length_eq_length_filter_add _

/-- A page is in a frame if its entry is resident in one. -/
theorem mem_pagesInFrames {t : PageTable} {v : Nat} :
    v ∈ t.pagesInFrames ↔ ∃ r frame p, t.page? r = some p ∧ p.entry.frame? = some frame ∧
      p.vpn = v := by
  unfold pagesInFrames
  rw [List.mem_map]
  refine ⟨?_, ?_⟩
  · intro hex
    obtain ⟨⟨r, p⟩, hmem, hv⟩ := hex
    obtain ⟨hmapped, hframe⟩ := List.mem_filter.mp hmem
    obtain ⟨frame, hf⟩ := Option.isSome_iff_exists.mp hframe
    exact ⟨r, frame, p, (mem_mapped.mp hmapped).1, hf, hv⟩
  · intro hex
    obtain ⟨r, frame, p, hp, hf, hv⟩ := hex
    have hmapped := mem_mapped.mpr ⟨hp, Entry.isUnmapped_eq_false_of_frame? hf⟩
    exact ⟨(r, p), List.mem_filter.mpr ⟨hmapped, Option.isSome_iff_exists.mpr ⟨frame, hf⟩⟩, hv⟩

theorem SamePlaces.mem_mappedPages {t t' : PageTable} (h : SamePlaces t t') {v : Nat} :
    v ∈ t'.mappedPages ↔ v ∈ t.mappedPages := by
  have hone : ∀ {t t' : PageTable}, SamePlaces t t' → v ∈ t.mappedPages →
      v ∈ t'.mappedPages := by
    intro t t' h hv
    obtain ⟨r, p, hp, hmapped, hpv⟩ := PageTable.mem_mappedPages.mp hv
    obtain ⟨p', hp', hvpn, hresidency⟩ := h.page?_some hp
    refine PageTable.mem_mappedPages.mpr ⟨r, p', hp', ?_, hvpn.trans hpv⟩
    unfold Entry.isUnmapped at hmapped ⊢
    rw [hresidency]
    exact hmapped
  exact ⟨hone h.symm, hone h⟩

/-- Giving an entry a place maps its page and no other. -/
theorem mem_mappedPages_modify {t : PageTable} {r : EntryRef} {p : PageEntry}
    (hp : t.page? r = some p) {f : Entry → Entry} (hf : (f p.entry).isUnmapped = false) {v : Nat} :
    v ∈ (t.modify r f).mappedPages ↔ v ∈ t.mappedPages ∨ v = p.vpn := by
  have hr : (t.modify r f).page? r = some (p.update f) := by
    rw [page?_modify_self, hp, Option.map_some]
  rw [mem_mappedPages, mem_mappedPages]
  refine ⟨?_, ?_⟩
  · intro hex
    obtain ⟨s, q, hq, hmapped, hv⟩ := hex
    by_cases hs : s = r
    · subst hs
      have hpq : p.update f = q := Option.some.inj (hr.symm.trans hq)
      subst hpq
      exact Or.inr hv.symm
    · exact Or.inl ⟨s, q, (page?_modify_of_ne hs).symm.trans hq, hmapped, hv⟩
  · intro hcases
    rcases hcases with ⟨s, q, hq, hmapped, hv⟩ | hv
    · by_cases hs : s = r
      · subst hs
        have hpq : p = q := Option.some.inj (hp.symm.trans hq)
        exact ⟨s, p.update f, hr, hf, (congrArg PageEntry.vpn hpq).trans hv⟩
      · exact ⟨s, q, (page?_modify_of_ne hs).trans hq, hmapped, hv⟩
    · exact ⟨r, p.update f, hr, hf, hv.symm⟩

end PageTable

namespace Machine

variable {σ : Type} {m m' m₀ : Machine σ}

/-- A frame is in use exactly if it has a page. -/
theorem Consistent.inUse_eq_length_pagesInMemory (h : m.Consistent) :
    m.frameTable.inUse = m.pagesInMemory.length := by
  unfold pagesInMemory
  rw [m.frameTable.inUse_eq, List.length_filterMap_eq_countP]
  refine List.countP_congr fun frame _ => ?_
  cases hocc : m.frameTable.occupant? frame with
  | none =>
    have hfree : m.residents.frames.occupant? frame = none := hocc
    rw [ResidentPages.vpn?_of_free hfree]
    rfl
  | some r =>
    obtain ⟨p, hp⟩ := h.grounded frame r hocc
    have hpage : m.residents.page? frame = some p :=
      (ResidentPages.page?_of_occupant (r := m.residents) hocc).trans hp
    simp [ResidentPages.vpn?, hpage]

/-- The frames in use are as many as the entries that name one. -/
theorem Consistent.inUse_eq (h : m.Consistent) :
    m.frameTable.inUse = m.pageTable.pagesInFrames.length := by
  have hperm : m.pagesInMemory.Perm m.pageTable.pagesInFrames := by
    have hnodup : m.pageTable.pagesInFrames.Nodup :=
      (h.rooted.nodup_mappedPages).sublist (List.filter_sublist.map _)
    refine (List.perm_ext_iff_of_nodup h.nodup_pagesInMemory hnodup).mpr fun v => ?_
    rw [mem_pagesInMemory, PageTable.mem_pagesInFrames]
    refine ⟨?_, ?_⟩
    · intro hex
      obtain ⟨frame, hframe⟩ := hex
      obtain ⟨p, hp, hv⟩ := ResidentPages.vpn?_eq_some.mp hframe
      obtain ⟨r, hr, hf⟩ := h.page?_residents.mp hp
      exact ⟨r, frame, p, hr, hf, hv⟩
    · intro hex
      obtain ⟨r, frame, p, hp, hf, hv⟩ := hex
      exact ⟨frame, ResidentPages.vpn?_eq_some.mpr ⟨p, h.page?_residents.mpr ⟨r, hp, hf⟩, hv⟩⟩
  exact h.inUse_eq_length_pagesInMemory.trans hperm.length_eq

/-- A page that is in memory is mapped. -/
theorem Consistent.mem_mappedPages (h : m.Consistent) {v : Nat} (hv : v ∈ m.pagesInMemory) :
    v ∈ m.pageTable.mappedPages := by
  obtain ⟨frame, hframe⟩ := mem_pagesInMemory.mp hv
  obtain ⟨p, hp, hpv⟩ := ResidentPages.vpn?_eq_some.mp hframe
  obtain ⟨r, hr, hf⟩ := h.page?_residents.mp hp
  exact PageTable.mem_mappedPages.mpr ⟨r, p, hr, Entry.isUnmapped_eq_false_of_frame? hf, hpv⟩

theorem Consistent.mem_mappedPages_entering (h : m.Consistent) (a : Address) (hit : Bool)
    {v : Nat} : v ∈ (m.entering a hit).pageTable.mappedPages ↔ v ∈ m.pageTable.mappedPages := by
  have hextends := h.rooted.extends_walk a
  rw [PageTable.mem_mappedPages, PageTable.mem_mappedPages]
  refine ⟨?_, ?_⟩
  · intro hex
    obtain ⟨r, p, hp, hmapped, hv⟩ := hex
    rcases hextends.fresh r p hp with hold | ⟨-, hunmapped⟩
    · exact ⟨r, p, hold, hmapped, hv⟩
    · rw [hunmapped] at hmapped
      simp [Entry.unmapped, Entry.isUnmapped] at hmapped
  · intro hex
    obtain ⟨r, p, hp, hrest⟩ := hex
    exact ⟨r, p, hextends.kept r p hp, hrest⟩

/-- A page was never mapped exactly if the entry at the end of its walk says so. -/
theorem Consistent.isUnmapped_iff (h : m.Consistent) {a : Address} {hit : Bool} {p : PageEntry}
    (hp : (m.entering a hit).pageTable.page? (m.refOf a) = some p) :
    p.entry.isUnmapped = true ↔ a.vpn ∉ m.pageTable.mappedPages := by
  have hvpn := h.vpn_refOf hp
  rw [← h.mem_mappedPages_entering a hit, PageTable.mem_mappedPages]
  refine ⟨?_, ?_⟩
  · intro hunmapped hex
    obtain ⟨r, q, hq, hmapped, hv⟩ := hex
    have href := (h.entering a hit).rooted.ref_eq_of_vpn_eq hp hq (hvpn.trans hv.symm)
    have hpq : p = q := Option.some.inj (hp.symm.trans (href ▸ hq))
    rw [hpq, hmapped] at hunmapped
    simp at hunmapped
  · intro hnone
    by_contra hmapped
    exact hnone ⟨_, p, hp, Bool.eq_false_iff.mpr hmapped, hvpn⟩

/-! ## Stage by stage -/

variable [BackingStore σ]

/-- A search for a frame that fails maps no page. -/
theorem Starves.mem_mappedPages {e : PagingError} (hstarves : m.Starves e m') {v : Nat} :
    v ∈ m'.pageTable.mappedPages ↔ v ∈ m.pageTable.mappedPages := by
  cases hstarves with
  | noVictim _ _ spares _ => exact spares.swept.samePlaces.mem_mappedPages
  | vacant _ _ spares _ _ => exact spares.swept.samePlaces.mem_mappedPages
  | exhausted names _ => exact names.spares.swept.samePlaces.mem_mappedPages

theorem Frees.mem_mappedPages (h : m.Consistent) {frame : Nat} (hfrees : m.Frees m₀ frame)
    {v : Nat} : v ∈ m₀.pageTable.mappedPages ↔ v ∈ m.pageTable.mappedPages := by
  cases hfrees with
  | found _ => rfl
  | @evicted choice _ victim page _ offset _ _ names _ _ =>
    -- the victim was mapped already
    obtain ⟨p, hp, hf⟩ := ((h.choosing names.spares).occupant_iff _ _).mp names.occupant
    have hpage : p = page := Option.some.inj (hp.symm.trans names.page)
    subst hpage
    have hvictim : p.vpn ∈ choice.residents.pageTable.mappedPages :=
      PageTable.mem_mappedPages.mpr
        ⟨victim, p, names.page, Entry.isUnmapped_eq_false_of_frame? hf, rfl⟩
    have hmodify : v ∈ (choice.residents.pageTable.modify victim (·.swapOut offset)).mappedPages ↔
        v ∈ choice.residents.pageTable.mappedPages ∨ v = p.vpn :=
      PageTable.mem_mappedPages_modify names.page rfl
    refine Iff.trans (hmodify.trans ⟨?_, Or.inl⟩) names.spares.swept.samePlaces.mem_mappedPages
    intro hcases
    rcases hcases with hv | hv
    · exact hv
    · exact hv ▸ hvictim

/-- Bringing a page in maps it, if it succeeds. -/
theorem BringsIn.mem_mappedPages (h : m.Consistent) {r : EntryRef} {p : PageEntry}
    (hp : m.pageTable.page? r = some p) (habsent : p.entry.frame? = none)
    {result : Except Failure Nat} (hbrings : m.BringsIn r result m') {v : Nat} :
    v ∈ m'.pageTable.mappedPages ↔
      v ∈ m.pageTable.mappedPages ∨ result.isOk = true ∧ v = p.vpn := by
  have hplaced : ∀ {x : Machine σ} {frame : Nat} {dirty : Bool}, m.Frees x frame →
      (v ∈ (x.pageTable.modify r fun e => (e.place frame).setDirty dirty).mappedPages ↔
        v ∈ m.pageTable.mappedPages ∨ v = p.vpn) := by
    intro x frame dirty hfrees
    rw [PageTable.mem_mappedPages_modify (hfrees.page? h hp habsent) rfl, hfrees.mem_mappedPages h]
  cases hbrings with
  | starved starves => exact starves.mem_mappedPages.trans (by simp [Except.isOk, Except.toBool])
  | unreadable frees _ _ _ =>
    exact (frees.mem_mappedPages h).trans (by simp [Except.isOk, Except.toBool])
  | firstTouch frees _ _ _ _ => exact (hplaced frees).trans (by simp [Except.isOk, Except.toBool])
  | swappedIn frees _ _ _ _ _ => exact (hplaced frees).trans (by simp [Except.isOk, Except.toBool])

/-- A translation that succeeds maps its page, if it was not mapped before. -/
theorem Translates.mem_mappedPages (h : m.Consistent) {a : Address} {kind : AccessKind}
    {result : Except Failure Nat} (ht : m.Translates a kind result m') {v : Nat} :
    v ∈ m'.pageTable.mappedPages ↔
      v ∈ m.pageTable.mappedPages ∨ result.isOk = true ∧ v = a.vpn := by
  have huse : ∀ (x : Machine σ) (frame : Nat),
      v ∈ (x.use (m.refOf a) kind frame).pageTable.mappedPages ↔ v ∈ x.pageTable.mappedPages :=
    fun x frame => PageTable.SamePlaces.mem_mappedPages (.modify fun e => e.residency_touch kind)
  cases ht with
  | outside _ => simp [Except.isOk, Except.toBool]
  | hit _ resident =>
    obtain ⟨p, hp, hf⟩ := resident
    have hmapped : a.vpn ∈ m.pageTable.mappedPages := by
      rw [← h.mem_mappedPages_entering a true, PageTable.mem_mappedPages]
      exact ⟨_, p, hp, Entry.isUnmapped_eq_false_of_frame? hf, h.vpn_refOf hp⟩
    rw [huse, h.mem_mappedPages_entering]
    refine ⟨Or.inl, fun hcases => ?_⟩
    rcases hcases with hv | ⟨-, hv⟩
    · exact hv
    · exact hv ▸ hmapped
  | fault _ page absent brings =>
    rw [huse, brings.mem_mappedPages (h.entering a false) page absent, h.mem_mappedPages_entering,
      h.vpn_refOf page]
    rfl
  | refused _ page absent brings =>
    rw [brings.mem_mappedPages (h.entering a false) page absent, h.mem_mappedPages_entering,
      h.vpn_refOf page]

/-- A request succeeds or fails as its translation does. -/
theorem isOk_eq {result : Except Failure Reply} {placed : Except Failure Nat}
    (h : ∀ failure, result = .error failure ↔ placed = .error failure) :
    result.isOk = placed.isOk := by
  cases result with
  | ok _ =>
    cases placed with
    | ok _ => rfl
    | error failure => exact absurd ((h failure).mpr rfl) (by simp)
  | error failure =>
    rw [(h failure).mp rfl]
    rfl

/-- A request that succeeds maps its page, if it was not mapped before. -/
theorem Serves.mem_mappedPages (h : m.Consistent) {q : Request} {result : Except Failure Reply}
    (hserves : m.Serves q result m') {v : Nat} :
    v ∈ m'.pageTable.mappedPages ↔
      v ∈ m.pageTable.mappedPages ∨ result.isOk = true ∧ v = q.address.vpn := by
  obtain ⟨placed, m₁, memory, mismatches, translates, rfl, hfailure⟩ := hserves.translates
  rw [isOk_eq hfailure]
  exact translates.mem_mappedPages h

end Machine

end DemandPaging
