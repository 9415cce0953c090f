import DemandPaging.Proofs.Machine.FrameQueue
import DemandPaging.Proofs.Machine.SwapRoom
import DemandPaging.Proofs.Machine.WithoutPolicy

/-!
# Frames are filled before anything is evicted

The lowest free frame is taken, and over a memory store no frame comes free again: a victim's frame
goes to the page that asked for it, and a pageout that is refused leaves the victim where it is. So
the frames fill up in their order, one for each page that is mapped, whatever the policy does
(`Fills`). An observer writes down the pages in the order in which they are mapped, each with the
frame it came to (`keepPlacements`).

While the pages are no more than the frames, they are where they were placed, and each request is
for one of them or for a new page that finds a free frame. Both have a place (`HasPlace`), so the
policy is never asked and the store never called (`Roomy`).

> `Fills.serve`, `Roomy.serve`: the steps.
> `frames_fill_first`: the runs.
-/

namespace DemandPaging.Machine

/-- An observer that keeps the pages of a run in the order in which they are mapped, each with the
frame it came to. -/
def keepPlacements {σ : Type} [BackingStore σ] (seen : List (Nat × Nat)) (m : Machine σ)
    (q : Request) : List (Nat × Nat) :=
  if q.address.vpn ∈ m.pageTable.mappedPages then seen
  else seen ++ ((m.serve q).machine.frameOf? q.address).toList.map fun frame =>
    (q.address.vpn, frame)

variable {m m' : Machine SlotStore} {q : Request}

/-! ## No frame comes free -/

/-- A request that is refused by a machine over a memory store moves no page. -/
theorem Serves.vpn?_of_refused (h : m.Consistent) (hs : m.SlotsOwned) {failure : Failure}
    (hserves : m.Serves q (.error failure) m') (frame : Nat) :
    m'.residents.vpn? frame = m.residents.vpn? frame := by
  cases hserves with
  | refused translates =>
    cases translates with
    | outside _ => rfl
    | refused _ _ _ brings =>
      have hentering := h.entering q.address false
      have hstarves := brings.readable hentering (hs.entering h q.address false)
      exact (hstarves.vpn? frame).trans (h.vpn?_spared (.refl _) frame)

/-- The pages that were mapped are those of `seen`, in this order, and frame after frame was filled
with them. -/
structure Fills (frames : Nat) (m : Machine SlotStore) (seen : List (Nat × Nat)) : Prop where
  consistent : m.Consistent
  slotsOwned : m.SlotsOwned
  size : m.frameTable.size = frames
  nodup : (seen.map Prod.fst).Nodup
  mapped : ∀ v, v ∈ m.pageTable.mappedPages ↔ v ∈ seen.map Prod.fst
  placed : ∀ k v frame, seen[k]? = some (v, frame) → k < frames → frame = k
  /-- As long as there are frames for all of them, they are where they were placed. -/
  filling : seen.length ≤ frames → ∀ frame, m.residents.vpn? frame = (seen.map Prod.fst)[frame]?
  /-- From then on every frame is in use. -/
  full : frames ≤ seen.length → ∀ frame < frames, m.residents.vpn? frame ≠ none

variable {frames : Nat} {seen : List (Nat × Nat)}

theorem fills_build (frames slots : Nat) (policy : Policy) :
    Fills frames (build frames policy (SlotStore.empty slots)) [] where
  consistent := consistent_build frames policy _
  slotsOwned := slotsOwned_build frames policy _
  size := FrameTable.size_empty frames
  nodup := List.nodup_nil
  mapped v := by
    rw [PageTable.mem_mappedPages]
    simp [build, PageTable.page?_empty]
  placed k v frame hk := by simp at hk
  filling _ frame := ResidentPages.vpn?_of_free (FrameTable.occupant?_empty frames frame)
  full hle frame hlt := absurd hlt (by simp at hle; omega)

/-- The frames in use are the first ones. -/
theorem Fills.vpn?_ne_none_iff (hm : Fills frames m seen) (frame : Nat) :
    m.residents.vpn? frame ≠ none ↔ frame < min frames seen.length := by
  rcases Nat.le_total seen.length frames with hle | hge
  · rw [hm.filling hle, Nat.min_eq_right hle]
    simp
  · rw [Nat.min_eq_left hge]
    refine ⟨fun hne => ?_, hm.full hge frame⟩
    obtain ⟨v, hv⟩ := Option.ne_none_iff_exists'.mp hne
    exact hm.size ▸ lt_size_of_vpn? hv

/-- The frames in use are the first ones. -/
theorem Fills.lt_of_occupant (hm : Fills frames m seen) {frame : Nat} {r : EntryRef}
    (hocc : m.frameTable.occupant? frame = some r) : frame < min frames seen.length := by
  obtain ⟨v, b, hcell⟩ := hm.consistent.cell?_of_occupant hocc
  rw [← hm.vpn?_ne_none_iff, ResidentPages.vpn?_of_cell? hcell]
  simp

/-- The lowest free frame is the one behind them. -/
theorem Fills.of_free (hm : Fills frames m seen) {frame : Nat}
    (hfree : m.frameTable.firstFree? = some frame) :
    frame = seen.length ∧ seen.length < frames := by
  obtain ⟨hlt, hnone⟩ := FrameTable.firstFree?_eq_some hfree
  have hlt' : frame < frames := hm.size ▸ hlt
  have hge : ¬ frame < min frames seen.length := fun hin =>
    (hm.vpn?_ne_none_iff frame).mpr hin (ResidentPages.vpn?_of_free hnone)
  have hle : ¬ seen.length < frame := by
    intro hin
    obtain ⟨r, hocc⟩ := FrameTable.firstFree?_lowest hfree hin
    have hout := hm.lt_of_occupant hocc
    omega
  omega

/-- When memory is full there have been as many pages as frames. -/
theorem Fills.of_full (hm : Fills frames m seen) (hfull : m.frameTable.firstFree? = none) :
    frames ≤ seen.length := by
  refine Nat.le_of_not_lt fun hlt => ?_
  obtain ⟨r, hocc⟩ := FrameTable.firstFree?_eq_none hfull (hm.size.symm ▸ hlt)
  have hout := hm.lt_of_occupant hocc
  omega

/-- As long as there are frames for all pages, those that are mapped are in memory. -/
theorem Fills.mem_pagesInMemory_iff (hm : Fills frames m seen) (hle : seen.length ≤ frames)
    {v : Nat} : v ∈ m.pagesInMemory ↔ v ∈ m.pageTable.mappedPages := by
  rw [mem_pagesInMemory, hm.mapped, List.mem_iff_getElem?]
  exact exists_congr fun frame => by rw [hm.filling hle]

/-! ## One request -/

/-- A page that comes in for the first time is noted with its frame. -/
theorem keepPlacements_of_new {frame : Nat} (hnew : q.address.vpn ∉ m.pageTable.mappedPages)
    (hframe : (m.serve q).machine.frameOf? q.address = some frame) :
    keepPlacements seen m q = seen ++ [(q.address.vpn, frame)] := by
  rw [keepPlacements, if_neg hnew, hframe]
  rfl

/-- There is nothing to write down if no page is mapped. -/
theorem keepPlacements_of_kept (h' : (m.serve q).machine.Consistent)
    (hmapped : ∀ v, v ∈ (m.serve q).machine.pageTable.mappedPages ↔
      v ∈ m.pageTable.mappedPages) : keepPlacements seen m q = seen := by
  unfold keepPlacements
  split
  next => rfl
  next hnew =>
    have hnone : (m.serve q).machine.frameOf? q.address = none := by
      refine Option.eq_none_iff_forall_ne_some.mpr fun frame hframe => hnew ?_
      have hv := h'.frameOf?_eq_some_iff.mp hframe
      exact (hmapped _).mp (h'.mem_mappedPages (mem_pagesInMemory.mpr ⟨frame, hv⟩))
    rw [hnone]
    simp

/-- No page moves and none is mapped. -/
theorem Fills.unmoved (hm : Fills frames m seen) (h' : m'.Consistent) (hs' : m'.SlotsOwned)
    (hsize : m'.frameTable.size = m.frameTable.size)
    (hvpn : ∀ frame, m'.residents.vpn? frame = m.residents.vpn? frame)
    (hmapped : ∀ v, v ∈ m'.pageTable.mappedPages ↔ v ∈ m.pageTable.mappedPages) :
    Fills frames m' seen where
  consistent := h'
  slotsOwned := hs'
  size := hsize.trans hm.size
  nodup := hm.nodup
  mapped v := (hmapped v).trans (hm.mapped v)
  placed := hm.placed
  filling hle frame := (hvpn frame).trans (hm.filling hle frame)
  full hle frame hlt := by
    rw [hvpn]
    exact hm.full hle frame hlt

/-- A new page is mapped. It comes to the frame behind those in use, as long as there is one. -/
theorem Fills.arrive (hm : Fills frames m seen) (h' : m'.Consistent) (hs' : m'.SlotsOwned)
    (hsize : m'.frameTable.size = m.frameTable.size) {v frame : Nat}
    (hvpn : ∀ g, m'.residents.vpn? g = if g = frame then some v else m.residents.vpn? g)
    (hmapped : ∀ w, w ∈ m'.pageTable.mappedPages ↔ w ∈ m.pageTable.mappedPages ∨ w = v)
    (hnew : v ∉ m.pageTable.mappedPages) (hnext : seen.length < frames → frame = seen.length) :
    Fills frames m' (seen ++ [(v, frame)]) where
  consistent := h'
  slotsOwned := hs'
  size := hsize.trans hm.size
  nodup := by
    rw [List.map_append, List.map_singleton, ← List.concat_eq_append]
    exact hm.nodup.concat fun hv => hnew ((hm.mapped v).mpr hv)
  mapped w := by
    rw [hmapped, hm.mapped]
    simp
  placed k w g hk hlt := by
    rcases Nat.lt_trichotomy k seen.length with hin | rfl | hout
    · rw [List.getElem?_append_left hin] at hk
      exact hm.placed k w g hk hlt
    · rw [List.getElem?_concat_length, Option.some.injEq, Prod.mk.injEq] at hk
      exact hk.2.symm.trans (hnext hlt)
    · rw [List.getElem?_eq_none (by simp; omega)] at hk
      simp at hk
  filling hle g := by
    have hroom : seen.length < frames := by simpa [Nat.succ_le_iff] using hle
    obtain rfl := hnext hroom
    rw [hvpn, hm.filling (Nat.le_of_lt hroom), List.map_append, List.map_singleton]
    rcases Nat.lt_trichotomy g seen.length with hin | rfl | hout
    · rw [if_neg (Nat.ne_of_lt hin), List.getElem?_append_left (by simpa using hin)]
    · simp
    · rw [if_neg (Nat.ne_of_gt hout), List.getElem?_eq_none (by simp; omega),
        List.getElem?_eq_none (by simp; omega)]
  full hle g hlt := by
    rw [hvpn]
    split
    next => simp
    next hne =>
      refine (hm.vpn?_ne_none_iff g).mpr (Nat.lt_min.mpr ⟨hlt, ?_⟩)
      -- only the frame that the page came to was behind those in use
      rw [List.length_append, List.length_singleton] at hle
      omega

/-- A page that was mapped before takes the place of another. -/
theorem Fills.replace (hm : Fills frames m seen) (h' : m'.Consistent) (hs' : m'.SlotsOwned)
    (hsize : m'.frameTable.size = m.frameTable.size) {v frame : Nat}
    (hvpn : ∀ g, m'.residents.vpn? g = if g = frame then some v else m.residents.vpn? g)
    (hmapped : ∀ w, w ∈ m'.pageTable.mappedPages ↔ w ∈ m.pageTable.mappedPages ∨ w = v)
    (hold : v ∈ m.pageTable.mappedPages) (habsent : v ∉ m.pagesInMemory) :
    Fills frames m' seen where
  consistent := h'
  slotsOwned := hs'
  size := hsize.trans hm.size
  nodup := hm.nodup
  mapped w := by
    rw [hmapped, hm.mapped, or_iff_left_of_imp]
    rintro rfl
    exact (hm.mapped w).mp hold
  placed := hm.placed
  filling hle := absurd ((hm.mem_pagesInMemory_iff hle).mpr hold) habsent
  full hle g hlt := by
    rw [hvpn]
    split
    next => simp
    next => exact hm.full hle g hlt

/-- A page that was not in memory is used in a frame: it is new, or it comes back. -/
theorem Fills.brought (hm : Fills frames m seen) (h' : (m.serve q).machine.Consistent)
    (hs' : (m.serve q).machine.SlotsOwned)
    (hsize : (m.serve q).machine.frameTable.size = m.frameTable.size) {frame : Nat}
    (hvpn : ∀ g, (m.serve q).machine.residents.vpn? g
      = if g = frame then some q.address.vpn else m.residents.vpn? g)
    (hmapped : ∀ w, w ∈ (m.serve q).machine.pageTable.mappedPages ↔
      w ∈ m.pageTable.mappedPages ∨ w = q.address.vpn)
    (habsent : q.address.vpn ∉ m.pagesInMemory)
    (hnext : seen.length < frames → frame = seen.length) :
    Fills frames (m.serve q).machine (keepPlacements seen m q) := by
  by_cases hold : q.address.vpn ∈ m.pageTable.mappedPages
  · rw [keepPlacements, if_pos hold]
    exact hm.replace h' hs' hsize hvpn hmapped hold habsent
  · have hframe : (m.serve q).machine.frameOf? q.address = some frame :=
      h'.frameOf?_eq_some_iff.mpr ((hvpn frame).trans (if_pos rfl))
    rw [keepPlacements_of_new hold hframe]
    exact hm.arrive h' hs' hsize hvpn hmapped hold hnext

/-- A new page takes the next frame while there is one; frames once in use stay in use. -/
theorem Fills.serve (hm : Fills frames m seen) (q : Request) :
    Fills frames (m.serve q).machine (keepPlacements seen m q) := by
  have h := hm.consistent
  have hserves := serve_cases h q
  have h' := hserves.consistent h
  have hs' := hserves.slotsOwned h hm.slotsOwned
  have hsize := hserves.size_eq
  cases hresult : (m.serve q).result with
  | error failure =>
    rw [hresult] at hserves
    have hvpn := hserves.vpn?_of_refused h hm.slotsOwned
    have hmapped : ∀ v, v ∈ (m.serve q).machine.pageTable.mappedPages ↔
        v ∈ m.pageTable.mappedPages := by
      intro v
      rw [hserves.mem_mappedPages h]
      simp [Except.isOk, Except.toBool]
    rw [keepPlacements_of_kept h' hmapped]
    exact hm.unmoved h' hs' hsize hvpn hmapped
  | ok reply =>
    have hmapped : ∀ v, v ∈ (m.serve q).machine.pageTable.mappedPages ↔
        v ∈ m.pageTable.mappedPages ∨ v = q.address.vpn := by
      intro v
      rw [hserves.mem_mappedPages h, hresult]
      simp [Except.isOk, Except.toBool]
    cases serve_uses h hresult with
    | @hit frame found used _ _ =>
      have hold : q.address.vpn ∈ m.pageTable.mappedPages :=
        h.mem_mappedPages (mem_pagesInMemory.mpr ⟨frame, found⟩)
      have hmapped' : ∀ v, v ∈ (m.serve q).machine.pageTable.mappedPages ↔
          v ∈ m.pageTable.mappedPages := by
        intro v
        rw [hmapped, or_iff_left_of_imp]
        rintro rfl
        exact hold
      rw [keepPlacements_of_kept h' hmapped']
      refine hm.unmoved h' hs' hsize (fun g => ?_) hmapped'
      rw [used.vpn?]
      split
      next hg => rw [hg, found]
      next => rfl
    | @filled frame absent free used _ _ =>
      exact hm.brought h' hs' hsize used.vpn? hmapped absent fun _ => (hm.of_free free).1
    | @replaced frame choice absent full chosen spares named used _ _ =>
      have hvpn : ∀ g, (m.serve q).machine.residents.vpn? g
          = if g = frame then some q.address.vpn else m.residents.vpn? g := fun g => by
        rw [used.vpn?, h.vpn?_spared spares]
      exact hm.brought h' hs' hsize hvpn hmapped absent fun hlt =>
        absurd (hm.of_full full) (Nat.not_le.mpr hlt)

/-- Over any run the frames fill up in their order. -/
theorem fills_serveAll (frames slots : Nat) (policy : Policy) (qs : List Request) :
    Fills frames ((build frames policy (SlotStore.empty slots)).serveAll qs)
      ((build frames policy (SlotStore.empty slots)).watch keepPlacements [] qs) :=
  watch_induction (P := Fills frames) (fun _ _ q hm => hm.serve q) qs
    (fills_build frames slots policy)

/-- As many frames are in use as there are pages, up to all frames. -/
theorem Fills.inUse_eq (hm : Fills frames m seen) :
    m.frameTable.inUse = min frames m.pageTable.mappedPages.length := by
  have hlength : m.pageTable.mappedPages.length = seen.length := by
    have hperm := (List.perm_ext_iff_of_nodup hm.consistent.rooted.nodup_mappedPages
      hm.nodup).mpr hm.mapped
    rw [hperm.length_eq, List.length_map]
  have hbeyond : ∀ f, min frames seen.length ≤ f → f < frames → m.residents.vpn? f = none := by
    intro f hge _
    by_contra hne
    exact Nat.not_lt.mpr hge ((hm.vpn?_ne_none_iff f).mp hne)
  rw [hm.consistent.inUse_eq_length_pagesInMemory, hlength]
  unfold pagesInMemory
  rw [hm.size, filterMap_range_of_none (Nat.min_le_left _ _) hbeyond,
    List.length_filterMap_eq_countP, List.countP_eq_length.mpr, List.length_range]
  intro f hf
  exact Option.isSome_iff_ne_none.mpr ((hm.vpn?_ne_none_iff f).mpr (List.mem_range.mp hf))

/-! ## With a frame for every page -/

/-- An address that is not simulated asks for no page. -/
theorem pagesTouched_concat_of_outside (past : List Request) (hout : q.address.inFrame = false) :
    pagesTouched (past ++ [q]) = pagesTouched past := by
  unfold pagesTouched
  rw [List.filter_append, List.filter_cons_of_neg (by simp [hout]), List.filter_nil,
    List.append_nil]

/-- An address that is simulated asks for its page, which may have been asked for before. -/
theorem pagesTouched_concat {past : List Request} (hin : q.address.inFrame = true) :
    pagesTouched (past ++ [q]) = if q.address.vpn ∈ pagesTouched past then pagesTouched past
      else pagesTouched past ++ [q.address.vpn] := by
  unfold pagesTouched
  have hone : [q].filter (·.address.inFrame) = [q] := List.filter_cons_of_pos hin
  rw [List.filter_append, hone, List.map_append, List.map_singleton]
  split
  next hv => exact eraseDups_concat_of_mem (List.mem_eraseDups.mp hv)
  next hv => exact eraseDups_concat_of_not_mem (mt List.mem_eraseDups.mpr hv)

/-- The pages that were touched keep their places in the order. -/
theorem pagesTouched_isPrefix {past qs : List Request} (h : past <+: qs) :
    pagesTouched past <+: pagesTouched qs :=
  eraseDups_isPrefix ((h.filter _).map _)

/-- If there are frames for the pages of a run, there are for those of its beginning. -/
theorem room_of_concat {past : List Request}
    (h : (pagesTouched (past ++ [q])).length ≤ frames) : (pagesTouched past).length ≤ frames :=
  Nat.le_trans (pagesTouched_isPrefix (List.prefix_append past [q])).length_le h

/-- There was a frame for every page that was touched. -/
structure Roomy (frames slots : Nat) (past : List Request) (m : Machine SlotStore)
    (seen : List (Nat × Nat)) : Prop where
  fills : Fills frames m seen
  touched : seen.map Prod.fst = pagesTouched past
  swap : m.swap = SlotStore.empty slots
  misses : m.counters.misses = (pagesTouched past).length
  evictions : m.counters.evictions = 0

variable {slots : Nat} {past : List Request}

theorem roomy_build (frames slots : Nat) (policy : Policy) :
    Roomy frames slots [] (build frames policy (SlotStore.empty slots)) [] where
  fills := fills_build frames slots policy
  touched := rfl
  swap := rfl
  misses := rfl
  evictions := rfl

/-- As many pages were placed as were asked for. -/
theorem Roomy.length_eq (hm : Roomy frames slots past m seen) :
    seen.length = (pagesTouched past).length := by
  rw [← hm.touched, List.length_map]

/-- The pages that are in memory are those that were touched. -/
theorem Roomy.mem_pagesInMemory_iff (hm : Roomy frames slots past m seen)
    (hle : (pagesTouched past).length ≤ frames) {v : Nat} :
    v ∈ m.pagesInMemory ↔ v ∈ pagesTouched past := by
  rw [hm.fills.mem_pagesInMemory_iff (hm.length_eq ▸ hle), hm.fills.mapped, hm.touched]

/-- A page is in the frame of its place among the pages that were asked for. -/
theorem Roomy.frameOf?_eq_some_iff (hm : Roomy frames slots past m seen)
    (hle : (pagesTouched past).length ≤ frames) {a : Address} {frame : Nat} :
    m.frameOf? a = some frame ↔ (pagesTouched past)[frame]? = some a.vpn := by
  rw [hm.fills.consistent.frameOf?_eq_some_iff, hm.fills.filling (hm.length_eq ▸ hle), hm.touched]

/-- A new page leaves a frame for itself. -/
theorem Roomy.free_of_new (hm : Roomy frames slots past m seen)
    (hle : (pagesTouched (past ++ [q])).length ≤ frames) (hin : q.address.inFrame = true)
    (hnew : q.address.vpn ∉ pagesTouched past) :
    ∃ frame, m.frameTable.firstFree? = some frame := by
  cases hfree : m.frameTable.firstFree? with
  | some frame => exact ⟨frame, rfl⟩
  | none =>
    have hfull := hm.fills.of_full hfree
    rw [pagesTouched_concat hin, if_neg hnew, List.length_append, ← hm.length_eq,
      List.length_singleton] at hle
    omega

/-- There is a place for the next page. -/
theorem Roomy.hasPlace (hm : Roomy frames slots past m seen)
    (hle : (pagesTouched (past ++ [q])).length ≤ frames) (hin : q.address.inFrame = true) :
    m.HasPlace q.address := by
  have hpast := room_of_concat hle
  by_cases hv : q.address.vpn ∈ pagesTouched past
  · obtain ⟨frame, hframe⟩ := mem_pagesInMemory.mp ((hm.mem_pagesInMemory_iff hpast).mpr hv)
    exact .resident (hm.fills.consistent.frameOf?_eq_some_iff.mpr hframe)
  · obtain ⟨frame, hfree⟩ := hm.free_of_new hle hin hv
    refine .fresh hfree ?_
    rw [hm.fills.mapped, hm.touched]
    exact hv

/-- While there are frames for all pages, none is ever moved. -/
theorem Roomy.serve (hm : Roomy frames slots past m seen) (q : Request)
    (hle : (pagesTouched (past ++ [q])).length ≤ frames) :
    Roomy frames slots (past ++ [q]) (m.serve q).machine (keepPlacements seen m q) := by
  have h := hm.fills.consistent
  have h' := h.serve q
  have hfills := hm.fills.serve q
  have hpast := room_of_concat hle
  cases hin : q.address.inFrame with
  | false =>
    have hsame : (m.serve q).machine = m := by rw [serve_outside m hin]
    have hkept : keepPlacements seen m q = seen :=
      keepPlacements_of_kept h' fun v => by rw [hsame]
    have hpages := pagesTouched_concat_of_outside past hin
    rw [hkept, hsame]
    exact ⟨hm.fills, hm.touched.trans hpages.symm, hm.swap, hpages ▸ hm.misses, hm.evictions⟩
  | true =>
    obtain ⟨⟨reply, hok⟩, hswap⟩ := (hm.hasPlace hle hin).served h hin
    have hcount := (serve_cases h q).evictions_eq h
    rw [hm.evictions, Nat.zero_add] at hcount
    cases serve_uses h hok with
    | @hit frame found used _ misses =>
      have hinMemory := mem_pagesInMemory.mpr ⟨frame, found⟩
      have hv := (hm.mem_pagesInMemory_iff hpast).mp hinMemory
      have hkept : keepPlacements seen m q = seen := if_pos (h.mem_mappedPages hinMemory)
      rw [hkept] at hfills ⊢
      refine ⟨hfills, ?_, hswap.trans hm.swap, ?_, ?_⟩
      · rw [pagesTouched_concat hin, if_pos hv, hm.touched]
      · rw [pagesTouched_concat hin, if_pos hv, misses, hm.misses]
      · rw [hcount, used.evicted_hit found, List.length_nil]
    | @filled frame absent free used _ misses =>
      have hv := mt (hm.mem_pagesInMemory_iff hpast).mpr absent
      have hnew : q.address.vpn ∉ m.pageTable.mappedPages := by
        rw [hm.fills.mapped, hm.touched]
        exact hv
      have hframe := h'.frameOf?_eq_some_iff.mpr ((used.vpn? frame).trans (if_pos rfl))
      have hnone : m.residents.vpn? frame = none :=
        ResidentPages.vpn?_of_free (FrameTable.firstFree?_eq_some free).2
      refine ⟨hfills, ?_, hswap.trans hm.swap, ?_, ?_⟩
      · rw [keepPlacements_of_new hnew hframe, pagesTouched_concat hin, if_neg hv,
          List.map_append, List.map_singleton, hm.touched]
      · rw [pagesTouched_concat hin, if_neg hv, misses, hm.misses, List.length_append,
          List.length_singleton]
      · rw [hcount, used.evicted_miss h (fun _ => rfl) absent, hnone]
        rfl
    | replaced absent full _ _ _ _ _ _ =>
      have hv := mt (hm.mem_pagesInMemory_iff hpast).mpr absent
      obtain ⟨frame, hfree⟩ := hm.free_of_new hle hin hv
      rw [full] at hfree
      simp at hfree

/-- Over a run that asks for no more pages than there are frames, every page keeps its place. -/
theorem roomy_serveAll (frames slots : Nat) (policy : Policy) (qs : List Request)
    (hle : (pagesTouched qs).length ≤ frames) :
    Roomy frames slots qs ((build frames policy (SlotStore.empty slots)).serveAll qs)
      ((build frames policy (SlotStore.empty slots)).watch keepPlacements [] qs) :=
  history_induction
    (P := fun past m seen => (pagesTouched past).length ≤ frames → Roomy frames slots past m seen)
    (fun _ _ _ q hm hle => (hm (room_of_concat hle)).serve q hle) qs
    (fun _ => roomy_build frames slots policy) hle

/-- As long as there is a frame for every page, machines with different policies stay the same but
for the policies. -/
theorem sameButPolicy_serveAll (frames slots : Nat) (policy policy' : Policy) (qs : List Request)
    (hle : (pagesTouched qs).length ≤ frames) :
    ((build frames policy (SlotStore.empty slots)).serveAll qs).SameButPolicy
      ((build frames policy' (SlotStore.empty slots)).serveAll qs) := by
  induction qs using List.reverseRecOn with
  | nil => exact ⟨rfl, rfl, rfl, rfl, rfl⟩
  | append_singleton past q ih =>
    have hroomy := roomy_serveAll frames slots policy past (room_of_concat hle)
    have hplace := hroomy.hasPlace hle
    rw [serveAll_concat, serveAll_concat]
    exact (HasPlace.serve hroomy.fills.consistent hplace (ih (room_of_concat hle))).machine

/-- Frames are filled in their order, one for each page that is mapped, and none comes free. So a
run that touches no more pages than there are frames evicts nothing: every request within the frame
is served, the store is not called, pages stay where they are, and it is the same whatever the
policy. -/
theorem frames_fill_first (frames slots : Nat) (algorithm : Algorithm) (seed : UInt64)
    (qs : List Request) :
    let m₀ := build frames (.ofAlgorithm algorithm seed) (SlotStore.empty slots)
    let m := m₀.serveAll qs
    let placements := m₀.watch keepPlacements [] qs
    m.frameTable.inUse = min frames m.pageTable.mappedPages.length ∧
      m.pageTable.mappedPages.Nodup ∧ (placements.map Prod.fst).Nodup ∧
      (∀ v, v ∈ m.pageTable.mappedPages ↔ v ∈ placements.map Prod.fst) ∧
      (∀ k v frame, placements[k]? = some (v, frame) → k < frames → frame = k) ∧
      ((pagesTouched qs).length ≤ frames →
        m.counters.evictions = 0 ∧ m.counters.misses = (pagesTouched qs).length ∧
          (∀ past, past <+: qs →
            let mid := m₀.serveAll past
            mid.swap = SlotStore.empty slots ∧
              (∀ a frame, mid.frameOf? a = some frame → m.frameOf? a = some frame) ∧
              ∀ algorithm' seed', mid.SameButPolicy
                ((build frames (.ofAlgorithm algorithm' seed') (SlotStore.empty slots)).serveAll
                  past)) ∧
          ∀ past q, past ++ [q] <+: qs →
            let mid := m₀.serveAll past
            (q.address.inFrame = true → ∃ reply, (mid.serve q).result = .ok reply) ∧
              ∀ algorithm' seed', (mid.serve q).SameButPolicy
                (((build frames (.ofAlgorithm algorithm' seed') (SlotStore.empty slots)).serveAll
                  past).serve q)) := by
  intro m₀ m placements
  have hm : Fills frames m placements := fills_serveAll frames slots _ qs
  refine ⟨hm.inUse_eq, hm.consistent.rooted.nodup_mappedPages, hm.nodup, hm.mapped, hm.placed, ?_⟩
  intro hle
  have hroomy := roomy_serveAll frames slots (.ofAlgorithm algorithm seed) qs hle
  have hpart : ∀ past, past <+: qs → (pagesTouched past).length ≤ frames := fun past hpast =>
    Nat.le_trans (pagesTouched_isPrefix hpast).length_le hle
  refine ⟨hroomy.evictions, hroomy.misses, fun past hpast => ?_, fun past q hpast => ?_⟩
  · have hle' := hpart past hpast
    have hmid := roomy_serveAll frames slots (.ofAlgorithm algorithm seed) past hle'
    refine ⟨hmid.swap, fun a frame hframe => ?_, fun algorithm' seed' => ?_⟩
    · rw [hmid.frameOf?_eq_some_iff hle'] at hframe
      rw [hroomy.frameOf?_eq_some_iff hle]
      obtain ⟨later, hlater⟩ := pagesTouched_isPrefix hpast
      have hlt := (List.getElem?_eq_some_iff.mp hframe).1
      rw [← hlater, List.getElem?_append_left hlt, hframe]
    · exact sameButPolicy_serveAll frames slots _ _ past hle'
  · have hle' := hpart _ hpast
    have hmid := roomy_serveAll frames slots (.ofAlgorithm algorithm seed) past
      (room_of_concat hle')
    have h := hmid.fills.consistent
    have hplace := hmid.hasPlace hle'
    refine ⟨fun hin => ((hplace hin).served h hin).1, fun algorithm' seed' => ?_⟩
    exact HasPlace.serve h hplace
      (sameButPolicy_serveAll frames slots _ _ past (room_of_concat hle'))

/-- Three pages in three frames, the first of them used twice. -/
theorem frames_fill_first_of_three :
    let qs : List Request := [.access ⟨1, .store, ⟨0x1000⟩, 7⟩, .access ⟨2, .load, ⟨0x2000⟩, 0⟩,
      .translate ⟨0x1008⟩ .load, .access ⟨3, .modify, ⟨0x3000⟩, 9⟩]
    let m₀ := build 3 (.ofAlgorithm .clock 0) (SlotStore.empty 1)
    let m := m₀.serveAll qs
    let placements := m₀.watch keepPlacements [] qs
    pagesTouched qs = [1, 2, 3] ∧ m.frameTable.inUse = 3 ∧
      placements.map Prod.fst = [1, 2, 3] ∧ placements[2]? = some (3, 2) ∧
      m.counters.evictions = 0 ∧ m.counters.misses = 3 ∧ m.swap = SlotStore.empty 1 ∧
      (∀ past q, past ++ [q] = qs → ∃ reply, ((m₀.serveAll past).serve q).result = .ok reply) ∧
      m.SameButPolicy ((build 3 (.ofAlgorithm .lru 5) (SlotStore.empty 1)).serveAll qs) := by
  intro qs m₀ m placements
  have hpages : pagesTouched qs = [1, 2, 3] := by decide +kernel
  have hframe : ∀ q ∈ qs, q.address.inFrame = true := by decide +kernel
  have hbuild : build 3 (.ofAlgorithm .clock 0) (SlotStore.empty 1) = m₀ := rfl
  -- nothing but this is needed of the requests and the machine
  clear_value qs m₀
  have hlength : (pagesTouched qs).length = 3 := congrArg List.length hpages
  have hroomy := roomy_serveAll 3 1 (.ofAlgorithm .clock 0) qs (Nat.le_of_eq hlength)
  rw [hbuild] at hroomy
  have hall := frames_fill_first 3 1 .clock 0 qs
  simp only [hbuild] at hall
  obtain ⟨hused, hnodup, hnodup', hmapped, hat, hfits⟩ := hall
  obtain ⟨hevictions, hmisses, hsame, hserved⟩ := hfits (Nat.le_of_eq hlength)
  obtain ⟨hswap, -, hpolicies⟩ := hsame qs (List.prefix_refl qs)
  have hplaced : placements.map Prod.fst = [1, 2, 3] := hroomy.touched.trans hpages
  have hmappedLength : m.pageTable.mappedPages.length = 3 := by
    rw [((List.perm_ext_iff_of_nodup hnodup hnodup').mpr hmapped).length_eq, hplaced]
    rfl
  have hthird : (placements.map Prod.fst)[2]? = some 3 := by
    rw [hplaced]
    rfl
  rw [List.getElem?_map, Option.map_eq_some_iff] at hthird
  obtain ⟨⟨v, frame⟩, hget, hv⟩ := hthird
  obtain rfl : v = 3 := hv
  obtain rfl : frame = 2 := hat 2 3 frame hget (by decide)
  rw [hmappedLength] at hused
  rw [hlength] at hmisses
  refine ⟨hpages, hused, hplaced, hget, hevictions, hmisses, hswap, ?_, hpolicies .lru 5⟩
  rintro past q rfl
  exact (hserved past q (List.prefix_refl _)).1 (hframe q (by simp))

end DemandPaging.Machine
