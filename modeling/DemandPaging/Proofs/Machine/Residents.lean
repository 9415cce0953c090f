import DemandPaging.Proofs.Machine.Requests

/-!
# The pages in memory

What the frames hold, seen by page numbers: `ResidentPages.page?` is the page in a frame, and
`pagesInMemory` lists the numbers of all of them. A call evicts the pages that are in memory
before it and not after it (`evicted`), and an observer can keep the list of all evictions of a
run (`keepEvictions`).

Each move of paging changes what one frame holds at most, and a policy's choice changes nothing
but marks. So every stage is described here frame by frame, and

> `BringsIn.evicted_eq`: a page that is brought in takes the place of the page that was in its
> frame, if there was one, and that one alone is evicted.
-/

namespace DemandPaging

namespace ResidentPages

/-- The page in a frame. -/
def page? (r : ResidentPages) (frame : Nat) : Option PageEntry :=
  (r.frames.occupant? frame).bind r.pageTable.page?

/-- The number of the page in a frame. -/
def vpn? (r : ResidentPages) (frame : Nat) : Option Nat := (r.page? frame).map (·.vpn)

theorem page?_eq_some {r : ResidentPages} {frame : Nat} {p : PageEntry} :
    r.page? frame = some p ↔
      ∃ ref, r.frames.occupant? frame = some ref ∧ r.pageTable.page? ref = some p :=
  Option.bind_eq_some_iff

/-- The page in a frame is that of the occupant. -/
theorem page?_of_occupant {r : ResidentPages} {frame : Nat} {ref : EntryRef}
    (h : r.frames.occupant? frame = some ref) : r.page? frame = r.pageTable.page? ref := by
  unfold page?
  rw [h, Option.bind_some]

theorem page?_of_free {r : ResidentPages} {frame : Nat}
    (h : r.frames.occupant? frame = none) : r.page? frame = none := by
  unfold page?
  rw [h, Option.bind_none]

/-- A free frame has no page. -/
theorem vpn?_of_free {r : ResidentPages} {frame : Nat}
    (h : r.frames.occupant? frame = none) : r.vpn? frame = none := by
  unfold vpn?
  rw [page?_of_free h, Option.map_none]

theorem vpn?_eq_some {r : ResidentPages} {frame v : Nat} :
    r.vpn? frame = some v ↔ ∃ p, r.page? frame = some p ∧ p.vpn = v :=
  Option.map_eq_some_iff

/-- Changing an entry changes nothing in the frames that hold other pages. -/
theorem page?_modify_of_ne {r : ResidentPages} {ref : EntryRef} {frame : Nat}
    (h : r.frames.occupant? frame ≠ some ref) (f : Entry → Entry) :
    (r.frames.occupant? frame).bind (r.pageTable.modify ref f).page? = r.page? frame := by
  cases hocc : r.frames.occupant? frame with
  | none => exact (page?_of_free hocc).symm
  | some s =>
    have hne : s ≠ ref := fun heq => h (heq ▸ hocc)
    rw [Option.bind_some, PageTable.page?_modify_of_ne hne]
    exact (page?_of_occupant hocc).symm

/-- Losing marks, pages keep their numbers. -/
theorem Spares.vpn?_eq {r r' : ResidentPages} (hspares : r.Spares r') (frame : Nat) :
    r'.vpn? frame = r.vpn? frame := by
  unfold vpn? page?
  rw [hspares.frames]
  cases r.frames.occupant? frame with
  | none => rfl
  | some ref =>
    rw [Option.bind_some, Option.bind_some]
    rcases hspares.swept.page?_eq ref with heq | heq
    · rw [heq]
    · rw [heq, Option.map_map]
      rfl

end ResidentPages

namespace Machine

variable {σ : Type} {m m' m₀ : Machine σ}

/-! ## What each move does to the frames -/

theorem residents_choosing {choice : Policy.Choice} (h : m.residents.Spares choice.residents) :
    (m.choosing choice).residents = choice.residents := by
  obtain ⟨victim, policy, frames, pageTable⟩ := choice
  have hframes : frames = m.frameTable := h.frames
  subst hframes
  rfl

/-- A page in a frame is behind the entry that says so. -/
theorem Consistent.page?_residents (h : m.Consistent) {frame : Nat} {p : PageEntry} :
    m.residents.page? frame = some p ↔
      ∃ r, m.pageTable.page? r = some p ∧ p.entry.frame? = some frame := by
  rw [ResidentPages.page?_eq_some]
  refine ⟨?_, ?_⟩
  · intro hex
    obtain ⟨r, hocc, hp⟩ := hex
    obtain ⟨q, hq, hf⟩ := (h.occupant_iff frame r).mp hocc
    have heq : p = q := Option.some.inj (hp.symm.trans hq)
    exact ⟨r, hp, heq ▸ hf⟩
  · intro hex
    obtain ⟨r, hp, hf⟩ := hex
    exact ⟨r, (h.occupant_iff frame r).mpr ⟨p, hp, hf⟩, hp⟩

/-- A page is in one frame at most. -/
theorem Consistent.frame_eq_of_occupant? (h : m.Consistent) {f g : Nat} {r : EntryRef}
    (hf : m.frameTable.occupant? f = some r) (hg : m.frameTable.occupant? g = some r) : f = g :=
  ((h.occupant_iff f r).mp hf).unique ((h.occupant_iff g r).mp hg)

/-- No page is in two frames. -/
theorem Consistent.frame_eq_of_vpn? (h : m.Consistent) {f g v : Nat}
    (hf : m.residents.vpn? f = some v) (hg : m.residents.vpn? g = some v) : f = g := by
  obtain ⟨p, hp, hpv⟩ := ResidentPages.vpn?_eq_some.mp hf
  obtain ⟨q, hq, hqv⟩ := ResidentPages.vpn?_eq_some.mp hg
  obtain ⟨r, hr, hpf⟩ := h.page?_residents.mp hp
  obtain ⟨s, hs, hqf⟩ := h.page?_residents.mp hq
  have hrs : r = s := h.rooted.ref_eq_of_vpn_eq hr hs (hpv.trans hqv.symm)
  subst hrs
  exact PageTable.Resident.unique ⟨p, hr, hpf⟩ ⟨q, hs, hqf⟩

/-- The entry that a walk leads to is that of its address's page. -/
theorem Consistent.vpn_refOf (h : m.Consistent) {a : Address} {hit : Bool} {p : PageEntry}
    (hp : (m.entering a hit).pageTable.page? (m.refOf a) = some p) : p.vpn = a.vpn := by
  obtain ⟨q, hq, hqv⟩ := h.rooted.walk_page? a
  have heq : p = q := Option.some.inj (hp.symm.trans hq)
  exact heq ▸ hqv

/-- Walking moves no page. -/
theorem Consistent.page?_entering (h : m.Consistent) (a : Address) (hit : Bool) (frame : Nat) :
    (m.entering a hit).residents.page? frame = m.residents.page? frame := by
  cases hocc : m.frameTable.occupant? frame with
  | none =>
    have hfree : (m.entering a hit).residents.frames.occupant? frame = none := hocc
    rw [ResidentPages.page?_of_free hfree]
    exact (ResidentPages.page?_of_free hocc).symm
  | some r =>
    obtain ⟨p, hp⟩ := h.grounded frame r hocc
    have hocc' : (m.entering a hit).residents.frames.occupant? frame = some r := hocc
    rw [ResidentPages.page?_of_occupant hocc']
    refine ((h.rooted.extends_walk a).kept r p hp).trans ?_
    exact ((ResidentPages.page?_of_occupant hocc).trans hp).symm

/-- The frame of an address is the one that holds its page. -/
theorem Consistent.frameOf?_eq_some_iff (h : m.Consistent) {a : Address} {frame : Nat} :
    m.frameOf? a = some frame ↔ m.residents.vpn? frame = some a.vpn := by
  rw [h.frameOf?_eq_some false, ResidentPages.vpn?_eq_some, ← h.page?_entering a false]
  refine ⟨?_, ?_⟩
  · intro hresident
    obtain ⟨p, hp, hf⟩ := hresident
    exact ⟨p, (h.entering a false).page?_residents.mpr ⟨_, hp, hf⟩, h.vpn_refOf hp⟩
  · intro hex
    obtain ⟨p, hp, hv⟩ := hex
    obtain ⟨r, hr, hf⟩ := (h.entering a false).page?_residents.mp hp
    obtain ⟨q, hq, hqv⟩ := h.rooted.walk_page? a
    have href : r = m.refOf a := (h.rooted.walk a).ref_eq_of_vpn_eq hr hq (hv.trans hqv.symm)
    exact href ▸ ⟨p, hr, hf⟩

/-- Walking and choosing, a machine moves no page. -/
theorem Consistent.vpn?_spared (h : m.Consistent) {a : Address} {hit : Bool} {r : ResidentPages}
    (hspares : (m.entering a hit).residents.Spares r) (frame : Nat) :
    r.vpn? frame = m.residents.vpn? frame :=
  (hspares.vpn?_eq frame).trans (congrArg _ (h.page?_entering a hit frame))

/-- A victim leaves its frame, and the others stay. -/
theorem Consistent.page?_vacating (h : m.Consistent) {frame : Nat} {victim : EntryRef}
    (hocc : m.frameTable.occupant? frame = some victim) {frameTable : FrameTable}
    (hreleased : m.frameTable.release? frame = some frameTable) (dirty : Bool)
    (offset : SwapOffset) (swap : σ) (g : Nat) :
    (m.vacating victim dirty offset swap frameTable).residents.page? g
      = if g = frame then none else m.residents.page? g := by
  obtain ⟨-, -, hocc'⟩ := FrameTable.release?_spec hreleased
  show (frameTable.occupant? g).bind (m.pageTable.modify victim _).page? = _
  rw [hocc']
  split
  next => rfl
  next hg =>
    -- the victim was in no other frame
    refine ResidentPages.page?_modify_of_ne (r := m.residents) (fun hvictim => hg ?_) _
    exact h.frame_eq_of_occupant? hvictim hocc

/-- A page that was in no frame enters its frame, and the others stay. -/
theorem Consistent.page?_placing (h : m.Consistent) {r : EntryRef} {p : PageEntry}
    (hp : m.pageTable.page? r = some p) (habsent : p.entry.frame? = none) {frame : Nat}
    {frameTable : FrameTable} (hclaimed : m.frameTable.claim? frame r = some frameTable)
    (memory : Memory) (dirty : Bool) (swap : σ) (g : Nat) :
    (m.placing r frame dirty swap frameTable memory).residents.page? g
      = if g = frame then some (p.update fun e => (e.place frame).setDirty dirty)
        else m.residents.page? g := by
  obtain ⟨-, -, -, hocc⟩ := FrameTable.claim?_spec hclaimed
  show (frameTable.occupant? g).bind (m.pageTable.modify r _).page? = _
  rw [hocc]
  split
  next => rw [Option.bind_some, PageTable.page?_modify_self, hp, Option.map_some]
  next hg =>
    refine ResidentPages.page?_modify_of_ne (r := m.residents) (fun hr => ?_) _
    exact PageTable.not_resident_of_frame?_eq_none hp habsent ((h.occupant_iff g r).mp hr)

/-- The page that is used is touched, and the others stay as they are. -/
theorem Consistent.page?_use (h : m.Consistent) {r : EntryRef} {frame : Nat}
    (hocc : m.frameTable.occupant? frame = some r) (kind : AccessKind) (g : Nat) :
    (m.use r kind frame).residents.page? g
      = if g = frame then (m.residents.page? g).map (·.update (·.touch kind))
        else m.residents.page? g := by
  show (m.frameTable.occupant? g).bind (m.pageTable.modify r _).page? = _
  split
  next hg =>
    subst hg
    have hpage : m.residents.page? g = m.pageTable.page? r :=
      ResidentPages.page?_of_occupant (r := m.residents) hocc
    rw [hocc, Option.bind_some, PageTable.page?_modify_self, hpage]
  next hg =>
    refine ResidentPages.page?_modify_of_ne (r := m.residents) (fun hr => hg ?_) _
    exact h.frame_eq_of_occupant? hr hocc

/-! ## The pages in memory and those that leave it -/

/-- The numbers of the pages in memory, in the order of their frames. -/
def pagesInMemory (m : Machine σ) : List Nat :=
  (List.range m.frameTable.size).filterMap m.residents.vpn?

/-- The pages that are in memory in `m` and not in `m'`. -/
def evicted (m m' : Machine σ) : List Nat := m.pagesInMemory.filter (· ∉ m'.pagesInMemory)

/-- An observer that keeps the evictions of a run, in their order. -/
def keepEvictions [BackingStore σ] (seen : List Nat) (m : Machine σ) (q : Request) : List Nat :=
  seen ++ m.evicted (m.serve q).machine

/-- A page is in a frame that exists. -/
theorem lt_size_of_vpn? {v frame : Nat} (h : m.residents.vpn? frame = some v) :
    frame < m.frameTable.size := by
  obtain ⟨p, hp, -⟩ := ResidentPages.vpn?_eq_some.mp h
  obtain ⟨ref, hocc, -⟩ := ResidentPages.page?_eq_some.mp hp
  exact FrameTable.lt_size_of_occupant? hocc

/-- A page is in memory if it is in some frame. -/
theorem mem_pagesInMemory {v : Nat} :
    v ∈ m.pagesInMemory ↔ ∃ frame, m.residents.vpn? frame = some v := by
  unfold pagesInMemory
  rw [List.mem_filterMap]
  refine ⟨?_, ?_⟩
  · intro hex
    obtain ⟨frame, -, hv⟩ := hex
    exact ⟨frame, hv⟩
  · intro hex
    obtain ⟨frame, hv⟩ := hex
    exact ⟨frame, List.mem_range.mpr (lt_size_of_vpn? hv), hv⟩

/-- The page of an address is in memory exactly if the address has a frame. -/
theorem Consistent.isSome_frameOf?_iff (h : m.Consistent) {a : Address} :
    (m.frameOf? a).isSome ↔ a.vpn ∈ m.pagesInMemory := by
  rw [Option.isSome_iff_exists, mem_pagesInMemory]
  exact exists_congr fun frame => h.frameOf?_eq_some_iff

/-- A page is evicted if it was in memory and is not. -/
theorem mem_evicted {v : Nat} : v ∈ m.evicted m' ↔ v ∈ m.pagesInMemory ∧ v ∉ m'.pagesInMemory := by
  unfold evicted
  rw [List.mem_filter, decide_eq_true_iff]

/-- No page is in memory twice. -/
theorem Consistent.nodup_pagesInMemory (h : m.Consistent) : m.pagesInMemory.Nodup := by
  unfold pagesInMemory
  rw [List.nodup_iff_pairwise_ne, List.pairwise_filterMap]
  refine List.nodup_range.imp ?_
  intro f g hfg v hv w hw heq
  subst heq
  exact hfg (h.frame_eq_of_vpn? hv hw)

/-- What is in memory is told by the frames. -/
theorem pagesInMemory_congr (hsize : m'.frameTable.size = m.frameTable.size)
    (hvpn : ∀ frame, m'.residents.vpn? frame = m.residents.vpn? frame) :
    m'.pagesInMemory = m.pagesInMemory := by
  unfold pagesInMemory
  rw [hsize, funext hvpn]

/-- Entering a page into the table brings none into memory. -/
theorem Consistent.pagesInMemory_entering (h : m.Consistent) (a : Address) (hit : Bool) :
    (m.entering a hit).pagesInMemory = m.pagesInMemory :=
  pagesInMemory_congr rfl fun frame => congrArg _ (h.page?_entering a hit frame)

/-- Using a page brings none into memory and drives none out. -/
theorem Consistent.pagesInMemory_use (h : m.Consistent) {r : EntryRef} {frame : Nat}
    (hocc : m.frameTable.occupant? frame = some r) (kind : AccessKind) :
    (m.use r kind frame).pagesInMemory = m.pagesInMemory := by
  refine pagesInMemory_congr rfl fun g => ?_
  unfold ResidentPages.vpn?
  rw [h.page?_use hocc]
  split
  next =>
    rw [Option.map_map]
    rfl
  next => rfl

/-- A page that is entered into the table changes nothing of what is evicted later. -/
theorem Consistent.evicted_entering (h : m.Consistent) (a : Address) (hit : Bool) :
    (m.entering a hit).evicted m' = m.evicted m' := by
  unfold evicted
  rw [h.pagesInMemory_entering]

/-- Using a page afterwards evicts no more. -/
theorem Consistent.evicted_use (h' : m'.Consistent) {r : EntryRef} {frame : Nat}
    (hr : m'.pageTable.Resident r frame) (kind : AccessKind) :
    m.evicted (m'.use r kind frame) = m.evicted m' := by
  unfold evicted
  rw [h'.pagesInMemory_use ((h'.occupant_iff frame r).mpr hr)]

/-- Where frames hold the same pages, none is evicted. -/
theorem evicted_eq_nil (h : ∀ frame, m'.residents.vpn? frame = m.residents.vpn? frame) :
    m.evicted m' = [] := by
  refine List.eq_nil_iff_forall_not_mem.mpr fun v hv => ?_
  obtain ⟨hin, hout⟩ := mem_evicted.mp hv
  obtain ⟨frame, hframe⟩ := mem_pagesInMemory.mp hin
  exact hout (mem_pagesInMemory.mpr ⟨frame, (h frame).trans hframe⟩)

/-- Where one frame is given to a page that was not in memory, or to none, it is the page of that
frame which is evicted. -/
theorem Consistent.evicted_of_frame (h : m.Consistent) {frame : Nat}
    (hothers : ∀ g, g ≠ frame → m'.residents.vpn? g = m.residents.vpn? g)
    (hnew : ∀ v, m'.residents.vpn? frame = some v → v ∉ m.pagesInMemory) :
    m.evicted m' = (m.residents.vpn? frame).toList := by
  have hgone : ∀ v, v ∈ m.evicted m' ↔ m.residents.vpn? frame = some v := by
    intro v
    rw [mem_evicted]
    refine ⟨?_, ?_⟩
    · intro hv
      obtain ⟨g, hg⟩ := mem_pagesInMemory.mp hv.1
      by_cases hgf : g = frame
      · exact hgf ▸ hg
      · exact absurd (mem_pagesInMemory.mpr ⟨g, (hothers g hgf).trans hg⟩) hv.2
    · intro hframe
      have hin : v ∈ m.pagesInMemory := mem_pagesInMemory.mpr ⟨frame, hframe⟩
      refine ⟨hin, fun hv => ?_⟩
      obtain ⟨g, hg⟩ := mem_pagesInMemory.mp hv
      by_cases hgf : g = frame
      · exact hnew v (hgf ▸ hg) hin
      · rw [hothers g hgf] at hg
        exact hgf (h.frame_eq_of_vpn? hg hframe)
  cases hframe : m.residents.vpn? frame with
  | none =>
    refine List.eq_nil_iff_forall_not_mem.mpr fun v hv => ?_
    have hv := (hgone v).mp hv
    rw [hframe] at hv
    simp at hv
  | some v =>
    have hnodup : (m.evicted m').Nodup := h.nodup_pagesInMemory.filter _
    refine List.perm_singleton.mp ((List.perm_ext_iff_of_nodup hnodup ?_).mpr fun w => ?_)
    · simp
    · rw [hgone, hframe, List.mem_singleton, Option.some.injEq, eq_comm]

/-- A page that is not resident is not in memory. -/
theorem Consistent.not_mem_pagesInMemory (h : m.Consistent) {r : EntryRef} {p : PageEntry}
    (hp : m.pageTable.page? r = some p) (habsent : p.entry.frame? = none) :
    p.vpn ∉ m.pagesInMemory := by
  intro hmem
  obtain ⟨frame, hframe⟩ := mem_pagesInMemory.mp hmem
  obtain ⟨q, hq, hqv⟩ := ResidentPages.vpn?_eq_some.mp hframe
  obtain ⟨s, hs, hf⟩ := h.page?_residents.mp hq
  have hrs : r = s := h.rooted.ref_eq_of_vpn_eq hp hs hqv.symm
  subst hrs
  have heq : p = q := Option.some.inj (hp.symm.trans hs)
  rw [heq, hf] at habsent
  simp at habsent

/-- The page of a victim is in the frame that is named. -/
theorem Names.vpn?_frame {choice : Policy.Choice} {frame : Nat} {victim : EntryRef}
    {page : PageEntry} {bytes : Page} (names : m.Names choice frame victim page bytes) :
    m.residents.vpn? frame = some page.vpn := by
  have hframes : choice.residents.frames = m.frameTable := names.spares.frames
  rw [← names.spares.vpn?_eq]
  refine ResidentPages.vpn?_eq_some.mpr ⟨page, ?_, rfl⟩
  exact ResidentPages.page?_eq_some.mpr ⟨victim, hframes ▸ names.occupant, names.page⟩

/-! ## The stages -/

variable [BackingStore σ]

/-- When no frame is found, the frames hold what they held. -/
theorem Starves.vpn? {e : PagingError} (hstarves : m.Starves e m') (frame : Nat) :
    m'.residents.vpn? frame = m.residents.vpn? frame := by
  cases hstarves with
  | noVictim _ _ spares _ =>
    rw [residents_choosing spares]
    exact spares.vpn?_eq frame
  | vacant _ _ spares _ _ =>
    rw [residents_choosing spares]
    exact spares.vpn?_eq frame
  | @exhausted choice _ _ _ _ _ names _ =>
    show (m.choosing choice).residents.vpn? frame = _
    rw [residents_choosing names.spares]
    exact names.spares.vpn?_eq frame

/-- When no frame is found, no page was evicted. -/
theorem Starves.evicted_eq {e : PagingError} (hstarves : m.Starves e m') : m.evicted m' = [] :=
  evicted_eq_nil hstarves.vpn?

/-- A frame that has come free holds nothing, and the others hold what they held. -/
theorem Frees.vpn? (h : m.Consistent) {frame : Nat} (hfrees : m.Frees m₀ frame) (g : Nat) :
    m₀.residents.vpn? g = if g = frame then none else m.residents.vpn? g := by
  cases hfrees with
  | found free =>
    split
    next hg =>
      subst hg
      exact ResidentPages.vpn?_of_free (FrameTable.firstFree?_eq_some free).2
    next => rfl
  | evicted names _ released =>
    have hspares := names.spares
    have hpage := (h.choosing hspares).page?_vacating names.occupant released
    unfold ResidentPages.vpn?
    rw [hpage, residents_choosing hspares]
    split
    next => rfl
    next => exact hspares.vpn?_eq g

/-- A page that is brought in has claimed a frame that came free, and is in it. -/
theorem BringsIn.placed {r : EntryRef} {frame : Nat} (hbrings : m.BringsIn r (.ok frame) m') :
    ∃ m₀ p dirty swap frameTable memory, m.Frees m₀ frame ∧ m₀.pageTable.page? r = some p ∧
      m₀.frameTable.claim? frame r = some frameTable ∧ memory.frames = m₀.memory.frames ∧
      m' = m₀.placing r frame dirty swap frameTable memory := by
  cases hbrings with
  | firstTouch frees page _ claimed filled =>
    exact ⟨_, _, _, _, _, _, frees, page, claimed, (Memory.setPage?_spec filled).2.1, rfl⟩
  | swappedIn frees page _ _ claimed filled =>
    exact ⟨_, _, _, _, _, _, frees, page, claimed, (Memory.setPage?_spec filled).2.1, rfl⟩

/-- A page that is brought in is in the frame of the answer, and the others hold what they held. -/
theorem BringsIn.vpn? (h : m.Consistent) {r : EntryRef} {p : PageEntry}
    (hp : m.pageTable.page? r = some p) (habsent : p.entry.frame? = none) {frame : Nat}
    (hbrings : m.BringsIn r (.ok frame) m') (g : Nat) :
    m'.residents.vpn? g = if g = frame then some p.vpn else m.residents.vpn? g := by
  obtain ⟨m₀, p₀, dirty, swap, frameTable, memory, hfrees, -, hclaimed, -, rfl⟩ := hbrings.placed
  unfold ResidentPages.vpn?
  rw [(hfrees.consistent h).page?_placing (hfrees.page? h hp habsent) habsent hclaimed]
  split
  next => rfl
  next hg => exact (hfrees.vpn? h g).trans (if_neg hg)

/-- When a frame comes free, its page is evicted, if it held one. -/
theorem Frees.evicted_eq (h : m.Consistent) {frame : Nat} (hfrees : m.Frees m₀ frame) :
    m.evicted m₀ = (m.residents.vpn? frame).toList := by
  refine h.evicted_of_frame (fun g hg => (hfrees.vpn? h g).trans (if_neg hg)) fun v hv => ?_
  rw [hfrees.vpn? h, if_pos rfl] at hv
  simp at hv

/-- When a page is brought in, the page that was in its frame is evicted, if there was one. -/
theorem BringsIn.evicted_eq (h : m.Consistent) {r : EntryRef} {p : PageEntry}
    (hp : m.pageTable.page? r = some p) (habsent : p.entry.frame? = none) {frame : Nat}
    (hbrings : m.BringsIn r (.ok frame) m') :
    m.evicted m' = (m.residents.vpn? frame).toList := by
  have hvpn := hbrings.vpn? h hp habsent
  refine h.evicted_of_frame (fun g hg => (hvpn g).trans (if_neg hg)) fun v hv => ?_
  rw [hvpn, if_pos rfl, Option.some.injEq] at hv
  exact hv ▸ h.not_mem_pagesInMemory hp habsent

/-! Every eviction is counted, also if the page that it made room for is refused in the end. -/

/-- Freeing a frame counts the page that it evicts, if it evicts one. -/
theorem Frees.evictions_eq (h : m.Consistent) {frame : Nat} (hfrees : m.Frees m₀ frame) :
    m₀.counters.evictions = m.counters.evictions + (m.evicted m₀).length := by
  rw [hfrees.evicted_eq h]
  cases hfrees with
  | found free =>
    have hfree := (FrameTable.firstFree?_eq_some free).2
    rw [ResidentPages.vpn?_of_free hfree]
    rfl
  | evicted names _ _ =>
    rw [names.vpn?_frame]
    exact Counters.evictions_countEviction _ _

/-- Bringing a page in counts the pages that it evicts. -/
theorem BringsIn.evictions_eq (h : m.Consistent) {r : EntryRef} {p : PageEntry}
    (hp : m.pageTable.page? r = some p) (habsent : p.entry.frame? = none)
    {result : Except Failure Nat} (hbrings : m.BringsIn r result m') :
    m'.counters.evictions = m.counters.evictions + (m.evicted m').length := by
  have hplaced : ∀ {frame : Nat} {m₀ : Machine σ}, result = .ok frame → m.Frees m₀ frame →
      m'.counters = m₀.counters →
        m'.counters.evictions = m.counters.evictions + (m.evicted m').length := by
    intro frame m₀ hok hfrees hcounters
    rw [hcounters, hfrees.evictions_eq h, hfrees.evicted_eq h,
      BringsIn.evicted_eq h hp habsent (hok ▸ hbrings)]
  cases hbrings with
  | starved starves =>
    rw [starves.evicted_eq]
    cases starves with
    | noVictim _ _ _ _ => rfl
    | vacant _ _ _ _ _ => rfl
    | exhausted _ _ => rfl
  | unreadable frees _ _ _ =>
    have hcount := frees.evictions_eq h
    exact hcount
  | firstTouch frees _ _ _ _ => exact hplaced rfl frees rfl
  | swappedIn frees _ _ _ _ _ => exact hplaced rfl frees rfl

/-- A translation counts the pages that it evicts. -/
theorem Translates.evictions_eq (h : m.Consistent) {a : Address} {kind : AccessKind}
    {result : Except Failure Nat} (ht : m.Translates a kind result m') :
    m'.counters.evictions = m.counters.evictions + (m.evicted m').length := by
  have hentering := Counters.evictions_countReference m.counters
  cases ht with
  | outside _ =>
    rw [evicted_eq_nil fun _ => rfl]
    rfl
  | @hit frame _ resident =>
    rw [Consistent.evicted_use (h.entering a true) resident, evicted_eq_nil]
    · exact hentering true
    · exact fun g => congrArg _ (h.page?_entering a true g)
  | @fault p frame m₁ _ page absent brings =>
    have h' := brings.consistent (h.entering a false) page absent
    rw [Consistent.evicted_use h' brings.resident, ← h.evicted_entering a false, ← hentering false]
    exact brings.evictions_eq (h.entering a false) page absent
  | refused _ page absent brings =>
    rw [← h.evicted_entering a false, ← hentering false]
    exact brings.evictions_eq (h.entering a false) page absent

/-- A request counts the pages that it evicts. -/
theorem Serves.evictions_eq (h : m.Consistent) {q : Request} {result : Except Failure Reply}
    (hserves : m.Serves q result m') :
    m'.counters.evictions = m.counters.evictions + (m.evicted m').length := by
  obtain ⟨placed, m₁, memory, mismatches, translates, rfl, -⟩ := hserves.translates
  have hcount := translates.evictions_eq h
  exact hcount

/-! Pages come into memory one by one, each when it is asked for. -/

theorem Starves.mem_pagesInMemory {e : PagingError} (hstarves : m.Starves e m') {v : Nat}
    (hv : v ∈ m'.pagesInMemory) : v ∈ m.pagesInMemory := by
  obtain ⟨f, hf⟩ := Machine.mem_pagesInMemory.mp hv
  exact Machine.mem_pagesInMemory.mpr ⟨f, (hstarves.vpn? f).symm.trans hf⟩

/-- Freeing a frame brings no page into memory. -/
theorem Frees.mem_pagesInMemory (h : m.Consistent) {frame : Nat} (hfrees : m.Frees m₀ frame)
    {v : Nat} (hv : v ∈ m₀.pagesInMemory) : v ∈ m.pagesInMemory := by
  obtain ⟨f, hf⟩ := Machine.mem_pagesInMemory.mp hv
  rw [hfrees.vpn? h] at hf
  split at hf
  next => simp at hf
  next => exact Machine.mem_pagesInMemory.mpr ⟨f, hf⟩

/-- Only the page that is brought in comes into memory. -/
theorem BringsIn.mem_pagesInMemory (h : m.Consistent) {r : EntryRef} {p : PageEntry}
    (hp : m.pageTable.page? r = some p) (habsent : p.entry.frame? = none)
    {result : Except Failure Nat} (hbrings : m.BringsIn r result m') {v : Nat}
    (hv : v ∈ m'.pagesInMemory) : v ∈ m.pagesInMemory ∨ v = p.vpn := by
  have hplaced : ∀ {frame : Nat}, result = .ok frame → v ∈ m.pagesInMemory ∨ v = p.vpn := by
    intro frame hok
    obtain ⟨f, hf⟩ := Machine.mem_pagesInMemory.mp hv
    rw [BringsIn.vpn? h hp habsent (hok ▸ hbrings)] at hf
    split at hf
    next => exact Or.inr (Option.some.inj hf).symm
    next => exact Or.inl (Machine.mem_pagesInMemory.mpr ⟨f, hf⟩)
  cases hbrings with
  | starved starves => exact Or.inl (starves.mem_pagesInMemory hv)
  | unreadable frees _ _ _ => exact Or.inl (frees.mem_pagesInMemory h hv)
  | firstTouch _ _ _ _ _ => exact hplaced rfl
  | swappedIn _ _ _ _ _ _ => exact hplaced rfl

/-- Only the page of an address that is simulated comes into memory. -/
theorem Translates.mem_pagesInMemory (h : m.Consistent) {a : Address} {kind : AccessKind}
    {result : Except Failure Nat} (ht : m.Translates a kind result m') {v : Nat}
    (hv : v ∈ m'.pagesInMemory) : v ∈ m.pagesInMemory ∨ a.inFrame = true ∧ v = a.vpn := by
  have hbrought : ∀ {p : PageEntry} {m₁ : Machine σ} {brought : Except Failure Nat},
      a.inFrame = true → (m.entering a false).pageTable.page? (m.refOf a) = some p →
      p.entry.frame? = none → (m.entering a false).BringsIn (m.refOf a) brought m₁ →
      v ∈ m₁.pagesInMemory → v ∈ m.pagesInMemory ∨ a.inFrame = true ∧ v = a.vpn := by
    intro p m₁ brought hin page absent brings hv
    rcases brings.mem_pagesInMemory (h.entering a false) page absent hv with hold | hnew
    · exact Or.inl (h.pagesInMemory_entering a false ▸ hold)
    · exact Or.inr ⟨hin, hnew.trans (h.vpn_refOf page)⟩
  cases ht with
  | outside _ => exact Or.inl hv
  | hit _ resident =>
    have hocc := ((h.entering a true).occupant_iff _ _).mpr resident
    rw [(h.entering a true).pagesInMemory_use hocc, h.pagesInMemory_entering] at hv
    exact Or.inl hv
  | fault hin page absent brings =>
    have h' := brings.consistent (h.entering a false) page absent
    have hocc := (h'.occupant_iff _ _).mpr brings.resident
    rw [h'.pagesInMemory_use hocc] at hv
    exact hbrought hin page absent brings hv
  | refused hin page absent brings => exact hbrought hin page absent brings hv

/-- The only page that may be in memory after a request and not before it is the one asked for. -/
theorem Serves.mem_pagesInMemory (h : m.Consistent) {q : Request} {result : Except Failure Reply}
    (hserves : m.Serves q result m') {v : Nat} (hv : v ∈ m'.pagesInMemory) :
    v ∈ m.pagesInMemory ∨ q.address.inFrame = true ∧ v = q.address.vpn := by
  obtain ⟨placed, m₁, memory, mismatches, translates, rfl, -⟩ := hserves.translates
  exact translates.mem_pagesInMemory h hv

end Machine

end DemandPaging
