import DemandPaging.Proofs.Machine.PageUse
import DemandPaging.Proofs.Policy.SecondChance
import Mathlib.Data.List.Basic

/-!
# What the frames hold is a queue

A policy that goes round the frames finds there a queue of pages with their marks, which begins at
its hand (`queueFrom`). While frames are free the hand is at the first of them all and the frames
fill up in order, so a page that fills one comes last. When memory is full, the page that takes the
place of a victim, right behind the hand, is the last again.

> `Queued.hit`, `Queued.fill`, `Queued.replace`: what using a page does to the queue, one for each
> way in which a page can be used.
-/

namespace DemandPaging

open Policy (SecondChance cycleFrom)

/-- What lies beyond `k` and holds nothing adds nothing. -/
theorem filterMap_range_of_none {β : Type} {c : Nat → Option β} {k n : Nat} (hle : k ≤ n)
    (hnone : ∀ f, k ≤ f → f < n → c f = none) :
    (List.range n).filterMap c = (List.range k).filterMap c := by
  obtain ⟨d, rfl⟩ := Nat.exists_eq_add_of_le hle
  have hbeyond : ((List.range d).map (k + ·)).filterMap c = [] := by
    refine List.filterMap_eq_nil_iff.mpr fun f hf => ?_
    obtain ⟨i, hi, rfl⟩ := List.mem_map.mp hf
    have hid := List.mem_range.mp hi
    exact hnone _ (by omega) (by omega)
  rw [List.range_add, List.filterMap_append, hbeyond, List.append_nil]

namespace ResidentPages

variable {r : ResidentPages}

/-- What the frames hold from the hand on. -/
def queueFrom (r : ResidentPages) (hand frames : Nat) : List (Nat × Bool) :=
  (cycleFrom hand frames).filterMap r.cell?

/-- When the cell at the hand gets another entry and the hand moves on, the head of the queue is
dropped and the entry comes last. -/
theorem queueFrom_advance {hand frames : Nat} (h : hand < frames) {entry : Nat × Bool}
    (hcell : r.cell? hand = some entry) :
    ∃ rest, r.queueFrom hand frames = entry :: rest ∧
      ∀ (r' : ResidentPages) (entry' : Nat × Bool),
        (∀ g, r'.cell? g = if g = hand then some entry' else r.cell? g) →
        r'.queueFrom ((hand + 1) % frames) frames = rest ++ [entry'] := by
  obtain ⟨rest, hcycle, hnext, hnot⟩ := Policy.cycleFrom_advance h
  refine ⟨rest.filterMap r.cell?, ?_, fun r' entry' hcell' => ?_⟩
  · unfold queueFrom
    rw [hcycle, List.filterMap_cons_some hcell]
  · have hrest : rest.filterMap r'.cell? = rest.filterMap r.cell? := by
      refine List.filterMap_congr fun g hg => ?_
      have hne : g ≠ hand := fun heq => hnot (heq ▸ hg)
      rw [hcell', if_neg hne]
    have hlast : r'.cell? hand = some entry' := (hcell' hand).trans (if_pos rfl)
    unfold queueFrom
    rw [hnext, List.filterMap_append, hrest, List.filterMap_cons_some hlast, List.filterMap_nil]

/-- While the hand is at the first frame and frames are in use up to `k`, an entry that is put into
frame `k` comes last. -/
theorem queueFrom_zero_fill {r' : ResidentPages} {frames k : Nat} (hk : k < frames)
    (hbeyond : ∀ f, k ≤ f → f < frames → r.cell? f = none) {entry : Nat × Bool}
    (hcell' : ∀ g, r'.cell? g = if g = k then some entry else r.cell? g) :
    r'.queueFrom 0 frames = r.queueFrom 0 frames ++ [entry] := by
  have hbeyond' : ∀ f, k + 1 ≤ f → f < frames → r'.cell? f = none := by
    intro f hge hf
    rw [hcell', if_neg (by omega)]
    exact hbeyond f (Nat.le_of_succ_le hge) hf
  have hbefore : (List.range k).filterMap r'.cell? = (List.range k).filterMap r.cell? := by
    refine List.filterMap_congr fun g hg => ?_
    rw [hcell', if_neg (Nat.ne_of_lt (List.mem_range.mp hg))]
  have hlast : r'.cell? k = some entry := (hcell' k).trans (if_pos rfl)
  unfold queueFrom
  rw [Policy.cycleFrom_zero, filterMap_range_of_none hk hbeyond', List.range_succ,
    List.filterMap_append, hbefore, List.filterMap_cons_some hlast, List.filterMap_nil,
    filterMap_range_of_none (Nat.le_of_lt hk) hbeyond]

/-- The pages in the queue are what the frames hold from the hand on, without their marks. -/
theorem map_fst_queueFrom (r : ResidentPages) (hand frames : Nat) :
    (r.queueFrom hand frames).map Prod.fst = (cycleFrom hand frames).filterMap r.vpn? := by
  unfold queueFrom
  rw [List.map_filterMap]
  exact congrArg (List.filterMap · _) (funext fun f => (r.vpn?_eq_cell? f).symm)

end ResidentPages

namespace Machine

variable {σ : Type} {m m' : Machine σ}

theorem Consistent.cell?_of_occupant (h : m.Consistent) {frame : Nat} {r : EntryRef}
    (hocc : m.frameTable.occupant? frame = some r) :
    ∃ v b, m.residents.cell? frame = some (v, b) := by
  obtain ⟨p, hp⟩ := h.grounded frame r hocc
  refine ⟨p.vpn, p.entry.referenced, ?_⟩
  unfold ResidentPages.cell?
  rw [ResidentPages.page?_of_occupant (r := m.residents) hocc]
  exact congrArg (Option.map _) hp

/-- Entering a page into the table leaves what the frames hold alone. -/
theorem Consistent.queueFrom_entering (h : m.Consistent) (a : Address) (hit : Bool)
    (hand frames : Nat) :
    (m.entering a hit).residents.queueFrom hand frames = m.residents.queueFrom hand frames := by
  unfold ResidentPages.queueFrom
  rw [funext (h.cell?_entering a hit)]

/-- What the frames hold from `hand` on is `queue`. -/
structure Queued (m : Machine σ) (frames hand : Nat) (queue : List (Nat × Bool)) : Prop where
  size : m.frameTable.size = frames
  lt : hand < frames
  queue_eq : m.residents.queueFrom hand frames = queue
  /-- Frames are filled in their order. -/
  inUse : ∀ f, f < frames → (m.residents.cell? f ≠ none ↔ f < queue.length)
  /-- Until all are in use the hand does not move. -/
  start : queue.length < frames → hand = 0

variable {frames hand : Nat} {queue : List (Nat × Bool)}

theorem queued_build (hframes : 0 < frames) (policy : Policy) (swap : σ) :
    (build frames policy swap).Queued frames 0 [] where
  size := FrameTable.size_empty frames
  lt := hframes
  queue_eq := by
    refine List.filterMap_eq_nil_iff.mpr fun f _ => ?_
    exact ResidentPages.cell?_of_free (FrameTable.occupant?_empty frames f)
  inUse f _ := by
    have hnone : (build frames policy swap).residents.cell? f = none :=
      ResidentPages.cell?_of_free (FrameTable.occupant?_empty frames f)
    simp [hnone]
  start _ := rfl

theorem Queued.length_le (hm : m.Queued frames hand queue) : queue.length ≤ frames := by
  have hle := List.length_filterMap_le m.residents.cell? (cycleFrom hand frames)
  rw [Policy.length_cycleFrom] at hle
  rw [← hm.queue_eq]
  exact hle

/-- The pages in the queue are those in memory. -/
theorem Queued.mem_iff (hm : m.Queued frames hand queue) {v : Nat} :
    v ∈ queue.map Prod.fst ↔ v ∈ m.pagesInMemory := by
  rw [mem_pagesInMemory, ← hm.queue_eq, ResidentPages.map_fst_queueFrom, List.mem_filterMap]
  refine ⟨?_, ?_⟩
  · intro hex
    obtain ⟨f, -, hf⟩ := hex
    exact ⟨f, hf⟩
  · intro hex
    obtain ⟨f, hf⟩ := hex
    have hlt : f < frames := hm.size ▸ lt_size_of_vpn? hf
    exact ⟨f, (Policy.mem_cycleFrom hm.lt).mpr hlt, hf⟩

theorem Queued.lt_length_of_occupant (hm : m.Queued frames hand queue) (h : m.Consistent)
    {frame : Nat} {r : EntryRef} (hocc : m.frameTable.occupant? frame = some r) :
    frame < queue.length := by
  obtain ⟨v, b, hcell⟩ := h.cell?_of_occupant hocc
  have hlt : frame < frames := hm.size ▸ FrameTable.lt_size_of_occupant? hocc
  exact (hm.inUse frame hlt).mp (by simp [hcell])

/-- When no frame is free, the queue is as long as there are frames. -/
theorem Queued.length_of_full (hm : m.Queued frames hand queue) (h : m.Consistent)
    (hfull : m.frameTable.firstFree? = none) : queue.length = frames := by
  have hlast : frames - 1 < m.frameTable.size := hm.size.symm ▸ Nat.sub_one_lt_of_lt hm.lt
  obtain ⟨r, hocc⟩ := FrameTable.firstFree?_eq_none hfull hlast
  have hlt := hm.lt_length_of_occupant h hocc
  have hle := hm.length_le
  omega

/-- The lowest free frame is the first beyond the queue. -/
theorem Queued.eq_length_of_free (hm : m.Queued frames hand queue) (h : m.Consistent) {frame : Nat}
    (hfree : m.frameTable.firstFree? = some frame) : frame = queue.length ∧ frame < frames := by
  obtain ⟨hlt, hnone⟩ := FrameTable.firstFree?_eq_some hfree
  have hlt' : frame < frames := hm.size ▸ hlt
  have hge : queue.length ≤ frame := by
    refine Nat.le_of_not_lt fun hin => ?_
    exact (hm.inUse frame hlt').mpr hin (ResidentPages.cell?_of_free hnone)
  refine ⟨Nat.le_antisymm (Nat.le_of_not_lt fun hin => ?_) hge, hlt'⟩
  -- the frame at the end of the queue would be free as well
  obtain ⟨r, hocc⟩ := FrameTable.firstFree?_lowest hfree hin
  exact Nat.lt_irrefl _ (hm.lt_length_of_occupant h hocc)

/-! ## Using a page -/

/-- A page that is found gets its mark, and no other entry changes. -/
theorem Used.cell?_hit (h : m.Consistent) {policy : Policy} {frame v : Nat}
    (hfound : m.residents.vpn? frame = some v) (hused : Used m.residents policy v frame m')
    (g : Nat) : m'.residents.cell? g = (m.residents.cell? g).map (SecondChance.mark v) := by
  rw [hused.cell?_eq]
  cases hg : m.residents.cell? g with
  | none =>
    have hne : g ≠ frame := by
      rintro rfl
      rw [ResidentPages.vpn?_eq_none_iff.mpr hg] at hfound
      simp at hfound
    rw [if_neg hne]
    rfl
  | some entry =>
    obtain ⟨w, b⟩ := entry
    have hw := ResidentPages.vpn?_of_cell? hg
    rw [Option.map_some]
    split
    next heq =>
      have hwv : w = v := Option.some.inj (hw.symm.trans (heq ▸ hfound))
      rw [SecondChance.mark, if_pos hwv]
    next hne =>
      -- the page is in its own frame only
      have hwv : w ≠ v := fun heq => hne (h.frame_eq_of_vpn? (heq ▸ hw) hfound)
      rw [SecondChance.mark, if_neg hwv]

/-- A page that is found is marked where it stands in the queue. -/
theorem Queued.hit (hm : m.Queued frames hand queue) (h : m.Consistent)
    (hsize : m'.frameTable.size = m.frameTable.size) {policy : Policy} {frame v : Nat}
    (hfound : m.residents.vpn? frame = some v) (hused : Used m.residents policy v frame m') :
    m'.Queued frames hand (queue.map (SecondChance.mark v)) := by
  have hcell := hused.cell?_hit h hfound
  refine ⟨hsize.trans hm.size, hm.lt, ?_, ?_, ?_⟩
  · rw [← hm.queue_eq]
    unfold ResidentPages.queueFrom
    rw [List.map_filterMap, funext hcell]
  · intro f hf
    rw [hcell, List.length_map, ← hm.inUse f hf]
    simp
  · rw [List.length_map]
    exact hm.start

/-- A page that fills a free frame comes last in the queue. -/
theorem Queued.fill (hm : m.Queued frames hand queue) (h : m.Consistent)
    (hsize : m'.frameTable.size = m.frameTable.size) {policy : Policy} {frame v : Nat}
    (hfree : m.frameTable.firstFree? = some frame)
    (hused : Used m.residents policy v frame m') :
    m'.Queued frames hand (queue ++ [(v, true)]) := by
  obtain ⟨hframe, hlt⟩ := hm.eq_length_of_free h hfree
  have hzero : hand = 0 := hm.start (hframe ▸ hlt)
  subst hzero
  refine ⟨hsize.trans hm.size, hm.lt, ?_, ?_, fun _ => rfl⟩
  · -- behind the queue there is nothing
    have hbeyond : ∀ f, frame ≤ f → f < frames → m.residents.cell? f = none := by
      intro f hge hf
      have hnot : ¬ f < queue.length := Nat.not_lt.mpr (hframe ▸ hge)
      exact Decidable.not_not.mp fun hsome => hnot ((hm.inUse f hf).mp hsome)
    rw [ResidentPages.queueFrom_zero_fill hlt hbeyond hused.cell?_eq, hm.queue_eq]
  · intro f hf
    rw [hused.cell?_eq, List.length_append, List.length_singleton]
    split
    next heq =>
      subst heq
      simp [hframe]
    next hne =>
      rw [hm.inUse f hf]
      omega

/-- When every frame is in use, the page that takes the place of a victim comes last in the queue
that begins at the victim, and the page at its head leaves it. -/
theorem Queued.replace (hm : m.Queued frames hand queue) (hfull : queue.length = frames)
    (hsize : m'.frameTable.size = m.frameTable.size) {r : ResidentPages} {policy : Policy}
    {victim v : Nat} (hlt : victim < frames) (hr : ∀ f, r.vpn? f = m.residents.vpn? f)
    {entry : Nat × Bool} {rest : List (Nat × Bool)}
    (hqueue : r.queueFrom victim frames = entry :: rest) (hlength : rest.length + 1 = frames)
    (hused : Used r policy v victim m') :
    m'.Queued frames ((victim + 1) % frames) (rest ++ [(v, true)]) ∧
      m.residents.vpn? victim = some entry.1 := by
  have hheld : ∀ f, f < frames → r.cell? f ≠ none := by
    intro f hf
    rw [Ne, ← ResidentPages.vpn?_eq_none_iff, hr f, ResidentPages.vpn?_eq_none_iff]
    exact (hm.inUse f hf).mpr (hfull.symm ▸ hf)
  obtain ⟨head, hcell⟩ := Option.ne_none_iff_exists'.mp (hheld victim hlt)
  obtain ⟨rest', hrest, hadvance⟩ := ResidentPages.queueFrom_advance hlt hcell
  obtain ⟨rfl, rfl⟩ := List.cons.inj (hqueue.symm.trans hrest)
  have hlast : (rest ++ [(v, true)]).length = frames := by
    rw [List.length_append]
    exact hlength
  refine ⟨⟨hsize.trans hm.size, Nat.mod_lt _ (Nat.zero_lt_of_lt hlt),
    hadvance _ _ hused.cell?_eq, ?_, ?_⟩, ?_⟩
  · -- every frame was in use and is
    intro f hf
    rw [hlast, hused.cell?_eq]
    refine ⟨fun _ => hf, fun _ => ?_⟩
    split
    next => exact Option.some_ne_none _
    next => exact hheld f hf
  · rw [hlast]
    exact fun hlt => absurd hlt (Nat.lt_irrefl _)
  · rw [← hr, ResidentPages.vpn?_of_cell? hcell]

end Machine

end DemandPaging
