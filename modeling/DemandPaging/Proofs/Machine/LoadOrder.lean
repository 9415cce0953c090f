import DemandPaging.Proofs.Machine.Extent
import DemandPaging.Proofs.Machine.FrameQueue
import DemandPaging.Proofs.Policy.Victims

/-!
# Round robin is first in, first out

The cursor knows nothing of when a page was loaded. But the frames fill up in their order, and from
then on every page that is loaded comes to the frame just behind the cursor; so from the cursor on
the frames hold the pages in the order in which they were loaded, and the victim is the one loaded
longest ago. Uses of pages that are there leave the order alone.

The queue has its own account of this (`Fifo`), and the machine has another: an observer writes down
every page as it comes into memory (`keepArrivals`). What was dropped and what is in the queue are
together the arrivals, in their order.

> `FollowsFifo.hit`, `FollowsFifo.fill`, `FollowsFifo.replace`: one request against one access of
> the queue, for each way in which a page can be used.
> `roundRobin_refines_fifo`: whole runs.
-/

namespace DemandPaging

/-! ## The queue -/

/-- Pages in the order in which they came, and what has become of the accesses so far. -/
structure Fifo where
  queue : List Nat
  hits : Nat
  misses : Nat
  /-- The pages that were dropped, in their order. -/
  victims : List Nat

namespace Fifo

def empty : Fifo := ⟨[], 0, 0, []⟩

/-- One access, with room for a number of pages. -/
def access (frames : Nat) (s : Fifo) (page : Nat) : Fifo :=
  if page ∈ s.queue then { s with hits := s.hits + 1 }
  else if s.queue.length < frames then
    { s with queue := s.queue ++ [page], misses := s.misses + 1 }
  else
    { s with
      queue := s.queue.tail ++ [page]
      misses := s.misses + 1
      victims := s.victims ++ s.queue.head?.toList }

/-- The queue and its counts after accesses to a list of pages. -/
def run (frames : Nat) (pages : List Nat) : Fifo := pages.foldl (access frames) empty

theorem run_concat (frames : Nat) (pages : List Nat) (page : Nat) :
    run frames (pages ++ [page]) = (run frames pages).access frames page := by
  unfold run
  rw [List.foldl_append]
  rfl

end Fifo

namespace Machine

variable {σ : Type} {m m' : Machine σ}

/-! ## Arrivals -/

/-- The pages that are in memory in `m'` and not in `m`. -/
def arrived (m m' : Machine σ) : List Nat := m'.pagesInMemory.filter (· ∉ m.pagesInMemory)

/-- An observer that keeps the arrivals of a run, in their order. -/
def keepArrivals [BackingStore σ] (seen : List Nat) (m : Machine σ) (q : Request) : List Nat :=
  seen ++ m.arrived (m.serve q).machine

theorem arrived_eq_evicted : m.arrived m' = m'.evicted m := rfl

/-- A page that was in memory already is no arrival. -/
theorem Used.arrived_hit {policy : Policy} {v frame : Nat}
    (hused : Used m.residents policy v frame m') (hfound : m.residents.vpn? frame = some v) :
    m.arrived m' = [] := by
  rw [arrived_eq_evicted]
  refine evicted_eq_nil fun g => ?_
  rw [hused.vpn?]
  split
  next hg => rw [hg, hfound]
  next => rfl

/-- A page that was not in memory arrives, and no other does. -/
theorem Used.arrived_miss (h : m.Consistent) (h' : m'.Consistent) {r : ResidentPages}
    {policy : Policy} {v frame : Nat} (hused : Used r policy v frame m')
    (hr : ∀ g, r.vpn? g = m.residents.vpn? g) (habsent : v ∉ m.pagesInMemory) :
    m.arrived m' = [v] := by
  have hframe : m'.residents.vpn? frame = some v := by rw [hused.vpn?, if_pos rfl]
  have hothers : ∀ g, g ≠ frame → m.residents.vpn? g = m'.residents.vpn? g := by
    intro g hg
    rw [hused.vpn?, if_neg hg, hr]
  rw [arrived_eq_evicted, h'.evicted_of_frame hothers, hframe, Option.toList_some]
  -- the page that was in the frame is in no other one now
  intro w hw hmem
  obtain ⟨g, hg⟩ := mem_pagesInMemory.mp hmem
  by_cases hgf : g = frame
  · subst hgf
    have hwv : w = v := Option.some.inj (hg.symm.trans hframe)
    exact habsent (mem_pagesInMemory.mpr ⟨g, hwv ▸ hw⟩)
  · rw [← hothers g hgf] at hg
    exact hgf (h.frame_eq_of_vpn? hg hw)

/-- Two observers of one run. -/
theorem watch_prod [BackingStore σ] {γ δ : Type} (note : γ → Machine σ → Request → γ)
    (note' : δ → Machine σ → Request → δ) :
    ∀ (qs : List Request) (m : Machine σ) (n : γ) (n' : δ),
      m.watch (fun ns m q => (note ns.1 m q, note' ns.2 m q)) (n, n') qs
        = (m.watch note n qs, m.watch note' n' qs)
  | [], _, _, _ => rfl
  | q :: qs, m, n, n' => watch_prod note note' qs (m.serve q).machine (note n m q) (note' n' m q)

/-! ## One request -/

/-- The machine is where the queue is: the frames hold its pages from the cursor on, the counts
agree, the evictions so far are what was dropped, and the arrivals so far are what was dropped and
what is in the queue. -/
structure FollowsFifo (frames : Nat) (s : Fifo) (m : Machine σ) (evictions arrivals : List Nat) :
    Prop where
  consistent : m.Consistent
  queued : ∃ next queue, m.policy = .roundRobin ⟨next, frames⟩ ∧ m.Queued frames next queue ∧
    queue.map Prod.fst = s.queue
  hits : m.counters.hits = s.hits
  misses : m.counters.misses = s.misses
  victims : evictions = s.victims
  arrivals : arrivals = s.victims ++ s.queue
  /-- Nothing is dropped before the queue is full. -/
  full : s.victims ≠ [] → s.queue.length = frames

variable {frames : Nat} {s : Fifo} {evictions arrivals : List Nat}

theorem followsFifo_build (hframes : 0 < frames) (seed : UInt64) (swap : σ) :
    FollowsFifo frames .empty (build frames (.ofAlgorithm .roundRobin seed) swap) [] [] where
  consistent := consistent_build frames _ swap
  queued := ⟨0, [], rfl, queued_build hframes _ swap, rfl⟩
  hits := rfl
  misses := rfl
  victims := rfl
  arrivals := rfl
  full hne := absurd rfl hne

/-- The cursor names the frame that it is at. -/
theorem evict?_of_roundRobin {next : Nat} (hpolicy : m.policy = .roundRobin ⟨next, frames⟩)
    (hframes : frames ≠ 0) {r : ResidentPages} {choice : Policy.Choice}
    (hchosen : m.policy.evict? r = some choice) :
    choice = ⟨some next, .roundRobin ⟨(next + 1) % frames, frames⟩, r⟩ := by
  rw [hpolicy] at hchosen
  simp only [Policy.evict?, Policy.RoundRobin.evict, if_neg hframes, Option.some.injEq] at hchosen
  exact hchosen.symm

/-- The pages in the queue are those in memory. -/
theorem FollowsFifo.mem_iff (hm : FollowsFifo frames s m evictions arrivals) {v : Nat} :
    v ∈ s.queue ↔ v ∈ m.pagesInMemory := by
  obtain ⟨next, queue, -, hqueued, hpages⟩ := hm.queued
  rw [← hpages]
  exact hqueued.mem_iff

/-- Using a page that is in memory leaves the queue as it is. -/
theorem FollowsFifo.hit (hm : FollowsFifo frames s m evictions arrivals) (h' : m'.Consistent)
    (hsize : m'.frameTable.size = m.frameTable.size) {frame v : Nat}
    (hfound : m.residents.vpn? frame = some v) (hused : Used m.residents m.policy v frame m')
    (hhits : m'.counters.hits = m.counters.hits + 1)
    (hmisses : m'.counters.misses = m.counters.misses) :
    FollowsFifo frames (s.access frames v) m' (evictions ++ m.evicted m')
      (arrivals ++ m.arrived m') := by
  obtain ⟨next, queue, hpolicy, hqueued, hpages⟩ := hm.queued
  have hmem : v ∈ s.queue := hm.mem_iff.mpr (mem_pagesInMemory.mpr ⟨frame, hfound⟩)
  -- a mark moves no page
  have hpages' : (queue.map (Policy.SecondChance.mark v)).map Prod.fst = s.queue := by
    rw [← hpages, List.map_map]
    exact List.map_congr_left fun entry _ => Policy.SecondChance.fst_mark v entry
  have hpolicy' : m'.policy = .roundRobin ⟨next, frames⟩ := by
    rw [hused.policy, hpolicy]
    rfl
  unfold Fifo.access
  rw [if_pos hmem, hused.evicted_hit hfound, hused.arrived_hit hfound, List.append_nil,
    List.append_nil]
  refine ⟨h', ⟨next, _, hpolicy', hqueued.hit hm.consistent hsize hfound hused, hpages'⟩, ?_, ?_,
    hm.victims, hm.arrivals, hm.full⟩
  · rw [hhits, hm.hits]
  · rw [hmisses, hm.misses]

/-- While a frame is free, a page that comes in is put behind the queue and nothing is dropped. -/
theorem FollowsFifo.fill (hm : FollowsFifo frames s m evictions arrivals) (h' : m'.Consistent)
    (hsize : m'.frameTable.size = m.frameTable.size) {frame v : Nat}
    (habsent : v ∉ m.pagesInMemory) (hfree : m.frameTable.firstFree? = some frame)
    (hused : Used m.residents m.policy v frame m')
    (hhits : m'.counters.hits = m.counters.hits)
    (hmisses : m'.counters.misses = m.counters.misses + 1) :
    FollowsFifo frames (s.access frames v) m' (evictions ++ m.evicted m')
      (arrivals ++ m.arrived m') := by
  have h := hm.consistent
  obtain ⟨next, queue, hpolicy, hqueued, hpages⟩ := hm.queued
  obtain ⟨hframe, hlt⟩ := hqueued.eq_length_of_free h hfree
  have hroom : s.queue.length < frames := by
    rw [← hpages, List.length_map, ← hframe]
    exact hlt
  have hnone : m.residents.vpn? frame = none :=
    ResidentPages.vpn?_of_free (FrameTable.firstFree?_eq_some hfree).2
  have hvictims : s.victims = [] := by
    by_contra hne
    exact absurd (hm.full hne) (Nat.ne_of_lt hroom)
  have hpolicy' : m'.policy = .roundRobin ⟨next, frames⟩ := by
    rw [hused.policy, hpolicy]
    rfl
  unfold Fifo.access
  rw [if_neg (mt hm.mem_iff.mp habsent), if_pos hroom, hused.evicted_miss h (fun _ => rfl) habsent,
    hnone, hused.arrived_miss h h' (fun _ => rfl) habsent, Option.toList_none, List.append_nil]
  refine ⟨h', ⟨next, _, hpolicy', hqueued.fill h hsize hfree hused, ?_⟩, ?_, ?_, hm.victims, ?_,
    fun hne => absurd hvictims hne⟩
  · rw [List.map_append, hpages]
    rfl
  · rw [hhits, hm.hits]
  · rw [hmisses, hm.misses]
  · rw [hm.arrivals, List.append_assoc]

/-- When memory is full, the page that comes in is put behind the queue and the head is dropped. -/
theorem FollowsFifo.replace (hm : FollowsFifo frames s m evictions arrivals) (h' : m'.Consistent)
    (hsize : m'.frameTable.size = m.frameTable.size) {a : Address} {frame v : Nat}
    {choice : Policy.Choice} (habsent : v ∉ m.pagesInMemory)
    (hfull : m.frameTable.firstFree? = none)
    (hchosen : m.policy.evict? (m.entering a false).residents = some choice)
    (hspares : (m.entering a false).residents.Spares choice.residents)
    (hnamed : choice.victim = some frame)
    (hused : Used choice.residents choice.policy v frame m')
    (hhits : m'.counters.hits = m.counters.hits)
    (hmisses : m'.counters.misses = m.counters.misses + 1) :
    FollowsFifo frames (s.access frames v) m' (evictions ++ m.evicted m')
      (arrivals ++ m.arrived m') := by
  have h := hm.consistent
  obtain ⟨next, queue, hpolicy, hqueued, hpages⟩ := hm.queued
  have hlength := hqueued.length_of_full h hfull
  have hvpn := h.vpn?_spared hspares
  have hne : frames ≠ 0 := Nat.ne_zero_of_lt hqueued.lt
  have hchoice := evict?_of_roundRobin hpolicy hne hchosen
  subst hchoice
  obtain rfl : next = frame := Option.some.inj hnamed
  -- a full queue is not empty
  obtain ⟨entry, rest, rfl⟩ : ∃ entry rest, queue = entry :: rest :=
    List.exists_cons_of_ne_nil (List.ne_nil_of_length_pos (by omega))
  have hqueue := (h.queueFrom_entering a false next frames).trans hqueued.queue_eq
  obtain ⟨hqueued', hvictim⟩ :=
    hqueued.replace hlength hsize hqueued.lt hvpn hqueue hlength hused
  have hsqueue : s.queue = entry.1 :: rest.map Prod.fst := hpages.symm
  have hslength : s.queue.length = frames := by
    rw [← hpages, List.length_map]
    exact hlength
  unfold Fifo.access
  rw [if_neg (mt hm.mem_iff.mp habsent), if_neg (by omega), hused.evicted_miss h hvpn habsent,
    hvictim, hused.arrived_miss h h' hvpn habsent, hsqueue]
  refine ⟨h', ⟨_, _, hused.policy, hqueued', ?_⟩, ?_, ?_, ?_, ?_, ?_⟩
  · rw [List.map_append]
    rfl
  · rw [hhits, hm.hits]
  · rw [hmisses, hm.misses]
  · rw [hm.victims]
    rfl
  · rw [hm.arrivals, hsqueue]
    simp
  · intro _
    rw [← hlength]
    simp

/-- One use of a page is one access of the queue. -/
theorem FollowsFifo.uses (hm : FollowsFifo frames s m evictions arrivals) (h' : m'.Consistent)
    (hsize : m'.frameTable.size = m.frameTable.size) {a : Address} (huses : m.Uses a m') :
    FollowsFifo frames (s.access frames a.vpn) m' (evictions ++ m.evicted m')
      (arrivals ++ m.arrived m') := by
  cases huses with
  | hit found used hits misses => exact hm.hit h' hsize found used hits misses
  | filled absent free used hits misses => exact hm.fill h' hsize absent free used hits misses
  | replaced absent full chosen spares named used hits misses =>
    exact hm.replace h' hsize absent full chosen spares named used hits misses

/-- A request that is served is one access of the queue. -/
theorem FollowsFifo.serve [BackingStore σ] [LawfulStore σ]
    (hm : FollowsFifo frames s m evictions arrivals) {q : Request} {reply : Reply}
    (hserved : (m.serve q).result = .ok reply) :
    FollowsFifo frames (s.access frames q.address.vpn) (m.serve q).machine
      (keepEvictions evictions m q) (keepArrivals arrivals m q) :=
  hm.uses (hm.consistent.serve q) (serve_cases hm.consistent q).sameExtent.frames
    (serve_uses hm.consistent hserved)

/-- The queue is what came last, and what came before it was dropped in the same order. -/
theorem FollowsFifo.split (hm : FollowsFifo frames s m evictions arrivals) :
    s.victims = arrivals.take (arrivals.length - frames) ∧
      s.queue = arrivals.drop (arrivals.length - frames) := by
  obtain ⟨next, queue, -, hqueued, hpages⟩ := hm.queued
  have hle : s.queue.length ≤ frames := by
    rw [← hpages, List.length_map]
    exact hqueued.length_le
  have hcut : arrivals.length - frames = s.victims.length := by
    rw [hm.arrivals, List.length_append]
    rcases List.eq_nil_or_concat s.victims with hnil | ⟨_, _, hconcat⟩
    · rw [hnil, List.length_nil]
      omega
    · have hfull := hm.full (by simp [hconcat])
      omega
  rw [hcut, hm.arrivals]
  exact ⟨List.take_left.symm, List.drop_left.symm⟩

/-! ## Runs -/

/-- A run under round robin in which every request is served is a run of a first-in, first-out
queue. What the frames hold from the cursor on is the queue; while it is shorter than there are
frames the cursor is at the first of them and the frames are in use up to its length. The queue is
the pages that came into memory last, in the order in which they came, and those before them have
left in the same order; so every eviction takes the page that was brought in longest ago. Hits and
misses agree. -/
theorem roundRobin_refines_fifo (frames slots : Nat) (hframes : 0 < frames) (seed : UInt64)
    (qs : List Request)
    (hserved : (build frames (.ofAlgorithm .roundRobin seed) (SlotStore.empty slots)).allServed qs
      = true) :
    let m₀ := build frames (.ofAlgorithm .roundRobin seed) (SlotStore.empty slots)
    let m := m₀.serveAll qs
    let model := Fifo.run frames (qs.map (·.address.vpn))
    let arrivals := m₀.watch keepArrivals [] qs
    (∃ next, next < frames ∧ m.policy = .roundRobin ⟨next, frames⟩ ∧
      ((List.range frames).map fun i => (next + i) % frames).filterMap m.residents.vpn?
        = model.queue ∧
      (model.queue.length < frames → next = 0) ∧
      ∀ f, f < frames → (m.residents.vpn? f ≠ none ↔ f < model.queue.length)) ∧
      (∀ v, v ∈ m.pagesInMemory ↔ v ∈ model.queue) ∧
      model.queue = arrivals.drop (arrivals.length - frames) ∧
      m₀.watch keepEvictions [] qs = model.victims ∧
      model.victims = arrivals.take (arrivals.length - frames) ∧
      m.counters.hits = model.hits ∧ m.counters.misses = model.misses := by
  intro m₀ m model arrivals
  have hstep : ∀ (past : List Request) (m : Machine SlotStore) (notes : List Nat × List Nat)
      (q : Request) (reply : Reply),
      FollowsFifo frames (Fifo.run frames (past.map (·.address.vpn))) m notes.1 notes.2 →
      (m.serve q).result = .ok reply →
      FollowsFifo frames (Fifo.run frames ((past ++ [q]).map (·.address.vpn)))
        (m.serve q).machine (keepEvictions notes.1 m q) (keepArrivals notes.2 m q) := by
    intro past m notes q reply hm hok
    rw [List.map_append, List.map_singleton, Fifo.run_concat]
    exact hm.serve hok
  have hbuild : FollowsFifo frames (Fifo.run frames ([].map fun q : Request => q.address.vpn))
      m₀ [] [] := followsFifo_build hframes seed _
  have hboth := served_induction
    (fun notes m q => (keepEvictions notes.1 m q, keepArrivals notes.2 m q))
    (P := fun past m notes =>
      FollowsFifo frames (Fifo.run frames (past.map (·.address.vpn))) m notes.1 notes.2)
    hstep qs ([], []) hserved hbuild
  rw [watch_prod keepEvictions keepArrivals] at hboth
  have hm : FollowsFifo frames model m (m₀.watch keepEvictions [] qs) arrivals := hboth
  obtain ⟨next, queue, hpolicy, hqueued, hpages⟩ := hm.queued
  have hlength : model.queue.length = queue.length := by rw [← hpages, List.length_map]
  refine ⟨⟨next, hqueued.lt, hpolicy, ?_, ?_, ?_⟩, ?_, hm.split.2, hm.victims, hm.split.1, hm.hits,
    hm.misses⟩
  · rw [← hpages, ← hqueued.queue_eq, ResidentPages.map_fst_queueFrom]
    rfl
  · rw [hlength]
    exact hqueued.start
  · intro f hf
    rw [hlength, ← hqueued.inUse f hf, Ne, Ne, ResidentPages.vpn?_eq_none_iff]
  · intro v
    rw [← hpages]
    exact hqueued.mem_iff.symm

/-- Two frames: page 1 was brought in first and has to leave, although it was used last; brought in
again, it is the latest. -/
theorem roundRobin_refines_fifo_of_three :
    let m₀ := build 2 (.ofAlgorithm .roundRobin 0) (SlotStore.empty 4)
    let qs : List Request := [.translate ⟨0x1000⟩ .load, .translate ⟨0x2000⟩ .load,
      .translate ⟨0x1000⟩ .store, .translate ⟨0x3000⟩ .load, .translate ⟨0x1000⟩ .load]
    0 < 2 ∧ m₀.allServed qs = true ∧
      m₀.watch keepEvictions [] qs = (Fifo.run 2 (qs.map (·.address.vpn))).victims := by
  intro m₀ qs
  have hserved : m₀.allServed qs = true := by decide +kernel
  refine ⟨by decide, hserved, ?_⟩
  exact (roundRobin_refines_fifo 2 4 (by decide) 0 qs hserved).2.2.2.1

end Machine

end DemandPaging
