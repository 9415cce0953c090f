import DemandPaging.Proofs.Machine.Extent
import DemandPaging.Proofs.Machine.FrameQueue
import DemandPaging.Proofs.Policy.Victims

/-!
# The clock is a second-chance queue

What the frames hold from the hand on is a queue of pages with their marks, and under second chance
it is the queue of the textbook algorithm. When memory is full, the sweep of the hand is `settle`
frame by frame, and the page that takes the victim's place, right behind the hand, is the last.

> `sweep?_settle`: the sweep against the queue.
> `Mimics.hit`, `Mimics.fill`, `Mimics.replace`: one request against one access of the queue.
> `clock_refines_secondChance`: whole runs.
-/

namespace DemandPaging

open Policy (SecondChance settle)

namespace ResidentPages

variable {r : ResidentPages}

/-- No page is in two frames. -/
def Exclusive (r : ResidentPages) : Prop :=
  ∀ f g ref, r.frames.occupant? f = some ref → r.frames.occupant? g = some ref → f = g

theorem occupant?_of_cell? {frame v : Nat} {b : Bool} (h : r.cell? frame = some (v, b)) :
    ∃ ref, r.frames.occupant? frame = some ref := by
  obtain ⟨p, hp, -⟩ := Option.map_eq_some_iff.mp h
  obtain ⟨ref, hocc, -⟩ := page?_eq_some.mp hp
  exact ⟨ref, hocc⟩

/-- Taking a mark is seen in the cell of its frame. -/
theorem Exclusive.cell?_unmark (h : r.Exclusive) {frame v : Nat} {b : Bool}
    (hcell : r.cell? frame = some (v, b)) (g : Nat) :
    (r.unmark frame).cell? g = if g = frame then some (v, false) else r.cell? g := by
  obtain ⟨ref, hocc⟩ := occupant?_of_cell? hcell
  have hpage : (r.unmark frame).page? g
      = (r.frames.occupant? g).bind (r.pageTable.modify ref (·.setReferenced false)).page? := by
    unfold unmark
    rw [hocc]
    rfl
  unfold cell? at hcell ⊢
  rw [hpage]
  split
  next hg =>
    subst hg
    rw [page?_of_occupant hocc] at hcell
    obtain ⟨p, hp, heq⟩ := Option.map_eq_some_iff.mp hcell
    rw [hocc, Option.bind_some, PageTable.page?_modify_self, hp, Option.map_some, Option.map_some,
      ← (Prod.mk.inj heq).1]
    rfl
  next hg =>
    rw [page?_modify_of_ne fun hr => hg (h g frame ref hr hocc)]

/-- Taking a mark moves no page. -/
theorem Exclusive.unmark (h : r.Exclusive) (frame : Nat) : (r.unmark frame).Exclusive := by
  unfold ResidentPages.unmark
  split
  next => exact h
  next => exact h

end ResidentPages

/-- The sweep of the hand is `settle`: it ends at the frame whose page is then at the head of the
queue. -/
theorem Policy.Clock.sweep?_settle {frames : Nat} (count : Nat) {r : ResidentPages} {hand : Nat}
    (hr : r.Exclusive) (hhand : hand < frames)
    (hfull : ∀ f, f < frames → ∃ v b, r.cell? f = some (v, b))
    (hcount : (r.queueFrom hand frames).countP (·.2) ≤ count) :
    ∃ victim v r',
      sweep? count ⟨hand, frames⟩ r = some (victim, ⟨(victim + 1) % frames, frames⟩, r') ∧
        victim < frames ∧ r'.cell? victim = some (v, false) ∧
        r'.queueFrom victim frames = settle (r.queueFrom hand frames) := by
  induction count generalizing r hand with
  | zero =>
    -- no page is marked, the one at the hand neither
    obtain ⟨v, b, hcell⟩ := hfull hand hhand
    obtain ⟨rest, hqueue, -⟩ := ResidentPages.queueFrom_advance hhand hcell
    cases b with
    | true => simp [hqueue] at hcount
    | false =>
      refine ⟨hand, v, r, rfl, hhand, hcell, ?_⟩
      rw [hqueue, settle_unmarked]
  | succ count ih =>
    obtain ⟨v, b, hcell⟩ := hfull hand hhand
    obtain ⟨rest, hqueue, hadvance⟩ := ResidentPages.queueFrom_advance hhand hcell
    have hmarked := ResidentPages.marked?_of_cell? hcell
    cases b with
    | false =>
      refine ⟨hand, v, r, sweep?_of_unmarked (c := ⟨hand, frames⟩) hmarked _, hhand, hcell, ?_⟩
      rw [hqueue, settle_unmarked]
    | true =>
      have hcell' := hr.cell?_unmark hcell
      have hqueue' := hadvance (r.unmark hand) (v, false) hcell'
      rw [hqueue, settle_marked, ← hqueue', sweep?_of_marked (c := ⟨hand, frames⟩) hmarked]
      refine ih (hr.unmark hand) (Nat.mod_lt _ (Nat.zero_lt_of_lt hhand)) ?_ ?_
      · intro f hf
        rw [hcell']
        split
        next => exact ⟨v, false, rfl⟩
        next => exact hfull f hf
      · -- one mark fewer
        rw [hqueue, List.countP_cons_of_pos rfl] at hcount
        rw [hqueue', List.countP_append]
        simpa using Nat.le_of_succ_le_succ hcount

namespace Machine

variable {σ : Type} {m m' : Machine σ}

/-- In a consistent machine no page is in two frames. -/
theorem Consistent.exclusive (h : m.Consistent) : m.residents.Exclusive := fun _ _ _ hf hg =>
  h.frame_eq_of_occupant? hf hg

/-- The policy is second chance with its hand at `hand`, and what the frames hold from there on is
`queue`. -/
structure Mimics (m : Machine σ) (frames hand : Nat) (queue : List (Nat × Bool)) : Prop where
  policy : m.policy = .clock ⟨hand, frames⟩
  size : m.frameTable.size = frames
  lt : hand < frames
  queue_eq : m.residents.queueFrom hand frames = queue
  /-- Frames are filled in their order. -/
  inUse : ∀ f, f < frames → (m.residents.cell? f ≠ none ↔ f < queue.length)
  /-- Until all are in use the hand does not move. -/
  start : queue.length < frames → hand = 0

variable {frames hand : Nat} {queue : List (Nat × Bool)}

/-- The frames hold the queue from the hand on. -/
theorem Mimics.queued (hm : m.Mimics frames hand queue) : m.Queued frames hand queue :=
  ⟨hm.size, hm.lt, hm.queue_eq, hm.inUse, hm.start⟩

theorem Queued.mimics (hm : m.Queued frames hand queue)
    (hpolicy : m.policy = .clock ⟨hand, frames⟩) : m.Mimics frames hand queue :=
  ⟨hpolicy, hm.size, hm.lt, hm.queue_eq, hm.inUse, hm.start⟩

/-- The pages in the queue are those in memory. -/
theorem Mimics.mem_iff (hm : m.Mimics frames hand queue) {v : Nat} :
    v ∈ queue.map Prod.fst ↔ v ∈ m.pagesInMemory :=
  hm.queued.mem_iff

theorem mimics_build (hframes : 0 < frames) (seed : UInt64) (swap : σ) :
    (build frames (.ofAlgorithm .clock seed) swap).Mimics frames 0 [] :=
  (queued_build hframes _ swap).mimics rfl

/-! ## One request -/

/-- A page that is found is marked where it stands in the queue. -/
theorem Mimics.hit (hm : m.Mimics frames hand queue) (h : m.Consistent)
    (hsize : m'.frameTable.size = m.frameTable.size) {frame v : Nat}
    (hfound : m.residents.vpn? frame = some v) (hused : Used m.residents m.policy v frame m') :
    m'.Mimics frames hand (queue.map (SecondChance.mark v)) := by
  refine (hm.queued.hit h hsize hfound hused).mimics ?_
  rw [hused.policy, hm.policy]
  rfl

/-- A page that fills a free frame comes last in the queue. -/
theorem Mimics.fill (hm : m.Mimics frames hand queue) (h : m.Consistent)
    (hsize : m'.frameTable.size = m.frameTable.size) {frame v : Nat}
    (hfree : m.frameTable.firstFree? = some frame)
    (hused : Used m.residents m.policy v frame m') :
    m'.Mimics frames hand (queue ++ [(v, true)]) := by
  refine (hm.queued.fill h hsize hfree hused).mimics ?_
  rw [hused.policy, hm.policy]
  rfl

/-- When memory is full, the policy names the page at the head of the queue after the sweep. -/
theorem Mimics.chosen (hm : m.Mimics frames hand queue) (h : m.Consistent) {a : Address}
    {choice : Policy.Choice} (hfull : m.frameTable.firstFree? = none)
    (hchosen : m.policy.evict? (m.entering a false).residents = some choice) :
    ∃ victim w, choice.victim = some victim ∧
      choice.policy = .clock ⟨(victim + 1) % frames, frames⟩ ∧ victim < frames ∧
      choice.residents.cell? victim = some (w, false) ∧
      choice.residents.queueFrom victim frames = settle queue := by
  have hentering : (m.entering a false).residents.cell? = m.residents.cell? :=
    funext (h.cell?_entering a false)
  have hcells : ∀ f, f < frames → ∃ w b, (m.entering a false).residents.cell? f = some (w, b) := by
    intro f hf
    obtain ⟨r, hocc⟩ := FrameTable.firstFree?_eq_none hfull (hm.size.symm ▸ hf)
    rw [hentering]
    exact h.cell?_of_occupant hocc
  have hqueue : (m.entering a false).residents.queueFrom hand frames = queue :=
    (h.queueFrom_entering a false hand frames).trans hm.queue_eq
  have hcount : queue.countP (·.2) ≤ frames :=
    Nat.le_trans List.countP_le_length hm.queued.length_le
  obtain ⟨victim, w, r', hsweep, hlt, hcell, hsettle⟩ :=
    Policy.Clock.sweep?_settle frames (h.entering a false).exclusive hm.lt hcells (hqueue ▸ hcount)
  rw [hqueue] at hsettle
  have hne : frames ≠ 0 := Nat.ne_zero_of_lt hm.lt
  rw [hm.policy] at hchosen
  simp only [Policy.evict?, Policy.Clock.evict?, if_neg hne, hsweep, Option.map_some,
    Option.some.injEq] at hchosen
  subst hchosen
  exact ⟨victim, w, rfl, rfl, hlt, hcell, hsettle⟩

/-- The page that takes the place of the victim comes last in the queue. -/
theorem Mimics.replace (hm : m.Mimics frames hand queue) (h : m.Consistent)
    (hsize : m'.frameTable.size = m.frameTable.size) {a : Address} {frame v : Nat}
    {choice : Policy.Choice} (hfull : m.frameTable.firstFree? = none)
    (hchosen : m.policy.evict? (m.entering a false).residents = some choice)
    (hspares : (m.entering a false).residents.Spares choice.residents)
    (hnamed : choice.victim = some frame)
    (hused : Used choice.residents choice.policy v frame m') :
    (∃ hand', m'.Mimics frames hand' ((settle queue).tail ++ [(v, true)])) ∧
      (settle queue).head?.map Prod.fst = m.residents.vpn? frame := by
  obtain ⟨victim, w, hvictim, hpolicy, hlt, hcell, hsettle⟩ := hm.chosen h hfull hchosen
  have hframe : victim = frame := Option.some.inj (hvictim.symm.trans hnamed)
  subst hframe
  have hlength := hm.queued.length_of_full h hfull
  obtain ⟨rest, hrest, -⟩ := ResidentPages.queueFrom_advance hlt hcell
  have hsettled : settle queue = (w, false) :: rest := hsettle.symm.trans hrest
  have hrestLength : rest.length + 1 = frames := by
    rw [← hlength, ← Policy.length_settle queue, hsettled, List.length_cons]
  obtain ⟨hqueued, hvictimPage⟩ :=
    hm.queued.replace hlength hsize hlt (h.vpn?_spared hspares) hrest hrestLength hused
  rw [hsettled]
  refine ⟨⟨_, hqueued.mimics ?_⟩, hvictimPage.symm⟩
  rw [hused.policy, hpolicy]
  rfl

/-! ## Runs -/

/-- The machine is where the queue algorithm is: the same queue, the same counts, and the evictions
so far are the pages that were dropped. -/
structure Follows (frames : Nat) (s : SecondChance) (m : Machine σ) (evictions : List Nat) :
    Prop where
  consistent : m.Consistent
  mimics : ∃ hand, m.Mimics frames hand s.queue
  hits : m.counters.hits = s.hits
  misses : m.counters.misses = s.misses
  victims : evictions = s.victims

/-- One use of a page is one access of the queue. -/
theorem Follows.uses {s : SecondChance} {evictions : List Nat}
    (hm : Follows frames s m evictions) (h' : m'.Consistent)
    (hsize : m'.frameTable.size = m.frameTable.size) {a : Address} (huses : m.Uses a m') :
    Follows frames (s.access frames a.vpn) m' (evictions ++ m.evicted m') := by
  have h := hm.consistent
  obtain ⟨hand, hmimics⟩ := hm.mimics
  unfold SecondChance.access
  cases huses with
  | hit found used hits misses =>
    have hmem := hmimics.mem_iff.mpr (mem_pagesInMemory.mpr ⟨_, found⟩)
    rw [if_pos hmem, used.evicted_hit found, List.append_nil]
    refine ⟨h', ⟨hand, hmimics.hit h hsize found used⟩, ?_, ?_, hm.victims⟩
    · rw [hits, hm.hits]
    · rw [misses, hm.misses]
  | @filled frame absent free used hits misses =>
    have hnot := mt hmimics.mem_iff.mp absent
    obtain ⟨hframe, hlt⟩ := hmimics.queued.eq_length_of_free h free
    have hnone : m.residents.vpn? frame = none :=
      ResidentPages.vpn?_of_free (FrameTable.firstFree?_eq_some free).2
    rw [if_neg hnot, if_pos (hframe ▸ hlt), used.evicted_miss h (fun _ => rfl) absent, hnone]
    refine ⟨h', ⟨hand, hmimics.fill h hsize free used⟩, ?_, ?_, ?_⟩
    · rw [hits, hm.hits]
    · rw [misses, hm.misses]
    · rw [Option.toList_none, List.append_nil, hm.victims]
  | @replaced frame choice absent full chosen spares named used hits misses =>
    have hnot := mt hmimics.mem_iff.mp absent
    have hlength := hmimics.queued.length_of_full h full
    have hvpn := h.vpn?_spared spares
    obtain ⟨hmimics', hvictim⟩ := hmimics.replace h hsize full chosen spares named used
    rw [if_neg hnot, if_neg (by omega), used.evicted_miss h hvpn absent]
    refine ⟨h', hmimics', ?_, ?_, ?_⟩
    · rw [hits, hm.hits]
    · rw [misses, hm.misses]
    · rw [hm.victims, hvictim]

theorem follows_build (hframes : 0 < frames) (seed : UInt64) (swap : σ) :
    Follows frames .empty (build frames (.ofAlgorithm .clock seed) swap) [] where
  consistent := consistent_build frames _ swap
  mimics := ⟨0, mimics_build hframes seed swap⟩
  hits := rfl
  misses := rfl
  victims := rfl

/-- A request that is served is one access of the queue. -/
theorem Follows.serve [BackingStore σ] [LawfulStore σ] {s : SecondChance} {evictions : List Nat}
    (hm : Follows frames s m evictions) {q : Request} {reply : Reply}
    (hserved : (m.serve q).result = .ok reply) :
    Follows frames (s.access frames q.address.vpn) (m.serve q).machine
      (keepEvictions evictions m q) :=
  hm.uses (hm.consistent.serve q) (serve_cases hm.consistent q).sameExtent.frames
    (serve_uses hm.consistent hserved)

/-- A run under second chance in which every request is served is a run of the queue algorithm. What
the frames hold from the hand on, with the marks, is the queue; while it is shorter than there are
frames the hand is at the first of them and the frames are in use up to its length. So the same
pages are in memory, the same pages are evicted in the same order, and hits and misses agree. -/
theorem clock_refines_secondChance (frames slots : Nat) (hframes : 0 < frames) (seed : UInt64)
    (qs : List Request)
    (hserved : (build frames (.ofAlgorithm .clock seed) (SlotStore.empty slots)).allServed qs
      = true) :
    let m₀ := build frames (.ofAlgorithm .clock seed) (SlotStore.empty slots)
    let m := m₀.serveAll qs
    let model := SecondChance.run frames (qs.map (·.address.vpn))
    (∃ hand, hand < frames ∧ m.policy = .clock ⟨hand, frames⟩ ∧
      ((List.range frames).map fun i => (hand + i) % frames).filterMap m.residents.cell?
        = model.queue ∧
      (model.queue.length < frames → hand = 0) ∧
      ∀ f, f < frames → (m.residents.cell? f ≠ none ↔ f < model.queue.length)) ∧
      (∀ v, v ∈ m.pagesInMemory ↔ v ∈ model.queue.map Prod.fst) ∧
      m₀.watch keepEvictions [] qs = model.victims ∧
      m.counters.hits = model.hits ∧ m.counters.misses = model.misses := by
  intro m₀ m model
  have hstep : ∀ (past : List Request) (m : Machine SlotStore) (evictions : List Nat)
      (q : Request) (reply : Reply),
      Follows frames (SecondChance.run frames (past.map (·.address.vpn))) m evictions →
      (m.serve q).result = .ok reply →
      Follows frames (SecondChance.run frames ((past ++ [q]).map (·.address.vpn)))
        (m.serve q).machine (keepEvictions evictions m q) := by
    intro past m evictions q reply hm hok
    rw [List.map_append, List.map_singleton, SecondChance.run_concat]
    exact hm.serve hok
  have hbuild : Follows frames (SecondChance.run frames ([].map fun q : Request => q.address.vpn))
      m₀ [] := follows_build hframes seed _
  have hm : Follows frames model m (m₀.watch keepEvictions [] qs) :=
    served_induction keepEvictions hstep qs [] hserved hbuild
  obtain ⟨hand, hmimics⟩ := hm.mimics
  exact ⟨⟨hand, hmimics.lt, hmimics.policy, hmimics.queue_eq, hmimics.start, hmimics.inUse⟩,
    fun v => hmimics.mem_iff.symm, hm.victims, hm.hits, hm.misses⟩

/-- Two frames and three pages: page 1 gets its second chance and page 2 has to leave. -/
theorem clock_refines_secondChance_of_three :
    let m₀ := build 2 (.ofAlgorithm .clock 0) (SlotStore.empty 4)
    let qs : List Request := [.translate ⟨0x1000⟩ .load, .translate ⟨0x2000⟩ .load,
      .translate ⟨0x3000⟩ .store, .translate ⟨0x2000⟩ .load]
    0 < 2 ∧ m₀.allServed qs = true ∧
      m₀.watch keepEvictions [] qs
        = (SecondChance.run 2 (qs.map (·.address.vpn))).victims := by
  intro m₀ qs
  have hserved : m₀.allServed qs = true := by decide +kernel
  refine ⟨by decide, hserved, ?_⟩
  exact (clock_refines_secondChance 2 4 (by decide) 0 qs hserved).2.2.1

end Machine

end DemandPaging
