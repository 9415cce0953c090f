import DemandPaging.Proofs.Machine.MostRecent
import DemandPaging.Proofs.Machine.SwapRoom
import DemandPaging.Proofs.Machine.Victims

/-!
# More memory never hurts recency

With a slot on swap for every page, no request within the frame is ever refused
(`allServed_of_room`), whatever the algorithm. Under recency the pages in memory are then the most
recent ones, as many as there are frames, and those of a smaller memory are the first among those of
a larger one. Two machines that serve the same requests can be compared step by step:

> `Includes.serve`: a page that the smaller memory holds the larger one holds too, so it has the
> hits of the smaller; and where the larger one has no room left, neither has the smaller.

> `lru_inclusion`: after any part of a run more memory means more hits, fewer misses and fewer
> evictions.

Nothing is said about frames, and there is nothing to say: the two machines put their pages into
different ones.
-/

namespace DemandPaging.Machine

/-! ## A slot for every page -/

/-- A request that is served strands no frame. -/
theorem strandedAfter_nil {α : Type} (value : α) (frame? : Option Nat) :
    strandedAfter [] (.ok value : Except Failure α) frame? = [] := by
  cases frame? <;> rfl

theorem length_pagesTouched_le {qs qs' : List Request} (h : qs ⊆ qs') :
    (pagesTouched qs).length ≤ (pagesTouched qs').length :=
  (nodup_eraseDups _).length_le_of_subset (pagesTouched_subset h)

section

variable {slots : Nat} {past : List Request} {m : Machine SlotStore} {evictions : List Nat}

/-- While no frame is stranded and there is a slot for every page, a request is served. -/
theorem SlotsTracked.served (hm : SlotsTracked slots past m evictions) (ht : m.Tracks [])
    (hpos : 0 < m.frameTable.size) (hroom : (pagesTouched past).length ≤ slots) {q : Request}
    (hin : q.address.inFrame = true) : ∃ reply, (m.serve q).result = .ok reply := by
  have hserves := serve_cases hm.consistent q
  have hvictim : (m.serve q).result ≠ .error (.refused .noVictim) := by
    intro hnone
    rw [hnone] at hserves
    obtain ⟨-, -, -, hall⟩ := hserves.stranded_of_noVictim ht hpos
    exact List.not_mem_nil (hall 0 hpos)
  rcases hserves.ok_or_exhausted ht hpos hin hvictim with hok | ⟨frame, hexhausted⟩
  · exact hok
  · have hrefusal := Outcome.refusal?_eq_some.mpr hexhausted
    have hlt := hm.not_outOfSlots ((hm.exhausted_iff q frame _).mp hrefusal).2.2.2
    omega

/-- Where every page has a slot, every request is served. -/
theorem allServed_of_room : ∀ (qs : List Request) {past : List Request} {m : Machine SlotStore}
    {evictions : List Nat}, SlotsTracked slots past m evictions → m.Tracks [] →
    0 < m.frameTable.size → (∀ q ∈ qs, q.address.inFrame = true) →
    (pagesTouched (past ++ qs)).length ≤ slots → m.allServed qs = true
  | [], _, _, _, _, _, _, _, _ => rfl
  | q :: qs, past, m, evictions, hm, ht, hpos, hin, hroom => by
    have hpast := length_pagesTouched_le (List.subset_append_left past (q :: qs))
    obtain ⟨reply, hok⟩ := hm.served ht hpos (Nat.le_trans hpast hroom) (hin q (by simp))
    have hserves := serve_cases hm.consistent q
    rw [hok] at hserves
    have ht' := ht.serves hserves
    rw [strandedAfter_nil] at ht'
    have hpos' : 0 < (m.serve q).machine.frameTable.size := hserves.sameExtent.frames ▸ hpos
    rw [List.append_cons] at hroom
    refine allServed_cons.mpr ⟨⟨reply, hok⟩, ?_⟩
    exact allServed_of_room qs (hm.serve q) ht' hpos' (fun q' hq' => hin q' (by simp [hq'])) hroom

end

/-- With frames, and a slot for every page of a run, every request of the run is served. -/
theorem allServed_build {frames slots : Nat} (hpos : 0 < frames) (policy : Policy)
    {qs : List Request} (hin : ∀ q ∈ qs, q.address.inFrame = true)
    (hroom : (qs.map (·.address.vpn)).eraseDups.length ≤ slots) :
    (build frames policy (SlotStore.empty slots)).allServed qs = true := by
  have htouched : pagesTouched qs = (qs.map (·.address.vpn)).eraseDups := by
    unfold pagesTouched
    rw [List.filter_eq_self.mpr hin]
  have hsize : (build frames policy (SlotStore.empty slots)).frameTable.size = frames :=
    FrameTable.size_empty frames
  refine allServed_of_room qs (slotsTracked_build frames policy slots)
    (tracks_build frames policy _) ?_ hin ?_
  · rw [hsize]
    exact hpos
  · rw [List.nil_append, htouched]
    exact hroom

/-! ## Two machines side by side -/

variable {frames frames' : Nat} {past : List Request} {m m' : Machine SlotStore}

/-- What a request is counted as, by the pages that were used most recently. -/
theorem RanksRecent.counts (hm : RanksRecent frames past m) (hpos : 0 < frames) {q : Request}
    {reply : Reply} (hok : (m.serve q).result = .ok reply) :
    let recent := recentPages past
    let after := (m.serve q).machine.counters
    after.hits = m.counters.hits + (if q.address.vpn ∈ recent.take frames then 1 else 0) ∧
      after.misses = m.counters.misses + (if q.address.vpn ∈ recent.take frames then 0 else 1) ∧
      after.evictions = m.counters.evictions +
        (if q.address.vpn ∈ recent.take frames ∨ recent.length < frames then 0 else 1) := by
  intro recent after
  obtain ⟨s, xs, hranks⟩ := hm.ranks
  obtain ⟨hhits, hmisses, hevicted⟩ :=
    hranks.counts hm.consistent (serve_uses hm.consistent hok)
  refine ⟨hhits, hmisses, ?_⟩
  have hcount := (serve_cases hm.consistent q).evictions_eq hm.consistent
  have hroom : min frames (recentPages past).length < frames ↔
      (recentPages past).length < frames := by omega
  simp only [hm.size, List.length_take, hroom] at hevicted
  show (m.serve q).machine.counters.evictions = _
  rw [hcount, hevicted]
  split
  next => rfl
  next hfull =>
    -- memory is full, so there is a page that is the last
    have hne : recent.take frames ≠ [] := by
      intro hnil
      have hlength := congrArg List.length hnil
      rw [List.length_take, List.length_nil] at hlength
      have hlt : recent.length < frames := by omega
      exact hfull (Or.inr hlt)
    rw [List.getLast?_eq_some_getLast hne]
    rfl

/-- Both machines have served the requests so far, and the larger memory did no worse. -/
structure Includes (frames frames' : Nat) (past : List Request) (m m' : Machine SlotStore) :
    Prop where
  small : RanksRecent frames past m
  large : RanksRecent frames' past m'
  hits : m.counters.hits ≤ m'.counters.hits
  misses : m'.counters.misses ≤ m.counters.misses
  evictions : m'.counters.evictions ≤ m.counters.evictions

/-- The pages in the smaller memory stay among those in the larger over a request. -/
theorem Includes.serve (h : Includes frames frames' past m m') (hpos : 0 < frames)
    (hle : frames ≤ frames') {q : Request} {reply reply' : Reply}
    (hok : (m.serve q).result = .ok reply) (hok' : (m'.serve q).result = .ok reply') :
    Includes frames frames' (past ++ [q]) (m.serve q).machine (m'.serve q).machine := by
  obtain ⟨hhits, hmisses, hevictions⟩ := h.small.counts hpos hok
  obtain ⟨hhits', hmisses', hevictions'⟩ := h.large.counts (Nat.lt_of_lt_of_le hpos hle) hok'
  have hsubset : (recentPages past).take frames ⊆ (recentPages past).take frames' :=
    List.take_subset_take_left _ hle
  have hh := h.hits
  have hm := h.misses
  have he := h.evictions
  refine ⟨h.small.serve hok, h.large.serve hok', ?_, ?_, ?_⟩
  · rw [hhits, hhits']
    by_cases hv : q.address.vpn ∈ (recentPages past).take frames
    · rw [if_pos hv, if_pos (hsubset hv)]
      omega
    · rw [if_neg hv]
      omega
  · rw [hmisses, hmisses']
    by_cases hv : q.address.vpn ∈ (recentPages past).take frames
    · rw [if_pos hv, if_pos (hsubset hv)]
      omega
    · rw [if_neg hv]
      split <;> omega
  · rw [hevictions, hevictions']
    by_cases hv : q.address.vpn ∈ (recentPages past).take frames ∨
        (recentPages past).length < frames
    · have hv' : q.address.vpn ∈ (recentPages past).take frames' ∨
          (recentPages past).length < frames' := by
        rcases hv with hmem | hlt
        · exact Or.inl (hsubset hmem)
        · exact Or.inr (Nat.lt_of_lt_of_le hlt hle)
      rw [if_pos hv, if_pos hv']
      omega
    · rw [if_neg hv]
      split <;> omega

/-- The pages in the smaller memory stay among those in the larger over a run. -/
theorem Includes.serveAll (hpos : 0 < frames) (hle : frames ≤ frames') :
    ∀ (qs : List Request) {past : List Request} {m m' : Machine SlotStore},
      Includes frames frames' past m m' → m.allServed qs = true → m'.allServed qs = true →
        Includes frames frames' (past ++ qs) (m.serveAll qs) (m'.serveAll qs)
  | [], past, m, m', h, _, _ => by
    rw [List.append_nil]
    exact h
  | q :: qs, past, m, m', h, hserved, hserved' => by
    obtain ⟨⟨reply, hok⟩, hrest⟩ := allServed_cons.mp hserved
    obtain ⟨⟨reply', hok'⟩, hrest'⟩ := allServed_cons.mp hserved'
    rw [List.append_cons]
    exact Includes.serveAll hpos hle qs (h.serve hpos hle hok hok') hrest hrest'

/-- The pages of the smaller memory are in the larger one. -/
theorem Includes.pagesInMemory_subset (h : Includes frames frames' past m m')
    (hle : frames ≤ frames') : m.pagesInMemory ⊆ m'.pagesInMemory := by
  obtain ⟨s, xs, hranks⟩ := h.small.ranks
  obtain ⟨s', xs', hranks'⟩ := h.large.ranks
  intro v hv
  exact hranks'.mem_iff.mp (List.take_subset_take_left _ hle (hranks.mem_iff.mpr hv))

/-- Two machines under recency serve the same requests, with a slot for every page. At every time
the pages in the smaller memory are in the larger one, and the larger one has had no fewer hits, no
more misses and no more evictions. -/
theorem lru_inclusion (frames frames' slots slots' : Nat) (seed seed' : UInt64)
    (qs : List Request) (hpos : 1 ≤ frames) (hle : frames ≤ frames')
    (hin : ∀ q ∈ qs, q.address.inFrame = true)
    (hroom : (qs.map (·.address.vpn)).eraseDups.length ≤ slots)
    (hroom' : (qs.map (·.address.vpn)).eraseDups.length ≤ slots') :
    let small := build frames (.ofAlgorithm .lru seed) (SlotStore.empty slots)
    let large := build frames' (.ofAlgorithm .lru seed') (SlotStore.empty slots')
    small.allServed qs = true ∧ large.allServed qs = true ∧ ∀ past, past <+: qs →
      let m := small.serveAll past
      let m' := large.serveAll past
      m.pagesInMemory ⊆ m'.pagesInMemory ∧ m.counters.hits ≤ m'.counters.hits ∧
        m'.counters.misses ≤ m.counters.misses ∧
        m'.counters.evictions ≤ m.counters.evictions := by
  intro small large
  have hserved := allServed_build hpos (.ofAlgorithm .lru seed) hin hroom
  have hserved' := allServed_build (Nat.le_trans hpos hle) (.ofAlgorithm .lru seed') hin hroom'
  refine ⟨hserved, hserved', ?_⟩
  intro past hpast m m'
  obtain ⟨rest, rfl⟩ := hpast
  have hstart : Includes frames frames' [] small large :=
    ⟨ranksRecent_build frames seed _, ranksRecent_build frames' seed' _, Nat.le_refl _,
      Nat.le_refl _, Nat.le_refl _⟩
  have h : Includes frames frames' past m m' := hstart.serveAll hpos hle past
    (allServed_append.mp hserved).1 (allServed_append.mp hserved').1
  exact ⟨h.pagesInMemory_subset hle, h.hits, h.misses, h.evictions⟩

/-- One frame against two, with as many slots as pages: the page used before the last is still in
the larger memory. -/
theorem lru_inclusion_of_two :
    let qs : List Request := [.translate ⟨0x1000⟩ .load, .translate ⟨0x2000⟩ .store,
      .translate ⟨0x1000⟩ .load]
    let small := build 1 (.ofAlgorithm .lru 0) (SlotStore.empty 2)
    let large := build 2 (.ofAlgorithm .lru 0) (SlotStore.empty 2)
    (∀ q ∈ qs, q.address.inFrame = true) ∧ (qs.map (·.address.vpn)).eraseDups.length ≤ 2 ∧
      (small.serveAll qs).pagesInMemory ⊆ (large.serveAll qs).pagesInMemory ∧
      (large.serveAll qs).counters.evictions ≤ (small.serveAll qs).counters.evictions := by
  intro qs small large
  have hin : ∀ q ∈ qs, q.address.inFrame = true := by decide
  have hroom : (qs.map (·.address.vpn)).eraseDups.length ≤ 2 := by decide
  obtain ⟨-, -, hall⟩ := lru_inclusion 1 2 2 2 0 0 qs (by decide) (by decide) hin hroom hroom
  obtain ⟨hsubset, -, -, hevictions⟩ := hall qs (List.prefix_refl qs)
  exact ⟨hin, hroom, hsubset, hevictions⟩

end DemandPaging.Machine
