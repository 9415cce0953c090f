import DemandPaging.Proofs.Machine.Extent
import DemandPaging.Proofs.Machine.SlotOwners

/-!
# Room on swap

Over a memory store a request is refused for want of swap when it has to evict a page that was never
evicted before and every slot is owned (`OutOfSlots`), and in no other case: this is the converse
that each stage adds to its inversion. Every page that owns a slot was touched by the run, and so
was the victim, so a slot for every page that is touched is enough.

> `slots_follow_evictions`: who owns which slot after any run, and when swap is exhausted.
-/

namespace DemandPaging

namespace Machine

variable {m m' m₀ : Machine SlotStore} {evictions : List Nat}

/-! ## Exhaustion -/

/-- A pageout finds no room exactly if its page has no slot and every slot is taken. -/
theorem SlotsFollow.save_none_iff (hm : m.SlotsFollow evictions) {victim : EntryRef}
    {page : PageEntry} (hpage : m.pageTable.page? victim = some page) (bytes : Page) :
    (∃ swap, BackingStore.save m.swap bytes page.entry.slot? = (none, swap)) ↔
      page.vpn ∉ evictions ∧ m.swap.used = m.swap.capacity := by
  rcases hm.save_cases hpage bytes with
    ⟨offset, swap, pages, hsave, -, -, -, hroom⟩ | ⟨hnew, hfull, hnone⟩
  · refine ⟨?_, ?_⟩
    · intro hex
      obtain ⟨swap', hnone⟩ := hex
      have hanswer := hnone.symm.trans hsave
      simp at hanswer
    · intro hout
      rcases hroom with hold | hlt
      · exact absurd hold hout.1
      · exact absurd hout.2 (Nat.ne_of_lt hlt)
  · exact ⟨fun _ => ⟨hnew, hfull⟩, fun _ => ⟨m.swap, hnone⟩⟩

/-- Memory is full, the policy names the page in `frame`, which was never evicted, and there is no
slot left for it. -/
structure OutOfSlots (m : Machine SlotStore) (evictions : List Nat) (frame : Nat) : Prop where
  full : m.frameTable.firstFree? = none
  victim : ∃ choice v, m.policy.evict? m.residents = some choice ∧ choice.victim = some frame ∧
    m.residents.vpn? frame = some v ∧ v ∉ evictions
  used : m.swap.used = m.swap.capacity

/-- A victim that is named finds no room exactly if the machine is out of slots. -/
theorem Names.unsaved_iff (hm : m.SlotsFollow evictions) {choice : Policy.Choice} {frame : Nat}
    {victim : EntryRef} {page : PageEntry} {bytes : Page}
    (names : m.Names choice frame victim page bytes) :
    (∃ swap, BackingStore.save m.swap bytes page.entry.slot? = (none, swap)) ↔
      m.OutOfSlots evictions frame := by
  refine Iff.trans ((hm.choosing names.spares).save_none_iff names.page bytes) ?_
  refine ⟨?_, ?_⟩
  · intro hfull
    exact ⟨names.full, ⟨choice, page.vpn, names.chosen, names.named, names.vpn?_frame, hfull.1⟩,
      hfull.2⟩
  · intro hout
    obtain ⟨choice', v, -, -, hv, hnew⟩ := hout.victim
    have heq : page.vpn = v := Option.some.inj (names.vpn?_frame.symm.trans hv)
    exact ⟨heq ▸ hnew, hout.used⟩

/-- The policy has one answer only. -/
theorem OutOfSlots.frame_eq {frame g : Nat} (hout : m.OutOfSlots evictions frame)
    {choice : Policy.Choice} (hchosen : m.policy.evict? m.residents = some choice)
    (hnamed : choice.victim = some g) : frame = g := by
  obtain ⟨choice', v, hchosen', hnamed', -⟩ := hout.victim
  have heq : choice' = choice := Option.some.inj (hchosen'.symm.trans hchosen)
  exact Option.some.inj ((heq ▸ hnamed').symm.trans hnamed)

/-- A machine out of slots cannot free a frame. -/
theorem OutOfSlots.not_frees (hm : m.SlotsFollow evictions) {frame g : Nat}
    (hout : m.OutOfSlots evictions frame) : ¬ m.Frees m₀ g := by
  intro hfrees
  cases hfrees with
  | found free =>
    rw [hout.full] at free
    simp at free
  | evicted names saved _ =>
    have heq := hout.frame_eq names.chosen names.named
    subst heq
    obtain ⟨swap, hnone⟩ := (names.unsaved_iff hm).mpr hout
    have hanswer := hnone.symm.trans saved
    simp at hanswer

/-- A search for a frame reports full swap when the machine is out of slots, and only then. -/
theorem Starves.exhausted_iff (hm : m.SlotsFollow evictions) {e : PagingError}
    (hstarves : m.Starves e m') {frame capacity : Nat} :
    e = .swapExhausted frame capacity ↔
      capacity = m.swap.capacity ∧ m.OutOfSlots evictions frame := by
  cases hstarves with
  | noVictim _ chosen _ none =>
    refine ⟨fun he => by simp at he, fun hout => ?_⟩
    obtain ⟨choice', v, hchosen', hnamed', -⟩ := hout.2.victim
    rw [Option.some.inj (hchosen'.symm.trans chosen), none] at hnamed'
    simp at hnamed'
  | vacant _ chosen spares named free =>
    refine ⟨fun he => by simp at he, fun hout => ?_⟩
    obtain ⟨choice', v, -, -, hv, -⟩ := hout.2.victim
    rw [hout.2.frame_eq chosen named] at hv
    rw [ResidentPages.vpn?_of_free free] at hv
    simp at hv
  | exhausted names unsaved =>
    have hcapacity : SlotStore.capacity _ = m.swap.capacity := SlotStore.capacity_save unsaved
    refine ⟨?_, ?_⟩
    · intro he
      obtain ⟨rfl, rfl⟩ := PagingError.swapExhausted.inj he
      exact ⟨hcapacity, (names.unsaved_iff hm).mp ⟨_, unsaved⟩⟩
    · intro hout
      rw [hout.1, hout.2.frame_eq names.chosen names.named, ← hcapacity]
      rfl

theorem BringsIn.exhausted_iff (hm : m.SlotsFollow evictions) {r : EntryRef}
    {result : Except Failure Nat} (hbrings : m.BringsIn r result m') {frame capacity : Nat} :
    result = .error (.refused (.swapExhausted frame capacity)) ↔
      capacity = m.swap.capacity ∧ m.OutOfSlots evictions frame := by
  cases hbrings with
  | starved starves => simpa using starves.exhausted_iff hm
  | unreadable frees _ _ unread =>
    rw [LawfulStore.fetch_error unread]
    exact ⟨fun he => by simp at he, fun hout => absurd frees (hout.2.not_frees hm)⟩
  | firstTouch frees _ _ _ _ =>
    exact ⟨fun he => by simp at he, fun hout => absurd frees (hout.2.not_frees hm)⟩
  | swappedIn frees _ _ _ _ _ =>
    exact ⟨fun he => by simp at he, fun hout => absurd frees (hout.2.not_frees hm)⟩

/-- A translation reports full swap only for a page that is not in memory. -/
theorem Translates.exhausted_iff (hm : m.SlotsFollow evictions) (h : m.Consistent) {a : Address}
    {kind : AccessKind} {result : Except Failure Nat} (ht : m.Translates a kind result m')
    {frame capacity : Nat} :
    result = .error (.refused (.swapExhausted frame capacity)) ↔
      capacity = m.swap.capacity ∧ a.inFrame = true ∧ m.frameOf? a = none ∧
        (m.entering a false).OutOfSlots evictions frame := by
  have hm' := hm.entering h a false
  -- a page that faults is in no frame
  have hframe : ∀ {p : PageEntry}, (m.entering a false).pageTable.page? (m.refOf a) = some p →
      p.entry.frame? = none → m.frameOf? a = none := by
    intro p hp habsent
    refine Option.eq_none_iff_forall_ne_some.mpr fun g hg => ?_
    exact PageTable.not_resident_of_frame?_eq_none hp habsent ((h.frameOf?_eq_some false).mp hg)
  cases ht with
  | outside hout =>
    refine ⟨fun he => by simp at he, fun hin => ?_⟩
    rw [hout] at hin
    simp at hin
  | hit _ resident =>
    refine ⟨fun he => by simp at he, fun hin => ?_⟩
    rw [(h.frameOf?_eq_some true).mpr resident] at hin
    simp at hin
  | fault _ _ _ brings =>
    refine ⟨fun he => by simp at he, fun hin => ?_⟩
    have he := (brings.exhausted_iff hm').mpr ⟨hin.1, hin.2.2.2⟩
    simp at he
  | refused hin page absent brings =>
    refine (brings.exhausted_iff hm').trans ⟨?_, ?_⟩
    · exact fun hout => ⟨hout.1, hin, hframe page absent, hout.2⟩
    · exact fun hout => ⟨hout.1, hout.2.2.2⟩

/-- A request reports full swap as its translation does. -/
theorem Serves.exhausted_iff (hm : m.SlotsFollow evictions) (h : m.Consistent) {q : Request}
    {result : Except Failure Reply} (hserves : m.Serves q result m') {frame capacity : Nat} :
    result = .error (.refused (.swapExhausted frame capacity)) ↔
      capacity = m.swap.capacity ∧ q.address.inFrame = true ∧ m.frameOf? q.address = none ∧
        (m.entering q.address false).OutOfSlots evictions frame := by
  obtain ⟨placed, m₁, memory, mismatches, translates, -, hfailure⟩ := hserves.translates
  exact (hfailure _).trans (translates.exhausted_iff hm h)

/-! ## Runs -/

/-- The history of evictions only grows. -/
theorem isPrefix_watch_keepEvictions (m : Machine SlotStore) (evictions : List Nat)
    (qs : List Request) : evictions <+: m.watch keepEvictions evictions qs := by
  refine watch_induction (P := fun _ notes => evictions <+: notes) ?_ qs (List.prefix_refl _)
  intro m notes q hprefix
  exact hprefix.trans (List.prefix_append _ _)

/-- The pages that requests ask for, each once. An address whose offset is not simulated asks for
none. -/
def pagesTouched (qs : List Request) : List Nat :=
  ((qs.filter (·.address.inFrame)).map (·.address.vpn)).eraseDups

/-- A page is asked for if some request has an address in it. -/
theorem mem_pagesTouched {qs : List Request} {v : Nat} :
    v ∈ pagesTouched qs ↔ ∃ q ∈ qs, q.address.inFrame = true ∧ q.address.vpn = v := by
  unfold pagesTouched
  rw [List.mem_eraseDups, List.mem_map]
  simp only [List.mem_filter, and_assoc]

/-- More requests ask for no fewer pages. -/
theorem pagesTouched_subset {qs qs' : List Request} (h : qs ⊆ qs') :
    pagesTouched qs ⊆ pagesTouched qs' := by
  intro v hv
  obtain ⟨q, hq, htouched⟩ := mem_pagesTouched.mp hv
  exact mem_pagesTouched.mpr ⟨q, h hq, htouched⟩

/-- What holds of a machine over a memory store after a run, and of the evictions on the way. -/
structure SlotsTracked (slots : Nat) (past : List Request) (m : Machine SlotStore)
    (evictions : List Nat) : Prop where
  consistent : m.Consistent
  slotsFollow : m.SlotsFollow evictions
  capacity : m.swap.capacity = slots
  inMemory : m.pagesInMemory ⊆ pagesTouched past
  evicted : evictions ⊆ pagesTouched past

theorem slotsTracked_build (frames : Nat) (policy : Policy) (slots : Nat) :
    SlotsTracked slots [] (build frames policy (SlotStore.empty slots)) [] where
  consistent := consistent_build frames policy _
  slotsFollow := slotsFollow_build frames policy slots
  capacity := by simp [build, SlotStore.capacity, SlotStore.empty]
  inMemory v hv := by
    obtain ⟨frame, hframe⟩ := mem_pagesInMemory.mp hv
    rw [ResidentPages.vpn?_of_free (FrameTable.occupant?_empty frames frame)] at hframe
    simp at hframe
  evicted := by simp

/-- A request keeps to the account, with its own page and its own evictions. -/
theorem SlotsTracked.serve {slots : Nat} {past : List Request}
    (hm : SlotsTracked slots past m evictions) (q : Request) :
    SlotsTracked slots (past ++ [q]) (m.serve q).machine
      (evictions ++ m.evicted (m.serve q).machine) := by
  have hserves := serve_cases hm.consistent q
  have hpast : pagesTouched past ⊆ pagesTouched (past ++ [q]) :=
    pagesTouched_subset (List.subset_append_left past [q])
  refine ⟨hserves.consistent hm.consistent, hserves.slotsFollow hm.slotsFollow hm.consistent,
    hserves.sameExtent.capacity.trans hm.capacity, ?_, ?_⟩
  · intro v hv
    rcases hserves.mem_pagesInMemory hm.consistent hv with hold | ⟨hin, hnew⟩
    · exact hpast (hm.inMemory hold)
    · exact mem_pagesTouched.mpr ⟨q, by simp, hin, hnew.symm⟩
  · intro v hv
    rcases List.mem_append.mp hv with hold | hnew
    · exact hpast (hm.evicted hold)
    · exact hpast (hm.inMemory (mem_evicted.mp hnew).1)

/-- Spelled out for a request: the policy is asked after the page tables have been walked, and by
then no frame has another page. -/
theorem Consistent.outOfSlots_entering (h : m.Consistent) {a : Address} {frame : Nat} :
    (m.entering a false).OutOfSlots evictions frame ↔
      m.frameTable.firstFree? = none ∧
        (∃ choice v, m.policy.evict? ⟨m.frameTable, (m.pageTable.walk a).table⟩ = some choice ∧
          choice.victim = some frame ∧ m.residents.vpn? frame = some v ∧ v ∉ evictions) ∧
        m.swap.used = m.swap.capacity := by
  have hvpn : (m.entering a false).residents.vpn? frame = m.residents.vpn? frame :=
    h.vpn?_spared (.refl _) frame
  refine ⟨?_, ?_⟩
  · intro hout
    obtain ⟨choice, v, hchosen, hnamed, hv, hnew⟩ := hout.victim
    exact ⟨hout.full, ⟨choice, v, hchosen, hnamed, hvpn.symm.trans hv, hnew⟩, hout.used⟩
  · intro hex
    obtain ⟨hfull, ⟨choice, v, hchosen, hnamed, hv, hnew⟩, hused⟩ := hex
    exact ⟨hfull, ⟨choice, v, hchosen, hnamed, hvpn.trans hv, hnew⟩, hused⟩

/-- After any run the next request reports full swap exactly if the machine is out of slots. -/
theorem SlotsTracked.exhausted_iff {slots : Nat} {past : List Request}
    (hm : SlotsTracked slots past m evictions) (q : Request) (frame capacity : Nat) :
    (m.serve q).refusal? = some (.swapExhausted frame capacity) ↔
      capacity = slots ∧ q.address.inFrame = true ∧ m.frameOf? q.address = none ∧
        (m.entering q.address false).OutOfSlots evictions frame := by
  rw [Outcome.refusal?_eq_some, ← hm.capacity]
  exact (serve_cases hm.consistent q).exhausted_iff hm.slotsFollow hm.consistent

/-- With a slot for every page that is asked for, the machine is never out of slots. -/
theorem SlotsTracked.not_outOfSlots {slots : Nat} {past : List Request}
    (hm : SlotsTracked slots past m evictions) {a : Address} {frame : Nat}
    (hout : (m.entering a false).OutOfSlots evictions frame) :
    slots < (pagesTouched past).length := by
  obtain ⟨choice, v, -, -, hv, hnew⟩ := hout.victim
  have hinMemory : v ∈ m.pagesInMemory := by
    rw [← hm.consistent.pagesInMemory_entering a false]
    exact mem_pagesInMemory.mpr ⟨frame, hv⟩
  have hused : slots = evictions.eraseDups.length := by
    rw [← hm.slotsFollow.used_eq, ← hm.capacity]
    exact hout.used.symm
  -- the victim was touched, and so was every page that has a slot
  have hnodup : (v :: evictions.eraseDups).Nodup :=
    List.nodup_cons.mpr ⟨mt List.mem_eraseDups.mp hnew, nodup_eraseDups evictions⟩
  have hsubset : v :: evictions.eraseDups ⊆ pagesTouched past := by
    intro w hw
    rcases List.mem_cons.mp hw with rfl | hw
    · exact hm.inMemory hinMemory
    · exact hm.evicted (List.mem_eraseDups.mp hw)
  have hlength := hnodup.length_le_of_subset hsubset
  rw [List.length_cons] at hlength
  omega

/-- A page owns a slot as soon as it has been evicted, and for good: the `k`-th distinct page to be
evicted owns offset `16 * k`, and no other page ever does. A request is refused for want of swap
exactly when it needs the frame of a page that was never evicted while every slot is owned. -/
theorem slots_follow_evictions (frames slots : Nat) (algorithm : Algorithm) (seed : UInt64)
    (qs : List Request) :
    let m₀ := build frames (.ofAlgorithm algorithm seed) (SlotStore.empty slots)
    let m := m₀.serveAll qs
    let evicted := (m₀.watch keepEvictions [] qs).eraseDups
    (∀ r p, m.pageTable.page? r = some p → (p.entry.slot?.isSome ↔ p.vpn ∈ evicted)) ∧
      (∀ r p o, m.pageTable.page? r = some p →
        (p.entry.slot? = some o ↔ ∃ k, o = ⟨16 * k⟩ ∧ evicted[k]? = some p.vpn)) ∧
      (∀ v ∈ evicted, ∃ r p, m.pageTable.page? r = some p ∧ p.vpn = v) ∧
      evicted.Nodup ∧
      (∀ rest, evicted <+: (m₀.watch keepEvictions [] (qs ++ rest)).eraseDups) ∧
      m.swap.used = evicted.length ∧
      (∀ q frame capacity, (m.serve q).refusal? = some (.swapExhausted frame capacity) ↔
        capacity = slots ∧ q.address.inFrame = true ∧ m.frameOf? q.address = none ∧
          m.frameTable.firstFree? = none ∧
          (∃ choice v,
            m.policy.evict? ⟨m.frameTable, (m.pageTable.walk q.address).table⟩ = some choice ∧
              choice.victim = some frame ∧ m.residents.vpn? frame = some v ∧ v ∉ evicted) ∧
          m.swap.used = slots) ∧
      ∀ q rest, (pagesTouched (qs ++ q :: rest)).length ≤ slots →
        ∀ frame capacity, (m.serve q).refusal? ≠ some (.swapExhausted frame capacity) := by
  intro m₀ m evicted
  have hm : SlotsTracked slots qs m (m₀.watch keepEvictions [] qs) :=
    history_induction (P := SlotsTracked slots) (fun _ _ _ q hm => hm.serve q) qs
      (slotsTracked_build frames _ slots)
  have hfollow := hm.slotsFollow
  refine ⟨fun r p hp => hfollow.isSome_slot?_iff hp,
    fun r p o hp => hfollow.slot?_eq_some_iff hp, ?_, nodup_eraseDups _, ?_, hfollow.used_eq,
    ?_, ?_⟩
  · intro v hv
    exact hfollow.known v (List.mem_eraseDups.mp hv)
  · intro rest
    rw [watch_append]
    exact eraseDups_isPrefix (isPrefix_watch_keepEvictions _ _ rest)
  · intro q frame capacity
    rw [hm.exhausted_iff, hm.consistent.outOfSlots_entering, hm.capacity]
    simp only [evicted, List.mem_eraseDups]
  · intro q rest hroom frame capacity hrefusal
    have hlt := hm.not_outOfSlots ((hm.exhausted_iff q frame capacity).mp hrefusal).2.2.2
    have hsubset := pagesTouched_subset (List.subset_append_left qs (q :: rest))
    have hle := (nodup_eraseDups _).length_le_of_subset hsubset
    exact absurd (Nat.lt_of_lt_of_le hlt hle) (Nat.not_lt.mpr hroom)

end Machine

end DemandPaging
