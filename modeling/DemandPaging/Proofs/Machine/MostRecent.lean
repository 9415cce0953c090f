import DemandPaging.Proofs.Distinct
import DemandPaging.Proofs.Machine.Extent
import DemandPaging.Proofs.Machine.PageUse
import DemandPaging.Proofs.Policy.Victims

/-!
# Recency keeps the most recently used pages

Recency orders frames, and a frame changes its page with every fault. Read through the frame table
the order is one of pages (`Ranks`), and there the frames do not matter any more: using a page moves
it to the front, whether it was found, filled a free frame or took the last one.

> `Ranks.serve`: the pages are ranked with the page of the request in front, cut to the number of
> frames.

Over a run in which every request is served that is the list of all pages so far, the latest first,
cut to the number of frames; for what is cut off in between would not be in front of the cut later.

> `lru_keeps_most_recent`: so these pages are in memory, they and no others are hits, and the page
> that is evicted is the one used least recently.
-/

namespace DemandPaging

namespace Machine

variable {σ : Type} {m m' : Machine σ}

/-- Recency lists the frames in use as `xs`, and `pages` are the pages in them. -/
structure Ranks (m : Machine σ) (s : Policy.Recency) (xs : List (Fin s.frames))
    (pages : List Nat) : Prop where
  policy : m.policy = .lru s
  frames : s.frames = m.frameTable.size
  lists : s.links.Lists xs
  pages : xs.map (fun f => m.residents.vpn? f.val) = pages.map some
  inUse : ∀ f : Fin s.frames, m.residents.vpn? f.val ≠ none → f ∈ xs

variable {s : Policy.Recency} {xs : List (Fin s.frames)} {pages : List Nat}

/-- The pages that are ranked are the pages in memory. -/
theorem Ranks.mem_iff (hm : m.Ranks s xs pages) {v : Nat} : v ∈ pages ↔ v ∈ m.pagesInMemory := by
  have hsome : some v ∈ pages.map some ↔ v ∈ pages := by simp
  rw [← hsome, ← hm.pages, List.mem_map, mem_pagesInMemory]
  refine ⟨?_, ?_⟩
  · intro hex
    obtain ⟨f, -, hf⟩ := hex
    exact ⟨f.val, hf⟩
  · intro hex
    obtain ⟨frame, hframe⟩ := hex
    have hlt : frame < s.frames := hm.frames ▸ lt_size_of_vpn? hframe
    refine ⟨⟨frame, hlt⟩, hm.inUse _ ?_, hframe⟩
    show m.residents.vpn? frame ≠ none
    rw [hframe]
    exact Option.some_ne_none v

theorem Ranks.length_eq (hm : m.Ranks s xs pages) : pages.length = xs.length := by
  have hlength := congrArg List.length hm.pages
  rw [List.length_map, List.length_map] at hlength
  exact hlength.symm

theorem Ranks.length_le (hm : m.Ranks s xs pages) : pages.length ≤ m.frameTable.size := by
  have hle := hm.lists.nodup.length_le_of_subset fun f _ => List.mem_finRange f
  rw [List.length_finRange] at hle
  rw [hm.length_eq, ← hm.frames]
  exact hle

/-- When no frame is free, there is a page for every frame. -/
theorem Ranks.length_of_full (hm : m.Ranks s xs pages) (h : m.Consistent)
    (hfull : m.frameTable.firstFree? = none) : pages.length = m.frameTable.size := by
  have hall : ∀ f : Fin s.frames, f ∈ xs := by
    intro f
    obtain ⟨ref, hocc⟩ := FrameTable.firstFree?_eq_none hfull (Nat.lt_of_lt_of_eq f.isLt hm.frames)
    obtain ⟨p, hp⟩ := h.grounded f.val ref hocc
    refine hm.inUse f ?_
    rw [ResidentPages.vpn?_eq_some.mpr ⟨p, ResidentPages.page?_eq_some.mpr ⟨ref, hocc, hp⟩, rfl⟩]
    exact Option.some_ne_none _
  have hge := (List.nodup_finRange s.frames).length_le_of_subset fun f _ => hall f
  rw [List.length_finRange] at hge
  have hle := hm.length_le
  rw [hm.length_eq, ← hm.frames] at hle ⊢
  exact Nat.le_antisymm hle hge

/-- A frame that holds no page is not ranked. -/
theorem Ranks.not_mem_of_free (hm : m.Ranks s xs pages) {f : Fin s.frames}
    (hfree : m.residents.vpn? f.val = none) : f ∉ xs := by
  intro hf
  have hmem : m.residents.vpn? f.val ∈ pages.map some := by
    rw [← hm.pages]
    exact List.mem_map_of_mem hf
  rw [hfree] at hmem
  simp at hmem

/-- While a frame is free, there are fewer pages than frames. -/
theorem Ranks.length_lt_of_free (hm : m.Ranks s xs pages) {frame : Nat}
    (hlt : frame < m.frameTable.size) (hfree : m.residents.vpn? frame = none) :
    pages.length < m.frameTable.size := by
  have hnot : (⟨frame, hm.frames ▸ hlt⟩ : Fin s.frames) ∉ xs := hm.not_mem_of_free hfree
  have hnodup := List.nodup_cons.mpr ⟨hnot, hm.lists.nodup⟩
  have hle := hnodup.length_le_of_subset fun f _ => List.mem_finRange f
  rw [List.length_cons, List.length_finRange, ← hm.length_eq] at hle
  rw [← hm.frames]
  exact hle

/-- A frame that is used comes to the front, with its page. -/
theorem ranks_of_used (hframes : s.frames = m'.frameTable.size) (hlists : s.links.Lists xs)
    {r : ResidentPages} {v frame : Nat} (hused : Used r (.lru s) v frame m')
    (hlt : frame < s.frames)
    (hpages : (xs.erase ⟨frame, hlt⟩).map (fun f => r.vpn? f.val) = pages.map some)
    (hinUse : ∀ f : Fin s.frames, f.val ≠ frame → r.vpn? f.val ≠ none → f ∈ xs) :
    ∃ s' xs', m'.Ranks s' xs' (v :: pages) := by
  have hreference : s.reference frame = { s with links := s.links.touch ⟨frame, hlt⟩ } :=
    dif_pos hlt
  refine ⟨{ s with links := s.links.touch ⟨frame, hlt⟩ }, ⟨frame, hlt⟩ :: xs.erase ⟨frame, hlt⟩,
    ?_, hframes, hlists.touch _, ?_, ?_⟩
  · rw [hused.policy, ← hreference]
    rfl
  · -- the frame itself stands in front only
    rw [List.map_cons, List.map_cons, hused.vpn?, if_pos rfl, ← hpages]
    refine congrArg _ (List.map_congr_left fun f hf => ?_)
    have hne : f.val ≠ frame := by
      intro heq
      have hfirst : f = ⟨frame, hlt⟩ := Fin.ext heq
      subst hfirst
      exact hlists.nodup.not_mem_erase hf
    rw [hused.vpn?, if_neg hne]
  · intro f hf
    by_cases hff : f.val = frame
    · exact List.mem_cons.mpr (Or.inl (Fin.ext hff))
    · rw [hused.vpn?, if_neg hff] at hf
      have hne : f ≠ ⟨frame, hlt⟩ := fun heq => hff (congrArg Fin.val heq)
      exact List.mem_cons_of_mem _ ((List.mem_erase_of_ne hne).mpr (hinUse f hff hf))

/-! ## One request -/

theorem ranks_build (frames : Nat) (seed : UInt64) (swap : σ) :
    ∃ s xs, (build frames (.ofAlgorithm .lru seed) swap).Ranks s xs [] := by
  refine ⟨.empty frames, [], rfl, (FrameTable.size_empty frames).symm,
    Policy.Links.lists_empty frames, rfl, fun f hf => absurd ?_ hf⟩
  exact ResidentPages.vpn?_of_free (FrameTable.occupant?_empty frames f.val)

/-- The rank of a page in memory is the rank of its frame. -/
theorem Ranks.filter_pages (hm : m.Ranks s xs pages) (h : m.Consistent) {frame v : Nat}
    (hlt : frame < s.frames) (hfound : m.residents.vpn? frame = some v) :
    (xs.erase ⟨frame, hlt⟩).map (fun f => m.residents.vpn? f.val)
      = (pages.filter (· ≠ v)).map some := by
  have hpages : (pages.filter (· ≠ v)).map some = (pages.map some).filter (· ≠ some v) := by
    rw [List.filter_map]
    refine congrArg _ (List.filter_congr fun w _ => ?_)
    simp
  rw [hpages, ← hm.pages, List.filter_map, hm.lists.nodup.erase_eq_filter]
  refine congrArg _ (List.filter_congr fun f _ => ?_)
  -- no other frame holds the page
  have hframe : m.residents.vpn? f.val = some v ↔ f = ⟨frame, hlt⟩ := by
    refine ⟨fun hf => Fin.ext (h.frame_eq_of_vpn? hf hfound), fun hf => ?_⟩
    subst hf
    exact hfound
  rw [Bool.eq_iff_iff]
  simp [hframe]

/-- The victim is the last in rank, and then the others are ranked as before. -/
theorem Ranks.victim (hm : m.Ranks s xs pages) {r : ResidentPages} {choice : Policy.Choice}
    (hchosen : m.policy.evict? r = some choice) {frame : Nat}
    (hnamed : choice.victim = some frame) :
    ∃ s' xs', ∃ hlt : frame < s'.frames, choice.policy = .lru s' ∧ s'.frames = s.frames ∧
      s'.links.Lists xs' ∧ ⟨frame, hlt⟩ ∉ xs' ∧
      xs'.map (fun f => m.residents.vpn? f.val) = pages.dropLast.map some ∧
      m.residents.vpn? frame = pages.getLast? ∧
      ∀ f : Fin s'.frames, f.val ≠ frame → m.residents.vpn? f.val ≠ none → f ∈ xs' := by
  obtain ⟨hlast, hrest⟩ := hm.lists.evict
  rw [hm.policy] at hchosen
  simp only [Policy.evict?, Policy.Recency.evict, Option.some.injEq] at hchosen
  subst hchosen
  obtain ⟨f, hf, rfl⟩ := Option.map_eq_some_iff.mp hnamed
  rw [hlast] at hf
  obtain ⟨ys, rfl⟩ := List.getLast?_eq_some_iff.mp hf
  rw [List.dropLast_concat] at hrest
  have hnodup := List.nodup_append.mp hm.lists.nodup
  have hpages : (ys.map fun f => m.residents.vpn? f.val) ++ [m.residents.vpn? f.val]
      = pages.map some := by
    rw [← hm.pages, List.map_append]
    rfl
  refine ⟨{ s with links := s.links.evict.2 }, ys, f.isLt, rfl, rfl, hrest, ?_, ?_, ?_, ?_⟩
  · intro hmem
    exact hnodup.2.2 f hmem f (List.mem_singleton.mpr rfl) rfl
  · rw [List.map_dropLast, ← hpages, List.dropLast_concat]
  · have hgetLast := congrArg List.getLast? hpages
    rw [List.getLast?_concat, List.getLast?_map] at hgetLast
    cases hp : pages.getLast? with
    | none => simp [hp] at hgetLast
    | some v =>
      rw [hp] at hgetLast
      exact Option.some.inj hgetLast
  · intro g hg hvpn
    rcases List.mem_append.mp (hm.inUse g hvpn) with hmem | hmem
    · exact hmem
    · exact absurd (congrArg Fin.val (List.mem_singleton.mp hmem)) hg

/-- A page that is found comes to the front. -/
theorem Ranks.hit (hm : m.Ranks s xs pages) (h : m.Consistent)
    (hsize : m'.frameTable.size = m.frameTable.size) {frame v : Nat}
    (hfound : m.residents.vpn? frame = some v) (hused : Used m.residents m.policy v frame m') :
    ∃ s' xs', m'.Ranks s' xs' (v :: pages.filter (· ≠ v)) := by
  have hlt : frame < s.frames := hm.frames ▸ lt_size_of_vpn? hfound
  exact ranks_of_used (hm.frames.trans hsize.symm) hm.lists (hm.policy ▸ hused) hlt
    (hm.filter_pages h hlt hfound) fun f _ hf => hm.inUse f hf

/-- A page that fills a free frame comes to the front of all. -/
theorem Ranks.fill (hm : m.Ranks s xs pages) (hsize : m'.frameTable.size = m.frameTable.size)
    {frame v : Nat} (hfree : m.frameTable.firstFree? = some frame)
    (hused : Used m.residents m.policy v frame m') :
    ∃ s' xs', m'.Ranks s' xs' (v :: pages) := by
  obtain ⟨hsmall, hempty⟩ := FrameTable.firstFree?_eq_some hfree
  have hlt : frame < s.frames := hm.frames ▸ hsmall
  have hnone : m.residents.vpn? frame = none := ResidentPages.vpn?_of_free hempty
  have hpages : (xs.erase ⟨frame, hlt⟩).map (fun f => m.residents.vpn? f.val)
      = pages.map some := by
    rw [List.erase_of_not_mem (hm.not_mem_of_free hnone)]
    exact hm.pages
  exact ranks_of_used (hm.frames.trans hsize.symm) hm.lists (hm.policy ▸ hused) hlt hpages
    fun f _ hf => hm.inUse f hf

/-- A page that takes the place of the victim comes to the front of all but the last. -/
theorem Ranks.replace (hm : m.Ranks s xs pages) (h : m.Consistent)
    (hsize : m'.frameTable.size = m.frameTable.size) {a : Address} {frame v : Nat}
    {choice : Policy.Choice}
    (hchosen : m.policy.evict? (m.entering a false).residents = some choice)
    (hspares : (m.entering a false).residents.Spares choice.residents)
    (hnamed : choice.victim = some frame)
    (hused : Used choice.residents choice.policy v frame m') :
    ∃ s' xs', m'.Ranks s' xs' (v :: pages.dropLast) := by
  obtain ⟨s₁, xs₁, hlt, hpolicy, hframes, hlists, hvictim, hpages, -, hinUse⟩ :=
    hm.victim hchosen hnamed
  have hvpn := h.vpn?_spared hspares
  have hpages' : (xs₁.erase ⟨frame, hlt⟩).map (fun f => choice.residents.vpn? f.val)
      = pages.dropLast.map some := by
    rw [List.erase_of_not_mem hvictim, ← hpages]
    exact List.map_congr_left fun f _ => hvpn f.val
  exact ranks_of_used (hframes.trans (hm.frames.trans hsize.symm)) hlists (hpolicy ▸ hused) hlt
    hpages' fun f hne hf => hinUse f hne (hvpn f.val ▸ hf)

/-- Using a page brings it to the front, and what is then too much is the last. -/
theorem Ranks.uses (hm : m.Ranks s xs pages) (h : m.Consistent)
    (hsize : m'.frameTable.size = m.frameTable.size) {a : Address} (huses : m.Uses a m') :
    ∃ s' xs', m'.Ranks s' xs'
      ((a.vpn :: pages.filter (· ≠ a.vpn)).take m.frameTable.size) := by
  -- a page that was not in memory has no rank
  have hnew : a.vpn ∉ m.pagesInMemory → pages.filter (· ≠ a.vpn) = pages := by
    intro habsent
    refine List.filter_eq_self.mpr fun w hw => decide_eq_true fun heq => ?_
    exact habsent (hm.mem_iff.mp (heq ▸ hw))
  cases huses with
  | hit found used _ _ =>
    obtain ⟨s', xs', hm'⟩ := hm.hit h hsize found used
    rw [List.take_of_length_le (hsize ▸ hm'.length_le)]
    exact ⟨s', xs', hm'⟩
  | filled absent free used _ _ =>
    obtain ⟨s', xs', hm'⟩ := hm.fill hsize free used
    rw [hnew absent, List.take_of_length_le (hsize ▸ hm'.length_le)]
    exact ⟨s', xs', hm'⟩
  | replaced absent full chosen spares named used _ _ =>
    obtain ⟨s', xs', hm'⟩ := hm.replace h hsize chosen spares named used
    -- there was a page for every frame, so one is too much
    have hlength := hm.length_of_full h full
    have htake : (a.vpn :: pages).take m.frameTable.size = a.vpn :: pages.dropLast := by
      obtain ⟨n, hn⟩ : ∃ n, m.frameTable.size = n + 1 := by
        have hpos : 0 < m.frameTable.size :=
          Nat.lt_of_lt_of_le (Nat.zero_lt_succ _) (hsize ▸ hm'.length_le)
        exact Nat.exists_eq_add_one_of_ne_zero (Nat.ne_of_gt hpos)
      rw [hn, List.take_succ_cons, List.dropLast_eq_take, hlength, hn, Nat.add_sub_cancel]
    rw [hnew absent, htake]
    exact ⟨s', xs', hm'⟩

/-- A request is a hit if its page is ranked; and if a page has to leave, it is the last. -/
theorem Ranks.counts (hm : m.Ranks s xs pages) (h : m.Consistent) {a : Address}
    (huses : m.Uses a m') :
    m'.counters.hits = m.counters.hits + (if a.vpn ∈ pages then 1 else 0) ∧
      m'.counters.misses = m.counters.misses + (if a.vpn ∈ pages then 0 else 1) ∧
      m.evicted m' = if a.vpn ∈ pages ∨ pages.length < m.frameTable.size then []
        else pages.getLast?.toList := by
  cases huses with
  | hit found used hits misses =>
    have hmem : a.vpn ∈ pages := hm.mem_iff.mpr (mem_pagesInMemory.mpr ⟨_, found⟩)
    rw [if_pos hmem, if_pos hmem, if_pos (Or.inl hmem)]
    exact ⟨hits, misses, used.evicted_hit found⟩
  | @filled frame absent free used hits misses =>
    have hnot : a.vpn ∉ pages := mt hm.mem_iff.mp absent
    obtain ⟨hlt, hfree⟩ := FrameTable.firstFree?_eq_some free
    have hnone : m.residents.vpn? frame = none := ResidentPages.vpn?_of_free hfree
    have hroom : pages.length < m.frameTable.size := hm.length_lt_of_free hlt hnone
    rw [if_neg hnot, if_neg hnot, if_pos (Or.inr hroom)]
    refine ⟨hits, misses, ?_⟩
    rw [used.evicted_miss h (fun _ => rfl) absent, hnone]
    rfl
  | @replaced frame choice absent full chosen spares named used hits misses =>
    have hnot : a.vpn ∉ pages := mt hm.mem_iff.mp absent
    obtain ⟨-, -, -, -, -, -, -, -, hlast, -⟩ := hm.victim chosen named
    have hvpn := h.vpn?_spared spares
    rw [if_neg hnot, if_neg hnot,
      if_neg (not_or.mpr ⟨hnot, Nat.not_lt.mpr (Nat.le_of_eq (hm.length_of_full h full).symm)⟩)]
    refine ⟨hits, misses, ?_⟩
    rw [used.evicted_miss h hvpn absent, hlast]

/-! ## Runs -/

/-- The pages of a run, the one that was used last in front. -/
def recentPages (qs : List Request) : List Nat := (qs.map (·.address.vpn)).reverse.eraseDups

/-- The page that was used last comes first. -/
theorem recentPages_concat (qs : List Request) (q : Request) :
    recentPages (qs ++ [q])
      = q.address.vpn :: (recentPages qs).filter (· ≠ q.address.vpn) := by
  unfold recentPages
  rw [List.map_append, List.reverse_append, List.map_singleton, List.reverse_singleton,
    List.singleton_append, eraseDups_cons_eq]

/-- What is ranked after a run in which every request was served. -/
structure RanksRecent (frames : Nat) (past : List Request) (m : Machine σ) : Prop where
  consistent : m.Consistent
  size : m.frameTable.size = frames
  ranks : ∃ s xs, m.Ranks s xs ((recentPages past).take frames)

theorem ranksRecent_build (frames : Nat) (seed : UInt64) (swap : σ) :
    RanksRecent frames [] (build frames (.ofAlgorithm .lru seed) swap) where
  consistent := consistent_build frames _ swap
  size := FrameTable.size_empty frames
  ranks := by
    have hnil : (recentPages []).take frames = [] := List.take_nil
    rw [hnil]
    exact ranks_build frames seed swap

/-- A request that is served puts its page in front. -/
theorem RanksRecent.serve [BackingStore σ] [LawfulStore σ] {frames : Nat} {past : List Request}
    (hm : RanksRecent frames past m) {q : Request} {reply : Reply}
    (hserved : (m.serve q).result = .ok reply) :
    RanksRecent frames (past ++ [q]) (m.serve q).machine := by
  obtain ⟨s, xs, hranks⟩ := hm.ranks
  have hsize := (serve_cases hm.consistent q).sameExtent.frames
  refine ⟨hm.consistent.serve q, hsize.trans hm.size, ?_⟩
  obtain ⟨s', xs', hranks'⟩ :=
    hranks.uses hm.consistent hsize (serve_uses hm.consistent hserved)
  refine ⟨s', xs', ?_⟩
  rw [recentPages_concat]
  rw [hm.size] at hranks'
  cases frames with
  | zero => exact hranks'
  | succ n =>
    have hnodup : (recentPages past).Nodup := nodup_eraseDups _
    rw [List.take_succ_cons, take_filter_take hnodup] at hranks'
    exact hranks'

/-- After a run in which every request was served, recency orders the pages of the run by their last
use, the latest first, as many as there are frames. These pages are in memory, a request is a hit
exactly if it asks for one of them, and the page that it evicts is the one used least recently. -/
theorem lru_keeps_most_recent (frames slots : Nat) (seed : UInt64) (qs : List Request)
    (hserved : (build frames (.ofAlgorithm .lru seed) (SlotStore.empty slots)).allServed qs
      = true) :
    let m := (build frames (.ofAlgorithm .lru seed) (SlotStore.empty slots)).serveAll qs
    let recent := (qs.map (·.address.vpn)).reverse.eraseDups
    (∃ s, m.policy = .lru s ∧ s.order.map m.residents.vpn? = (recent.take frames).map some) ∧
      (∀ v, v ∈ m.pagesInMemory ↔ v ∈ recent.take frames) ∧
      ∀ q, (m.serve q).result.isOk = true →
        let m' := (m.serve q).machine
        m'.counters.hits
            = m.counters.hits + (if q.address.vpn ∈ recent.take frames then 1 else 0) ∧
          m'.counters.misses
            = m.counters.misses + (if q.address.vpn ∈ recent.take frames then 0 else 1) ∧
          m.evicted m' = if q.address.vpn ∈ recent.take frames ∨ recent.length < frames then []
            else (recent.take frames).getLast?.toList := by
  intro m recent
  have hm : RanksRecent frames qs m :=
    served_induction (fun _ _ _ => ()) (P := fun past m _ => RanksRecent frames past m)
      (fun _ _ _ _ _ hm hok => hm.serve hok) qs () hserved (ranksRecent_build frames seed _)
  obtain ⟨s, xs, hranks⟩ := hm.ranks
  refine ⟨⟨s, hranks.policy, ?_⟩, fun v => hranks.mem_iff.symm, ?_⟩
  · show (s.links.order.map Fin.val).map m.residents.vpn? = _
    rw [hranks.lists.order_eq, List.map_map]
    exact hranks.pages
  · intro q hok
    cases hresult : (m.serve q).result with
    | error failure =>
      rw [hresult] at hok
      simp [Except.isOk, Except.toBool] at hok
    | ok reply =>
      have hcounts := hranks.counts hm.consistent (serve_uses hm.consistent hresult)
      rw [hm.size, List.length_take] at hcounts
      have hroom : min frames (recentPages qs).length < frames ↔ recent.length < frames := by
        show min frames recent.length < frames ↔ _
        omega
      simp only [hroom] at hcounts
      exact hcounts

/-- Two frames, and the second of three pages is the one used least recently. -/
theorem lru_keeps_most_recent_of_three :
    let m₀ := build 2 (.ofAlgorithm .lru 0) (SlotStore.empty 4)
    let qs : List Request := [.translate ⟨0x1000⟩ .load, .translate ⟨0x2000⟩ .load,
      .translate ⟨0x1000⟩ .load, .translate ⟨0x3000⟩ .store]
    m₀.allServed qs = true ∧
      ∃ s, (m₀.serveAll qs).policy = .lru s ∧
        s.order.map (m₀.serveAll qs).residents.vpn? = [some 3, some 1] := by
  intro m₀ qs
  have hserved : m₀.allServed qs = true := by decide +kernel
  refine ⟨hserved, ?_⟩
  exact (lru_keeps_most_recent 2 4 0 qs hserved).1

end Machine

end DemandPaging
