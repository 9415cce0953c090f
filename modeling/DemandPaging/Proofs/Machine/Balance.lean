import DemandPaging.Proofs.Distinct
import DemandPaging.Proofs.Machine.MappedPages

/-!
# What the counters add up to

An observer keeps a journal of a run: for each request whether its page was in memory when it came,
what it was answered, and which pages were evicted (`Visit`, `keepVisits`). The counters are sums
over the journal, and so are the frames in use and the pages that were ever mapped (`Balanced`).

Evictions and frames in use balance only together. A fault may evict a page and then fail to read
its own, which leaves one frame less in use and one eviction more; or it may not even find room for
the page that is to be evicted, which leaves both as they were. So their sum, `turnover`, grows by
one with each page that is brought in and in no other way.

> `Frees.turnover_eq`, `BringsIn.turnover_eq`, `Translates.turnover_eq`: what a stage adds to it.
> `Balanced.serve`: the step.
> `counters_balance`: the sums, after any run over any store.
-/

namespace DemandPaging

/-- A request as an observer sees it. -/
structure Visit where
  request : Request
  /-- Whether the page was in memory when the request came. -/
  resident : Bool
  result : Except Failure Reply
  /-- The pages that the request drove out of memory. -/
  evicted : List Nat

namespace Visit

/-- The page that was asked for. -/
def page (x : Visit) : Nat := x.request.address.vpn

/-- Whether the offset was one that is simulated. -/
def counted (x : Visit) : Bool := x.request.address.inFrame

def answered (x : Visit) : Bool := x.result.isOk

/-- Whether the page was there. -/
def hit (x : Visit) : Bool := x.counted && x.resident

/-- Whether the page was not there, and was brought in. -/
def broughtIn (x : Visit) : Bool := x.counted && !x.resident && x.answered

/-- Whether a byte was found to differ. -/
def mismatched (x : Visit) : Bool :=
  match x.result with
  | .ok (.checked (some _)) => true
  | _ => false

end Visit

/-- The pages for which a request was answered, each once. -/
def pagesAnswered (visits : List Visit) : List Nat :=
  ((visits.filter (·.answered)).map (·.page)).eraseDups

/-- A page is among them if some request for it was answered. -/
theorem mem_pagesAnswered {visits : List Visit} {v : Nat} :
    v ∈ pagesAnswered visits ↔ ∃ x ∈ visits, x.answered = true ∧ x.page = v := by
  unfold pagesAnswered
  rw [List.mem_eraseDups, List.mem_map]
  simp only [List.mem_filter, and_assoc]

/-! ## What is counted beside references -/

namespace Counters

/-- Nothing was counted but evictions. -/
structure EvictionsOnly (c c' : Counters) : Prop where
  hits : c'.hits = c.hits
  misses : c'.misses = c.misses
  references : c'.references = c.references
  mismatches : c'.mismatches = c.mismatches
  clean_le : c.cleanEvictions ≤ c'.cleanEvictions
  dirty_le : c.dirtyEvictions ≤ c'.dirtyEvictions

theorem EvictionsOnly.refl (c : Counters) : c.EvictionsOnly c :=
  ⟨rfl, rfl, rfl, rfl, Nat.le_refl _, Nat.le_refl _⟩

/-- Counting an eviction counts nothing else. -/
theorem evictionsOnly_countEviction (c : Counters) (dirty : Bool) :
    c.EvictionsOnly (c.countEviction dirty) := by
  cases dirty with
  | true => exact ⟨rfl, rfl, rfl, rfl, Nat.le_refl _, Nat.le_succ _⟩
  | false => exact ⟨rfl, rfl, rfl, rfl, Nat.le_succ _, Nat.le_refl _⟩

/-- No counter of `c'` is behind that of `c`. -/
structure AtMost (c c' : Counters) : Prop where
  hits : c.hits ≤ c'.hits
  misses : c.misses ≤ c'.misses
  references : c.references ≤ c'.references
  clean : c.cleanEvictions ≤ c'.cleanEvictions
  dirty : c.dirtyEvictions ≤ c'.dirtyEvictions
  mismatches : c.mismatches ≤ c'.mismatches

theorem AtMost.refl (c : Counters) : c.AtMost c :=
  ⟨Nat.le_refl _, Nat.le_refl _, Nat.le_refl _, Nat.le_refl _, Nat.le_refl _, Nat.le_refl _⟩

theorem AtMost.trans {c₁ c₂ c₃ : Counters} (h₁ : c₁.AtMost c₂) (h₂ : c₂.AtMost c₃) :
    c₁.AtMost c₃ where
  hits := Nat.le_trans h₁.hits h₂.hits
  misses := Nat.le_trans h₁.misses h₂.misses
  references := Nat.le_trans h₁.references h₂.references
  clean := Nat.le_trans h₁.clean h₂.clean
  dirty := Nat.le_trans h₁.dirty h₂.dirty
  mismatches := Nat.le_trans h₁.mismatches h₂.mismatches

/-- A reference is counted once, hit or miss. -/
theorem references_countReference (c : Counters) (hit : Bool) :
    (c.countReference hit).references = c.references + 1 := by
  cases hit <;> rfl

/-- A reference counts as a hit only if it was one. -/
theorem hits_countReference (c : Counters) (hit : Bool) :
    (c.countReference hit).hits = c.hits + if hit then 1 else 0 := by
  cases hit <;> rfl

theorem mismatches_countReference (c : Counters) (hit : Bool) :
    (c.countReference hit).mismatches = c.mismatches := by
  cases hit <;> rfl

/-- A reference is counted as a hit or as a miss, and after that evictions may be counted. -/
theorem EvictionsOnly.atMost {c c' : Counters} {hit : Bool}
    (h : (c.countReference hit).EvictionsOnly c') : c.AtMost c' := by
  obtain ⟨hhits, hmisses, hreferences, hmismatches, hclean, hdirty⟩ := h
  cases hit with
  | true =>
    exact ⟨hhits ▸ Nat.le_succ _, Nat.le_of_eq hmisses.symm, hreferences ▸ Nat.le_succ _, hclean,
      hdirty, Nat.le_of_eq hmismatches.symm⟩
  | false =>
    exact ⟨Nat.le_of_eq hhits.symm, hmisses ▸ Nat.le_succ _, hreferences ▸ Nat.le_succ _, hclean,
      hdirty, Nat.le_of_eq hmismatches.symm⟩

end Counters

namespace Machine

variable {σ : Type} {m m' m₀ : Machine σ}

/-- The evictions so far and the frames in use. -/
def turnover (m : Machine σ) : Nat := m.counters.evictions + m.frameTable.inUse

/-- Entering a page evicts none and fills no frame. -/
theorem turnover_entering (m : Machine σ) (a : Address) (hit : Bool) :
    (m.entering a hit).turnover = m.turnover := by
  have hcount := m.counters.evictions_countReference hit
  show (m.counters.countReference hit).evictions + m.frameTable.inUse = _
  rw [hcount, turnover]

/-- A page whose entry is found without a frame had none before the walk. -/
theorem Consistent.frameOf?_eq_none (h : m.Consistent) {a : Address} {p : PageEntry}
    (hp : (m.entering a false).pageTable.page? (m.refOf a) = some p)
    (habsent : p.entry.frame? = none) : m.frameOf? a = none := by
  cases hframe : m.frameOf? a with
  | none => rfl
  | some frame =>
    have hresident := (h.frameOf?_eq_some false).mp hframe
    exact absurd hresident (PageTable.not_resident_of_frame?_eq_none hp habsent)

section

variable [BackingStore σ]

/-! ## Counters, stage by stage -/

/-- When no frame is found, nothing but evictions was counted. -/
theorem Starves.evictionsOnly {e : PagingError} (hstarves : m.Starves e m') :
    m.counters.EvictionsOnly m'.counters := by
  cases hstarves with
  | noVictim _ _ _ _ => exact .refl _
  | vacant _ _ _ _ _ => exact .refl _
  | exhausted _ _ => exact .refl _

/-- An eviction counts nothing else. -/
theorem Frees.evictionsOnly {frame : Nat} (hfrees : m.Frees m₀ frame) :
    m.counters.EvictionsOnly m₀.counters := by
  cases hfrees with
  | found _ => exact .refl _
  | evicted _ _ _ => exact Counters.evictionsOnly_countEviction _ _

/-- Bringing a page in counts nothing but evictions. -/
theorem BringsIn.evictionsOnly {r : EntryRef} {result : Except Failure Nat}
    (hbrings : m.BringsIn r result m') : m.counters.EvictionsOnly m'.counters := by
  cases hbrings with
  | starved starves => exact starves.evictionsOnly
  | unreadable frees _ _ _ => exact frees.evictionsOnly
  | firstTouch frees _ _ _ _ => exact frees.evictionsOnly
  | swappedIn frees _ _ _ _ _ => exact frees.evictionsOnly

/-- A translation that gets as far as the page table counts a reference: a hit if the page was in
memory. -/
theorem Translates.counted (h : m.Consistent) {a : Address} {kind : AccessKind}
    {result : Except Failure Nat} (ht : m.Translates a kind result m') :
    a.inFrame = false ∧ m'.counters = m.counters ∨
      a.inFrame = true ∧
        (m.counters.countReference (m.frameOf? a).isSome).EvictionsOnly m'.counters := by
  cases ht with
  | outside hout => exact Or.inl ⟨hout, rfl⟩
  | hit hin resident =>
    rw [(h.frameOf?_eq_some true).mpr resident]
    exact Or.inr ⟨hin, .refl _⟩
  | fault hin page absent brings =>
    rw [h.frameOf?_eq_none page absent]
    exact Or.inr ⟨hin, brings.evictionsOnly⟩
  | refused hin page absent brings =>
    rw [h.frameOf?_eq_none page absent]
    exact Or.inr ⟨hin, brings.evictionsOnly⟩

/-! ## Evictions and frames in use -/

/-- When no frame is found, none was filled and no page left memory. -/
theorem Starves.turnover_eq {e : PagingError} (hstarves : m.Starves e m') :
    m'.turnover = m.turnover := by
  cases hstarves with
  | noVictim _ _ _ _ => rfl
  | vacant _ _ _ _ _ => rfl
  | exhausted _ _ => rfl

/-- The frame that an eviction frees is one less in use. -/
theorem Frees.turnover_eq {frame : Nat} (hfrees : m.Frees m₀ frame) :
    m₀.turnover = m.turnover := by
  cases hfrees with
  | found _ => rfl
  | @evicted choice _ victim page _ _ _ frameTable names _ released =>
    have hcount := m.counters.evictions_countEviction page.entry.dirty
    have hinUse := FrameTable.inUse_release? released names.occupant
    show (m.counters.countEviction page.entry.dirty).evictions + frameTable.inUse = _
    unfold turnover
    omega

/-- A page that is brought in claims a frame; one that is not leaves none claimed. -/
theorem BringsIn.turnover_eq {r : EntryRef} {result : Except Failure Nat}
    (hbrings : m.BringsIn r result m') :
    m'.turnover = m.turnover + if result.isOk then 1 else 0 := by
  have hclaimed : ∀ {x : Machine σ} {frame : Nat} {frameTable : FrameTable}, m.Frees x frame →
      x.frameTable.claim? frame r = some frameTable →
        x.counters.evictions + frameTable.inUse = m.turnover + 1 := by
    intro x frame frameTable hfrees hclaim
    have hturnover := hfrees.turnover_eq
    have hinUse := FrameTable.inUse_claim? hclaim
    unfold turnover at hturnover ⊢
    omega
  cases hbrings with
  | starved starves => exact starves.turnover_eq
  | unreadable frees _ _ _ => exact frees.turnover_eq
  | firstTouch frees _ _ claimed _ =>
    have hcount := hclaimed frees claimed
    exact hcount
  | swappedIn frees _ _ _ claimed _ =>
    have hcount := hclaimed frees claimed
    exact hcount

/-- The turnover rises by one exactly when a page is brought in. -/
theorem Translates.turnover_eq (h : m.Consistent) {a : Address} {kind : AccessKind}
    {result : Except Failure Nat} (ht : m.Translates a kind result m') :
    m'.turnover
      = m.turnover + if a.inFrame && !(m.frameOf? a).isSome && result.isOk then 1 else 0 := by
  cases ht with
  | outside hout =>
    rw [hout]
    rfl
  | hit hin resident =>
    rw [(h.frameOf?_eq_some true).mpr resident, hin]
    exact m.turnover_entering a true
  | fault hin page absent brings =>
    rw [h.frameOf?_eq_none page absent, hin, ← m.turnover_entering a false]
    exact brings.turnover_eq
  | refused hin page absent brings =>
    rw [h.frameOf?_eq_none page absent, hin, ← m.turnover_entering a false]
    exact brings.turnover_eq

/-! ## Requests -/

/-- The request as an observer sees it who has the machine before it. -/
def visit (m : Machine σ) (q : Request) : Visit :=
  ⟨q, (m.frameOf? q.address).isSome, (m.serve q).result, m.evicted (m.serve q).machine⟩

/-- An observer that keeps the journal of a run. -/
def keepVisits (visits : List Visit) (m : Machine σ) (q : Request) : List Visit :=
  visits ++ [m.visit q]

/-- The only counter that depends on the byte is that of mismatches. -/
theorem Serves.mismatches_eq (h : m.Consistent) {q : Request} {result : Except Failure Reply}
    (hserves : m.Serves q result m') (x : Visit) (hx : x.result = result) :
    m'.counters.mismatches = m.counters.mismatches + if x.mismatched then 1 else 0 := by
  have htranslates : ∀ {placed : Except Failure Nat} {m₁ : Machine σ},
      m.Translates q.address q.kind placed m₁ →
        m₁.counters.mismatches = m.counters.mismatches := by
    intro placed m₁ ht
    rcases ht.counted h with ⟨-, hcounters⟩ | ⟨-, hcounted⟩
    · rw [hcounters]
    · rw [hcounted.mismatches, Counters.mismatches_countReference]
  unfold Visit.mismatched
  rw [hx]
  cases hserves with
  | refused translates => exact htranslates translates
  | translated translates => exact htranslates translates
  | stored _ translates _ =>
    have hsame := htranslates translates
    exact hsame
  | agreed _ translates _ => exact htranslates translates
  | differed _ translates _ _ => exact congrArg (· + 1) (htranslates translates)

/-- No counter falls by a request, even when the request fails. -/
theorem Serves.atMost (h : m.Consistent) {q : Request} {result : Except Failure Reply}
    (hserves : m.Serves q result m') : m.counters.AtMost m'.counters := by
  have hmismatches := hserves.mismatches_eq h ⟨q, false, result, []⟩ rfl
  obtain ⟨placed, m₁, memory, mismatches, translates, rfl, -⟩ := hserves.translates
  have hle : m.counters.AtMost m₁.counters := by
    rcases translates.counted h with ⟨-, hcounters⟩ | ⟨-, hcounted⟩
    · rw [hcounters]
      exact .refl _
    · exact hcounted.atMost
  exact ⟨hle.hits, hle.misses, hle.references, hle.clean, hle.dirty, by omega⟩

/-- What the counters and the tables of a machine owe to the journal of its run. -/
structure Balanced (m : Machine σ) (visits : List Visit) : Prop where
  consistent : m.Consistent
  references : m.counters.references = visits.countP Visit.counted
  hits : m.counters.hits = visits.countP Visit.hit
  turnover : m.turnover = visits.countP Visit.broughtIn
  mapped : ∀ v, v ∈ m.pageTable.mappedPages ↔ v ∈ pagesAnswered visits
  mismatches : m.counters.mismatches = visits.countP Visit.mismatched

omit [BackingStore σ] in
theorem balanced_build (frames : Nat) (policy : Policy) (swap : σ) :
    (build frames policy swap).Balanced [] where
  consistent := consistent_build frames policy swap
  references := rfl
  hits := rfl
  turnover := by
    have hfree : (FrameTable.empty frames).inUse = 0 := by
      simp [FrameTable.inUse, FrameTable.empty]
    show 0 + 0 + (FrameTable.empty frames).inUse = 0
    rw [hfree]
  mapped v := by
    rw [PageTable.mem_mappedPages, mem_pagesAnswered]
    simp [build, PageTable.page?_empty]
  mismatches := rfl

/-- Whether a request counts, and as a hit, is known when it comes. -/
theorem Translates.counted_visit (h : m.Consistent) {q : Request} {placed : Except Failure Nat}
    (ht : m.Translates q.address q.kind placed m') :
    m'.counters.references = m.counters.references + (if (m.visit q).counted then 1 else 0) ∧
      m'.counters.hits = m.counters.hits + if (m.visit q).hit then 1 else 0 := by
  unfold Visit.hit Visit.counted
  show _ = _ + (if q.address.inFrame = true then 1 else 0) ∧
    _ = _ + if (q.address.inFrame && (m.frameOf? q.address).isSome) = true then 1 else 0
  rcases ht.counted h with ⟨hout, hcounters⟩ | ⟨hin, hcounted⟩
  · rw [hcounters, hout]
    exact ⟨rfl, rfl⟩
  · rw [hcounted.references, hcounted.hits, hin, Counters.references_countReference,
      Counters.hits_countReference, Bool.true_and]
    exact ⟨rfl, rfl⟩

/-- The step: each request adds what its visit says. -/
theorem Balanced.serve {visits : List Visit} (hm : m.Balanced visits) (q : Request) :
    (m.serve q).machine.Balanced (visits ++ [m.visit q]) := by
  have h := hm.consistent
  have hserves := serve_cases h q
  have hmismatches := hserves.mismatches_eq h (m.visit q) rfl
  obtain ⟨placed, m₁, memory, mismatches, translates, hm', hfailure⟩ := hserves.translates
  have hanswered : (m.visit q).answered = placed.isOk := isOk_eq hfailure
  have hturnover : (m.serve q).machine.turnover = m₁.turnover := by
    rw [hm']
    rfl
  have hcounters : (m.serve q).machine.counters.references = m₁.counters.references ∧
      (m.serve q).machine.counters.hits = m₁.counters.hits := by
    rw [hm']
    exact ⟨rfl, rfl⟩
  have hcounted := translates.counted_visit h
  refine ⟨hserves.consistent h, ?_, ?_, ?_, fun v => ?_, ?_⟩
  · rw [List.countP_append, List.countP_singleton, ← hm.references, hcounters.1, hcounted.1]
  · rw [List.countP_append, List.countP_singleton, ← hm.hits, hcounters.2, hcounted.2]
  · rw [List.countP_append, List.countP_singleton, ← hm.turnover, hturnover,
      translates.turnover_eq h, ← hanswered]
    rfl
  · have hmapped : v ∈ (m.serve q).machine.pageTable.mappedPages ↔
        v ∈ m.pageTable.mappedPages ∨ (m.visit q).answered = true ∧ v = (m.visit q).page :=
      hserves.mem_mappedPages h
    rw [hmapped, hm.mapped, mem_pagesAnswered, mem_pagesAnswered]
    simp only [List.mem_append, List.mem_singleton, or_and_right, exists_or, exists_eq_left,
      eq_comm]
  · rw [List.countP_append, List.countP_singleton, ← hm.mismatches, hmismatches]

/-- No counter falls over a run. -/
theorem Consistent.atMost_serveAll (h : m.Consistent) (qs : List Request) :
    m.counters.AtMost (m.serveAll qs).counters := by
  refine And.right (serveAll_induction
    (P := fun m' => m'.Consistent ∧ m.counters.AtMost m'.counters) ?_ qs ⟨h, .refl _⟩)
  intro m' q hm'
  have hserves := serve_cases hm'.1 q
  exact ⟨hserves.consistent hm'.1, hm'.2.trans (hserves.atMost hm'.1)⟩

/-- After any run over any store, however its calls fail: every reference was a hit or a miss, and
there is one for each request with a simulated offset; the hits are those whose page was in memory
when they came; clean and dirty evictions and the frames in use are together the misses that were
answered; the frames in use and the pages on swap are together the distinct pages ever mapped, which
are those that requests were answered for; the mismatches are those reported; and no counter ever
falls behind. -/
theorem counters_balance {σ : Type} [BackingStore σ] (frames : Nat) (algorithm : Algorithm)
    (seed : UInt64) (swap : σ) (qs : List Request) :
    let m₀ := build frames (.ofAlgorithm algorithm seed) swap
    let m := m₀.serveAll qs
    let visits := m₀.watch keepVisits [] qs
    visits.map (·.request) = qs ∧
      m.counters.references = m.counters.hits + m.counters.misses ∧
      m.counters.references = qs.countP (·.address.inFrame) ∧
      m.counters.hits = visits.countP Visit.hit ∧
      m.counters.cleanEvictions + m.counters.dirtyEvictions + m.frameTable.inUse
        = visits.countP Visit.broughtIn ∧
      m.frameTable.inUse + m.pageTable.pagesOnSwap.length = (pagesAnswered visits).length ∧
      (∀ v, v ∈ m.pageTable.mappedPages ↔ v ∈ pagesAnswered visits) ∧
      m.counters.mismatches = visits.countP Visit.mismatched ∧
      ∀ rest, m.counters.AtMost (m.serveAll rest).counters := by
  intro m₀ m visits
  have hm : m.Balanced visits :=
    watch_induction (P := fun m visits => m.Balanced visits) (fun _ _ q hm => hm.serve q) qs
      (balanced_build frames _ swap)
  have hrequests : (m₀.watch keepVisits [] qs).map (·.request) = qs :=
    history_induction
      (P := fun past (_ : Machine σ) (visits : List Visit) => visits.map (·.request) = past)
      (fun _ m _ q hmap => hmap ▸ List.map_append) qs rfl
  have h := hm.consistent
  refine ⟨hrequests, h.counted.symm, ?_, hm.hits, hm.turnover, ?_, hm.mapped, hm.mismatches,
    h.atMost_serveAll⟩
  · rw [hm.references, ← hrequests, List.countP_map]
    rfl
  · have hperm : m.pageTable.mappedPages.Perm (pagesAnswered visits) :=
      (List.perm_ext_iff_of_nodup h.rooted.nodup_mappedPages (nodup_eraseDups _)).mpr hm.mapped
    rw [h.inUse_eq, ← m.pageTable.length_mappedPages, hperm.length_eq]

end

end Machine

end DemandPaging
