import DemandPaging.Proofs.Machine.Residents

/-!
# How a page is used

A request that is served uses its page in some frame. To a policy there are three ways in which that
can happen (`Uses`): the page was in the frame already, the frame was free and is filled with it, or
the page in the frame was the policy's victim and is replaced. What a policy can see of memory is a
cell for each frame, the number of the page there with its mark (`cell?`). Using a page changes one
cell: there is the page now, and it is marked.

> `serve_uses`: on a consistent machine a request that is served uses its page in one of these ways.

What each way preserves, a run preserves in which every request is served: `served_induction`.
-/

namespace DemandPaging

/-- A page that is touched is marked. -/
theorem Entry.referenced_touch (e : Entry) (kind : AccessKind) :
    (e.touch kind).referenced = true := by
  unfold Entry.touch
  split <;> rfl

namespace ResidentPages

/-- The number of the page in a frame, and whether it is marked. -/
def cell? (r : ResidentPages) (frame : Nat) : Option (Nat × Bool) :=
  (r.page? frame).map fun p => (p.vpn, p.entry.referenced)

variable {r : ResidentPages} {frame v : Nat} {b : Bool}

/-- The page in a frame is the one in its cell. -/
theorem vpn?_eq_cell? (r : ResidentPages) (frame : Nat) :
    r.vpn? frame = (r.cell? frame).map Prod.fst := by
  unfold vpn? cell?
  rw [Option.map_map]
  rfl

/-- A frame has no page if its cell is empty. -/
theorem vpn?_eq_none_iff : r.vpn? frame = none ↔ r.cell? frame = none := by
  rw [vpn?_eq_cell?, Option.map_eq_none_iff]

theorem vpn?_of_cell? (h : r.cell? frame = some (v, b)) : r.vpn? frame = some v := by
  rw [vpn?_eq_cell?, h, Option.map_some]

/-- The mark in the cell is the one that the sweep sees. -/
theorem marked?_of_cell? (h : r.cell? frame = some (v, b)) : r.marked? frame = some b := by
  obtain ⟨p, hp, heq⟩ := Option.map_eq_some_iff.mp h
  obtain ⟨ref, hocc, hpage⟩ := page?_eq_some.mp hp
  rw [marked?_of_occupant hocc hpage, (Prod.mk.inj heq).2]

/-- The cell of a free frame is empty. -/
theorem cell?_of_free (h : r.frames.occupant? frame = none) : r.cell? frame = none := by
  unfold cell?
  rw [page?_of_free h, Option.map_none]

end ResidentPages

namespace Machine

variable {σ : Type} {m m' m₀ : Machine σ}

/-! ## The three ways -/

/-- Page `v` was used in `frame`, and the policy was told, when the policy was `policy` and the
other frames were as in `r`. -/
structure Used (r : ResidentPages) (policy : Policy) (v frame : Nat) (m' : Machine σ) : Prop where
  policy : m'.policy = policy.reference frame
  cell?_eq : ∀ g, m'.residents.cell? g = if g = frame then some (v, true) else r.cell? g

/-- How a machine comes to use the page of an address. -/
inductive Uses (m : Machine σ) (a : Address) (m' : Machine σ) : Prop where
  | hit {frame : Nat} (found : m.residents.vpn? frame = some a.vpn)
      (used : Used m.residents m.policy a.vpn frame m')
      (hits : m'.counters.hits = m.counters.hits + 1)
      (misses : m'.counters.misses = m.counters.misses)
  | filled {frame : Nat} (absent : a.vpn ∉ m.pagesInMemory)
      (free : m.frameTable.firstFree? = some frame)
      (used : Used m.residents m.policy a.vpn frame m')
      (hits : m'.counters.hits = m.counters.hits)
      (misses : m'.counters.misses = m.counters.misses + 1)
  | replaced {frame : Nat} {choice : Policy.Choice} (absent : a.vpn ∉ m.pagesInMemory)
      (full : m.frameTable.firstFree? = none)
      (chosen : m.policy.evict? (m.entering a false).residents = some choice)
      (spares : (m.entering a false).residents.Spares choice.residents)
      (named : choice.victim = some frame)
      (used : Used choice.residents choice.policy a.vpn frame m')
      (hits : m'.counters.hits = m.counters.hits)
      (misses : m'.counters.misses = m.counters.misses + 1)

/-- Entering a page into the table changes no cell. -/
theorem Consistent.cell?_entering (h : m.Consistent) (a : Address) (hit : Bool) (frame : Nat) :
    (m.entering a hit).residents.cell? frame = m.residents.cell? frame :=
  congrArg (Option.map _) (h.page?_entering a hit frame)

/-- The page that is used is marked, and the other frames stay as they are. -/
theorem Consistent.cell?_use (h : m.Consistent) {r : EntryRef} {p : PageEntry} {frame : Nat}
    (hp : m.pageTable.page? r = some p) (hf : p.entry.frame? = some frame) (kind : AccessKind)
    (g : Nat) :
    (m.use r kind frame).residents.cell? g
      = if g = frame then some (p.vpn, true) else m.residents.cell? g := by
  have hocc := (h.occupant_iff frame r).mpr ⟨p, hp, hf⟩
  unfold ResidentPages.cell?
  rw [h.page?_use hocc]
  split
  next hg =>
    have hpage : m.residents.page? g = some p :=
      hg ▸ (ResidentPages.page?_of_occupant (r := m.residents) hocc).trans hp
    rw [hpage, Option.map_some, Option.map_some, PageEntry.entry_update, Entry.referenced_touch]
    rfl
  next => rfl

/-- A page that has claimed a free frame and is used there. -/
theorem Consistent.used_placing (h : m₀.Consistent) {r : EntryRef} {p : PageEntry}
    (hp : m₀.pageTable.page? r = some p) (habsent : p.entry.frame? = none) {frame : Nat}
    {frameTable : FrameTable} (hclaimed : m₀.frameTable.claim? frame r = some frameTable)
    {memory : Memory} (hmemory : memory.frames = m₀.memory.frames) (dirty : Bool) (swap : σ)
    (kind : AccessKind) {left : ResidentPages}
    (hleft : ∀ g, g ≠ frame → m₀.residents.cell? g = left.cell? g) :
    Used left m₀.policy p.vpn frame
      ((m₀.placing r frame dirty swap frameTable memory).use r kind frame) where
  policy := rfl
  cell?_eq g := by
    have hplaced : (m₀.placing r frame dirty swap frameTable memory).pageTable.page? r
        = some (p.update fun e => (e.place frame).setDirty dirty) := by
      refine (PageTable.page?_modify_self _ _ _).trans ?_
      rw [hp, Option.map_some]
    rw [(h.placing hp habsent hclaimed hmemory dirty swap).cell?_use hplaced rfl]
    split
    next => rfl
    next hg =>
      unfold ResidentPages.cell?
      rw [h.page?_placing hp habsent hclaimed, if_neg hg]
      exact hleft g hg

/-! ## What leaves memory -/

/-- The page that was used is in its frame, and the others are where they were. -/
theorem Used.vpn? {r : ResidentPages} {policy : Policy} {v frame : Nat}
    (hused : Used r policy v frame m') (g : Nat) :
    m'.residents.vpn? g = if g = frame then some v else r.vpn? g := by
  rw [ResidentPages.vpn?_eq_cell?, hused.cell?_eq]
  split
  next => rfl
  next => exact (ResidentPages.vpn?_eq_cell? r g).symm

/-- A page that was in memory already drives none out. -/
theorem Used.evicted_hit {policy : Policy} {v frame : Nat}
    (hused : Used m.residents policy v frame m') (hfound : m.residents.vpn? frame = some v) :
    m.evicted m' = [] := by
  refine evicted_eq_nil fun g => ?_
  rw [hused.vpn?]
  split
  next hg => rw [hg, hfound]
  next => rfl

/-- A page that was not in memory drives out the page that was in its frame. -/
theorem Used.evicted_miss (h : m.Consistent) {r : ResidentPages} {policy : Policy} {v frame : Nat}
    (hused : Used r policy v frame m') (hr : ∀ g, r.vpn? g = m.residents.vpn? g)
    (habsent : v ∉ m.pagesInMemory) : m.evicted m' = (m.residents.vpn? frame).toList := by
  refine h.evicted_of_frame (fun g hg => ?_) fun w hw => ?_
  · rw [hused.vpn?, if_neg hg, hr]
  · rw [hused.vpn?, if_pos rfl, Option.some.injEq] at hw
    exact hw ▸ habsent

/-! ## Requests -/

/-- A page that is brought in fills a free frame or replaces the policy's victim. -/
theorem Consistent.uses_brought [BackingStore σ] (h : m.Consistent) {a : Address} {p : PageEntry}
    (hp : (m.entering a false).pageTable.page? (m.refOf a) = some p)
    (habsent : p.entry.frame? = none) {frame : Nat}
    (hbrings : (m.entering a false).BringsIn (m.refOf a) (.ok frame) m') (kind : AccessKind) :
    m.Uses a (m'.use (m.refOf a) kind frame) := by
  have h' := h.entering a false
  have hvpn := h.vpn_refOf hp
  have hnew : a.vpn ∉ m.pagesInMemory := by
    rw [← hvpn, ← h.pagesInMemory_entering a false]
    exact h'.not_mem_pagesInMemory hp habsent
  obtain ⟨m₀, p₀, dirty, swap, frameTable, memory, hfrees, -, hclaimed, hmemory, rfl⟩ :=
    hbrings.placed
  have hp₀ := hfrees.page? h' hp habsent
  have h₀ := hfrees.consistent h'
  cases hfrees with
  | found free =>
    have hused := h₀.used_placing hp₀ habsent hclaimed hmemory dirty swap kind
      fun g _ => h.cell?_entering a false g
    exact .filled hnew free (hvpn ▸ hused) rfl rfl
  | @evicted choice _ victim page _ offset swap' frameTable' names saved released =>
    have hspares := names.spares
    have hleft : ∀ g, g ≠ frame →
        (((m.entering a false).choosing choice).vacating victim page.entry.dirty offset swap'
          frameTable').residents.cell? g = choice.residents.cell? g := by
      intro g hg
      unfold ResidentPages.cell?
      rw [(h'.choosing hspares).page?_vacating names.occupant released, if_neg hg,
        residents_choosing hspares]
    have hused := h₀.used_placing hp₀ habsent hclaimed hmemory dirty swap kind hleft
    refine .replaced hnew names.full names.chosen hspares names.named (hvpn ▸ hused) ?_ ?_
    · exact Counters.hits_countEviction _ _
    · exact Counters.misses_countEviction _ _

variable [BackingStore σ]

/-- A translation that succeeds uses its page in one of the three ways. -/
theorem Translates.uses (h : m.Consistent) {a : Address} {kind : AccessKind} {place : Nat}
    (ht : m.Translates a kind (.ok place) m') : m.Uses a m' := by
  cases ht with
  | hit _ resident =>
    obtain ⟨p, hp, hf⟩ := resident
    have hvpn := h.vpn_refOf hp
    have h' := h.entering a true
    refine .hit ?_ ⟨rfl, fun g => ?_⟩ rfl rfl
    · refine ResidentPages.vpn?_eq_some.mpr ⟨p, ?_, hvpn⟩
      rw [← h.page?_entering a true]
      exact h'.page?_residents.mpr ⟨_, hp, hf⟩
    · rw [h'.cell?_use hp hf, hvpn, h.cell?_entering]
  | fault _ page absent brings => exact h.uses_brought page absent brings kind

/-- A request that is served uses its page. -/
theorem serve_uses (h : m.Consistent) {q : Request} {reply : Reply}
    (hserved : (m.serve q).result = .ok reply) : m.Uses q.address (m.serve q).machine := by
  have hserves := serve_cases h q
  rw [hserved] at hserves
  generalize (m.serve q).machine = m' at hserves ⊢
  obtain ⟨placed, m₁, memory, mismatches, translates, rfl, hfailure⟩ := hserves.translates
  cases placed with
  | error failure =>
    have hnot := (hfailure failure).mpr rfl
    simp at hnot
  | ok place =>
    -- what is written, and a mismatch that is counted, is nothing to the policy
    cases translates.uses h with
    | hit found used hits misses => exact .hit found ⟨used.policy, used.cell?_eq⟩ hits misses
    | filled absent free used hits misses =>
      exact .filled absent free ⟨used.policy, used.cell?_eq⟩ hits misses
    | replaced absent full chosen spares named used hits misses =>
      exact .replaced absent full chosen spares named ⟨used.policy, used.cell?_eq⟩ hits misses

/-! ## Runs in which every request is served -/

/-- Whether every request of a run is served. -/
def allServed (m : Machine σ) : List Request → Bool
  | [] => true
  | q :: qs => (m.serve q).result.isOk && allServed (m.serve q).machine qs

/-- A run is served if its first request is and the rest is from there. -/
theorem allServed_cons {q : Request} {qs : List Request} :
    m.allServed (q :: qs) = true ↔
      (∃ reply, (m.serve q).result = .ok reply) ∧ (m.serve q).machine.allServed qs = true := by
  rw [allServed, Bool.and_eq_true]
  refine and_congr ?_ Iff.rfl
  cases (m.serve q).result <;> simp [Except.isOk, Except.toBool]

/-- A run in two parts is served if both parts are. -/
theorem allServed_append : ∀ {qs rest : List Request} {m : Machine σ},
    m.allServed (qs ++ rest) = true ↔ m.allServed qs = true ∧ (m.serveAll qs).allServed rest = true
  | [], _, _ => (and_iff_right rfl).symm
  | q :: qs, rest, m => by
    rw [List.cons_append, allServed_cons, allServed_cons, allServed_append, and_assoc]
    rfl

/-- What every request that is served preserves of the requests so far, the machine and an
observer's notes holds after a run in which all are. -/
theorem served_induction {γ : Type} (note : γ → Machine σ → Request → γ)
    {P : List Request → Machine σ → γ → Prop}
    (step : ∀ past m notes q reply, P past m notes → (m.serve q).result = .ok reply →
      P (past ++ [q]) (m.serve q).machine (note notes m q)) :
    ∀ (qs : List Request) {past : List Request} {m : Machine σ} (notes : γ),
      m.allServed qs = true → P past m notes →
      P (past ++ qs) (m.serveAll qs) (m.watch note notes qs)
  | [], past, m, notes, _, h => by
    rw [List.append_nil]
    exact h
  | q :: qs, past, m, notes, hserved, h => by
    obtain ⟨⟨reply, hresult⟩, hrest⟩ := allServed_cons.mp hserved
    rw [List.append_cons]
    exact served_induction note step qs (note notes m q) hrest
      (step past m notes q reply h hresult)

end Machine

end DemandPaging
