import DemandPaging.Proofs.Machine.Extent
import DemandPaging.Proofs.Machine.PolicyState

/-!
# Accesses refused for want of swap

When a pageout finds no room, the victim stays where it is: frames, memory, swap and the counts of
evictions are as they were. But the policy has made its choice by then, and the choice is not taken
back. Recency has lost the frame that it named, the cursor and the hand have moved on, a number was
drawn, and the marks that the hand passed over are gone. So the next eviction goes on from there.

> `swapExhausted_effect`: the machine after such an access, and exactly when the policy and the
> marks are as before: with one frame, under round robin, or under second chance without a mark.
-/

namespace DemandPaging.Machine

variable {σ : Type} {m m' : Machine σ}

/-- An access that is refused for want of swap has gone as far as the choice of its victim. -/
theorem Serves.exhausted [BackingStore σ] [LawfulStore σ] {q : Request} {frame capacity : Nat}
    (hserves : m.Serves q (.error (.refused (.swapExhausted frame capacity))) m') :
    ∃ choice victim page bytes swap,
      (m.entering q.address false).Names choice frame victim page bytes ∧
        BackingStore.save m.swap bytes page.entry.slot? = (none, swap) ∧
        m' = ((m.entering q.address false).choosing choice).withSwap swap := by
  cases hserves with
  | refused translates =>
    cases translates with
    | refused _ _ _ brings =>
      cases brings with
      | starved starves =>
        cases starves with
        | exhausted names unsaved => exact ⟨_, _, _, _, _, names, unsaved, rfl⟩
      | unreadable _ _ _ unread => exact absurd (LawfulStore.fetch_error unread) (by simp)

/-- A page that is there before the walk is there after the choice, but for its mark. -/
theorem Consistent.page?_entering_choosing (h : m.Consistent) {a : Address} {hit : Bool}
    {choice : Policy.Choice}
    (hspares : (m.entering a hit).residents.Spares choice.residents) {r : EntryRef}
    {p : PageEntry} (hp : m.pageTable.page? r = some p) :
    ∃ p', ((m.entering a hit).choosing choice).pageTable.page? r = some p' ∧
      (p' = p ∨ p' = p.unmarked) :=
  hspares.swept.page?_some ((h.rooted.extends_walk a).kept r p hp)

/-- A page that is new after the walk was never mapped, and the choice leaves it alone. -/
theorem Consistent.page?_new (h : m.Consistent) {a : Address} {hit : Bool}
    {choice : Policy.Choice}
    (hspares : (m.entering a hit).residents.Spares choice.residents) {r : EntryRef}
    {p : PageEntry} (hp : (m.entering a hit).pageTable.page? r = some p)
    (hnew : m.pageTable.page? r = none) :
    p.entry = .unmapped ∧
      ((m.entering a hit).choosing choice).pageTable.page? r = some p := by
  rcases (h.rooted.extends_walk a).fresh r p hp with hold | ⟨-, hunmapped⟩
  · rw [hnew] at hold
    simp at hold
  · refine ⟨hunmapped, (h.entering a hit).page?_choosing hspares hp ?_⟩
    rw [hunmapped]
    rfl

/-- Walking leaves the marks alone. -/
theorem Consistent.marked?_entering (h : m.Consistent) (a : Address) (hit : Bool) (frame : Nat) :
    (m.entering a hit).residents.marked? frame = m.residents.marked? frame := by
  cases hocc : m.frameTable.occupant? frame with
  | none =>
    have hfree : (m.entering a hit).residents.frames.occupant? frame = none := hocc
    rw [ResidentPages.marked?_of_free hfree]
    exact (ResidentPages.marked?_of_free hocc).symm
  | some ref =>
    obtain ⟨p, hp⟩ := h.grounded frame ref hocc
    have hp' : (m.entering a hit).residents.pageTable.page? ref = some p :=
      (h.rooted.extends_walk a).kept ref p hp
    have hocc' : (m.entering a hit).residents.frames.occupant? frame = some ref := hocc
    rw [ResidentPages.marked?_of_occupant hocc' hp']
    exact (ResidentPages.marked?_of_occupant hocc hp).symm

/-- The choice took no mark from the pages of the machine before the walk if it took none. -/
theorem Consistent.unchanged_iff (h : m.Consistent) {a : Address} {hit : Bool}
    {choice : Policy.Choice}
    (hspares : (m.entering a hit).residents.Spares choice.residents) :
    choice.Unchanged m.policy (m.entering a hit).residents ↔
      choice.policy = m.policy ∧ ∀ r p, m.pageTable.page? r = some p →
        ((m.entering a hit).choosing choice).pageTable.page? r = some p := by
  refine ⟨?_, ?_⟩
  · intro hunchanged
    refine ⟨hunchanged.1, fun r p hp => ?_⟩
    exact hunchanged.2 r p ((h.rooted.extends_walk a).kept r p hp)
  · intro hkept
    refine ⟨hkept.1, fun r p hp => ?_⟩
    cases hold : m.pageTable.page? r with
    | none => exact (h.page?_new hspares hp hold).2
    | some q =>
      have hq := (h.rooted.extends_walk a).kept r q hold
      have heq : p = q := Option.some.inj (hp.symm.trans hq)
      exact heq ▸ hkept.2 r q hold

/-- The answer of the policy, in terms of the pages that it leaves. -/
theorem Names.chosen_eq {choice : Policy.Choice} {frame : Nat} {victim : EntryRef}
    {page : PageEntry} {bytes : Page} (names : m.Names choice frame victim page bytes) :
    m.policy.evict? m.residents
      = some ⟨some frame, choice.policy, ⟨m.frameTable, choice.residents.pageTable⟩⟩ := by
  have hframes : choice.residents.frames = m.frameTable := names.spares.frames
  rw [names.chosen, ← names.named, ← hframes]

section

variable {a : Address} {hit : Bool} {choice : Policy.Choice} {frame : Nat} {victim : EntryRef}
  {page : PageEntry} {bytes : Page}

/-- A page that is there before the walk loses at most its mark, and that to second chance only. -/
theorem Consistent.page?_old (h : m.Consistent)
    (names : (m.entering a hit).Names choice frame victim page bytes) {r : EntryRef}
    {p : PageEntry} (hp : m.pageTable.page? r = some p) :
    ((m.entering a hit).choosing choice).pageTable.page? r = some p ∨
      m.policy.algorithm = .clock ∧
        ((m.entering a hit).choosing choice).pageTable.page? r = some p.unmarked := by
  by_cases hclock : m.policy.algorithm = .clock
  · obtain ⟨p', hp', hcases⟩ := h.page?_entering_choosing names.spares hp
    rcases hcases with rfl | rfl
    · exact Or.inl hp'
    · exact Or.inr ⟨hclock, hp'⟩
  · -- the other policies leave all pages as they are
    left
    have hsame := Policy.evict?_residents hclock names.chosen
    show choice.residents.pageTable.page? r = some p
    rw [hsame]
    exact (h.rooted.extends_walk a).kept r p hp

theorem Consistent.unmapped_of_new (h : m.Consistent)
    (names : (m.entering a hit).Names choice frame victim page bytes) {r : EntryRef}
    {p : PageEntry} (hp : ((m.entering a hit).choosing choice).pageTable.page? r = some p)
    (hnew : m.pageTable.page? r = none) : p.entry = .unmapped := by
  obtain ⟨p₀, hp₀, -⟩ := names.spares.swept.page?_of_some hp
  obtain ⟨hunmapped, hkept⟩ := h.page?_new names.spares hp₀ hnew
  have heq : p₀ = p := Option.some.inj (hkept.symm.trans hp)
  exact heq ▸ hunmapped

/-- Whether the policy and the pages are as before is decided before the walk. -/
theorem Consistent.kept_iff (h : m.Consistent) (hready : m.policy.Ready)
    (names : (m.entering a hit).Names choice frame victim page bytes) :
    (choice.policy = m.policy ∧ ∀ r p, m.pageTable.page? r = some p →
        ((m.entering a hit).choosing choice).pageTable.page? r = some p) ↔
      m.policy.frames = 1 ∧ (m.policy.algorithm = .roundRobin ∨
        m.policy.algorithm = .clock ∧ m.residents.marked? 0 = some false) := by
  have hgrounded := (h.entering a hit).grounded
  rw [← h.unchanged_iff names.spares, hready.unchanged_iff hgrounded names.chosen names.named,
    h.marked?_entering]

end

/-- An access refused for want of swap, after any calls. What it leaves behind beside the counts of
a reference and a miss, and new tables, is the choice of its victim. -/
theorem swapExhausted_effect (frames slots : Nat) (algorithm : Algorithm) (seed : UInt64)
    (failsOut failsIn : Nat → Bool) (calls : List Call) (q : Request) (frame capacity : Nat) :
    let m := (build frames (.ofAlgorithm algorithm seed)
      (UnreliableStore.empty slots failsOut failsIn)).callAll calls
    let m' := (m.serve q).machine
    (m.serve q).refusal? = some (.swapExhausted frame capacity) →
      (m'.frameTable = m.frameTable ∧ m'.memory = m.memory ∧ m'.swap.store = m.swap.store ∧
        m'.counters = { m.counters with
          references := m.counters.references + 1
          misses := m.counters.misses + 1 }) ∧
      (∀ r p, m.pageTable.page? r = some p → m'.pageTable.page? r = some p ∨
        algorithm = .clock ∧ m'.pageTable.page? r = some p.unmarked) ∧
      (∀ r p, m'.pageTable.page? r = some p → m.pageTable.page? r = none →
        p.entry = .unmapped) ∧
      m.policy.evict? ⟨m.frameTable, (m.pageTable.walk q.address).table⟩
        = some ⟨some frame, m'.policy, ⟨m.frameTable, m'.pageTable⟩⟩ ∧
      ((m'.policy = m.policy ∧
          ∀ r p, m.pageTable.page? r = some p → m'.pageTable.page? r = some p) ↔
        frames = 1 ∧ (algorithm = .roundRobin ∨
          algorithm = .clock ∧ m.residents.marked? 0 = some false)) := by
  intro m m' hrefusal
  have h : m.Consistent := (consistent_build frames (.ofAlgorithm algorithm seed)
    (UnreliableStore.empty slots failsOut failsIn)).callAll calls
  obtain ⟨hready, halgorithm, hframes⟩ := policy_callAll_build frames algorithm seed
    (UnreliableStore.empty slots failsOut failsIn) calls
  have hserves := serve_cases h q
  rw [Outcome.refusal?_eq_some.mp hrefusal] at hserves
  obtain ⟨choice, victim, page, bytes, swap, names, unsaved, hm'⟩ := hserves.exhausted
  have hm' : m' = ((m.entering q.address false).choosing choice).withSwap swap := hm'
  rw [hm']
  refine ⟨⟨rfl, rfl, UnreliableStore.save_none unsaved, rfl⟩, ?_, ?_, names.chosen_eq, ?_⟩
  · intro r p hp
    exact halgorithm ▸ h.page?_old names hp
  · intro r p hp hnew
    exact h.unmapped_of_new names hp hnew
  · -- the number of frames says something of the policy only where recency is out of the question
    have hkept := h.kept_iff hready names
    have hone : algorithm = .roundRobin ∨ algorithm = .clock ∧ m.residents.marked? 0 = some false →
        m.policy.frames = frames := by
      intro hor
      refine hframes ?_
      rcases hor with rfl | ⟨rfl, -⟩ <;> decide
    refine hkept.trans ?_
    rw [halgorithm]
    refine ⟨fun hor => ?_, fun hor => ?_⟩
    · exact ⟨(hone hor.2).symm.trans hor.1, hor.2⟩
    · exact ⟨(hone hor.2).trans hor.1, hor.2⟩

/-- Two frames and one slot, under recency: the fourth page is refused, and recency has forgotten
the frame that it named. -/
theorem swapExhausted_effect_recency :
    let m := (build 2 (.ofAlgorithm .lru 0)
      (UnreliableStore.empty 1 (fun _ => false) (fun _ => false))).callAll
        [.request (.translate ⟨0x1000⟩ .load), .request (.translate ⟨0x2000⟩ .load),
          .request (.translate ⟨0x3000⟩ .load)]
    let o := m.serve (.translate ⟨0x4000⟩ .load)
    o.refusal? = some (.swapExhausted 1 1) ∧
      ¬ (o.machine.policy = m.policy ∧
        ∀ r p, m.pageTable.page? r = some p → o.machine.pageTable.page? r = some p) := by
  intro m o
  have hrefusal : o.refusal? = some (.swapExhausted 1 1) := by decide +kernel
  refine ⟨hrefusal, fun hunchanged => ?_⟩
  have heffect := swapExhausted_effect 2 1 .lru 0 (fun _ => false) (fun _ => false)
    [.request (.translate ⟨0x1000⟩ .load), .request (.translate ⟨0x2000⟩ .load),
      .request (.translate ⟨0x3000⟩ .load)] (.translate ⟨0x4000⟩ .load) 1 1 hrefusal
  have hone := heffect.2.2.2.2.mp hunchanged
  exact absurd hone.1 (by decide)

end DemandPaging.Machine
