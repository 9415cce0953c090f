import DemandPaging.Proofs.Machine.Requests
import DemandPaging.Proofs.Policy.Victims

/-!
# The policy of a machine in use

Paging does two things to a policy: it asks for a victim, and it says which frame served an access.
Neither makes another algorithm of it or lets it forget how many frames there are, and both leave
it in order. So a policy that was in order when the machine was built stays so.
-/

namespace DemandPaging.Machine

variable {σ : Type} [BackingStore σ] {m m' : Machine σ}

/-- A search for a frame that fails leaves the policy in order. -/
theorem Starves.policy_becomes (h : m.Consistent) (hready : m.policy.Ready) {e : PagingError}
    (hstarves : m.Starves e m') : m.policy.Becomes m'.policy := by
  cases hstarves with
  | noVictim _ chosen _ _ => exact (hready.answers h.grounded chosen).becomes
  | vacant _ chosen _ _ _ => exact (hready.answers h.grounded chosen).becomes
  | exhausted names _ => exact (hready.answers h.grounded names.chosen).becomes

theorem Frees.policy_becomes (h : m.Consistent) (hready : m.policy.Ready) {frame : Nat}
    (hfrees : m.Frees m' frame) : m.policy.Becomes m'.policy := by
  cases hfrees with
  | found _ => exact .refl hready
  | evicted names _ _ => exact (hready.answers h.grounded names.chosen).becomes

theorem BringsIn.policy_becomes (h : m.Consistent) (hready : m.policy.Ready) {r : EntryRef}
    {result : Except Failure Nat} (hbrings : m.BringsIn r result m') :
    m.policy.Becomes m'.policy := by
  cases hbrings with
  | starved starves => exact starves.policy_becomes h hready
  | unreadable frees _ _ _ =>
    have hbecomes := frees.policy_becomes h hready
    exact hbecomes
  | firstTouch frees _ _ _ _ =>
    have hbecomes := frees.policy_becomes h hready
    exact hbecomes
  | swappedIn frees _ _ _ _ _ =>
    have hbecomes := frees.policy_becomes h hready
    exact hbecomes

theorem Translates.policy_becomes (h : m.Consistent) (hready : m.policy.Ready) {a : Address}
    {kind : AccessKind} {result : Except Failure Nat} (ht : m.Translates a kind result m') :
    m.policy.Becomes m'.policy := by
  cases ht with
  | outside _ => exact .refl hready
  | @hit frame _ _ => exact (Policy.Becomes.refl hready).reference frame
  | @fault _ frame _ _ _ _ brings =>
    have hbecomes := brings.policy_becomes (h.entering a false) hready
    exact hbecomes.reference frame
  | refused _ _ _ brings =>
    have hbecomes := brings.policy_becomes (h.entering a false) hready
    exact hbecomes

/-- Every request leaves the policy in order: it is the same one at a later time. -/
theorem Serves.policy_becomes (h : m.Consistent) (hready : m.policy.Ready) {q : Request}
    {result : Except Failure Reply} (hserves : m.Serves q result m') :
    m.policy.Becomes m'.policy := by
  cases hserves with
  | refused translates => exact translates.policy_becomes h hready
  | translated translates => exact translates.policy_becomes h hready
  | stored _ translates _ =>
    have hbecomes := translates.policy_becomes h hready
    exact hbecomes
  | agreed _ translates _ => exact translates.policy_becomes h hready
  | differed _ translates _ _ =>
    have hbecomes := translates.policy_becomes h hready
    exact hbecomes

/-- In a run a policy is only asked and told. -/
theorem policy_serveAll (h : m.Consistent) (hready : m.policy.Ready) (qs : List Request) :
    (m.serveAll qs).Consistent ∧ m.policy.Becomes (m.serveAll qs).policy := by
  refine serveAll_induction (P := fun m' => m'.Consistent ∧ m.policy.Becomes m'.policy) ?_ qs
    ⟨h, .refl hready⟩
  intro m' q h'
  have hbecomes := (serve_cases h'.1 q).policy_becomes h'.1 h'.2.ready
  exact ⟨h'.1.serve q, hbecomes.ready, hbecomes.algorithm.trans h'.2.algorithm,
    hbecomes.frames.trans h'.2.frames⟩

/-- Only the end of a run makes a policy forget, and only recency. -/
theorem policy_callAll (h : m.Consistent) (hready : m.policy.Ready) (calls : List Call) :
    (m.callAll calls).policy.Ready ∧
      (m.callAll calls).policy.algorithm = m.policy.algorithm ∧
      (m.policy.algorithm ≠ .lru → (m.callAll calls).policy.frames = m.policy.frames) := by
  refine And.right (callAll_induction (P := fun m' => m'.Consistent ∧ m'.policy.Ready ∧
    m'.policy.algorithm = m.policy.algorithm ∧
    (m.policy.algorithm ≠ .lru → m'.policy.frames = m.policy.frames)) ?_ ?_ calls
    ⟨h, hready, rfl, fun _ => rfl⟩)
  · intro m' q h'
    obtain ⟨hconsistent, hready', halgorithm, hframes⟩ := h'
    have hbecomes := (serve_cases hconsistent q).policy_becomes hconsistent hready'
    exact ⟨hconsistent.serve q, hbecomes.ready, hbecomes.algorithm.trans halgorithm,
      fun hne => hbecomes.frames.trans (hframes hne)⟩
  · intro m' h'
    obtain ⟨hconsistent, hready', halgorithm, hframes⟩ := h'
    refine ⟨hconsistent.finish, hready'.finish, ?_, ?_⟩
    · exact (Policy.algorithm_finish m'.policy).trans halgorithm
    · intro hne
      exact (Policy.frames_finish (halgorithm ▸ hne)).trans (hframes hne)

/-- The policy of a machine that was built with an algorithm, after any calls. -/
theorem policy_callAll_build (frames : Nat) (algorithm : Algorithm) (seed : UInt64)
    (store : σ) (calls : List Call) :
    let m := (build frames (.ofAlgorithm algorithm seed) store).callAll calls
    m.policy.Ready ∧ m.policy.algorithm = algorithm ∧
      (algorithm ≠ .lru → m.policy.frames = frames) := by
  intro m
  have hstart : (build frames (.ofAlgorithm algorithm seed) store).policy.algorithm = algorithm :=
    (Policy.algorithm_start _ _).trans (Policy.algorithm_ofAlgorithm _ _)
  obtain ⟨hready, halgorithm, hframes⟩ := policy_callAll (consistent_build frames _ store)
    (Policy.ready_start (.ofAlgorithm algorithm seed) frames) calls
  refine ⟨hready, halgorithm.trans hstart, fun hne => ?_⟩
  exact (hframes (hstart.symm ▸ hne)).trans (Policy.frames_start _ _)

end DemandPaging.Machine
