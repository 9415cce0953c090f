import DemandPaging.Proofs.Policy.Choice
import DemandPaging.Proofs.Policy.RecencyList

/-!
# Which victims a policy has to offer

Three of the four algorithms may name any frame. Recency is the exception: it names the frames of
its list, and a frame that it named is not in the list until it is used again. `Offers` says which
frames a policy may name, and `Answers` what it owes when it is asked:

> the victim is a frame it offers; there is none only if it offers none; and recency no longer
> offers the frame it named.

That holds of a policy in order (`Ready`), which is how a policy is started and how every operation
leaves it. The answer also changes the policy or the marks of the pages, with two exceptions, and
both need memory of one frame (`evict?_unchanged_iff`).
-/

namespace DemandPaging

/-- A sample draws at least one word. -/
theorem Random.lt_sampleWithin (seed : UInt64) (bound count n : Nat) :
    n < (sampleWithin seed bound count n).2 := by
  induction count generalizing n with
  | zero => exact Nat.lt_succ_self n
  | succ count ih =>
    unfold sampleWithin
    split
    next => exact Nat.lt_succ_self n
    next =>
      have hrest := ih (n + 1)
      omega

namespace Policy

open ResidentPages (Grounded Spares)

/-! ## Policies in order -/

/-- The number of frames that the policy was started with; a recency list may be given up. -/
def frames : Policy → Nat
  | random s => s.frames
  | roundRobin s => s.frames
  | clock s => s.frames
  | lru s => s.frames

/-- Cursor and hand are at a frame, and the recency links are those of a list. -/
def Ready : Policy → Prop
  | random _ => True
  | roundRobin s => 0 < s.frames → s.next < s.frames
  | clock s => 0 < s.frames → s.hand < s.frames
  | lru s => ∃ xs, s.links.Lists xs

/-- The policy may name the frame as its victim. -/
def Offers (p : Policy) (frame : Nat) : Prop :=
  match p with
  | lru s => ∃ h : frame < s.frames, s.links.linked.get ⟨frame, h⟩ = true
  | p => frame < p.frames

variable {p : Policy}

/-- All policies but recency offer every frame at any time. -/
theorem offers_of_ne_lru (h : p.algorithm ≠ .lru) (frame : Nat) :
    p.Offers frame ↔ frame < p.frames := by
  cases p with
  | lru s => exact absurd rfl h
  | random s => exact Iff.rfl
  | roundRobin s => exact Iff.rfl
  | clock s => exact Iff.rfl

/-- Recency offers the frames in its list. -/
theorem offers_lru {s : Recency} {xs : List (Fin s.frames)} (h : s.links.Lists xs)
    (frame : Nat) : (lru s).Offers frame ↔ frame ∈ xs.map Fin.val := by
  unfold Offers
  rw [List.mem_map]
  refine ⟨?_, ?_⟩
  · intro hex
    obtain ⟨hlt, hlinked⟩ := hex
    exact ⟨⟨frame, hlt⟩, (h.linked _).mp hlinked, rfl⟩
  · intro hex
    obtain ⟨f, hf, rfl⟩ := hex
    exact ⟨f.isLt, (h.linked f).mpr hf⟩

theorem ready_start (p : Policy) (n : Nat) : (p.start n).Ready := by
  cases p with
  | random s => exact True.intro
  | roundRobin s => exact id
  | clock s => exact id
  | lru s => exact ⟨[], Links.lists_empty n⟩

theorem frames_start (p : Policy) (n : Nat) : (p.start n).frames = n := by
  cases p <;> rfl

theorem algorithm_start (p : Policy) (n : Nat) : (p.start n).algorithm = p.algorithm := by
  cases p <;> rfl

theorem algorithm_ofAlgorithm (a : Algorithm) (seed : UInt64) :
    (ofAlgorithm a seed).algorithm = a := by
  cases a <;> rfl

theorem algorithm_finish (p : Policy) : p.finish.algorithm = p.algorithm := by
  cases p <;> rfl

/-- Only recency gives up its frames at the end of a run. -/
theorem frames_finish (h : p.algorithm ≠ .lru) : p.finish.frames = p.frames := by
  cases p with
  | lru s => exact absurd rfl h
  | _ => rfl

/-- A policy stays in order at the end of a run. -/
theorem Ready.finish (h : p.Ready) : p.finish.Ready := by
  cases p with
  | lru s => exact ⟨[], Links.lists_empty 0⟩
  | _ => exact h

/-- `p'` is `p` at a later time of a run, and in order. -/
structure Becomes (p p' : Policy) : Prop where
  ready : p'.Ready
  algorithm : p'.algorithm = p.algorithm
  frames : p'.frames = p.frames

theorem Becomes.refl (h : p.Ready) : p.Becomes p := ⟨h, rfl, rfl⟩

/-- Telling the policy of a use makes it no other policy. -/
theorem Becomes.reference {p' : Policy} (h : p.Becomes p') (frame : Nat) :
    p.Becomes (p'.reference frame) := by
  cases p' with
  | lru s =>
    obtain ⟨xs, hlists⟩ := h.ready
    show p.Becomes (lru (s.reference frame))
    unfold Recency.reference
    split
    next hlt => exact ⟨⟨_, hlists.touch ⟨frame, hlt⟩⟩, h.algorithm, h.frames⟩
    next => exact h
  | _ => exact h

/-- A recency policy that was just started has no frame to name. -/
theorem not_offers_start (hlru : p.algorithm = .lru) (n frame : Nat) :
    ¬ (p.start n).Offers frame := by
  cases p with
  | lru s =>
    intro hoffers
    have hmem := (offers_lru (s := .empty n) (Links.lists_empty n) frame).mp hoffers
    exact List.not_mem_nil hmem
  | _ => simp [algorithm] at hlru

/-- Recency offers a frame once it was used. -/
theorem offers_reference (h : p.Ready) (hlru : p.algorithm = .lru) {frame : Nat}
    (hlt : frame < p.frames) (g : Nat) :
    (p.reference frame).Offers g ↔ g = frame ∨ p.Offers g := by
  cases p with
  | lru s =>
    obtain ⟨xs, hlists⟩ := h
    have htouch := hlists.touch ⟨frame, hlt⟩
    have hreference : s.reference frame = { s with links := s.links.touch ⟨frame, hlt⟩ } :=
      dif_pos hlt
    show (lru (s.reference frame)).Offers g ↔ _
    rw [hreference, offers_lru (s := { s with links := s.links.touch ⟨frame, hlt⟩ }) htouch,
      offers_lru hlists, List.map_cons, List.mem_cons]
    by_cases hg : g = frame
    · simp [hg]
    · -- another frame stays where it is
      simp only [hg, false_or, List.mem_map]
      refine ⟨?_, ?_⟩
      · intro hex
        obtain ⟨f, hf, rfl⟩ := hex
        exact ⟨f, List.mem_of_mem_erase hf, rfl⟩
      · intro hex
        obtain ⟨f, hf, rfl⟩ := hex
        have hne : f ≠ ⟨frame, hlt⟩ := fun heq => hg (congrArg Fin.val heq)
        exact ⟨f, (List.mem_erase_of_ne hne).mpr hf, rfl⟩
  | _ => simp [algorithm] at hlru

/-! ## Answers -/

/-- What a policy owes when it is asked for a victim. -/
structure Answers (p : Policy) (choice : Choice) : Prop where
  becomes : p.Becomes choice.policy
  offered : ∀ frame, choice.victim = some frame → p.Offers frame
  none_iff : choice.victim = none ↔ ∀ frame, ¬ p.Offers frame
  /-- Only recency remembers whom it named. -/
  offers_iff : ∀ frame, choice.policy.Offers frame ↔
    p.Offers frame ∧ ¬ (p.algorithm = .lru ∧ choice.victim = some frame)

/-- The random policy answers as it owes. -/
theorem evict?_random (s : Uniform) (r : ResidentPages) {choice : Choice}
    (hchosen : (random s).evict? r = some choice) : (random s).Answers choice := by
  simp only [evict?, Uniform.evict, Option.some.injEq] at hchosen
  split at hchosen
  next hzero =>
    subst hchosen
    refine ⟨⟨True.intro, rfl, rfl⟩, by simp, ?_, by simp [algorithm]⟩
    simp [Offers, Policy.frames, hzero]
  next hpos =>
    subst hchosen
    have hlt := Random.sample_lt s.seed (Nat.pos_of_ne_zero hpos) s.draws
    refine ⟨⟨True.intro, rfl, rfl⟩, ?_, ?_, ?_⟩
    · intro frame hframe
      exact Option.some.inj hframe ▸ hlt
    · simp only [reduceCtorEq, false_iff]
      exact fun hnone => hnone _ hlt
    · simp [algorithm, Offers, Policy.frames]

/-- Round robin answers as it owes. -/
theorem evict?_roundRobin {s : RoundRobin} (h : (roundRobin s).Ready) (r : ResidentPages)
    {choice : Choice} (hchosen : (roundRobin s).evict? r = some choice) :
    (roundRobin s).Answers choice := by
  simp only [evict?, RoundRobin.evict, Option.some.injEq] at hchosen
  split at hchosen
  next hzero =>
    subst hchosen
    refine ⟨⟨h, rfl, rfl⟩, by simp, ?_, by simp [algorithm]⟩
    simp [Offers, Policy.frames, hzero]
  next hpos =>
    subst hchosen
    have hlt : s.next < s.frames := h (Nat.pos_of_ne_zero hpos)
    refine ⟨⟨fun hframes => Nat.mod_lt _ hframes, rfl, rfl⟩, ?_, ?_, ?_⟩
    · intro frame hframe
      exact Option.some.inj hframe ▸ hlt
    · simp only [reduceCtorEq, false_iff]
      exact fun hnone => hnone _ hlt
    · simp [algorithm, Offers, Policy.frames]

/-- Second chance answers as it owes, marks and all. -/
theorem evict?_clock {s : Clock} (h : (clock s).Ready) {r : ResidentPages} (hr : r.Grounded)
    {choice : Choice} (hchosen : (clock s).evict? r = some choice) :
    (clock s).Answers choice := by
  rcases Nat.eq_zero_or_pos s.frames with hzero | hpos
  · simp only [evict?, Clock.evict?, if_pos hzero, Option.map_some, Option.some.injEq] at hchosen
    subst hchosen
    refine ⟨⟨h, rfl, rfl⟩, by simp, ?_, by simp [algorithm]⟩
    simp [Offers, Policy.frames, hzero]
  · obtain ⟨victim, r', hevict, -, hlt⟩ := Clock.evict?_spec hr hpos
    simp only [evict?, hevict, Option.map_some, Option.some.injEq] at hchosen
    subst hchosen
    have hvictim := hlt (h hpos)
    refine ⟨⟨fun hframes => Nat.mod_lt _ hframes, rfl, rfl⟩, ?_, ?_, ?_⟩
    · intro frame hframe
      exact Option.some.inj hframe ▸ hvictim
    · simp only [reduceCtorEq, false_iff]
      exact fun hnone => hnone _ hvictim
    · simp [algorithm, Offers, Policy.frames]

/-- Recency answers as it owes, and forgets the frame that it named. -/
theorem evict?_lru {s : Recency} (h : (lru s).Ready) (r : ResidentPages) {choice : Choice}
    (hchosen : (lru s).evict? r = some choice) : (lru s).Answers choice := by
  obtain ⟨xs, hlists⟩ := h
  obtain ⟨hvictim, hrest⟩ := hlists.evict
  simp only [evict?, Recency.evict, Option.some.injEq] at hchosen
  subst hchosen
  have hoffers := offers_lru hlists
  have hoffers' := offers_lru (s := { s with links := s.links.evict.2 }) hrest
  refine ⟨⟨⟨_, hrest⟩, rfl, rfl⟩, ?_, ?_, ?_⟩
  · intro frame hframe
    obtain ⟨f, hf, rfl⟩ := Option.map_eq_some_iff.mp hframe
    rw [hvictim] at hf
    exact (hoffers _).mpr (List.mem_map_of_mem (List.mem_of_getLast? hf))
  · rw [Option.map_eq_none_iff, hvictim, List.getLast?_eq_none_iff]
    simp only [hoffers]
    refine ⟨?_, ?_⟩
    · intro hnil
      simp [hnil]
    · intro hnone
      refine List.eq_nil_iff_forall_not_mem.mpr fun f hf => ?_
      exact hnone f.val (List.mem_map_of_mem hf)
  · intro frame
    rw [hoffers', hoffers, hvictim]
    simp only [algorithm, true_and]
    -- the list without its last frame, which stands nowhere else in it
    rcases List.eq_nil_or_concat xs with rfl | ⟨ys, f, hxs⟩
    · simp
    · rw [List.concat_eq_append] at hxs
      subst hxs
      have hf : f ∉ ys := (Links.nodup_around hlists.nodup).2.1
      rw [List.dropLast_concat, List.getLast?_concat, List.map_append, List.mem_append]
      simp only [Option.map_some, Option.some.injEq, List.map_cons, List.map_nil,
        List.mem_singleton]
      refine ⟨?_, ?_⟩
      · intro hmem
        obtain ⟨g, hg, rfl⟩ := List.mem_map.mp hmem
        refine ⟨Or.inl hmem, fun heq => hf ?_⟩
        exact Fin.ext heq ▸ hg
      · intro hmem
        rcases hmem.1 with hys | heq
        · exact hys
        · exact absurd heq.symm hmem.2

/-- A policy in order gives the answer that it owes. -/
theorem Ready.answers (h : p.Ready) {r : ResidentPages} (hr : r.Grounded) {choice : Choice}
    (hchosen : p.evict? r = some choice) : p.Answers choice := by
  cases p with
  | random s => exact evict?_random s r hchosen
  | roundRobin s => exact evict?_roundRobin h r hchosen
  | clock s => exact evict?_clock h hr hchosen
  | lru s => exact evict?_lru h r hchosen

/-! ## What an answer leaves behind -/

/-- The hand stops at a frame without a mark and takes none. -/
theorem Clock.evict?_of_unmarked {c : Clock} {r : ResidentPages} (hpos : 0 < c.frames)
    (hmarked : r.marked? c.hand = some false) :
    c.evict? r = some (some c.hand, c.advance, r) := by
  unfold evict?
  rw [if_neg (Nat.ne_of_gt hpos), sweep?_of_unmarked hmarked, Option.map_some]

/-- A page at the hand that has a mark loses it. -/
theorem Clock.evict?_of_marked {c : Clock} {r : ResidentPages} (hr : r.Grounded)
    (hpos : 0 < c.frames) {ref : EntryRef} {page : PageEntry}
    (hocc : r.frames.occupant? c.hand = some ref) (hpage : r.pageTable.page? ref = some page)
    (hmarked : page.entry.referenced = true) :
    ∃ victim c' r' page', c.evict? r = some (some victim, c', r') ∧
      r'.pageTable.page? ref = some page' ∧ page'.entry.referenced = false := by
  obtain ⟨count, hcount⟩ := Nat.exists_eq_succ_of_ne_zero (Nat.ne_of_gt hpos)
  obtain ⟨victim, r', hsweep, hspares, -⟩ := sweep?_spec (hr.unmark c.hand) count c.advance
  have hunmarked : (r.unmark c.hand).pageTable.page? ref = some page.unmarked := by
    unfold ResidentPages.unmark
    rw [hocc]
    show (r.pageTable.modify ref _).page? ref = _
    rw [PageTable.page?_modify_self, hpage]
    rfl
  obtain ⟨page', hpage', hcases⟩ := hspares.swept.page?_some hunmarked
  refine ⟨victim, ⟨(victim + 1) % c.frames, c.frames⟩, r', page', ?_, hpage', ?_⟩
  · have hstep : sweep? c.frames c r = sweep? count c.advance (r.unmark c.hand) := by
      have hmarked? : r.marked? c.hand = some true := by
        rw [ResidentPages.marked?_of_occupant hocc hpage, hmarked]
      rw [hcount]
      exact sweep?_of_marked hmarked? count
    unfold evict?
    rw [if_neg (Nat.ne_of_gt hpos), hstep, hsweep]
    rfl
  · rcases hcases with rfl | rfl <;> rfl

theorem add_one_mod_eq_self_iff {i n : Nat} (h : i < n) : (i + 1) % n = i ↔ n = 1 := by
  rcases Nat.lt_or_ge (i + 1) n with hlt | hge
  · rw [Nat.mod_eq_of_lt hlt]
    omega
  · have heq : i + 1 = n := by omega
    rw [heq, Nat.mod_self]
    omega

/-- Only second chance takes marks. -/
theorem evict?_residents (h : p.algorithm ≠ .clock) {r : ResidentPages} {choice : Choice}
    (hchosen : p.evict? r = some choice) : choice.residents = r := by
  cases p with
  | clock s => exact absurd rfl h
  | _ =>
    simp only [evict?, Option.some.injEq] at hchosen
    subst hchosen
    rfl

/-- The choice changed neither the policy nor any page. -/
def Choice.Unchanged (choice : Choice) (p : Policy) (r : ResidentPages) : Prop :=
  choice.policy = p ∧
    ∀ ref page, r.pageTable.page? ref = some page → choice.residents.pageTable.page? ref = some page

/-- The random policy draws a number for every victim. -/
theorem not_unchanged_random {s : Uniform} (hpos : 0 < s.frames) {r : ResidentPages}
    {choice : Choice} (hchosen : (random s).evict? r = some choice) :
    ¬ choice.Unchanged (random s) r := by
  simp only [evict?, Uniform.evict, if_neg (Nat.ne_of_gt hpos), Option.some.injEq] at hchosen
  subst hchosen
  intro hunchanged
  have hdraws := Random.lt_sampleWithin s.seed s.frames Random.period s.draws
  have heq := congrArg Uniform.draws (Policy.random.inj hunchanged.1)
  exact absurd heq (Nat.ne_of_gt hdraws)

/-- The cursor moves on, unless it is back where it was. -/
theorem unchanged_roundRobin_iff {s : RoundRobin} (h : (roundRobin s).Ready) (hpos : 0 < s.frames)
    {r : ResidentPages} {choice : Choice} (hchosen : (roundRobin s).evict? r = some choice) :
    choice.Unchanged (roundRobin s) r ↔ s.frames = 1 := by
  have hiff := add_one_mod_eq_self_iff (h hpos)
  simp only [evict?, RoundRobin.evict, if_neg (Nat.ne_of_gt hpos), Option.some.injEq] at hchosen
  subst hchosen
  refine ⟨?_, ?_⟩
  · intro hunchanged
    exact hiff.mp (congrArg RoundRobin.next (Policy.roundRobin.inj hunchanged.1))
  · intro hone
    refine ⟨?_, fun ref page hpage => hpage⟩
    show roundRobin { s with next := (s.next + 1) % s.frames } = roundRobin s
    rw [hiff.mpr hone]

/-- A hand that finds no mark takes none, and moves on unless it is back where it was. -/
theorem unchanged_clock_of_unmarked {s : Clock} (h : (clock s).Ready) (hpos : 0 < s.frames)
    {r : ResidentPages} (hmarked : r.marked? s.hand = some false) {choice : Choice}
    (hchosen : (clock s).evict? r = some choice) :
    choice.Unchanged (clock s) r ↔ s.frames = 1 := by
  have hiff := add_one_mod_eq_self_iff (h hpos)
  simp only [evict?, Clock.evict?_of_unmarked hpos hmarked, Option.map_some,
    Option.some.injEq] at hchosen
  subst hchosen
  refine ⟨?_, ?_⟩
  · intro hunchanged
    have hadvance : s.advance = s := Policy.clock.inj hunchanged.1
    exact hiff.mp (congrArg Clock.hand hadvance)
  · intro hone
    refine ⟨congrArg clock ?_, fun ref page hpage => hpage⟩
    unfold Clock.advance
    rw [hiff.mpr hone]

/-- A hand that finds a mark takes it, so one page differs afterwards. -/
theorem not_unchanged_clock_of_marked {s : Clock} (hpos : 0 < s.frames) {r : ResidentPages}
    (hr : r.Grounded) (hmarked : r.marked? s.hand = some true) {choice : Choice}
    (hchosen : (clock s).evict? r = some choice) : ¬ choice.Unchanged (clock s) r := by
  cases hocc : r.frames.occupant? s.hand with
  | none => simp [ResidentPages.marked?_of_free hocc] at hmarked
  | some ref =>
    obtain ⟨page, hpage⟩ := hr s.hand ref hocc
    have hreferenced : page.entry.referenced = true := by
      rw [ResidentPages.marked?_of_occupant hocc hpage, Option.some.injEq] at hmarked
      exact hmarked
    obtain ⟨victim, c', r', page', hevict, hpage', hcleared⟩ :=
      Clock.evict?_of_marked hr hpos hocc hpage hreferenced
    simp only [evict?, hevict, Option.map_some, Option.some.injEq] at hchosen
    subst hchosen
    intro hunchanged
    have heq := (hunchanged.2 ref page hpage).symm.trans hpage'
    rw [Option.some.injEq] at heq
    rw [heq, hcleared] at hreferenced
    simp at hreferenced

/-- The sweep changes nothing only if there is one frame and its page is unmarked. -/
theorem unchanged_clock_iff {s : Clock} (h : (clock s).Ready) (hpos : 0 < s.frames)
    {r : ResidentPages} (hr : r.Grounded) {choice : Choice}
    (hchosen : (clock s).evict? r = some choice) :
    choice.Unchanged (clock s) r ↔ s.frames = 1 ∧ r.marked? 0 = some false := by
  have hhand := h hpos
  -- in memory of one frame the hand is at frame 0
  have hzero : s.frames = 1 → s.hand = 0 := fun hone => by omega
  obtain ⟨marked, hmarked⟩ := hr.marked?_isSome s.hand
  cases marked with
  | false =>
    rw [unchanged_clock_of_unmarked h hpos hmarked hchosen]
    exact ⟨fun hone => ⟨hone, hzero hone ▸ hmarked⟩, fun hone => hone.1⟩
  | true =>
    refine iff_of_false (not_unchanged_clock_of_marked hpos hr hmarked hchosen) ?_
    intro hone
    rw [← hzero hone.1, hmarked] at hone
    simp at hone

/-- Naming a victim changes the policy or takes marks, except in memory of one frame: there round
robin has nowhere else to go, and neither has the hand when its page has no mark. -/
theorem Ready.unchanged_iff (h : p.Ready) {r : ResidentPages} (hr : r.Grounded) {choice : Choice}
    (hchosen : p.evict? r = some choice) {frame : Nat} (hvictim : choice.victim = some frame) :
    choice.Unchanged p r ↔ p.frames = 1 ∧
      (p.algorithm = .roundRobin ∨ p.algorithm = .clock ∧ r.marked? 0 = some false) := by
  have hanswers := h.answers hr hchosen
  have hoffered := hanswers.offered frame hvictim
  cases p with
  | random s =>
    have hpos : 0 < s.frames := Nat.zero_lt_of_lt hoffered
    refine iff_of_false (not_unchanged_random hpos hchosen) ?_
    simp [algorithm]
  | roundRobin s =>
    have hpos : 0 < s.frames := Nat.zero_lt_of_lt hoffered
    rw [unchanged_roundRobin_iff h hpos hchosen]
    simp [algorithm, Policy.frames]
  | clock s =>
    have hpos : 0 < s.frames := Nat.zero_lt_of_lt hoffered
    rw [unchanged_clock_iff h hpos hr hchosen]
    simp [algorithm, Policy.frames]
  | lru s =>
    -- the victim is no longer in the list
    refine iff_of_false ?_ (by simp [algorithm])
    intro hunchanged
    have hgone := (hanswers.offers_iff frame).mp (hunchanged.1 ▸ hoffered)
    exact absurd ⟨rfl, hvictim⟩ hgone.2

end Policy

end DemandPaging
