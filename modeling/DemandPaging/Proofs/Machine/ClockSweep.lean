import DemandPaging.Proofs.Machine.ClockQueue
import Mathlib.Data.List.TakeWhile

/-!
# The sweep of the hand

Second chance looks for a victim in a loop that reads marks and takes them away as it goes, and
nothing in the loop says when to stop. `Sweeps` is that loop, with the number of frames it looks at;
it has one outcome, and what that is can be read off the marks before the first round.

The hand passes over the frames before the first one without a mark. A page is in one frame only,
so passing over a frame changes what the hand finds in no other, until it has come round: if every
page was marked, it ends where it began, at a page that has lost its mark by then. So one frame more
than there are is always enough, and `sweep?`, which counts, does what the loop does.

> `Sweeps.of_marked`: the loop passes over marked frames, and stops behind them.
> `Sweeps.sweep?_eq`: the sweep that counts is the loop.
> `Clock.evict_exact`: the outcome.
-/

namespace DemandPaging

namespace ResidentPages

variable {r : ResidentPages}

/-! ## Taking marks -/

/-- The marks of the pages in some frames are taken, one after the other. -/
def unmarkAll (r : ResidentPages) (frames : List Nat) : ResidentPages := frames.foldl unmark r

theorem unmarkAll_cons (r : ResidentPages) (f : Nat) (fs : List Nat) :
    r.unmarkAll (f :: fs) = (r.unmark f).unmarkAll fs := rfl

theorem frames_unmark (r : ResidentPages) (f : Nat) : (r.unmark f).frames = r.frames :=
  (Spares.of_unmark f (.refl _)).frames

/-- Taking the mark of a frame changes the entry of its occupant only. -/
theorem page?_unmark (r : ResidentPages) (f : Nat) (ref : EntryRef) :
    (r.unmark f).pageTable.page? ref = if r.frames.occupant? f = some ref
      then (r.pageTable.page? ref).map (·.unmarked) else r.pageTable.page? ref := by
  unfold unmark
  cases hocc : r.frames.occupant? f with
  | none => rw [if_neg (by simp)]
  | some ref' =>
    show (r.pageTable.modify ref' _).page? ref = _
    rw [PageTable.page?_modify]
    by_cases href : ref = ref'
    · subst href
      rw [if_pos rfl, if_pos rfl]
      rfl
    · rw [if_neg href, if_neg (fun heq => href (Option.some.inj heq).symm)]

/-- The mark of one frame is taken, and no other. -/
theorem Exclusive.marked?_unmark (h : r.Exclusive) (hr : r.Grounded) (f g : Nat) :
    (r.unmark f).marked? g = if g = f then some false else r.marked? g := by
  cases hocc : r.frames.occupant? g with
  | none =>
    rw [marked?_of_free hocc, marked?_of_free (r.frames_unmark f ▸ hocc), ite_self]
  | some ref =>
    obtain ⟨p, hp⟩ := hr g ref hocc
    have hocc' : (r.unmark f).frames.occupant? g = some ref := r.frames_unmark f ▸ hocc
    have hpage := r.page?_unmark f ref
    by_cases hgf : g = f
    · subst hgf
      rw [if_pos hocc, hp, Option.map_some] at hpage
      rw [if_pos rfl, marked?_of_occupant hocc' hpage]
      rfl
    · have hother : r.frames.occupant? f ≠ some ref := fun hf => hgf (h g f ref hocc hf)
      rw [if_neg hother, hp] at hpage
      rw [if_neg hgf, marked?_of_occupant hocc' hpage, marked?_of_occupant hocc hp]

/-- Taking marks moves no page. -/
theorem frames_unmarkAll (fs : List Nat) (r : ResidentPages) :
    (r.unmarkAll fs).frames = r.frames := by
  induction fs generalizing r with
  | nil => rfl
  | cons f fs ih => rw [unmarkAll_cons, ih, frames_unmark]

theorem lookup_unmarkAll (fs : List Nat) (r : ResidentPages) (a : Address) :
    (r.unmarkAll fs).pageTable.lookup a = r.pageTable.lookup a := by
  induction fs generalizing r with
  | nil => rfl
  | cons f fs ih => rw [unmarkAll_cons, ih, (Spares.of_unmark f (.refl _)).swept.lookup]

/-- The pages in these frames lose their marks, and the others keep theirs. -/
theorem page?_unmarkAll (fs : List Nat) (r : ResidentPages) (ref : EntryRef) :
    (r.unmarkAll fs).pageTable.page? ref = if ∃ f ∈ fs, r.frames.occupant? f = some ref
      then (r.pageTable.page? ref).map (·.unmarked) else r.pageTable.page? ref := by
  induction fs generalizing r with
  | nil => simp [unmarkAll]
  | cons f fs ih =>
    rw [unmarkAll_cons, ih, frames_unmark, page?_unmark]
    by_cases hf : r.frames.occupant? f = some ref
    · have htwice : PageEntry.unmarked ∘ PageEntry.unmarked = PageEntry.unmarked := rfl
      simp [hf, htwice]
    · simp [hf]

/-- In these frames no page is marked any more, and in the others the marks are as they were. -/
theorem Exclusive.marked?_unmarkAll (fs : List Nat) (h : r.Exclusive) (hr : r.Grounded) (g : Nat) :
    (r.unmarkAll fs).marked? g = if g ∈ fs then some false else r.marked? g := by
  induction fs generalizing r with
  | nil => simp [unmarkAll]
  | cons f fs ih =>
    rw [unmarkAll_cons, ih (h.unmark f) (hr.unmark f), h.marked?_unmark hr]
    by_cases hgf : g = f
    · simp [hgf]
    · simp [hgf]

end ResidentPages

namespace Policy.Clock

variable {c c' c₁ c₂ : Clock} {r r' r₁ r₂ : ResidentPages}

/-! ## The loop -/

/-- From a clock and the resident pages the loop looks at a number of frames, stops with a victim
and leaves a clock and the pages. -/
inductive Sweeps : Clock → ResidentPages → Nat → Nat → Clock → ResidentPages → Prop where
  | stop {c : Clock} {r : ResidentPages} (unmarked : r.marked? c.hand = some false) :
      Sweeps c r 1 c.hand c.advance r
  | pass {c c' : Clock} {r r' : ResidentPages} {count victim : Nat}
      (marked : r.marked? c.hand = some true)
      (rest : Sweeps c.advance (r.unmark c.hand) count victim c' r') :
      Sweeps c r (count + 1) victim c' r'

/-- The loop has one outcome. -/
theorem Sweeps.unique {count₁ count₂ victim₁ victim₂ : Nat}
    (h₁ : Sweeps c r count₁ victim₁ c₁ r₁) (h₂ : Sweeps c r count₂ victim₂ c₂ r₂) :
    count₁ = count₂ ∧ victim₁ = victim₂ ∧ c₁ = c₂ ∧ r₁ = r₂ := by
  induction h₁ generalizing count₂ with
  | stop unmarked =>
    cases h₂ with
    | stop => exact ⟨rfl, rfl, rfl, rfl⟩
    | pass marked _ => exact absurd (unmarked.symm.trans marked) (by simp)
  | pass marked _ ih =>
    cases h₂ with
    | stop unmarked => exact absurd (unmarked.symm.trans marked) (by simp)
    | pass _ rest =>
      obtain ⟨hcount, hrest⟩ := ih rest
      exact ⟨congrArg Nat.succ hcount, hrest⟩

/-- The loop looks at one frame at least. -/
theorem Sweeps.count_pos {count victim : Nat} (h : Sweeps c r count victim c' r') : 0 < count := by
  cases h <;> exact Nat.succ_pos _

/-- The sweep that counts does what the loop does, if it counts far enough. The last frame need not
be looked at, since it is known to be unmarked. -/
theorem Sweeps.sweep?_eq {n victim : Nat} (h : Sweeps c r n victim c' r') {count : Nat}
    (hcount : n ≤ count + 1) : sweep? count c r = some (victim, c', r') := by
  induction h generalizing count with
  | stop unmarked => exact sweep?_of_unmarked unmarked count
  | pass marked rest ih =>
    have hpos := rest.count_pos
    obtain ⟨count, rfl⟩ : ∃ k, count = k + 1 := ⟨count - 1, by omega⟩
    rw [sweep?_of_marked marked]
    exact ih (by omega)

/-- The hand passes over marked frames, and stops at the frame behind them if that is unmarked by
then. Behind all frames is the first of them. -/
theorem Sweeps.of_marked {victim : Nat} : ∀ (fs : List Nat) {gs : List Nat} {c : Clock}
    {r : ResidentPages}, c.hand < c.frames → r.Exclusive → r.Grounded →
    cycleFrom c.hand c.frames = fs ++ gs → (gs ++ fs).head? = some victim →
    (∀ f ∈ fs, r.marked? f = some true) → (r.unmarkAll fs).marked? victim = some false →
    Sweeps c r (fs.length + 1) victim ⟨(victim + 1) % c.frames, c.frames⟩ (r.unmarkAll fs)
  | [], gs, c, r, hhand, _, _, horder, hvictim, _, hunmarked => by
    obtain ⟨rest, hrest, -⟩ := cycleFrom_advance hhand
    rw [List.append_nil, ← List.nil_append gs, ← horder, hrest, List.head?_cons,
      Option.some.injEq] at hvictim
    subst hvictim
    exact .stop hunmarked
  | f :: fs, gs, c, r, hhand, h, hr, horder, hvictim, hmarked, hunmarked => by
    obtain ⟨rest, hrest, hadvance, hnotin⟩ := cycleFrom_advance hhand
    obtain ⟨rfl, rfl⟩ : c.hand = f ∧ rest = fs ++ gs := List.cons.inj (hrest.symm.trans horder)
    have horder' : cycleFrom c.advance.hand c.advance.frames = fs ++ (gs ++ [c.hand]) := by
      rw [← List.append_assoc]
      exact hadvance
    have hvictim' : ((gs ++ [c.hand]) ++ fs).head? = some victim := by
      rw [List.append_assoc, List.singleton_append]
      exact hvictim
    -- the hand comes by all the others before it is at the frame that it leaves again
    have hmarked' : ∀ g ∈ fs, (r.unmark c.hand).marked? g = some true := by
      intro g hg
      have hne : g ≠ c.hand := fun heq => hnotin (heq ▸ List.mem_append_left gs hg)
      rw [h.marked?_unmark hr, if_neg hne]
      exact hmarked g (List.mem_cons_of_mem _ hg)
    exact .pass (hmarked _ List.mem_cons_self)
      (Sweeps.of_marked fs (Nat.mod_lt _ (Nat.zero_lt_of_lt hhand)) (h.unmark _) (hr.unmark _)
        horder' hvictim' hmarked' hunmarked)

/-! ## Its outcome -/

/-- The frames from the hand on, up to the first whose page is unmarked. -/
def passed (c : Clock) (r : ResidentPages) : List Nat :=
  (cycleFrom c.hand c.frames).takeWhile fun f => r.marked? f = some true

/-- The first frame from the hand on whose page is unmarked, or that at the hand if all pages are
marked. -/
def victim (c : Clock) (r : ResidentPages) : Nat :=
  ((cycleFrom c.hand c.frames).find? fun f => r.marked? f = some false).getD c.hand

/-- The frames that are passed hold marked pages. -/
theorem marked?_of_mem_passed {f : Nat} (hf : f ∈ c.passed r) : r.marked? f = some true := by
  have hp := List.mem_takeWhile_imp (p := fun f => r.marked? f = some true) hf
  exact of_decide_eq_true hp

/-- No more frames are passed than there are. -/
theorem length_passed_le (c : Clock) (r : ResidentPages) : (c.passed r).length ≤ c.frames := by
  rw [← length_cycleFrom c.hand c.frames]
  exact (List.takeWhile_prefix _).length_le

/-- The frame behind those that are marked is the first that is not. -/
theorem head?_dropWhile_marked (hr : r.Grounded) (fs : List Nat) :
    (fs.dropWhile fun f => r.marked? f = some true).head?
      = fs.find? fun f => r.marked? f = some false := by
  rw [List.find?_eq_head?_dropWhile_not]
  congr
  funext f
  obtain ⟨b, hb⟩ := hr.marked?_isSome f
  cases b <;> simp [hb]

/-- The victim is the frame behind those passed over, cyclically, and is unmarked when the hand gets
there. -/
theorem victim_spec (hhand : c.hand < c.frames) (hr : r.Grounded) (hpages : r.Exclusive) :
    c.victim r < c.frames ∧ (r.unmarkAll (c.passed r)).marked? (c.victim r) = some false ∧
      ∃ rest, cycleFrom c.hand c.frames = c.passed r ++ rest ∧
        (rest ++ c.passed r).head? = some (c.victim r) := by
  have hsplit : cycleFrom c.hand c.frames = c.passed r ++
      (cycleFrom c.hand c.frames).dropWhile fun f => r.marked? f = some true :=
    List.takeWhile_append_dropWhile.symm
  have hfind := head?_dropWhile_marked hr (cycleFrom c.hand c.frames)
  have hafter := hpages.marked?_unmarkAll (c.passed r) hr
  cases hrest : (cycleFrom c.hand c.frames).dropWhile fun f => r.marked? f = some true with
  | nil =>
    -- all are marked, and the hand comes back to where it began
    rw [hrest, List.head?_nil] at hfind
    rw [hrest, List.append_nil] at hsplit
    have hvictim : c.victim r = c.hand := by rw [victim, ← hfind, Option.getD_none]
    have hpassed : c.hand ∈ c.passed r := hsplit ▸ (mem_cycleFrom hhand).mpr hhand
    refine ⟨hvictim ▸ hhand, ?_, [], hsplit.trans (List.append_nil _).symm, ?_⟩
    · rw [hvictim, hafter, if_pos hpassed]
    · obtain ⟨rest, horder, -⟩ := cycleFrom_advance hhand
      rw [List.nil_append, ← hsplit, horder, hvictim, List.head?_cons]
  | cons g gs =>
    rw [hrest, List.head?_cons] at hfind
    have hvictim : c.victim r = g := by rw [victim, ← hfind, Option.getD_some]
    have hg : r.marked? g = some false := by
      have hp := List.find?_some (p := fun f => r.marked? f = some false) hfind.symm
      exact of_decide_eq_true hp
    have hnotin : g ∉ c.passed r := fun hmem => by simp [marked?_of_mem_passed hmem] at hg
    have hmem : g ∈ cycleFrom c.hand c.frames := List.mem_of_find?_eq_some hfind.symm
    refine ⟨hvictim ▸ (mem_cycleFrom hhand).mp hmem, ?_, g :: gs, hrest ▸ hsplit, ?_⟩
    · rw [hvictim, hafter, if_neg hnotin]
      exact hg
    · rw [hvictim]
      rfl

/-- With a frame to be at, and no page in two frames, second chance always ends and finds a victim.
Its loop has one outcome, reached with the frame behind those passed over, after one frame more than
there are at most. What was passed over has lost its mark; all other marks, and all else about the
pages, are as they were, and the hand is left behind the victim. -/
theorem evict_exact (hhand : c.hand < c.frames) (hr : r.Grounded) (hpages : r.Exclusive) :
    let passed := c.passed r
    let victim := c.victim r
    let after : Clock := ⟨(victim + 1) % c.frames, c.frames⟩
    let r' := r.unmarkAll passed
    c.evict? r = some (some victim, after, r') ∧
      (∀ count v c₁ r₁, Sweeps c r count v c₁ r₁ ↔
        count = passed.length + 1 ∧ v = victim ∧ c₁ = after ∧ r₁ = r') ∧
      passed.length + 1 ≤ c.frames + 1 ∧ victim < c.frames ∧ after.hand < c.frames ∧
      r'.frames = r.frames ∧ (∀ a, r'.pageTable.lookup a = r.pageTable.lookup a) ∧
      (∀ f, r'.marked? f = if f ∈ passed then some false else r.marked? f) ∧
      ∀ ref, r'.pageTable.page? ref = if ∃ f ∈ passed, r.frames.occupant? f = some ref
        then (r.pageTable.page? ref).map (·.unmarked) else r.pageTable.page? ref := by
  intro passed victim after r'
  have hcount : passed.length + 1 ≤ c.frames + 1 := Nat.succ_le_succ (length_passed_le c r)
  obtain ⟨hlt, hunmarked, rest, hsplit, hhead⟩ := victim_spec hhand hr hpages
  have hsweeps : Sweeps c r (passed.length + 1) victim after r' :=
    .of_marked passed hhand hpages hr hsplit hhead (fun _ => marked?_of_mem_passed) hunmarked
  refine ⟨?_, ?_, hcount, hlt, Nat.mod_lt _ (Nat.zero_lt_of_lt hhand),
    ResidentPages.frames_unmarkAll passed r, ResidentPages.lookup_unmarkAll passed r,
    hpages.marked?_unmarkAll passed hr, ResidentPages.page?_unmarkAll passed r⟩
  · unfold evict?
    rw [if_neg (Nat.ne_zero_of_lt hhand), hsweeps.sweep?_eq hcount, Option.map_some]
  · intro count v c₁ r₁
    constructor
    · exact fun h => h.unique hsweeps
    · rintro ⟨rfl, rfl, rfl, rfl⟩
      exact hsweeps

/-- All pages are marked: the hand passes over frames 1, 2 and 0, and is at frame 1 again. -/
theorem evict_exact_of_three :
    let m := (Machine.build 3 (.ofAlgorithm .clock 0) (SlotStore.empty 4)).serveAll
      [.translate ⟨0x1000⟩ .load, .translate ⟨0x2000⟩ .load, .translate ⟨0x3000⟩ .store]
    let c : Clock := ⟨1, 3⟩
    (c.hand < c.frames ∧ m.residents.Grounded ∧ m.residents.Exclusive) ∧
      c.evict? m.residents = some (some 1, ⟨2, 3⟩, m.residents.unmarkAll [1, 2, 0]) := by
  intro m c
  have hm : m.Consistent :=
    Machine.serveAll_induction (fun _ q h => h.serve q) _ (Machine.consistent_build 3 _ _)
  have hhand : c.hand < c.frames := by decide
  have hpassed : c.passed m.residents = [1, 2, 0] := by decide +kernel
  have hvictim : c.victim m.residents = 1 := by decide +kernel
  refine ⟨⟨hhand, hm.grounded, hm.exclusive⟩, ?_⟩
  have hevict := (evict_exact hhand hm.grounded hm.exclusive).1
  rwa [hpassed, hvictim] at hevict

end Policy.Clock

end DemandPaging
