import DemandPaging.Policy.Basic
import DemandPaging.Proofs.PageTable.Entries
import DemandPaging.Proofs.Frames

/-!
# What choosing a victim leaves alone

A policy sees the resident pages while it chooses, and second chance changes them: the hand takes
the mark of every page it passes over. Nothing else is touched, whatever the policy. That is
`Spares`, and `Policy.evict?_spares` proves it for all four algorithms, together with the fact that
an answer is always given while every occupant has an entry (`Grounded`).

Marks are taken one at a time, so the page table afterwards is `Swept`: a property that survives
the loss of one mark survives the choice.
-/

namespace DemandPaging

/-- The page with its mark taken away. -/
def PageEntry.unmarked (p : PageEntry) : PageEntry := p.update (·.setReferenced false)

/-- `t'` is `t` with some marks taken away. -/
inductive PageTable.Swept : PageTable → PageTable → Prop where
  | refl (t : PageTable) : Swept t t
  | unmark {t t' : PageTable} (r : EntryRef)
      (rest : Swept (t.modify r (·.setReferenced false)) t') : Swept t t'

namespace PageTable

variable {t t' : PageTable}

/-- Taking marks away keeps the tables in order. -/
theorem Swept.rooted (h : Swept t t') (ht : t.Rooted) : t'.Rooted := by
  induction h with
  | refl => exact ht
  | unmark r _ ih => exact ih (ht.modify r _)

/-- Taking marks away moves no entry. -/
theorem Swept.lookup (h : Swept t t') (a : Address) : t'.lookup a = t.lookup a := by
  induction h with
  | refl => rfl
  | unmark r _ ih => rw [ih, lookup_modify]

/-- A page is as it was, or has lost its mark. -/
theorem Swept.page?_eq (h : Swept t t') (r : EntryRef) :
    t'.page? r = t.page? r ∨ t'.page? r = (t.page? r).map (·.unmarked) := by
  induction h with
  | refl => exact Or.inl rfl
  | @unmark t _ s _ ih =>
    rw [page?_modify] at ih
    by_cases hrs : r = s
    · rw [if_pos hrs] at ih
      right
      rcases ih with ih | ih
      · exact ih
      · rw [ih, Option.map_map]
        rfl
    · rw [if_neg hrs] at ih
      exact ih

/-- A page is still there, with its mark or without. -/
theorem Swept.page?_some (h : Swept t t') {r : EntryRef} {p : PageEntry}
    (hp : t.page? r = some p) : ∃ p', t'.page? r = some p' ∧ (p' = p ∨ p' = p.unmarked) := by
  rcases h.page?_eq r with heq | heq
  · exact ⟨p, heq.trans hp, Or.inl rfl⟩
  · exact ⟨p.unmarked, by rw [heq, hp]; rfl, Or.inr rfl⟩

theorem Swept.page?_of_some (h : Swept t t') {r : EntryRef} {p' : PageEntry}
    (hp' : t'.page? r = some p') : ∃ p, t.page? r = some p ∧ (p' = p ∨ p' = p.unmarked) := by
  rcases h.page?_eq r with heq | heq
  · exact ⟨p', heq.symm.trans hp', Or.inl rfl⟩
  · obtain ⟨p, hp, rfl⟩ := Option.map_eq_some_iff.mp (heq.symm.trans hp')
    exact ⟨p, hp, Or.inr rfl⟩

end PageTable

namespace ResidentPages

/-- Every occupant of a frame has an entry. -/
def Grounded (r : ResidentPages) : Prop :=
  ∀ frame ref, r.frames.occupant? frame = some ref → ∃ p, r.pageTable.page? ref = some p

/-- The mark of a frame is the mark on the entry of its occupant. -/
theorem marked?_of_occupant {r : ResidentPages} {frame : Nat} {ref : EntryRef} {p : PageEntry}
    (hocc : r.frames.occupant? frame = some ref) (hp : r.pageTable.page? ref = some p) :
    r.marked? frame = some p.entry.referenced := by
  unfold marked?
  rw [hocc]
  simp only [PageTable.entry?, hp, Option.map_some]

/-- A free frame has no mark. -/
theorem marked?_of_free {r : ResidentPages} {frame : Nat}
    (hfree : r.frames.occupant? frame = none) : r.marked? frame = some false := by
  unfold marked?
  rw [hfree]

/-- When every occupant has an entry, every frame can be asked for its mark. -/
theorem Grounded.marked?_isSome {r : ResidentPages} (h : r.Grounded) (frame : Nat) :
    ∃ b, r.marked? frame = some b := by
  cases hocc : r.frames.occupant? frame with
  | none => exact ⟨false, marked?_of_free hocc⟩
  | some ref =>
    obtain ⟨p, hp⟩ := h frame ref hocc
    exact ⟨_, marked?_of_occupant hocc hp⟩

/-- `r'` is `r` but for marks of occupants that were taken away. -/
structure Spares (r r' : ResidentPages) : Prop where
  frames : r'.frames = r.frames
  swept : PageTable.Swept r.pageTable r'.pageTable
  absent : ∀ ref, (∀ frame, r.frames.occupant? frame ≠ some ref) →
    r'.pageTable.page? ref = r.pageTable.page? ref

theorem Spares.refl (r : ResidentPages) : Spares r r := ⟨rfl, .refl _, fun _ _ => rfl⟩

/-- What was spared has its entries still. -/
theorem Spares.grounded {r r' : ResidentPages} (h : Spares r r') (hr : r.Grounded) :
    r'.Grounded := by
  intro frame ref hocc
  rw [h.frames] at hocc
  obtain ⟨p, hp⟩ := hr frame ref hocc
  obtain ⟨p', hp', -⟩ := h.swept.page?_some hp
  exact ⟨p', hp'⟩

/-- Taking the mark of the page in a frame, and whatever is spared after that. -/
theorem Spares.of_unmark {r r' : ResidentPages} (frame : Nat) (h : Spares (r.unmark frame) r') :
    Spares r r' := by
  unfold unmark at h
  split at h
  next => exact h
  next ref hocc =>
    refine ⟨h.frames, .unmark ref h.swept, fun ref' hfree => ?_⟩
    have hne : ref' ≠ ref := by
      intro heq
      subst heq
      exact hfree frame hocc
    rw [h.absent ref' hfree]
    exact PageTable.page?_modify_of_ne hne

/-- Taking one mark away takes no entry away. -/
theorem Grounded.unmark {r : ResidentPages} (h : r.Grounded) (frame : Nat) :
    (r.unmark frame).Grounded :=
  (Spares.of_unmark frame (Spares.refl (r.unmark frame))).grounded h

end ResidentPages

namespace Policy

open ResidentPages (Spares Grounded)

/-! ## The sweep of the hand -/

/-- The hand stops at a frame without a mark. -/
theorem Clock.sweep?_of_unmarked {c : Clock} {r : ResidentPages}
    (h : r.marked? c.hand = some false) (count : Nat) :
    sweep? count c r = some (c.hand, c.advance, r) := by
  cases count with
  | zero => rfl
  | succ count => rw [sweep?, h]

/-- The hand takes a mark away and goes on. -/
theorem Clock.sweep?_of_marked {c : Clock} {r : ResidentPages}
    (h : r.marked? c.hand = some true) (count : Nat) :
    sweep? (count + 1) c r = sweep? count c.advance (r.unmark c.hand) := by
  rw [sweep?, h]

/-- The sweep ends, spares all but marks, and leaves the hand behind the victim. -/
theorem Clock.sweep?_spec {r : ResidentPages} (hr : r.Grounded) (count : Nat) (c : Clock) :
    ∃ victim r', sweep? count c r = some (victim, { c with hand := (victim + 1) % c.frames }, r') ∧
      Spares r r' ∧ (c.hand < c.frames → victim < c.frames) := by
  induction count generalizing c r with
  | zero => exact ⟨c.hand, r, rfl, .refl r, id⟩
  | succ count ih =>
    obtain ⟨b, hb⟩ := hr.marked?_isSome c.hand
    cases b with
    | false => exact ⟨c.hand, r, sweep?_of_unmarked hb _, .refl r, id⟩
    | true =>
      obtain ⟨victim, r', hsweep, hspares, hlt⟩ := ih (hr.unmark c.hand) c.advance
      have hstep := sweep?_of_marked hb count
      refine ⟨victim, r', hstep.trans hsweep, .of_unmark _ hspares, fun hhand => hlt ?_⟩
      exact Nat.mod_lt _ (by omega)

/-- The sweep names a frame that exists, and the hand ends just behind it. -/
theorem Clock.evict?_spec {r : ResidentPages} (hr : r.Grounded) {c : Clock}
    (hc : 0 < c.frames) :
    ∃ victim r',
      c.evict? r = some (some victim, { c with hand := (victim + 1) % c.frames }, r') ∧
        Spares r r' ∧ (c.hand < c.frames → victim < c.frames) := by
  obtain ⟨victim, r', hsweep, hspares, hlt⟩ := sweep?_spec hr c.frames c
  refine ⟨victim, r', ?_, hspares, hlt⟩
  unfold evict?
  rw [if_neg (by omega), hsweep]
  rfl

/-! ## All policies -/

/-- While every occupant has an entry, any policy answers, and spares all but marks. -/
theorem evict?_spares {r : ResidentPages} (hr : r.Grounded) (p : Policy) :
    ∃ choice, p.evict? r = some choice ∧ Spares r choice.residents := by
  cases p with
  | random state => exact ⟨_, rfl, .refl r⟩
  | roundRobin state => exact ⟨_, rfl, .refl r⟩
  | lru state => exact ⟨_, rfl, .refl r⟩
  | clock state =>
    rcases Nat.eq_zero_or_pos state.frames with hzero | hpos
    · refine ⟨⟨none, clock state, r⟩, ?_, .refl r⟩
      simp [evict?, Clock.evict?, hzero]
    · obtain ⟨victim, r', heq, hspares, -⟩ := Clock.evict?_spec hr hpos
      refine ⟨⟨some victim, clock ⟨(victim + 1) % state.frames, state.frames⟩, r'⟩, ?_, hspares⟩
      simp only [evict?, heq, Option.map_some]

end Policy

end DemandPaging
