import DemandPaging.Proofs.Machine.PageUse
import DemandPaging.Proofs.Trace.Reading

/-!
# Replaying line by line

A replay is the accesses of its records, one after the other, up to the first that fails or the
first line that is no access (`Replays`); what stands behind that is not looked at. No access
depends on the number of its line, which is only passed on to what is reported. So a replay goes
the same way under other numbers, and with what reading is known to do, silent lines do not matter
to it, and a trace behind another is replayed as if it were replayed next.

> `replay_eq_iff`: a replay gives what its items say, and nothing else.
> `replay_append`: a replay of joined items is one replay and then the other.
> `unnumbered_replay_renumber`: but for the numbers of lines, they do not matter.
> `replay_lineLocal`: all of this for the bytes of a file.
-/

namespace DemandPaging

open Text (lines LinesOf EndsLine)
open Trace (Record renumber read Yields Interposed)

/-- The failure without the number of a line. -/
def Failure.unnumbered : Failure → Failure
  | .refused (.trace e) => .refused (.trace (e.renumber fun _ => 0))
  | failure => failure

/-- The event without the number of a line. -/
def Event.unnumbered : Event → Event
  | .accessed r => .accessed (r.renumber fun _ => 0)
  | .mismatched _ found expected => .mismatched 0 found expected
  | event => event

namespace Outcome

variable {σ α β γ : Type}

theorem after_empty (o : Outcome σ α) : o.after #[] = o := by
  simp [after]

theorem andThen_after (events : Array Event) (o : Outcome σ α)
    (next : Machine σ → α → Outcome σ β) :
    (o.after events).andThen next = (o.andThen next).after events := by
  obtain ⟨result, m, later⟩ := o
  cases result with
  | ok value => simp [after, Array.append_assoc]
  | error failure => rfl

/-- It does not matter in which order steps are put together. -/
theorem andThen_assoc (o : Outcome σ α) (next : Machine σ → α → Outcome σ β)
    (last : Machine σ → β → Outcome σ γ) :
    (o.andThen next).andThen last = o.andThen fun m value => (next m value).andThen last := by
  obtain ⟨result, m, events⟩ := o
  cases result with
  | ok value => rw [andThen_ok, andThen_ok, andThen_after]
  | error failure => rfl

/-- The outcome without its value and without the numbers of lines. -/
def unnumbered (o : Outcome σ α) : Outcome σ Unit :=
  ⟨(o.result.mapError Failure.unnumbered).map fun _ => (), o.machine,
    o.events.map Event.unnumbered⟩

theorem unnumbered_after (events : Array Event) (o : Outcome σ α) :
    (o.after events).unnumbered = o.unnumbered.after (events.map Event.unnumbered) := by
  simp [unnumbered, after]

/-- What goes on alike after outcomes that are alike is alike. -/
theorem unnumbered_andThen {o : Outcome σ α} {o' : Outcome σ β}
    {next : Machine σ → α → Outcome σ γ} {next' : Machine σ → β → Outcome σ γ}
    (h : o.unnumbered = o'.unnumbered)
    (hnext : ∀ m value value', o.result = .ok value → o'.result = .ok value' →
      (next m value).unnumbered = (next' m value').unnumbered) :
    (o.andThen next).unnumbered = (o'.andThen next').unnumbered := by
  obtain ⟨result, m, events⟩ := o
  obtain ⟨result', m', events'⟩ := o'
  simp only [unnumbered, Outcome.mk.injEq] at h
  obtain ⟨hresult, rfl, hevents⟩ := h
  cases result with
  | ok value =>
    cases result' with
    | ok value' =>
      rw [andThen_ok, andThen_ok, unnumbered_after, unnumbered_after, hevents,
        hnext m value value' rfl rfl]
    | error failure' => cases hresult
  | error failure =>
    cases result' with
    | ok value' => cases hresult
    | error failure' =>
      obtain hfailure : failure.unnumbered = failure'.unnumbered := Except.error.inj hresult
      simp only [andThen_error, unnumbered, Except.mapError, hfailure, hevents]

end Outcome

namespace Machine

variable {σ : Type}

/-- The line number of an access shows in its messages only. -/
theorem unnumbered_compare (m : Machine σ) (place line line' : Nat) (expected : UInt8) :
    (m.compare place line expected).unnumbered = (m.compare place line' expected).unnumbered := by
  unfold compare
  split
  next => rfl
  next =>
    dsimp only
    split
    next => rfl
    next => simp [Outcome.unnumbered, Event.unnumbered, Except.mapError, Except.map]

variable [BackingStore σ]

/-- A line at which a replay stops, with the machine as it is then: it is no access, or its access
fails. -/
inductive FailsAt (m : Machine σ) : Except LineError Record → Failure → Machine σ → Prop where
  | line {e : LineError} : FailsAt m (.error e) (.refused (.trace e)) m
  | access {r : Record} {failure : Failure} (h : (m.access r).result = .error failure) :
      FailsAt m (.ok r) failure (m.access r).machine

/-- How a replay goes: every access succeeds, or those before the line that fails do. -/
inductive Replays (m : Machine σ) :
    List (Except LineError Record) → Except Failure Unit → Machine σ → Prop where
  | through (records : List Record) (served : m.allServed (records.map .access) = true) :
      Replays m (records.map .ok) (.ok ()) (m.serveAll (records.map .access))
  | stopped (records : List Record) {item : Except LineError Record}
      {rest : List (Except LineError Record)} {failure : Failure} {m' : Machine σ}
      (served : m.allServed (records.map .access) = true)
      (fails : (m.serveAll (records.map .access)).FailsAt item failure m') :
      Replays m (records.map .ok ++ item :: rest) (.error failure) m'

/-! ## Up to the first failure -/

/-- A replay of joined items is a replay of the first, and then of the others if it came through. -/
theorem replay_append : ∀ (m : Machine σ) (items rest : List (Except LineError Record)),
    m.replay (items ++ rest) = (m.replay items).andThen fun m _ => m.replay rest
  | m, [], rest => by
    rw [List.nil_append, replay_nil]
    exact (Outcome.after_empty (m.replay rest)).symm
  | _, .error _ :: _, _ => rfl
  | m, .ok r :: items, rest => by
    rw [List.cons_append, replay_ok, replay_ok, Outcome.andThen_assoc]
    refine congrArg _ (funext fun m' => funext fun _ => ?_)
    exact replay_append m' items rest

/-- Behind the first failure nothing is looked at. -/
theorem replay_append_of_error {m : Machine σ} {items : List (Except LineError Record)}
    {failure : Failure} (h : (m.replay items).result = .error failure)
    (rest : List (Except LineError Record)) : m.replay (items ++ rest) = m.replay items := by
  rw [replay_append]
  generalize m.replay items = o at h
  obtain ⟨result, m', events⟩ := o
  obtain rfl : result = .error failure := h
  rfl

/-- An access that succeeds is the first of a replay. -/
theorem Replays.cons {m m' : Machine σ} {r : Record} {mismatch : Option Mismatch}
    {items : List (Except LineError Record)} {result : Except Failure Unit}
    (hok : (m.access r).result = .ok mismatch)
    (h : (m.access r).machine.Replays items result m') :
    m.Replays (.ok r :: items) result m' := by
  obtain ⟨hresult, hmachine⟩ := serve_access m r
  rw [← hmachine] at h
  have hserved : ∃ reply, (m.serve (.access r)).result = .ok reply := 
    ⟨.checked mismatch, by rw [hresult, hok]; rfl⟩
  cases h with
  | through records served =>
    exact .through (r :: records) (allServed_cons.mpr ⟨hserved, served⟩)
  | @stopped records _ _ _ _ served fails =>
    exact .stopped (r :: records) (allServed_cons.mpr ⟨hserved, served⟩) fails

/-- A replay ends as `Replays` has it. -/
theorem replays_replay : ∀ (m : Machine σ) (items : List (Except LineError Record)),
    m.Replays items (m.replay items).result (m.replay items).machine
  | m, [] => .through [] rfl
  | m, .error e :: rest => .stopped [] rfl .line
  | m, .ok r :: rest => by
    have hrest := replays_replay (m.access r).machine rest
    rw [replay_ok]
    apply Outcome.andThen_elim (P := m.Replays (.ok r :: rest))
    · intro mismatch hok
      exact hrest.cons hok
    · intro failure herror
      exact .stopped [] rfl (.access herror)

/-- Behind records whose accesses succeed, a replay goes on with the machine they leave. -/
theorem replay_served : ∀ {records : List Record} {m : Machine σ}
    (_ : m.allServed (records.map .access) = true) (rest : List (Except LineError Record)),
    (m.replay (records.map .ok ++ rest)).result
        = ((m.serveAll (records.map .access)).replay rest).result ∧
      (m.replay (records.map .ok ++ rest)).machine
        = ((m.serveAll (records.map .access)).replay rest).machine
  | [], _, _, _ => ⟨rfl, rfl⟩
  | r :: records, m, h, rest => by
    obtain ⟨⟨reply, hreply⟩, hserved⟩ := allServed_cons.mp h
    obtain ⟨hresult, hmachine⟩ := serve_access m r
    have hrest := replay_served hserved rest
    rw [List.map_cons, List.cons_append, replay_ok]
    apply Outcome.andThen_elim (P := fun result m' =>
      result = ((m.serveAll ((r :: records).map .access)).replay rest).result ∧
        m' = ((m.serveAll ((r :: records).map .access)).replay rest).machine)
    · intro mismatch _
      rw [← hmachine]
      exact hrest
    · intro failure herror
      rw [hresult, herror] at hreply
      cases hreply

/-- A replay ends only as `Replays` has it. -/
theorem replay_of_replays {m m' : Machine σ} {items : List (Except LineError Record)}
    {result : Except Failure Unit} (h : m.Replays items result m') :
    (m.replay items).result = result ∧ (m.replay items).machine = m' := by
  cases h with
  | through records served =>
    have hserved := replay_served served []
    rw [List.append_nil] at hserved
    exact hserved
  | @stopped records item rest failure _ served fails =>
    obtain ⟨hresult, hmachine⟩ := replay_served served (item :: rest)
    rw [hresult, hmachine]
    cases fails with
    | line => exact ⟨rfl, rfl⟩
    | @access r _ h =>
      rw [replay_ok]
      apply Outcome.andThen_elim (P := fun result m' =>
        result = .error failure ∧ m' = ((m.serveAll (records.map .access)).access r).machine)
      · intro mismatch hok
        rw [hok] at h
        cases h
      · intro failure' herror
        rw [herror] at h
        exact ⟨congrArg _ (Except.error.inj h), rfl⟩

/-- A replay gives exactly what its items say, up to the first that fails. -/
theorem replay_eq_iff {m m' : Machine σ} {items : List (Except LineError Record)}
    {result : Except Failure Unit} :
    (m.replay items).result = result ∧ (m.replay items).machine = m' ↔
      m.Replays items result m' := by
  refine ⟨?_, replay_of_replays⟩
  rintro ⟨rfl, rfl⟩
  exact replays_replay m items

/-! ## Numbers of lines -/

/-- An access does the same under another number. -/
theorem unnumbered_access_renumber (f : Nat → Nat) (m : Machine σ) (r : Record) :
    (m.access (r.renumber f)).unnumbered = (m.access r).unnumbered := by
  unfold access
  rw [Outcome.unnumbered_after, Outcome.unnumbered_after]
  have hevents : #[Event.accessed (r.renumber f)].map Event.unnumbered
      = #[Event.accessed r].map Event.unnumbered := by
    simp [Event.unnumbered, Record.renumber]
  refine congrArg₂ Outcome.after hevents (Outcome.unnumbered_andThen rfl ?_)
  intro m' place place' hplace hplace'
  obtain rfl : place = place' := Except.ok.inj (hplace.symm.trans hplace')
  show Outcome.unnumbered (if r.kind.writes then _ else m'.compare place (f r.line) r.value) = _
  split
  next => rfl
  next => exact unnumbered_compare m' place (f r.line) r.line r.value

/-- A replay goes the same way under other numbers. -/
theorem unnumbered_replay_renumber (f : Nat → Nat) :
    ∀ (m : Machine σ) (items : List (Except LineError Record)),
      (m.replay (items.map (renumber f))).unnumbered = (m.replay items).unnumbered
  | _, [] => rfl
  | m, .error e :: rest => by
    rw [List.map_cons, renumber, replay_error, replay_error]
    simp only [Outcome.unnumbered, Outcome.refused, Except.mapError, Failure.unnumbered,
      LineError.renumber_renumber]
    rfl
  | m, .ok r :: rest => by
    rw [List.map_cons, renumber, replay_ok, replay_ok]
    refine Outcome.unnumbered_andThen (unnumbered_access_renumber f m r) fun m' _ _ _ _ => ?_
    exact unnumbered_replay_renumber f m' rest

/-- Items that differ in the numbers of lines only are replayed alike. -/
theorem unnumbered_replay_congr {items items' : List (Except LineError Record)}
    (h : items.map (renumber fun _ => 0) = items'.map (renumber fun _ => 0)) (m : Machine σ) :
    (m.replay items).unnumbered = (m.replay items').unnumbered := by
  rw [← unnumbered_replay_renumber (fun _ => 0), h, unnumbered_replay_renumber]

/-! ## Files -/

/-- Reading and replaying go line by line. The lines of a file are where its line feeds are, each
gives what it gives by itself, and a replay performs what they give up to the first failure, with
nothing behind it looked at. Silent lines, put in or taken out anywhere, change numbers of lines
only; and behind an ended line a file is replayed as if it were replayed next, with its lines
counted on. -/
theorem replay_lineLocal (m : Machine σ) (bytes : List UInt8) :
    (∀ ls, lines bytes = ls ↔ LinesOf bytes ls) ∧
    (∀ items, read bytes = items ↔ Yields 1 (lines bytes) items) ∧
    (∀ result m', (m.replay (read bytes)).result = result ∧ (m.replay (read bytes)).machine = m' ↔
      m.Replays (read bytes) result m') ∧
    (∀ items rest failure, (m.replay items).result = .error failure →
      m.replay (items ++ rest) = m.replay items) ∧
    (∀ bytes', Relation.EqvGen Interposed bytes bytes' →
      (m.replay (read bytes)).unnumbered = (m.replay (read bytes')).unnumbered) ∧
    (∀ front, EndsLine front →
      m.replay (read (front ++ bytes)) = (m.replay (read front)).andThen fun m' _ =>
        m'.replay ((read bytes).map (renumber (· + (lines front).length)))) ∧
    ∀ (m' : Machine σ) (f : Nat → Nat),
      (m'.replay ((read bytes).map (renumber f))).unnumbered = (m'.replay (read bytes)).unnumbered
      := by
  refine ⟨fun ls => Text.lines_eq_iff, fun items => Trace.read_eq_iff,
    fun result m' => replay_eq_iff, fun items rest failure herror => ?_, fun bytes' h => ?_,
    fun front hends => ?_, fun m' f => unnumbered_replay_renumber f m' (read bytes)⟩
  · exact replay_append_of_error herror rest
  · exact unnumbered_replay_congr (Trace.read_eqvGen h) m
  · rw [Trace.read_append hends, replay_append]

end Machine

end DemandPaging
