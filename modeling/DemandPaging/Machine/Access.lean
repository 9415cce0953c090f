import DemandPaging.Machine.Paging
import DemandPaging.Trace.Reader

/-!
# Accesses and replays

An access stores its byte, or checks that the byte it says is there; a byte that differs is a
`Mismatch`, which is reported but stops nothing. A replay performs the accesses of a trace in
order up to the first that is refused or the first line that is no access.
-/

namespace DemandPaging

/-- A load or fetch that found another byte than the trace says. -/
structure Mismatch where
  line : Nat
  found : UInt8
  expected : UInt8
deriving DecidableEq

namespace Machine

variable {σ : Type} [BackingStore σ]

/-- Stores the byte of a record at its place. -/
def store (m : Machine σ) (place : Nat) (value : UInt8) : Outcome σ (Option Mismatch) :=
  match m.memory.write? place value with
  | none => .broken m
  | some memory => .ok { m with memory := memory } none

/-- Compares the byte of a record with the one at its place. -/
def compare (m : Machine σ) (place line : Nat) (expected : UInt8) : Outcome σ (Option Mismatch) :=
  match m.memory.read? place with
  | none => .broken m
  | some found =>
    if found = expected then .ok m none
    else
      let m : Machine σ :=
        { m with counters := { m.counters with mismatches := m.counters.mismatches + 1 } }
      ⟨.ok (some ⟨line, found, expected⟩), m, #[.mismatched line found expected]⟩

/-- Performs one access of a trace. -/
def access (m : Machine σ) (r : Trace.Record) : Outcome σ (Option Mismatch) :=
  .after #[.accessed r] <|
    (m.translate r.address r.kind).andThen fun m place =>
      if r.kind.writes then m.store place r.value else m.compare place r.line r.value

/-- Performs the accesses of a trace, adding to the events seen before. -/
def replayFrom (seen : Array Event) (m : Machine σ) :
    List (Except LineError Trace.Record) → Outcome σ Unit
  | [] => ⟨.ok (), m, seen⟩
  | .error e :: _ => ⟨.error (.refused (.trace e)), m, seen⟩
  | .ok r :: rest =>
    match m.access r with
    | ⟨.ok _, m, events⟩ => replayFrom (seen ++ events) m rest
    | ⟨.error failure, m, events⟩ => ⟨.error failure, m, seen ++ events⟩

/-- Performs the accesses of a trace up to the first failure. -/
def replay (m : Machine σ) (items : List (Except LineError Trace.Record)) : Outcome σ Unit :=
  m.replayFrom #[] items

/-- What there is to report. -/
def report (m : Machine σ) : Report := ⟨m.counters, m.footprint⟩

/-- Replays a whole trace and reports on it. -/
def run (m : Machine σ) (items : List (Except LineError Trace.Record)) : Outcome σ Report :=
  (m.replay items).andThen fun m _ =>
    ⟨.ok m.report, m, #[.replayed m.counters.references]⟩

/-- Events seen before come first and affect nothing else. -/
theorem replayFrom_eq_after (seen : Array Event) (m : Machine σ)
    (items : List (Except LineError Trace.Record)) :
    m.replayFrom seen items = (m.replay items).after seen := by
  unfold replay
  induction items generalizing seen m with
  | nil => simp [replayFrom, Outcome.after]
  | cons item rest ih =>
    cases item with
    | error e => simp [replayFrom, Outcome.after]
    | ok r =>
      simp only [replayFrom]
      split
      · next m' events _ =>
        rw [ih (seen ++ events), ih (#[] ++ events)]
        simp [Outcome.after, Array.append_assoc]
      · simp [Outcome.after]

theorem replay_nil (m : Machine σ) : m.replay [] = .ok m () := rfl

/-- A replay stops at a line that is no record. -/
theorem replay_error (m : Machine σ) (e : LineError)
    (rest : List (Except LineError Trace.Record)) :
    m.replay (.error e :: rest) = .refused m (.trace e) := rfl

/-- A replay is the first access followed by the replay of the rest. -/
theorem replay_ok (m : Machine σ) (r : Trace.Record)
    (rest : List (Except LineError Trace.Record)) :
    m.replay (.ok r :: rest) = (m.access r).andThen fun m _ => m.replay rest := by
  simp only [replay, replayFrom]
  split
  · next m' events h =>
    rw [h, Outcome.andThen_ok, replayFrom_eq_after]
    simp [replay]
  · next h => simp [h]

end Machine

end DemandPaging
