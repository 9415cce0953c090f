import DemandPaging.Proofs.Machine.Replay
import DemandPaging.Proofs.Machine.WithoutPolicy
import DemandPaging.Proofs.Trace.Written

/-!
# The log of a replay is a trace

An access is logged before anything else is done for it, as the record that it performs, and no
stage of paging logs another (`Outcome.Quiet`). So the access messages of a replay that comes
through are its records in their order, in the form in which records are written, and that form
reads back. What is lost are comments, spellings and the numbers of lines, and none of these
matters to the machine.

> `accessEvents_access`: what one access logs.
> `records_of_replay`: what a replay logs that comes through.
> `log_is_trace`: the log replays to the same machine.
-/

namespace DemandPaging

open Trace (Record read readText readLine)

/-- Whether an event is the message of an access. -/
def Event.isAccess : Event → Bool
  | .accessed _ => true
  | _ => false

/-- The access messages among events, in their order. -/
def accessEvents (events : Array Event) : List Event := events.toList.filter (·.isAccess)

theorem accessEvents_append (events events' : Array Event) :
    accessEvents (events ++ events') = accessEvents events ++ accessEvents events' := by
  unfold accessEvents
  rw [Array.toList_append, List.filter_append]

namespace Outcome

variable {σ α β : Type}

/-- Nothing that was done on the way is logged as an access. -/
def Quiet (o : Outcome σ α) : Prop := accessEvents o.events = []

/-- Earlier events that are no accesses keep an outcome quiet. -/
theorem Quiet.after {o : Outcome σ α} (ho : o.Quiet) {events : Array Event}
    (h : accessEvents events = []) : (o.after events).Quiet := by
  have happend := accessEvents_append events o.events
  rw [h, ho] at happend
  exact happend

/-- What follows something quiet, and is quiet itself, is quiet with it. -/
theorem Quiet.andThen {o : Outcome σ α} (ho : o.Quiet) {next : Machine σ → α → Outcome σ β}
    (hnext : ∀ m value, (next m value).Quiet) : (o.andThen next).Quiet := by
  obtain ⟨result, m, events⟩ := o
  cases result with
  | ok value => exact (hnext m value).after ho
  | error failure => exact ho

/-- An outcome that is the same but for numbers of lines succeeds as well, with the same machine. -/
theorem ok_of_unnumbered {o o' : Outcome σ Unit} (h : o.unnumbered = o'.unnumbered)
    (hok : o'.result = .ok ()) : o.result = .ok () ∧ o.machine = o'.machine := by
  obtain ⟨result, m, events⟩ := o
  obtain ⟨result', m', events'⟩ := o'
  obtain rfl : result' = .ok () := hok
  simp only [unnumbered, Outcome.mk.injEq] at h
  refine ⟨?_, h.2.1⟩
  cases result with
  | ok _ => rfl
  | error failure => cases h.1

end Outcome

namespace Machine

variable {σ : Type} [BackingStore σ]

/-! ## The stages of paging log no access -/

/-- Vacating a frame is logged as an eviction, never as an access. -/
theorem quiet_vacate (m : Machine σ) (frame : Nat) (victim : EntryRef) :
    (m.vacate frame victim).Quiet := by
  unfold vacate
  split
  next =>
    split
    next => exact rfl
    next =>
      split
      next => exact rfl
      next => exact rfl
  next => exact rfl

/-- An eviction is quiet. -/
theorem quiet_evict (m : Machine σ) : m.evict.Quiet := by
  unfold evict
  split
  next => exact rfl
  next =>
    dsimp only
    split
    next => exact rfl
    next =>
      split
      next => exact rfl
      next => exact quiet_vacate _ _ _

/-- The search for a frame is quiet. -/
theorem quiet_obtainFrame (m : Machine σ) (r : EntryRef) : (m.obtainFrame r).Quiet := by
  refine Outcome.Quiet.andThen ?_ fun m' frame => ?_
  · split
    next => exact rfl
    next => exact quiet_evict m
  · split
    next => exact rfl
    next => exact rfl

/-- Filling a frame is quiet. -/
theorem quiet_fillFrame (m : Machine σ) (r : EntryRef) (frame : Nat) :
    (m.fillFrame r frame).Quiet := by
  unfold fillFrame
  repeat' split
  all_goals exact rfl

/-- Finding or fetching a page is quiet. -/
theorem quiet_locate (m : Machine σ) (r : EntryRef) : (m.locate r).Quiet := by
  unfold locate
  split
  next => exact rfl
  next =>
    split
    next => exact rfl
    next => exact (quiet_obtainFrame _ r).andThen fun m' frame => quiet_fillFrame m' r frame

/-- Translation is quiet, so the only access message is that of the access itself. -/
theorem quiet_translate (m : Machine σ) (a : Address) (kind : AccessKind) :
    (m.translate a kind).Quiet := by
  unfold translate
  split
  next =>
    refine Outcome.Quiet.after ?_ ?_
    · refine (quiet_locate _ _).andThen fun _ _ => ?_
      exact rfl
    · refine List.filter_eq_nil_iff.mpr fun e he => ?_
      obtain ⟨table, -, rfl⟩ := List.mem_map.mp he
      simp [Event.isAccess]
  next => exact rfl

/-! ## What is logged -/

/-- An access logs itself. -/
theorem accessEvents_access (m : Machine σ) (r : Record) :
    accessEvents (m.access r).events = [.accessed r] := by
  have hquiet : ((m.translate r.address r.kind).andThen fun m place =>
      if r.kind.writes then m.store place r.value else m.compare place r.line r.value).Quiet := by
    refine (quiet_translate m r.address r.kind).andThen fun m' place => ?_
    unfold store compare
    repeat' split
    all_goals exact rfl
  unfold access
  rw [Outcome.after, accessEvents_append, hquiet]
  rfl

/-- An access that succeeds had an offset that is simulated. -/
theorem inFrame_of_access {m : Machine σ} {r : Record} {mismatch : Option Mismatch}
    (hok : (m.access r).result = .ok mismatch) : r.address.inFrame = true := by
  by_contra hout
  have houtside := serve_outside m (q := .access r) (Bool.eq_false_iff.mpr hout)
  have hresult := (serve_access m r).1
  rw [houtside, hok] at hresult
  cases hresult

/-- A replay that comes through logs the records that it was given. -/
theorem records_of_replay : ∀ {items : List (Except LineError Record)} {m : Machine σ},
    (m.replay items).result = .ok () →
      ∃ records : List Record, items = records.map .ok ∧ (∀ r ∈ records, r.address.inFrame = true) ∧
        accessEvents (m.replay items).events = records.map .accessed
  | [], _, _ => ⟨[], rfl, fun r hr => absurd hr List.not_mem_nil, rfl⟩
  | .error _ :: _, _, hok => by cases hok
  | .ok r :: rest, m, hok => by
    have hlogged := accessEvents_access m r
    have hin : ∀ mismatch, (m.access r).result = .ok mismatch → r.address.inFrame = true :=
      fun _ => inFrame_of_access
    rw [replay_ok] at hok ⊢
    generalize m.access r = o at hok hlogged hin ⊢
    obtain ⟨result, m', events⟩ := o
    cases result with
    | error failure => cases hok
    | ok mismatch =>
      obtain ⟨records, rfl, hrecords, hrest⟩ := records_of_replay (m := m') hok
      refine ⟨r :: records, rfl, List.forall_mem_cons.mpr ⟨hin mismatch rfl, hrecords⟩, ?_⟩
      rw [Outcome.andThen_ok, Outcome.after, accessEvents_append, hlogged, hrest]
      rfl

/-- The access log is itself a trace. What an access logs is its letter, its address in lower-case
hexadecimal and its byte in decimal, and as a line of a trace this gives the same access again. So
the access messages of a replay that comes through, written one on each line, are a trace whose
replay comes through and leaves the same machine. -/
theorem log_is_trace (m : Machine σ) (elapsed : String) :
    (∀ r : Record,
      let message := (Event.accessed r).text elapsed
      accessEvents (m.access r).events = [.accessed r] ∧ (Event.accessed r).level = .trace ∧
        message.toList = r.kind.letter :: ' ' :: Nat.toDigits 16 r.address.raw.toNat ++
          ' ' :: Nat.toDigits 10 r.value.toNat ∧
        (r.address.inFrame = true → ∀ number,
          readLine number message = .ok (some { r with line := number }))) ∧
    ∀ bytes : List UInt8,
      let replayed := m.replay (read bytes)
      let log := String.join ((accessEvents replayed.events).map fun e => e.text elapsed ++ "\n")
      replayed.result = .ok () →
        (m.replay (readText log)).result = .ok () ∧
          (m.replay (readText log)).machine = replayed.machine := by
  refine ⟨fun r => ?_, fun bytes => ?_⟩
  · exact ⟨accessEvents_access m r, rfl, r.toList_text,
      fun hin number => r.readLine_text hin number⟩
  · intro replayed log hok
    obtain ⟨records, hitems, hin, hlogged⟩ := records_of_replay hok
    have hlog : log = Trace.written records := by
      have hmessages := congrArg (List.map fun e : Event => e.text elapsed ++ "\n") hlogged
      rw [List.map_map] at hmessages
      exact congrArg String.join hmessages
    have hsame := unnumbered_replay_congr (Trace.readText_written_renumber hin) m
    rw [← hitems, ← hlog] at hsame
    exact Outcome.ok_of_unnumbered hsame hok

/-- A trace with a comment and other spellings, in a frame that two pages share. -/
theorem log_is_trace_of_two :
    let m := build 1 (.ofAlgorithm .lru 0) (SlotStore.empty 2)
    -- the lines `= x`, ` S 0X1000 +07` and `L 2000 0`
    let bytes : List UInt8 := [61, 32, 120, 10, 32, 83, 32, 48, 88, 49, 48, 48, 48, 32, 43, 48, 55,
      10, 76, 32, 50, 48, 48, 48, 32, 48]
    let replayed := m.replay (read bytes)
    let log := "S 1000 7\nL 2000 0\n"
    replayed.result = .ok () ∧
      String.join ((accessEvents replayed.events).map fun e => e.text "" ++ "\n") = log ∧
      (m.replay (readText log)).result = .ok () ∧
      (m.replay (readText log)).machine = replayed.machine := by
  intro m bytes replayed log
  have hok : replayed.result = .ok () := by decide +kernel
  have hlog :
      String.join ((accessEvents replayed.events).map fun e => e.text "" ++ "\n") = log := by
    decide +kernel
  have hreplays := (log_is_trace m "").2 bytes hok
  rw [hlog] at hreplays
  exact ⟨hok, hlog, hreplays⟩

end Machine

end DemandPaging
