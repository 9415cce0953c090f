import DemandPaging.CommandLine.Session
import DemandPaging.Proofs.CommandLine.Arguments
import DemandPaging.Proofs.CommandLine.Wording
import DemandPaging.Proofs.Machine.Bounds
import DemandPaging.Proofs.Machine.Replay

/-!
# What a run from the command line shows

A run comes through (`Completes`) if its algorithm has a name, there is memory and swap space, its
trace file opens, and a fresh machine replays what the lines of the file give to the end. Otherwise
the first of these that does not hold is why it fails, and it has a message (`Fails`); a machine
that was just built is never broken, so there is no third way. The report or the refusal is the
whole result of a session, and exit code and standard output are functions of the result, while
what is logged comes from the events. So no log setting and no switch can be told from exit code
and standard output.

> `completes_or_fails`: a run comes through or fails.
> `Completes.result_run`, `Fails.result_run`: what the result of its session is.
> `result_run_quiet`: the result does not depend on the switches.
> `output_reports_run`: exit code, standard output and the end of standard error.
-/

namespace DemandPaging

/-! ## Names of algorithms -/

/-- The name that an algorithm has on the command line. -/
inductive Algorithm.Called : Algorithm → String → Prop where
  | random : Called .random "rand"
  | roundRobin : Called .roundRobin "rr"
  | clock : Called .clock "clock"
  | lru : Called .lru "lru"

namespace Algorithm

/-- An algorithm has the name that it is called by. -/
theorem name_eq_iff {a : Algorithm} {name : String} : a.name = name ↔ a.Called name := by
  refine ⟨?_, fun h => by cases h <;> rfl⟩
  rintro rfl
  cases a with
  | random => exact .random
  | roundRobin => exact .roundRobin
  | clock => exact .clock
  | lru => exact .lru

/-- An algorithm is found by what it is called. -/
theorem Called.ofName_eq {a : Algorithm} {name : String} (h : a.Called name) :
    ofName name = .ok a :=
  name_eq_iff.mpr h ▸ a.ofName_name

/-- A name that no algorithm has is refused. -/
theorem ofName_of_not_called {name : String} (h : ∀ a : Algorithm, ¬ a.Called name) :
    ofName name = .error (.unknownAlgorithm name) := by
  have hnone : all.find? (·.name == name) = none := by
    refine List.find?_eq_none.mpr fun a _ => ?_
    have hname : a.name ≠ name := mt name_eq_iff.mp (h a)
    simp [hname]
  rw [ofName, hnone]

end Algorithm

/-! ## Machines of a configuration -/

namespace Machine

/-- With frames and slots there is a machine. -/
theorem ofConfig_of_pos {c : Config} (hframes : 0 < c.frames) (hswap : 0 < c.swapPages) :
    ofConfig c = .ok (build c.frames (.ofAlgorithm c.algorithm c.seed) (.empty c.swapPages)) := by
  have hvalid : c.validate = .ok () := by
    rw [Config.validate, if_neg (Nat.ne_of_gt hframes), if_neg (Nat.ne_of_gt hswap)]
  rw [ofConfig, hvalid]

/-- A replay on a fresh machine comes through or is refused. -/
theorem replay_build_cases (frames slots : Nat) (policy : Policy)
    (items : List (Except LineError Trace.Record)) :
    let result := ((build frames policy (SlotStore.empty slots)).replay items).result
    result = .ok () ∨ ∃ e, result = .error (.refused e) := by
  intro result
  have hfresh : (build frames policy (SlotStore.empty slots)).InOrder frames slots :=
    inOrder_slots frames slots policy []
  have hrefuses := hfresh.refusesOnly (P := MayRefuse frames slots) fun _ _ _ _ h hserves =>
    hserves.mayRefuse h
  cases hresult : result with
  | ok value => exact .inl rfl
  | error failure =>
    rcases hrefuses.replay items failure hresult with ⟨e, -, rfl⟩ | ⟨_, -, e, rfl, -⟩
    · exact .inr ⟨.trace e, rfl⟩
    · exact .inr ⟨e, rfl⟩

variable {σ : Type} [BackingStore σ]

/-- A run reports on the machine that the replay leaves, if that comes through. -/
theorem result_run (m : Machine σ) (items : List (Except LineError Trace.Record)) :
    (m.run items).result
      = (m.replay items).result.map fun _ => (m.replay items).machine.report := by
  unfold run
  generalize m.replay items = outcome
  obtain ⟨result, m', events⟩ := outcome
  cases result with
  | ok value => rfl
  | error failure => rfl

end Machine

namespace CommandLine

open Text (LinesOf)
open Trace (Record Yields)

/-! ## Runs that come through and runs that fail -/

/-- A machine as the options ask for, with one of the algorithms; no page was touched yet. -/
def Options.machine (o : Options) (algorithm : Algorithm) : Machine SlotStore :=
  .build o.frames (.ofAlgorithm algorithm o.seed) (.empty o.swapPages)

theorem Options.ofConfig_machine (o : Options) (a : Algorithm) (hframes : 0 < o.frames)
    (hswap : 0 < o.swapPages) :
    Machine.ofConfig ⟨o.frames, o.swapPages, a, o.seed⟩ = .ok (o.machine a) :=
  Machine.ofConfig_of_pos hframes hswap

/-- What is replayed of a trace file that opens: what its lines give one by one, or, if it cannot be
read, the failure to read the first. -/
inductive TraceFile.Replayed : TraceFile → List (Except LineError Record) → Prop where
  | unreadable (reason : String) : Replayed (.unreadable reason) [.error (.unreadable 1 reason)]
  | contents {bytes : List UInt8} {ls : List (List UInt8)} {items : List (Except LineError Record)}
      (lines : LinesOf bytes ls) (yields : Yields 1 ls items) : Replayed (.contents bytes) items

/-- Everything is as it should be: the replay of the trace file on a fresh machine comes through,
and this is the machine that it leaves. -/
inductive Completes (o : Options) (file : TraceFile) (m : Machine SlotStore) : Prop where
  | intro {algorithm : Algorithm} {items : List (Except LineError Record)}
      (called : algorithm.Called o.algorithm) (frames : 0 < o.frames) (swapPages : 0 < o.swapPages)
      (opened : file.Replayed items) (through : (o.machine algorithm).Replays items (.ok ()) m)

/-- The first thing that is not as it should be, in words. -/
inductive Fails (o : Options) (file : TraceFile) : String → Prop where
  | algorithm (uncalled : ∀ a : Algorithm, ¬ a.Called o.algorithm) :
      Fails o file ("invalid replacement algorithm - " ++ o.algorithm)
  | frames {algorithm : Algorithm} (called : algorithm.Called o.algorithm) (none : o.frames = 0) :
      Fails o file "Invalid configuration: memsize must be greater than 0"
  | swapPages {algorithm : Algorithm} (called : algorithm.Called o.algorithm)
      (frames : 0 < o.frames) (none : o.swapPages = 0) :
      Fails o file "Invalid configuration: swapsize must be greater than 0"
  | opening {algorithm : Algorithm} {reason : String} (called : algorithm.Called o.algorithm)
      (frames : 0 < o.frames) (swapPages : 0 < o.swapPages)
      (unopened : file = .unopened reason) :
      Fails o file ("IO error: " ++ o.traceFile ++ ": " ++ reason)
  | replay {algorithm : Algorithm} {items : List (Except LineError Record)} {e : PagingError}
      {m : Machine SlotStore} {message : String} (called : algorithm.Called o.algorithm)
      (frames : 0 < o.frames) (swapPages : 0 < o.swapPages) (opened : file.Replayed items)
      (stopped : (o.machine algorithm).Replays items (.error (.refused e)) m)
      (worded : e.Worded message) : Fails o file message

/-- A trace file is read as what is to be replayed of it. -/
theorem TraceFile.Replayed.items_eq {file : TraceFile} {items : List (Except LineError Record)}
    (h : file.Replayed items) (path : String) : file.items path = .ok items := by
  cases h with
  | unreadable reason => rfl
  | contents lines yields =>
    rw [← Text.lines_eq_iff.mpr lines] at yields
    rw [TraceFile.items, Trace.read_eq_iff.mpr yields]

/-- Nothing is replayed of a file that does not open. -/
theorem TraceFile.not_replayed_of_unopened {reason : String}
    {items : List (Except LineError Record)} (h : (unopened reason).Replayed items) : False := by
  cases h

/-- Only a file that cannot be opened is not replayed. -/
theorem TraceFile.replayed_or_unopened (file : TraceFile) :
    (∃ items, file.Replayed items) ∨ ∃ reason, file = .unopened reason := by
  cases file with
  | unopened reason => exact .inr ⟨reason, rfl⟩
  | unreadable reason => exact .inl ⟨_, .unreadable reason⟩
  | contents bytes =>
    exact .inl ⟨_, .contents (Text.lines_eq_iff.mp rfl) (Trace.read_eq_iff.mp rfl)⟩

/-- A run comes through or fails. -/
theorem completes_or_fails (o : Options) (file : TraceFile) :
    (∃ m, Completes o file m) ∨ ∃ message, Fails o file message := by
  by_cases hcalled : ∃ a : Algorithm, a.Called o.algorithm
  · obtain ⟨a, ha⟩ := hcalled
    rcases Nat.eq_zero_or_pos o.frames with hframes | hframes
    · exact .inr ⟨_, .frames ha hframes⟩
    rcases Nat.eq_zero_or_pos o.swapPages with hswap | hswap
    · exact .inr ⟨_, .swapPages ha hframes hswap⟩
    rcases file.replayed_or_unopened with ⟨items, hopened⟩ | ⟨reason, hunopened⟩
    · have hreplays := (o.machine a).replays_replay items
      rcases Machine.replay_build_cases o.frames o.swapPages (.ofAlgorithm a o.seed) items with
        hthrough | ⟨e, hstopped⟩
      · rw [Options.machine, hthrough] at hreplays
        exact .inl ⟨_, .intro ha hframes hswap hopened hreplays⟩
      · rw [Options.machine, hstopped] at hreplays
        exact .inr ⟨_, .replay ha hframes hswap hopened hreplays
          (PagingError.message_eq_iff.mp rfl)⟩
    · exact .inr ⟨_, .opening ha hframes hswap hunopened⟩
  · exact .inr ⟨_, .algorithm fun a ha => hcalled ⟨a, ha⟩⟩

/-! ## The result of a session -/

/-- Once the algorithm and the sizes are known to be good, an open file is replayed. -/
theorem Session.result_run_of_opened {o : Options} {a : Algorithm} (hcalled : a.Called o.algorithm)
    (hframes : 0 < o.frames) (hswap : 0 < o.swapPages) {file : TraceFile}
    {items : List (Except LineError Record)} (hopened : file.Replayed items) :
    (run o file).result = ((o.machine a).replay items).result.map fun _ =>
      ((o.machine a).replay items).machine.report := by
  have hrun : run o file = replay o.debug (o.machine a) items := by
    simp only [run, hcalled.ofName_eq, o.ofConfig_machine a hframes hswap,
      hopened.items_eq o.traceFile]
  rw [hrun]
  exact (o.machine a).result_run items

/-- A run that comes through reports its machine. -/
theorem Completes.result_run {o : Options} {file : TraceFile} {m : Machine SlotStore}
    (h : Completes o file m) : (Session.run o file).result = .ok m.report := by
  cases h with
  | intro called frames swapPages opened through =>
    obtain ⟨hresult, hmachine⟩ := Machine.replay_of_replays through
    rw [Session.result_run_of_opened called frames swapPages opened, hresult, hmachine]
    rfl

/-- A run that fails is refused for a cause of that wording. -/
theorem Fails.result_run {o : Options} {file : TraceFile} {message : String}
    (h : Fails o file message) :
    ∃ e : PagingError, (Session.run o file).result = .error (.refused e) ∧ e.message = message := by
  cases h with
  | algorithm uncalled =>
    refine ⟨.unknownAlgorithm o.algorithm, ?_, rfl⟩
    rw [Session.run, Algorithm.ofName_of_not_called uncalled]
    rfl
  | frames called none =>
    refine ⟨.invalidConfig "memsize must be greater than 0", ?_, by decide⟩
    simp only [Session.run, called.ofName_eq, Machine.ofConfig, Config.validate, if_pos none]
    rfl
  | swapPages called frames none =>
    refine ⟨.invalidConfig "swapsize must be greater than 0", ?_, by decide⟩
    simp only [Session.run, called.ofName_eq, Machine.ofConfig, Config.validate,
      if_neg (Nat.ne_of_gt frames), if_pos none]
    rfl
  | @opening a reason called frames swapPages unopened =>
    refine ⟨.io (o.traceFile ++ ": " ++ reason), ?_, ?_⟩
    · simp only [Session.run, called.ofName_eq, o.ofConfig_machine a frames swapPages, unopened,
        TraceFile.items]
      rfl
    · have hassoc : "IO error: " ++ o.traceFile ++ ": " ++ reason
          = "IO error: " ++ (o.traceFile ++ ": " ++ reason) := by
        simp only [String.append_assoc]
      exact hassoc.symm
  | @replay _ _ e _ _ called frames swapPages opened stopped worded =>
    refine ⟨e, ?_, PagingError.message_eq_iff.mpr worded⟩
    rw [Session.result_run_of_opened called frames swapPages opened,
      (Machine.replay_of_replays stopped).1]
    rfl

/-! ## What the switches cannot change -/

/-- The switches only say what is logged. -/
theorem Session.result_run_quiet (o : Options) (file : TraceFile) :
    (run o.quiet file).result = (run o file).result := by
  simp only [run, Options.quiet]
  cases Algorithm.ofName o.algorithm with
  | error e => rfl
  | ok algorithm =>
    dsimp only
    cases Machine.ofConfig ⟨o.frames, o.swapPages, algorithm, o.seed⟩ with
    | error e => rfl
    | ok m =>
      dsimp only
      cases file.items o.traceFile with
      | error e => rfl
      | ok items => rfl

/-- Exit code and standard output show the result and nothing else. -/
theorem Session.shown_congr {s s' : Session} (h : s.result = s'.result) :
    s.exitCode = s'.exitCode ∧ ∀ elapsed, s.stdout elapsed = s'.stdout elapsed := by
  obtain ⟨events, result⟩ := s
  obtain ⟨events', result'⟩ := s'
  obtain rfl : result = result' := h
  exact ⟨rfl, fun _ => rfl⟩

/-- What is shown on standard output does not depend on the switches. -/
theorem shown_eq_of_quiet_eq {o o' : Options} (h : o'.quiet = o.quiet) (file : TraceFile) :
    (Session.run o' file).exitCode = (Session.run o file).exitCode ∧
      ∀ elapsed, (Session.run o' file).stdout elapsed = (Session.run o file).stdout elapsed := by
  apply Session.shown_congr
  rw [← Session.result_run_quiet o' file, h, Session.result_run_quiet o file]

/-! ## Main result -/

/-- A run that comes through prints its report and exits with 0. -/
theorem Completes.output {o : Options} {file : TraceFile} {m : Machine SlotStore}
    (h : Completes o file m) (setting : Option String) (elapsed : Elapsed) :
    (o.output setting file elapsed).exitCode = 0 ∧
      ∃ text, ReportText m.counters m.footprint elapsed.secondsText text ∧
        (o.output setting file elapsed).stdout = "\n" ++ text ++ "\n" := by
  simp only [Options.output, Session.output, Session.exitCode, Session.stdout, h.result_run]
  exact ⟨trivial, _, (Report.text_eq_iff (r := m.report)).mp rfl, rfl⟩

/-- A run that fails prints its cause behind what it logged and exits with 1. -/
theorem Fails.output {o : Options} {file : TraceFile} {message : String}
    (h : Fails o file message) (setting : Option String) (elapsed : Elapsed) :
    (o.output setting file elapsed).exitCode = 1 ∧ (o.output setting file elapsed).stdout = "" ∧
      ∃ log, (o.output setting file elapsed).stderr = log ++ "Error: " ++ message ++ "\n" := by
  obtain ⟨e, hresult, rfl⟩ := h.result_run
  simp only [Options.output, Session.output, Session.exitCode, Session.stdout, Session.stderr,
    Session.complaint, hresult]
  refine ⟨trivial, trivial,
    Log.render (o.threshold setting) elapsed.briefText (Session.run o file).events, ?_⟩
  simp only [String.append_assoc]

/-- For accepted arguments, a trace file and a log setting: the options are what the arguments say.
The exit code is zero exactly if the run comes through, and then standard output is an empty line
and the report of that run. Otherwise the exit code is one, standard output is empty, and standard
error ends with the first thing that was not as it should be. Any arguments that give options and
differ in nothing but switches are accepted as well, and with any log setting, exit code and
standard output are the same. -/
theorem output_reports_run {arguments : List String} {o : Options} (h : parse arguments = .run o)
    (file : TraceFile) (setting : Option String) (elapsed : Elapsed) :
    let shown := o.output setting file elapsed
    (∃ said, Says arguments said ∧ o.Given said) ∧
      (shown.exitCode = 0 ↔ ∃ m, Completes o file m) ∧
      (∀ m, Completes o file m → ∃ text,
        ReportText m.counters m.footprint elapsed.secondsText text ∧
          shown.stdout = "\n" ++ text ++ "\n") ∧
      ((¬ ∃ m, Completes o file m) → shown.exitCode = 1 ∧ shown.stdout = "" ∧
        ∃ message log, Fails o file message ∧
          shown.stderr = log ++ "Error: " ++ message ++ "\n") ∧
      ∀ said arguments' o' said' setting' elapsed', Says arguments said → o.Given said →
        Says arguments' said' → o'.Given said' →
        (∀ option text, .value option text ∈ said' ↔ .value option text ∈ said) →
        parse arguments' = .run o' ∧
          (o'.output setting' file elapsed').exitCode = shown.exitCode ∧
          (o'.output setting' file elapsed).stdout = shown.stdout := by
  intro shown
  refine ⟨parse_eq_run_iff.mp h, ⟨fun hcode => ?_, fun ⟨m, hm⟩ => (hm.output setting elapsed).1⟩,
    fun m hm => (hm.output setting elapsed).2, fun hnot => ?_, ?_⟩
  · rcases completes_or_fails o file with hcompletes | ⟨message, hfails⟩
    · exact hcompletes
    · have hone : shown.exitCode = 1 := (hfails.output setting elapsed).1
      rw [hone] at hcode
      exact absurd hcode (by decide)
  · obtain ⟨message, hfails⟩ := (completes_or_fails o file).resolve_left hnot
    obtain ⟨hcode, hstdout, log, hstderr⟩ := hfails.output setting elapsed
    exact ⟨hcode, hstdout, message, log, hfails, hstderr⟩
  · intro said arguments' o' said' setting' elapsed' hsays hgiven hsays' hgiven' hsame
    have hquiet : o'.quiet = o.quiet := quiet_eq_of_given hgiven hgiven' hsame
    obtain ⟨hcode, hstdout⟩ := shown_eq_of_quiet_eq hquiet file
    exact ⟨parse_eq_run_iff.mpr ⟨said', hsays', hgiven'⟩, hcode, hstdout elapsed.secondsText⟩

/-- Two argument lists that differ in their switches and their spelling, with a trace of one store
and without a trace file. -/
theorem output_reports_run_of_switches :
    let quiet := ["-f", "t", "-m", "1", "-s", "1", "-a", "lru"]
    let loud := ["-vvd", "--file=t", "-m1", "-s1", "--verbose", "-a", "lru"]
    let said : List Said := [.value .traceFile "t", .value .frames "1", .value .swapPages "1",
      .value .algorithm "lru"]
    let saidLoud : List Said := [.verbose, .verbose, .debug, .value .traceFile "t",
      .value .frames "1", .value .swapPages "1", .verbose, .value .algorithm "lru"]
    let o : Options := ⟨"t", 1, 1, "lru", 369, false, 0⟩
    let o' : Options := ⟨"t", 1, 1, "lru", 369, true, 3⟩
    -- the line `S 1000 7`
    let file := TraceFile.contents [83, 32, 49, 48, 48, 48, 32, 55, 10]
    let missing := TraceFile.unopened FileError.notFound.message
    (parse quiet = .run o ∧ Says quiet said ∧ o.Given said) ∧
      (parse loud = .run o' ∧ Says loud saidLoud ∧ o'.Given saidLoud) ∧
      ((o.output none file ⟨0⟩).exitCode = 0 ∧ (o'.output (some "off") file ⟨5⟩).exitCode = 0 ∧
        (o'.output (some "off") file ⟨0⟩).stdout = (o.output none file ⟨0⟩).stdout) ∧
      (o.output none missing ⟨0⟩).exitCode = 1 ∧ (o.output none missing ⟨0⟩).stdout = "" := by
  intro quiet loud said saidLoud o o' file missing
  have hquiet : parse quiet = .run o := by decide
  have hfile : Word "-f".toList [] (some .traceFile) := .short (by decide) (.option .traceFile)
  have hframes : Word "-m".toList [] (some .frames) := .short (by decide) (.option .frames)
  have hswap : Word "-s".toList [] (some .swapPages) := .short (by decide) (.option .swapPages)
  have hname : Word "-a".toList [] (some .algorithm) := .short (by decide) (.option .algorithm)
  have hone : StandsAlone "1" := .inr (by decide)
  have hlru : StandsAlone "lru" := .inr (by decide)
  have hsays : Says quiet said :=
    .apart hfile (.inr (by decide)) (.apart hframes hone (.apart hswap hone
      (.apart hname hlru .nothing)))
  have hswitches : Word "-vvd".toList [.verbose, .verbose, .debug] none :=
    .short (by decide) (.switch .verbose (.switch .verbose (.switch .debug .none)))
  have hlong : Word "--file=t".toList [.value .traceFile "t"] none := .equals .traceFile
  have hframes' : Word "-m1".toList [.value .frames "1"] none :=
    .short (by decide) (.value .frames (by decide))
  have hswap' : Word "-s1".toList [.value .swapPages "1"] none :=
    .short (by decide) (.value .swapPages (by decide))
  have hverbose : Word "--verbose".toList [.verbose] none := .verbose
  have hsaysLoud : Says loud saidLoud :=
    .whole hswitches (.whole hlong (.whole hframes' (.whole hswap' (.whole hverbose
      (.apart hname hlru .nothing)))))
  have hgiven : o.Given said := takeAll?_iff_given.mp ⟨_, rfl, by decide⟩
  have hgivenLoud : o'.Given saidLoud := takeAll?_iff_given.mp ⟨_, rfl, by decide⟩
  have hreplayed : ((o.machine .lru).replay [.ok ⟨1, .store, ⟨0x1000⟩, 7⟩]).result = .ok () := by
    decide +kernel
  have hopened : file.Replayed [.ok ⟨1, .store, ⟨0x1000⟩, 7⟩] :=
    .contents (Text.lines_eq_iff.mp rfl) (Trace.read_eq_iff.mp rfl)
  have hcompletes : ∃ m, Completes o file m :=
    ⟨_, .intro .lru (by decide) (by decide) hopened (Machine.replay_eq_iff.mp ⟨hreplayed, rfl⟩)⟩
  have hmissing : ¬ ∃ m, Completes o missing m := by
    rintro ⟨m, -, -, -, opened, -⟩
    exact TraceFile.not_replayed_of_unopened opened
  obtain ⟨-, hcode, -, -, hsame⟩ := output_reports_run hquiet file none ⟨0⟩
  obtain ⟨-, -, -, hfails, -⟩ := output_reports_run hquiet missing none ⟨0⟩
  obtain ⟨hloud, hcode', hstdout⟩ := hsame said loud o' saidLoud (some "off") ⟨5⟩ hsays hgiven
    hsaysLoud hgivenLoud fun option text => by simp [said, saidLoud]
  obtain ⟨hone, hempty, -⟩ := hfails hmissing
  have hzero := hcode.mpr hcompletes
  exact ⟨⟨hquiet, hsays, hgiven⟩, ⟨hloud, hsaysLoud, hgivenLoud⟩,
    ⟨hzero, hcode'.trans hzero, hstdout⟩, hone, hempty⟩

end CommandLine

end DemandPaging
