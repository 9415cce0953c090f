import DemandPaging.CommandLine.Files
import DemandPaging.CommandLine.Options
import DemandPaging.Elapsed
import DemandPaging.Machine.Access
import DemandPaging.PageTable.Dump

/-!
# A run from the command line

A session is what the options and the trace file lead to, before anything is printed: the events
of the run and its report, or the reason why there is none. The exit code and the two output
streams are functions of it. The algorithm, the sizes and the file are looked at in this order,
and only then does the replay begin.
-/

namespace DemandPaging.CommandLine

/-- The trace file as it was found. -/
inductive TraceFile where
  /-- It could not be opened. -/
  | unopened (reason : String)
  /-- It could be opened but not read. -/
  | unreadable (reason : String)
  | contents (bytes : List UInt8)
deriving DecidableEq

/-- The trace file that a path leads to. A directory can be opened, but not read. -/
def TraceFile.find (t : FileTree) (path : String) : TraceFile :=
  match t.locate path with
  | .error e => .unopened e.message
  | .ok location =>
    match t.node? location with
    | none => .unopened FileError.notFound.message
    | some .directory => .unreadable FileError.isDirectory.message
    | some (.file bytes) => .contents bytes

/-- The records of a trace file. One that cannot be read fails on its first line. -/
def TraceFile.items (path : String) :
    TraceFile → Except PagingError (List (Except LineError Trace.Record))
  | unopened reason => .error (.io (path ++ ": " ++ reason))
  | unreadable reason => .ok [.error (.unreadable 1 reason)]
  | contents bytes => .ok (Trace.read bytes)

/-- What a run came to. -/
structure Session where
  events : Array Event
  result : Except Failure Report

/-- What is seen of a run from outside. -/
structure Output where
  exitCode : UInt32
  stdout : String
  stderr : String
deriving DecidableEq

namespace Session

def refused (error : PagingError) : Session := ⟨#[], .error (.refused error)⟩

/-- Replays a trace on a machine; with debugging, the page table is logged in the end. -/
def replay (debug : Bool) (m : Machine SlotStore)
    (items : List (Except LineError Trace.Record)) : Session :=
  let outcome := m.run items
  let closing : Array Event :=
    if debug && outcome.result.isOk then #[.dumped outcome.machine.pageTable.dump] else #[]
  ⟨#[m.startEvent] ++ outcome.events ++ closing, outcome.result⟩

/-- Does what the options say with a trace file. -/
def run (o : Options) (file : TraceFile) : Session :=
  match Algorithm.ofName o.algorithm with
  | .error e => refused e
  | .ok algorithm =>
    match Machine.ofConfig ⟨o.frames, o.swapPages, algorithm, o.seed⟩ with
    | .error e => refused e
    | .ok m =>
      match file.items o.traceFile with
      | .error e => refused e
      | .ok items => replay o.debug m items

/-- Zero exactly if there is a report. -/
def exitCode (s : Session) : UInt32 :=
  match s.result with
  | .ok _ => 0
  | .error (.refused _) => 1
  | .error .broken => 101

/-- The report, after an empty line. -/
def stdout (s : Session) (elapsed : String) : String :=
  match s.result with
  | .ok report => "\n" ++ report.text elapsed ++ "\n"
  | .error _ => ""

/-- The last line of the error stream: why there is no report. -/
def complaint (s : Session) : String :=
  match s.result with
  | .ok _ => ""
  | .error (.refused e) => "Error: " ++ e.message ++ "\n"
  | .error .broken => "Error: internal inconsistency\n"

/-- The log, as far as it is shown, and what went wrong. -/
def stderr (s : Session) (threshold : Log.Threshold) (elapsed : String) : String :=
  Log.render threshold elapsed s.events ++ s.complaint

/-- What a session shows, given how long it took. -/
def output (s : Session) (threshold : Log.Threshold) (elapsed : Elapsed) : Output where
  exitCode := s.exitCode
  stdout := s.stdout elapsed.secondsText
  stderr := s.stderr threshold elapsed.briefText

end Session

/-- A run with a log setting and a trace file, as it is seen from outside. -/
def Options.output (o : Options) (setting : Option String) (file : TraceFile)
    (elapsed : Elapsed) : Output :=
  (Session.run o file).output (o.threshold setting) elapsed

end DemandPaging.CommandLine
