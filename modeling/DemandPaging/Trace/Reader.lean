import DemandPaging.Text.Lines
import DemandPaging.Trace.Line

/-!
# Reading a trace

A trace is the bytes of a file. Its lines are numbered from 1, silent ones included, and read one
by one: a line gives nothing, a record, or an error. An error does not stop the reading; whoever
replays the trace decides where to stop.
-/

namespace DemandPaging.Trace

/-- What a line of bytes gives. -/
def itemOf? (number : Nat) (line : List UInt8) : Option (Except LineError Record) :=
  match Text.decode? line with
  | none => some (.error (.unreadable number "stream did not contain valid UTF-8"))
  | some text =>
    match readLine number text with
    | .error e => some (.error e)
    | .ok none => none
    | .ok (some record) => some (.ok record)

/-- The records and errors of a trace, in the order of its lines. -/
def read (bytes : List UInt8) : List (Except LineError Record) :=
  ((Text.lines bytes).zipIdx 1).filterMap fun (line, number) => itemOf? number line

/-- The records and errors of a trace given as text. -/
def readText (text : String) : List (Except LineError Record) := read (Text.encode text)

end DemandPaging.Trace
