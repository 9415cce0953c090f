import DemandPaging.CommandLine.Session

/-!
# The program

Reads the arguments, the log setting and the trace file, lets a session do the work, and prints
what it came to.
-/

namespace DemandPaging.Program

open CommandLine

def usageText : String :=
  "Usage: vmsim [OPTIONS] --file <TRACEFILE> --memsize <MEMSIZE> --swapsize <SWAPSIZE> " ++
    "--algorithm <ALGORITHM>\n"

def helpText : String :=
  "Simulate paging of a memory reference trace\n\n" ++ usageText ++
    "\nOptions:\n" ++
    "  -f, --file <TRACEFILE>       Trace file to replay\n" ++
    "  -m, --memsize <MEMSIZE>      Number of physical frames\n" ++
    "  -s, --swapsize <SWAPSIZE>    Swap capacity in pages\n" ++
    "  -a, --algorithm <ALGORITHM>  Replacement algorithm: rand, rr, clock or lru\n" ++
    "      --seed <SEED>            Seed for the rand algorithm [default: 369]\n" ++
    "  -d, --debug                  Log every access and dump the page table at the end\n" ++
    "  -v, --verbose...             Raise log verbosity (repeatable)\n" ++
    "  -h, --help                   Print help\n" ++
    "  -V, --version                Print version\n"

/-- The reason that the operating system gives, with its number. -/
def reasonOf : IO.Error → String
  | .noFileOrDirectory _ code details | .interrupted _ code details =>
    systemReason details code.toNat
  | .alreadyExists _ code details | .invalidArgument _ code details
  | .permissionDenied _ code details | .resourceExhausted _ code details
  | .inappropriateType _ code details | .noSuchThing _ code details =>
    systemReason details code.toNat
  | .otherError code details | .resourceBusy code details | .resourceVanished code details
  | .unsupportedOperation code details | .hardwareFault code details
  | .unsatisfiedConstraints code details | .illegalOperation code details
  | .protocolError code details | .timeExpired code details =>
    systemReason details code.toNat
  | e => e.toString

/-- Opens and reads the trace file. -/
def readTrace (path : String) : IO TraceFile := do
  match ← (IO.FS.Handle.mk path .read).toBaseIO with
  | .error e => return .unopened (reasonOf e)
  | .ok handle =>
    match ← handle.readBinToEnd.toBaseIO with
    | .error e => return .unreadable (reasonOf e)
    | .ok bytes => return .contents bytes.toList

/-- Runs a session, times it and prints it. -/
def runSession (o : Options) : IO UInt32 := do
  let threshold := o.threshold (← IO.getEnv "VMSIM_LOG")
  let file ← readTrace o.traceFile
  let begun ← IO.monoNanosNow
  let session ← IO.lazyPure fun _ => Session.run o file
  let elapsed : Elapsed := ⟨(← IO.monoNanosNow) - begun⟩
  let output := session.output threshold elapsed
  IO.eprint output.stderr
  IO.print output.stdout
  return output.exitCode

end DemandPaging.Program

open DemandPaging DemandPaging.CommandLine in
def main (arguments : List String) : IO UInt32 := do
  match parse arguments with
  | .run options => Program.runSession options
  | .help => IO.print Program.helpText; return 0
  | .version => IO.print versionText; return 0
  | .refused error =>
    IO.eprint ("error: " ++ error.message ++ "\n\n" ++ Program.usageText)
    return 1
