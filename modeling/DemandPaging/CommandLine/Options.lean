import DemandPaging.Log
import DemandPaging.Machine.Outcome

/-!
# Command-line options

An argument is a long option (`--memsize=2`), a cluster of short ones (`-vd`, `-m2`), or the value
of the option before it. A value may be attached, with one equals sign in between or, for a short
option, none; a value that stands alone must not start with a hyphen, unless it is just a hyphen.
Only `-v` may be given more than once, and no argument stands on its own.

Arguments are taken one by one: the first that is refused, or that asks for help or the version,
settles the matter. What is still missing is noticed at the end.
-/

namespace DemandPaging.CommandLine

/-- The options that have a value. -/
inductive ValueOption where
  | traceFile
  | frames
  | swapPages
  | algorithm
  | seed
deriving DecidableEq

/-- The options that have none. -/
inductive Switch where
  | debug
  | verbose
  | help
  | version
deriving DecidableEq

def ValueOption.longName : ValueOption → String
  | traceFile => "file"
  | frames => "memsize"
  | swapPages => "swapsize"
  | algorithm => "algorithm"
  | seed => "seed"

/-- The seed has a long name only. -/
def ValueOption.letter? : ValueOption → Option Char
  | traceFile => some 'f'
  | frames => some 'm'
  | swapPages => some 's'
  | algorithm => some 'a'
  | seed => none

def ValueOption.all : List ValueOption := [traceFile, frames, swapPages, algorithm, seed]

def Switch.longName : Switch → String
  | debug => "debug"
  | verbose => "verbose"
  | help => "help"
  | version => "version"

def Switch.letter : Switch → Char
  | debug => 'd'
  | verbose => 'v'
  | help => 'h'
  | version => 'V'

def Switch.all : List Switch := [debug, verbose, help, version]

/-- Why the arguments are refused. -/
inductive UsageError where
  | unexpected (argument : String)
  | valueMissing (option : ValueOption)
  | valueInvalid (option : ValueOption) (value : String)
  | valueUnwanted (option : Switch)
  | repeated (longName : String)
  | absent (option : ValueOption)
deriving DecidableEq

def UsageError.message : UsageError → String
  | unexpected argument => "unexpected argument '" ++ argument ++ "'"
  | valueMissing option => "a value is required for '--" ++ option.longName ++ "'"
  | valueInvalid option value => "invalid value '" ++ value ++ "' for '--" ++ option.longName ++ "'"
  | valueUnwanted option => "no value is allowed for '--" ++ option.longName ++ "'"
  | repeated longName => "'--" ++ longName ++ "' cannot be used multiple times"
  | absent option => "'--" ++ option.longName ++ "' is required"

/-- Name and version. -/
def versionText : String := "vmsim 0.1.0\n"

/-- The options of a run. The algorithm is still a name, which may be unknown. -/
structure Options where
  traceFile : String
  frames : Nat
  swapPages : Nat
  algorithm : String
  seed : UInt64
  debug : Bool
  verbosity : Nat
deriving DecidableEq

/-- What is to be done. -/
inductive Request where
  | run (options : Options)
  | help
  | version
  | refused (error : UsageError)
deriving DecidableEq

/-- Options as far as they were given. -/
structure Draft where
  traceFile : Option String
  frames : Option Nat
  swapPages : Option Nat
  algorithm : Option String
  seed : Option UInt64
  debug : Bool
  verbosity : Nat

namespace Draft

def empty : Draft := ⟨none, none, none, none, none, false, 0⟩

/-- Whether an option was given. -/
def has (d : Draft) : ValueOption → Bool
  | .traceFile => d.traceFile.isSome
  | .frames => d.frames.isSome
  | .swapPages => d.swapPages.isSome
  | .algorithm => d.algorithm.isSome
  | .seed => d.seed.isSome

/-- Enters a value. Numbers are decimal and have 64 bits; a file must have a name. -/
def enter? (d : Draft) (option : ValueOption) (value : String) : Option Draft :=
  let number := Text.read? 10 UInt64.size value.toList
  match option with
  | .traceFile => if value.isEmpty then none else some { d with traceFile := some value }
  | .frames => number.map fun n => { d with frames := some n }
  | .swapPages => number.map fun n => { d with swapPages := some n }
  | .algorithm => some { d with algorithm := some value }
  | .seed => number.map fun n => { d with seed := some (UInt64.ofNat n) }

/-- What is to be done once all arguments were taken. -/
def request (d : Draft) : Request :=
  match d.traceFile, d.frames, d.swapPages, d.algorithm with
  | none, _, _, _ => .refused (.absent .traceFile)
  | _, none, _, _ => .refused (.absent .frames)
  | _, _, none, _ => .refused (.absent .swapPages)
  | _, _, _, none => .refused (.absent .algorithm)
  | some traceFile, some frames, some swapPages, some algorithm =>
    .run
      { traceFile := traceFile
        frames := frames
        swapPages := swapPages
        algorithm := algorithm
        seed := d.seed.getD Config.defaultSeed
        debug := d.debug
        verbosity := d.verbosity }

end Draft

/-- What one argument consists of. -/
inductive Piece where
  | switch (s : Switch)
  | option (o : ValueOption) (value : Option String)
  | bad (error : UsageError)
deriving DecidableEq

/-- The value attached to a short option. -/
def attached : List Char → Option String
  | [] => none
  | '=' :: cs => some (String.ofList cs)
  | cs => some (String.ofList cs)

/-- The pieces of a cluster of short options; `argument` is the whole of it. -/
def shortPieces (argument : String) : List Char → List Piece
  | [] => []
  | c :: cs =>
    match Switch.all.find? (·.letter == c) with
    | some s => .switch s :: shortPieces argument cs
    | none =>
      match ValueOption.all.find? (·.letter? == some c) with
      | some o => [.option o (attached cs)]
      | none => [.bad (.unexpected argument)]

/-- The piece that a long option is, given what follows its two hyphens. -/
def longPiece (argument : String) (cs : List Char) : Piece :=
  let name := String.ofList (cs.takeWhile (· != '='))
  let value := attached (cs.dropWhile (· != '='))
  match Switch.all.find? (·.longName == name) with
  | some s => if value.isNone then .switch s else .bad (.valueUnwanted s)
  | none =>
    match ValueOption.all.find? (·.longName == name) with
    | some o => .option o value
    | none => .bad (.unexpected argument)

/-- How far the arguments were taken. -/
inductive Progress where
  /-- More options may come; one may be waiting for its value. -/
  | reading (draft : Draft) (awaiting : Option ValueOption)
  /-- No more options may come. -/
  | ended (draft : Draft)
  /-- It is known what to do. -/
  | settled (request : Request)

namespace Progress

/-- Takes the value of an option. -/
def value (d : Draft) (option : ValueOption) (value : String) : Progress :=
  if d.has option then .settled (.refused (.repeated option.longName))
  else
    match d.enter? option value with
    | none => .settled (.refused (.valueInvalid option value))
    | some d => .reading d none

/-- Takes one piece of an argument. -/
def piece (p : Progress) (piece : Piece) : Progress :=
  match p with
  | .reading d _ =>
    match piece with
    | .switch .help => .settled .help
    | .switch .version => .settled .version
    | .switch .verbose => .reading { d with verbosity := d.verbosity + 1 } none
    | .switch .debug =>
      if d.debug then .settled (.refused (.repeated Switch.debug.longName))
      else .reading { d with debug := true } none
    | .option o none => .reading d (some o)
    | .option o (some text) => value d o text
    | .bad error => .settled (.refused error)
  | p => p

/-- Takes one argument. -/
def argument (p : Progress) (text : String) : Progress :=
  match p with
  | .reading d (some option) =>
    match text.toList with
    | '-' :: _ :: _ => .settled (.refused (.valueMissing option))
    | _ => value d option text
  | .reading d none =>
    match text.toList with
    | ['-', '-'] => .ended d
    | '-' :: '-' :: cs => p.piece (longPiece text cs)
    | '-' :: c :: cs => (shortPieces text (c :: cs)).foldl piece p
    | _ => .settled (.refused (.unexpected text))
  | .ended _ => .settled (.refused (.unexpected text))
  | .settled _ => p

/-- What is to be done when there are no more arguments. -/
def request : Progress → Request
  | .reading _ (some option) => .refused (.valueMissing option)
  | .reading d none => d.request
  | .ended d => d.request
  | .settled request => request

end Progress

/-- What the arguments ask for. -/
def parse (arguments : List String) : Request :=
  (arguments.foldl Progress.argument (.reading .empty none)).request

/-- Which events are shown: a setting by name, if it makes sense, goes before the options. -/
def Options.threshold (o : Options) (setting : Option String) : Log.Threshold :=
  (setting.bind Log.Threshold.ofName?).getD (.ofVerbosity o.verbosity o.debug)

end DemandPaging.CommandLine
