/-!
# Files by their paths

A file tree says which files and directories there are. A path is followed name by name, from the
root if it begins with a slash and from the working directory otherwise. Each name is looked up in
the place reached so far, which has to be a directory, and that holds for the empty name between
two slashes and for dots as well: a slash behind the path of a file leads nowhere.

A fault is met where the path reaches it, so a long name behind a missing one is missing, not too
long. Only the length of the whole path is looked at beforehand.
-/

namespace DemandPaging.CommandLine

/-- A reason in the words of the operating system, with its number. -/
def systemReason (text : String) (code : Nat) : String :=
  text ++ " (os error " ++ toString code ++ ")"

/-- Why a file cannot be opened or read. -/
inductive FileError where
  | notFound
  | notDirectory
  | isDirectory
  | nameTooLong
deriving DecidableEq

def FileError.message : FileError → String
  | notFound => systemReason "No such file or directory" 2
  | notDirectory => systemReason "Not a directory" 20
  | isDirectory => systemReason "Is a directory" 21
  | nameTooLong => systemReason "File name too long" 36

/-- The most bytes in a path. -/
def pathLimit : Nat := 4095

/-- The most bytes in one name of a path. -/
def nameLimit : Nat := 255

/-- A place in a file tree: the names that lead to it from the root. -/
abbrev Location := List String

inductive Node where
  | file (bytes : List UInt8)
  | directory
deriving DecidableEq

structure FileTree where
  nodes : List (Location × Node)
  workingDirectory : Location

namespace FileTree

/-- The directory of devices. Nothing is ever read from the null device. -/
def devices : List (Location × Node) := [(["dev"], .directory), (["dev", "null"], .file [])]

/-- What is found at a location. The root is always a directory. -/
def node? (t : FileTree) : Location → Option Node
  | [] => some .directory
  | location => t.nodes.lookup location

/-- Looks a name up in a location. Two dots lead one place up, where the root is above itself. -/
def enter (t : FileTree) (location : Location) (name : String) : Except FileError Location :=
  match t.node? location with
  | none => .error .notFound
  | some (.file _) => .error .notDirectory
  | some .directory =>
    if name = "" ∨ name = "." then .ok location
    else if name = ".." then .ok location.dropLast
    else if nameLimit < name.utf8ByteSize then .error .nameTooLong
    else
      let place := location ++ [name]
      if (t.node? place).isSome then .ok place else .error .notFound

/-- Follows names from a location. -/
def follow (t : FileTree) (location : Location) : List String → Except FileError Location
  | [] => .ok location
  | name :: names => t.enter location name >>= (t.follow · names)

/-- The location that a path leads to. -/
def locate (t : FileTree) (path : String) : Except FileError Location :=
  if pathLimit < path.utf8ByteSize then .error .nameTooLong
  else
    match (path.toList.splitOn '/').map String.ofList with
    | [] | [""] => .error .notFound
    | "" :: names => t.follow [] names
    | names => t.follow t.workingDirectory names

end FileTree

end DemandPaging.CommandLine
