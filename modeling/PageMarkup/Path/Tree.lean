import PageMarkup.Path.Basic

/-!
# Files

`Files` answers what the program asks about files. A file tree is one way to answer: it holds its
files in memory and resolves paths step by step, so that `..` after a missing directory fails.
-/

namespace PageMarkup

inductive FileError where
  | notFound
  | notADirectory
  | isADirectory
  | nameTooLong
  | notText
  | other (message : String)
  deriving DecidableEq, Repr

def FileError.message : FileError → String
  | .notFound => "No such file or directory (os error 2)"
  | .notADirectory => "Not a directory (os error 20)"
  | .isADirectory => "Is a directory (os error 21)"
  | .nameTooLong => "File name too long (os error 36)"
  | .notText => "stream did not contain valid UTF-8"
  | .other message => message

structure Files where
  has : Path → Bool
  read : String → Except FileError String

def FileError.decode (bytes : ByteArray) : Except FileError String :=
  match String.fromUTF8? bytes with
  | some text => .ok text
  | none => .error .notText

/-- Files by location. A directory is there if it is the working directory, contains it, or contains
a file. -/
structure FileTree where
  workingDirectory : List String
  files : List (List String × ByteArray)

inductive FileTree.Entry where
  | file (bytes : ByteArray)
  | directory

namespace FileTree

def ofFiles (workingDirectory : List String) (files : List (String × ByteArray)) : FileTree where
  workingDirectory
  files := files.map fun (path, bytes) =>
    ((Path.ofString path).locate workingDirectory, bytes)

def entry? (t : FileTree) (location : List String) : Option Entry :=
  match t.files.lookup location with
  | some bytes => some (.file bytes)
  | none =>
    if location.isSuffixOf t.workingDirectory || t.files.any (location.isSuffixOf ·.1) then
      some .directory
    else none

def nameLimit : Nat := 255

def pathLimit : Nat := 4096

/-- Follows a path from a location. Every step has to start from a directory; what the last one
leads to need not be there. -/
def follow (t : FileTree) (location : List String) : Path → Except FileError (List String)
  | [] => .ok location
  | part :: rest =>
    match t.entry? location, part with
    | none, _ => .error .notFound
    | some (.file _), _ => .error .notADirectory
    | some .directory, .name value =>
      if nameLimit < value.utf8ByteSize then .error .nameTooLong
      else t.follow (value :: location) rest
    | some .directory, part => t.follow (Path.step location part) rest

/-- The location that a written path leads to. The empty path leads nowhere. -/
def resolve (t : FileTree) (path : String) (steps : Path) : Except FileError (List String) :=
  if path.isEmpty then .error .notFound
  else if pathLimit ≤ path.utf8ByteSize then .error .nameTooLong
  else t.follow t.workingDirectory steps

def lookup (t : FileTree) (path : String) : Except FileError Entry := do
  match t.entry? (← t.resolve path (Path.steps path)) with
  | some entry => return entry
  | none => .error .notFound

/-- Makes sure that there is a file to which more can be written. A path with a slash at its end
names a directory. -/
def create (t : FileTree) (path : String) : Except FileError FileTree := do
  let slash : Bool := path.toList.getLast? = some '/'
  let steps := Path.steps path
  let location ← t.resolve path (if slash then steps.dropLast else steps)
  match slash, t.entry? location with
  | true, _ => .error .isADirectory
  | false, some .directory => .error .isADirectory
  | false, some (.file _) => return t
  | false, none => return { t with files := (location, .empty) :: t.files }

def readBytes (t : FileTree) (path : String) : Except FileError ByteArray :=
  match t.lookup path with
  | .ok (.file bytes) => .ok bytes
  | .ok .directory => .error .isADirectory
  | .error e => .error e

def asFiles (t : FileTree) : Files where
  has path := (t.lookup path.toText).isOk
  read path :=
    match t.readBytes path with
    | .ok bytes => FileError.decode bytes
    | .error e => .error e

end FileTree

end PageMarkup
