/-!
# Paths

A path is the list of its parts. Resolving it one part at a time from a directory leads to a
location; `normalize` removes `.` and `..` from the text of a path without looking at any directory.
-/

namespace PageMarkup

inductive PathPart where
  | root
  | here
  | up
  | name (value : String)
  deriving DecidableEq, Repr

abbrev Path := List PathPart

namespace Path

def part (segment : String) : PathPart :=
  if segment = "." then .here
  else if segment = ".." then .up
  else .name segment

/-- Every step of a written path. Repeated slashes count once; one at the end stays at a directory. -/
def steps (path : String) : Path :=
  let cs := path.toList
  let names := ((cs.splitOn '/').filter (· ≠ [])).map fun cs => part (String.ofList cs)
  (if cs.head? = some '/' then [.root] else []) ++ names ++
    (if cs.getLast? = some '/' then [.here] else [])

/-- Keeps `.` at the beginning only. -/
def tidy : Path → Path
  | [] => []
  | first :: rest => first :: rest.filter (· ≠ .here)

def ofString (path : String) : Path :=
  tidy (steps path)

def isAbsolute : Path → Bool
  | .root :: _ => true
  | _ => false

def parent? (path : Path) : Option Path :=
  match path.getLast? with
  | none => none
  | some .root => none
  | some _ => some path.dropLast

def join (dir path : Path) : Path :=
  if path.isAbsolute then path else tidy (dir ++ path)

/-- One part of a path without `.` and `..`, which is built innermost part first. -/
def fold (done : Path) : PathPart → Path
  | .here => done
  | .up =>
    match done with
    | .name _ :: rest => rest
    | done => done
  | part => part :: done

/-- Resolves `.` and `..` in the path itself; where nothing is left to go up from, `..` is dropped. -/
def normalize (path : Path) : Path :=
  (path.foldl fold []).reverse

/-- One step from a location, which lists the names on the way from the root, innermost first. -/
def step (location : List String) : PathPart → List String
  | .root => []
  | .here => location
  | .up => location.tail
  | .name value => value :: location

def locate (location : List String) (path : Path) : List String :=
  path.foldl step location

def segment : PathPart → String
  | .root => ""
  | .here => "."
  | .up => ".."
  | .name value => value

def toText : Path → String
  | [.root] => "/"
  | path => "/".intercalate (path.map segment)

def within (dir entry : String) : String :=
  if dir.isEmpty || dir.toList.getLast? = some '/' then dir ++ entry else dir ++ "/" ++ entry

end Path

end PageMarkup
