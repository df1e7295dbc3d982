import PageMarkup.Document.Element
import PageMarkup.Path.Basic
import PageMarkup.Text.Position

/-! # What can be wrong with a page -/

namespace PageMarkup

inductive Severity where
  | error
  | warning
  deriving DecidableEq, Repr

inductive Defect where
  | problem (kind : ProblemKind)
  | contentInEmptyElement
  | notAllowedInText (tag : String)
  /-- A page that is included or imported, but not there. -/
  | fileMissing (path : Path)
  | repeatedAttribute (name : String)
  | unknownAttribute (name : String)
  | needlessValue (name : String)
  | valueRequired (name : String)
  | expressionRequired (name : String)
  | notABoolean (name : String)
  | notANumber (name : String)
  | notAChoice (name : String)
  deriving DecidableEq, Repr

namespace Defect

def severity : Defect → Severity
  | .needlessValue _ => .warning
  | _ => .error

def message : Defect → String
  | .problem kind => s!"Parse error: {kind.message}"
  | .contentInEmptyElement => "Empty tag should not have children"
  | .notAllowedInText tag => s!"{tag} not allowed in <text>"
  | .fileMissing path => s!"File {path.toText} not exist"
  | .repeatedAttribute name => s!"Duplicated attribute \"{name}\""
  | .unknownAttribute name => s!"Unknown attribute \"{name}\""
  | .needlessValue name => s!"Unnecessary value for \"{name}\""
  | .valueRequired name => s!"Value required for attribute \"{name}\""
  | .expressionRequired name => s!"Expression required for attribute \"{name}\""
  | .notABoolean name => s!"Invalid value for boolean attribute \"{name}\""
  | .notANumber name => s!"Invalid value for number attribute \"{name}\""
  | .notAChoice name => s!"Invalid value for enum attribute \"{name}\""

end Defect

structure Diagnostic where
  defect : Defect
  start : Nat
  stop : Nat
  deriving DecidableEq, Repr

namespace Diagnostic

def severity (d : Diagnostic) : Severity := d.defect.severity

def message (d : Diagnostic) : String := d.defect.message

/-- The file whose absence is the defect. -/
def file? (d : Diagnostic) : Option Path :=
  match d.defect with
  | .fileMissing path => some path
  | _ => none

/-- Whether the defect is there once it is known which files are. -/
def stands (has : Path → Bool) (d : Diagnostic) : Bool :=
  d.file?.all (!has ·)

def range (text : Text) (d : Diagnostic) : Range := text.range d.start d.stop

end Diagnostic

end PageMarkup
