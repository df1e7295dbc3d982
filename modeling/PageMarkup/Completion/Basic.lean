import PageMarkup.Text.Offset

/-! # Completion items -/

namespace PageMarkup

/-- Replaces the text between two offsets. -/
structure Edit where
  start : Nat
  stop : Nat
  text : String
  deriving DecidableEq, Repr

def Edit.apply (e : Edit) (text : Text) : Text :=
  text.upTo e.start ++ e.text.toList ++ text.onward e.stop

inductive ItemKind where
  | tag
  | attributeName
  | value
  | entity
  deriving DecidableEq, Repr

inductive Note where
  | plain (text : String)
  | markdown (text : String)
  deriving DecidableEq, Repr

structure CompletionItem where
  label : String
  kind : ItemKind
  note : Option Note := none
  /-- What the typed text is compared with, if not the label. -/
  filter : Option String := none
  edit : Edit
  /-- Whether the new text has places to fill in. -/
  snippet : Bool := false
  /-- Whether the editor should ask for completions again. -/
  retrigger : Bool := false
  deriving DecidableEq, Repr

structure CompletionOptions where
  /-- Whether the editor fills in places. -/
  snippets : Bool := false
  /-- Whether to offer event handlers. -/
  events : Bool := true
  deriving DecidableEq, Repr

end PageMarkup
