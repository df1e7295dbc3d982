import PageMarkup.Completion.Basic
import PageMarkup.Diagnostic.Basic
import PageMarkup.Hover
import PageMarkup.Json.Basic

/-! # What an editor is told, as JSON -/

namespace PageMarkup

def Position.toJson (p : Position) : Json :=
  .object [("line", .ofNat p.line), ("character", .ofNat p.character)]

def Range.toJson (r : Range) : Json :=
  .object [("start", r.start.toJson), ("end", r.stop.toJson)]

def markdownJson (text : String) : Json :=
  .object [("kind", .string "markdown"), ("value", .string text)]

def Severity.code : Severity → Nat
  | .error => 1
  | .warning => 2

def Diagnostic.toJson (text : Text) (d : Diagnostic) : Json :=
  .object [("range", (d.range text).toJson), ("severity", .ofNat d.severity.code),
    ("source", .string "wxml"), ("message", .string d.message)]

def Topic.toJson (text : Text) (t : Topic) (page : String) : Json :=
  .object [("contents", markdownJson page), ("range", (text.range t.start t.stop).toJson)]

def ItemKind.code : ItemKind → Nat
  | .attributeName => 5
  | .tag => 10
  | .value => 13
  | .entity => 14

def Note.toJson : Note → Json
  | .plain text => .string text
  | .markdown text => markdownJson text

def Edit.toJson (text : Text) (e : Edit) : Json :=
  .object [("range", (text.range e.start e.stop).toJson), ("newText", .string e.text)]

namespace CompletionItem

def retriggerCommand : Json :=
  .object [("title", .string "Suggest"), ("command", .string "editor.action.triggerSuggest")]

def toJson (text : Text) (item : CompletionItem) : Json :=
  .ofFields [("label", some (.string item.label)), ("kind", some (.ofNat item.kind.code)),
    ("documentation", item.note.map Note.toJson), ("filterText", item.filter.map .string),
    ("insertTextFormat", some (.ofNat (if item.snippet then 2 else 1))),
    ("textEdit", some (item.edit.toJson text)),
    ("command", if item.retrigger then some retriggerCommand else none)]

def listJson (text : Text) (items : List CompletionItem) : Json :=
  .object [("isIncomplete", .bool false), ("items", .array (items.map (toJson text)))]

end CompletionItem

end PageMarkup
