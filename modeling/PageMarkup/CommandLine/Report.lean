import PageMarkup.Diagnostic.Basic
import PageMarkup.Json.Basic
import PageMarkup.Text.Quoted
import PageMarkup.Token.Scan

/-!
# Reports

What the commands print, as lines of text or as JSON with the fields of each object in alphabetical
order.
-/

namespace PageMarkup

def TokenKind.name : TokenKind → String
  | .commentOpen => "StartCommentTag"
  | .comment => "Comment"
  | .commentClose => "EndCommentTag"
  | .tagOpen => "StartTagOpen"
  | .tagName => "StartTag"
  | .tagClose => "StartTagClose"
  | .tagSelfClose => "StartTagSelfClose"
  | .endTagOpen => "EndTagOpen"
  | .endTagName => "EndTag"
  | .endTagClose => "EndTagClose"
  | .assign => "DelimiterAssign"
  | .attributeName => "AttributeName"
  | .attributeValue => "AttributeValue"
  | .content => "Content"
  | .blank => "Whitespace"
  | .script => "Script"
  | .unknown => "Unknown"
  | .endOfText => "Eos"

def Severity.name : Severity → String
  | .error => "error"
  | .warning => "warning"

namespace Report

def lines (ls : List String) : String :=
  "".intercalate (ls.map (· ++ "\n"))

def padLeft (width : Nat) (s : String) : String :=
  String.ofList (List.replicate (width - s.length) ' ') ++ s

def padRight (width : Nat) (s : String) : String :=
  s ++ String.ofList (List.replicate (width - s.length) ' ')

/-! ## Documents -/

def attributeLine (a : Attribute) : String :=
  match a.value with
  | some value => s!"@{a.name}={Quoted.write value.toList}"
  | none => s!"@{a.name}"

def elementLine (e : ElementHead) : String :=
  let tag := e.tag.getD "?"
  s!"<{tag}> {e.start}..{e.stop}" ++ if e.closed then "" else " (unclosed)"

mutual
def elementLines : Element → List String
  | ⟨head, children⟩ =>
    elementLine head ::
      (head.attributes.map attributeLine ++ head.text.map (Quoted.write ·.toList) ++
        elementLinesAll children).map ("  " ++ ·)
def elementLinesAll : List Element → List String
  | [] => []
  | e :: rest => elementLines e ++ elementLinesAll rest
end

def documentLines (d : Document) : List String :=
  elementLinesAll d.roots ++ d.problems.map ("error: " ++ ·.describe)

def attributeJson (a : Attribute) : Json :=
  .object [("name", .string a.name), ("offset", .ofNat a.offset),
    ("value", .ofOption .string a.value)]

mutual
def elementJson : Element → Json
  | ⟨head, children⟩ =>
    .object [("attributes", .array (head.attributes.map attributeJson)),
      ("children", .array (elementJsonAll children)), ("closed", .bool head.closed),
      ("end", .ofNat head.stop), ("endTagStart", .ofOption .ofNat head.endTagStart),
      ("start", .ofNat head.start), ("tag", .ofOption .string head.tag),
      ("text", .strings head.text)]
def elementJsonAll : List Element → List Json
  | [] => []
  | e :: rest => elementJson e :: elementJsonAll rest
end

def problemJson (p : Problem) : Json :=
  .object [("end", .ofNat p.stop), ("message", .string p.message), ("start", .ofNat p.start)]

def documentJson (d : Document) : Json :=
  .object [("errors", .array (d.problems.map problemJson)),
    ("roots", .array (elementJsonAll d.roots))]

/-! ## Tokens -/

def tokenLine (p : Placed) : String :=
  padLeft 5 (toString p.offset) ++ " " ++ padRight 18 p.kind.name ++ " " ++ Quoted.write p.lexeme ++
    match p.token.fault with
    | some fault => " ! " ++ fault.message
    | none => ""

def tokenFields (p : Placed) : List (String × Option Json) :=
  [("error", p.token.fault.map (.string ·.message)), ("kind", some (.string p.kind.name)),
    ("len", some (.ofNat p.token.size)), ("offset", some (.ofNat p.offset))]

def tokenJson (p : Placed) : Json :=
  .ofFields (tokenFields p ++ [("text", some (.string (String.ofList p.lexeme)))])

/-! ## Diagnostics -/

/-- Lines and columns count from one here. -/
def diagnosticLine (file : String) (text : Text) (d : Diagnostic) : String :=
  let start := (d.range text).start
  s!"{file}:{start.line + 1}:{start.character + 1}: {d.severity.name}: {d.message}"

def positionJson (p : Position) : Json :=
  .object [("character", .ofNat p.character), ("line", .ofNat p.line)]

def diagnosticJson (text : Text) (d : Diagnostic) : Json :=
  .object [("end", positionJson (d.range text).stop), ("message", .string d.message),
    ("severity", .string d.severity.name), ("start", positionJson (d.range text).start)]

end Report

end PageMarkup
