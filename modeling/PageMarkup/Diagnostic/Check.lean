import PageMarkup.Diagnostic.Basic
import PageMarkup.Document.Mode
import PageMarkup.Schema.Language
import PageMarkup.Text.Digits

/-!
# Checking a page

Problems of the document come first, then the defects of each element in document order. Attributes
are checked on elements that the schema knows; a value in double braces is left to the program that
shows the page.
-/

namespace PageMarkup

def isDynamic (value : String) : Bool :=
  let cs := value.toList
  4 < Text.size cs && ['\x7b', '\x7b'].isPrefixOf cs && ['\x7d', '\x7d'].isSuffixOf cs

/-- `-?\d+(\.\d+)?` -/
def isNumber (value : String) : Bool :=
  let unsigned := match value.toList with
    | '-' :: rest => rest
    | cs => cs
  match unsigned.dropWhile (· ≠ '.') with
  | [] => Text.isDigits unsigned
  | _ :: fraction => Text.isDigits (unsigned.takeWhile (· ≠ '.')) && Text.isDigits fraction

namespace Attribute

def content? (a : Attribute) : Option String :=
  a.value.filter (· ≠ "")

def blameName (a : Attribute) (defect : Defect) : List Diagnostic :=
  [⟨defect, a.offset, a.stop⟩]

def valueStart (a : Attribute) : Nat :=
  a.valueOffset?.getD a.offset

def blameValue (a : Attribute) (value : String) (defect : Defect) : List Diagnostic :=
  [⟨defect, a.valueStart, a.valueStart + Text.size value.toList⟩]

/-- A handler or directive needs a value, and a loop an expression. -/
def checkDirective (a : Attribute) : List Diagnostic :=
  match a.content? with
  | none => a.blameName (.valueRequired a.name)
  | some _ =>
    if a.name = "wx:for" ∨ a.name = "wx:for-items" then a.blameName (.expressionRequired a.name)
    else []

def checkKind (a : Attribute) (rule : AttributeRule) : List Diagnostic :=
  match rule.kind, a.content? with
  | .logic, _ | .iterate, _ | .event, _ | .function, _ => a.checkDirective
  | .boolean, some value =>
    if value = "true" ∨ value = "false" then [] else a.blameValue value (.notABoolean a.name)
  | .number, some value => if isNumber value then [] else a.blameValue value (.notANumber a.name)
  | .enum choices, some value =>
    if choices.isEmpty || choices.any (·.value = value) then []
    else a.blameValue value (.notAChoice a.name)
  | .string, none | .enum _, none =>
    if rule.hasDefault then []
    else [⟨.valueRequired a.name, a.valueStart, a.valueStart + 1⟩]
  | .boolean, none | .number, none | .string, some _ => []

/-- An `else` takes no value; all other attributes follow their kind. -/
def checkValue (a : Attribute) (rule : AttributeRule) : List Diagnostic :=
  if a.name = "wx:else" then
    if a.content?.isSome then a.blameName (.needlessValue a.name) else []
  else if a.content?.any isDynamic then []
  else a.checkKind rule

/-- Names that begin with `data-` are free. -/
def check (a : Attribute) (s : Schema) (tag : String) (mode : Option String) : List Diagnostic :=
  if "data-".isPrefixOf a.name then []
  else
    match (s.accepted tag mode).find? (·.name = a.name) with
    | some rule => a.checkValue rule
    | none => a.blameName (.unknownAttribute a.name)

end Attribute

namespace Element

def checkContent (e : Element) (tag : String) : List Diagnostic :=
  if TagName.isEmpty tag && !e.isEmpty then [⟨.contentInEmptyElement, e.start, e.stop⟩] else []

def checkTextChildren (e : Element) (tag : String) : List Diagnostic :=
  if tag = "text" then
    e.children.filterMap fun child =>
      (child.tag.filter (· ≠ "text")).map fun tag => ⟨.notAllowedInText tag, child.start, child.stop⟩
  else []

def checkSource (e : Element) (tag : String) (dir : Option Path) : List Diagnostic :=
  match dir, e.attribute? "src" with
  | some dir, some a =>
    match a.content? with
    | some value =>
      if (tag = "include" ∨ tag = "import") ∧ !isDynamic value then
        a.blameValue value (.fileMissing (dir.join (.ofString value)).normalize)
      else []
    | none => []
  | _, _ => []

def checkRepeats (e : Element) : List Diagnostic :=
  e.repeatedAttributes.flatMap fun name =>
    (e.attributeOffsets name).map fun offset =>
      ⟨.repeatedAttribute name, offset, offset + Text.size name.toList⟩

def checkAttributes (e : Element) (s : Schema) (tag : String) : List Diagnostic :=
  match s.component? tag with
  | none => []
  | some c => e.attributes.flatMap fun a => a.check s c.name (e.mode? c)

/-- All defects of the element; a missing file is assumed wherever one is named. -/
def check (e : Element) (s : Schema) (dir : Option Path) : List Diagnostic :=
  match e.tag with
  | none => []
  | some tag =>
    e.checkContent tag ++ e.checkTextChildren tag ++ e.checkSource tag dir ++ e.checkRepeats ++
      e.checkAttributes s tag

end Element

namespace Document

/-- The defects of a document at a path, if every file that it names is missing. -/
def suspicions (d : Document) (s : Schema) (path : Option Path) : List Diagnostic :=
  d.problems.map (fun p => ⟨.problem p.kind, p.start, p.stop⟩) ++
    d.elements.flatMap (·.check s (path.bind Path.parent?))

def diagnostics (d : Document) (s : Schema) (path : Option Path) (has : Path → Bool) :
    List Diagnostic :=
  (d.suspicions s path).filter (·.stands has)

end Document

end PageMarkup
