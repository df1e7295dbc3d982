import PageMarkup.Distinct

/-!
# Component knowledge

A schema says which components there are, which attributes they take and which values these accept.
Some attributes exist only while another attribute of the element, the selector, has one particular
value, its mode.
-/

namespace PageMarkup

structure Choice where
  value : String
  desc : Option String := none
  deriving DecidableEq, Repr

inductive ValueKind where
  | string
  | boolean
  | number
  | enum (choices : List Choice)
  /-- A handler for something that happens to the element. -/
  | event
  /-- A directive that takes an expression, or nothing. -/
  | logic
  /-- A directive that repeats the element. -/
  | iterate
  /-- A handler that only this component calls. -/
  | function
  deriving DecidableEq, Repr

namespace ValueKind

def name : ValueKind → String
  | .string => "string"
  | .boolean => "boolean"
  | .number => "number"
  | .enum _ => "enum"
  | .event => "event"
  | .logic => "logic"
  | .iterate => "iterate"
  | .function => "function"

def choices : ValueKind → List Choice
  | .boolean => [{ value := "true" }, { value := "false" }]
  | .enum choices => choices
  | _ => []

end ValueKind

structure AttributeRule where
  name : String
  kind : ValueKind
  desc : Option String := none
  defaultValue : Option String := none
  since : Option String := none
  /-- Further attributes of the element, by value of this one. -/
  modes : List (String × List AttributeRule) := []
  deriving Repr

/-- Component tables write an empty text, `无` or `false` where there is no default. -/
def AttributeRule.hasDefault (rule : AttributeRule) : Bool :=
  match rule.defaultValue with
  | none => false
  | some d => d ≠ "" && d ≠ "无" && d ≠ "false"

structure Component where
  name : String
  desc : Option String := none
  docLink : Option String := none
  tips : List String := []
  attributes : List AttributeRule := []
  deriving Repr

namespace Component

def selector? (c : Component) : Option AttributeRule :=
  c.attributes.find? (!·.modes.isEmpty)

def attributesIn (c : Component) (mode : String) : List AttributeRule :=
  match c.selector? with
  | none => []
  | some selector =>
    match selector.modes.find? (·.1 = mode) with
    | none => []
    | some (_, rules) => rules

end Component

structure Schema where
  components : List Component
  deriving Repr

namespace Schema

def component? (s : Schema) (name : String) : Option Component :=
  s.components.find? (·.name = name)

/-- Attributes that a component declares itself, those of the mode last. -/
def declared (s : Schema) (tag : String) (mode : Option String) : List AttributeRule :=
  match s.component? tag with
  | none => []
  | some c =>
    match mode with
    | none => c.attributes
    | some mode => c.attributes ++ c.attributesIn mode

def declaredChoices (s : Schema) (tag name : String) (mode : Option String) : List Choice :=
  match (s.declared tag mode).find? (·.name = name) with
  | none => []
  | some rule => rule.kind.choices

end Schema

end PageMarkup
