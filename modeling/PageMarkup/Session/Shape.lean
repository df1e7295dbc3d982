import PageMarkup.Json.Record
import PageMarkup.Uri

/-!
# Shapes of parameters

Much of what an editor sends is of no use to the server, but all of it has to have the shape that
the protocol gives it. A record may be written as an object, where fields that it does not name are
ignored, or as an array of its fields in order.
-/

namespace PageMarkup

inductive Presence where
  | required
  /-- May be null, or missing from an object. -/
  | optional
  /-- May also be missing from the end of an array. -/
  | omissible
  deriving DecidableEq, Repr

mutual
inductive Shape where
  | anything
  | flag
  | text
  | uri
  /-- A number of 32 bits with a sign. -/
  | signed
  | unsigned
  | oneOf (names : List String)
  | list (item : Shape)
  | either (first second : Shape)
  | record (fields : List ShapeField)
inductive ShapeField where
  | mk (name : String) (presence : Presence) (shape : Shape)
end

namespace ShapeField

def name : ShapeField → String
  | .mk name _ _ => name

def shape : ShapeField → Shape
  | .mk _ _ shape => shape

def isOmissible : ShapeField → Bool
  | .mk _ presence _ => presence = .omissible

def required (name : String) (shape : Shape) : ShapeField := .mk name .required shape

def optional (name : String) (shape : Shape) : ShapeField := .mk name .optional shape

def omissible (name : String) (shape : Shape) : ShapeField := .mk name .omissible shape

end ShapeField

namespace Shape

mutual
def admits : Shape → Json → Bool
  | .anything, _ => true
  | .flag, j => j.bool?.isSome
  | .text, j => j.string?.isSome
  | .uri, j => j.string?.any Uri.isReference
  | .signed, j => j.signed32?.isSome
  | .unsigned, j => j.unsigned32?.isSome
  | .oneOf names, j => j.name?.any names.contains
  | .list item, j => j.array?.any (·.all (admits item))
  | .either first second, j => admits first j || admits second j
  | .record fields, j =>
    match j with
    | .object members => admitsMembers fields members
    | .array items => admitsItems fields items
    | _ => false
def admitsField : ShapeField → Option Json → Bool
  | .mk _ presence _, none => presence ≠ .required
  | .mk _ presence shape, some j => (presence ≠ .required && j.isNull) || admits shape j
def admitsMembers : List ShapeField → List (String × Json) → Bool
  | [], _ => true
  | field :: fields, members =>
    admitsField field (members.lookup field.name) && admitsMembers fields members
def admitsItems : List ShapeField → List Json → Bool
  | [], items => items.isEmpty
  | field :: fields, [] => field.isOmissible && admitsItems fields []
  | field :: fields, item :: items => admitsField field (some item) && admitsItems fields items
end

/-- The value of a field of a record, however the record is written. -/
def member? (fields : List ShapeField) (name : String) : Json → Option Json
  | .object members => members.lookup name
  | .array items => ((fields.map ShapeField.name).zip items).lookup name
  | _ => none

def find? : Shape → List String → Json → Option Json
  | _, [], j => some j
  | .record fields, name :: path, j => do
    let field ← fields.find? (·.name = name)
    find? field.shape path (← member? fields name j)
  | _, _ :: _, _ => none

end Shape

end PageMarkup
