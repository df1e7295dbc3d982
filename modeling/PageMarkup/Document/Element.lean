import PageMarkup.Distinct
import PageMarkup.Token.Basic

/-!
# Elements and documents

An element spans from its `<` to where it ends; its children are elements inside that span, in
document order. A document is a text, the tree of its elements under a root that spans the whole
text, and the problems found on the way.
-/

namespace PageMarkup

structure Attribute where
  name : String
  /-- Where the name begins. -/
  offset : Nat
  /-- The value without its double quotes, if there is one. -/
  value : Option String := none
  deriving DecidableEq, Repr

namespace Attribute

def stop (a : Attribute) : Nat :=
  a.offset + Text.size a.name.toList

/-- Where the value begins if it is written right after the name, in quotes. -/
def valueOffset? (a : Attribute) : Option Nat :=
  a.value.map fun _ => a.stop + 2

end Attribute

structure ElementHead where
  /-- Elements are numbered in the order in which they are begun; the root is 0. -/
  id : Nat
  /-- Missing while only `<` has been written. -/
  tag : Option String := none
  start : Nat
  stop : Nat
  /-- Ended by its own end tag, by `/>`, or void. -/
  closed : Bool := false
  endTagStart : Option Nat := none
  /-- In document order, repeated names included. -/
  attributes : List Attribute := []
  /-- Trimmed text runs directly inside the element. -/
  text : List String := []
  deriving DecidableEq, Repr

structure Element extends ElementHead where
  children : List Element := []
  deriving Repr

namespace Element

def push (parent child : Element) : Element :=
  { parent with children := parent.children ++ [child] }

/-- Compares names up to ASCII case. -/
def hasName (e : Element) (name : String) : Bool :=
  match e.tag with
  | some tag => tag.toLower = name.toLower
  | none => false

def isVoid (e : Element) : Bool :=
  match e.tag with
  | some tag => TagName.isVoid tag
  | none => false

def isEmpty (e : Element) : Bool :=
  e.children.isEmpty && e.text.isEmpty

/-- Names of the attributes, each once, in order of their first appearance. -/
def attributeNames (e : Element) : List String :=
  distinctBy id (e.attributes.map Attribute.name)

def attribute? (e : Element) (name : String) : Option Attribute :=
  e.attributes.find? (·.name = name)

def attributeValue? (e : Element) (name : String) : Option String :=
  (e.attribute? name).bind Attribute.value

def attributeOffsets (e : Element) (name : String) : List Nat :=
  (e.attributes.filter (·.name = name)).map Attribute.offset

def repeatedAttributes (e : Element) : List String :=
  e.attributeNames.filter fun name => 1 < e.attributes.countP (·.name = name)

def attributeAt? (e : Element) (offset : Nat) : Option Attribute :=
  e.attributes.find? fun a => a.offset ≤ offset && offset ≤ a.stop

mutual
def preorder : Element → List Element
  | ⟨head, children⟩ => ⟨head, children⟩ :: preorderAll children
def preorderAll : List Element → List Element
  | [] => []
  | e :: rest => preorder e ++ preorderAll rest
end

end Element

inductive ProblemKind where
  | token (fault : Fault)
  | tagNameCharacters
  | startTagMissing (name : String)
  | endTagMissing (name : String)
  | attributeName (name : String)
  | valueNotQuoted
  deriving DecidableEq, Repr

def ProblemKind.message : ProblemKind → String
  | .token fault => fault.message
  | .tagNameCharacters => "Only [a-z] _ - allowed for tag name"
  | .startTagMissing name => s!"Start tag not found for <{name}>"
  | .endTagMissing name => s!"Close tag not found for <{name}>"
  | .attributeName name => s!"Invalid attribute {name}"
  | .valueNotQuoted => "Double quote required for value"

structure Problem where
  kind : ProblemKind
  start : Nat
  stop : Nat
  deriving DecidableEq, Repr

namespace Problem

def message (p : Problem) : String :=
  p.kind.message

def describe (p : Problem) : String :=
  s!"{p.start}..{p.stop}: {p.message}"

end Problem

structure Document where
  text : Text
  root : Element
  problems : List Problem

namespace Document

def roots (d : Document) : List Element :=
  d.root.children

/-- Every element in document order. -/
def elements (d : Document) : List Element :=
  Element.preorderAll d.roots

end Document

end PageMarkup
