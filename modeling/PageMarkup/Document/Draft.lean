import PageMarkup.Document.Element
import PageMarkup.Token.Scan

/-!
# Building a document

A draft is a document of which only the front has been read. It keeps the element that is being
read and those around it, innermost first; a child is handed to its parent when it ends. Start tags
that wait for their end tag are counted separately, so that a missing or surplus end tag is noticed
whatever the tree looks like. `Document.parse` reads all tokens and never fails.
-/

namespace PageMarkup

structure OpenTag where
  /-- In lower case. -/
  name : String
  start : Nat
  stop : Nat
  deriving DecidableEq, Repr

structure Draft where
  current : Element
  above : List Element := []
  /-- How many elements have been begun. -/
  count : Nat := 0
  /-- Where the last `</` was. -/
  endTagOpen : Option Nat := none
  /-- Innermost first. -/
  openTags : List OpenTag := []
  problems : List Problem := []

/-- `[a-z][a-z0-9_-]*` -/
def isValidTagName (name : Text) : Bool :=
  match name with
  | [] => false
  | c :: cs => c.isLower && cs.all fun c => c.isLower || c.isDigit || c = '-' || c = '_'

/-- `[a-zA-Z][a-zA-Z0-9_:.-]*` -/
def isValidAttributeName (name : Text) : Bool :=
  match name with
  | [] => false
  | c :: cs => c.isAlpha && cs.all fun c => c.isAlphanum || c = '_' || c = ':' || c = '.' || c = '-'

def isDoubleQuoted (value : Text) : Bool :=
  2 ≤ value.length && value.head? = some '"' && value.getLast? = some '"'

def unquote (value : Text) : Text :=
  let value := match value with
    | '"' :: rest => rest
    | value => value
  if value.getLast? = some '"' then value.dropLast else value

def setLastValue (value : String) : List Attribute → List Attribute
  | [] => []
  | [a] => [{ a with value := some value }]
  | a :: rest => a :: setLastValue value rest

/-- Ends elements from the innermost on until one has the name; the root is not ended. -/
def closeUpTo (name : String) (stop : Nat) : Element → List Element → Element × List Element
  | e, [] => (e, [])
  | e, parent :: above =>
    if e.hasName name then (e, parent :: above)
    else closeUpTo name stop (parent.push { e with stop, closed := false }) above

def closeAll (stop : Nat) : Element → List Element → Element
  | e, [] => e
  | e, parent :: above => closeAll stop (parent.push { e with stop, closed := false }) above

namespace Draft

def report (d : Draft) (kind : ProblemKind) (start stop : Nat) : Draft :=
  { d with problems := d.problems ++ [⟨kind, start, stop⟩] }

def expect (d : Draft) (ok : Bool) (kind : ProblemKind) (start stop : Nat) : Draft :=
  if ok then d else d.report kind start stop

def leave (d : Draft) (f : Element → Element) : Draft :=
  match d.above with
  | [] => d
  | parent :: above => { d with current := parent.push (f d.current), above }

def openElement (d : Draft) (start size : Nat) : Draft :=
  { d with
    current := { id := d.count + 1, start, stop := size }
    above := d.current :: d.above
    count := d.count + 1 }

def nameElement (d : Draft) (name : Text) (start stop : Nat) : Draft :=
  let tag := String.ofList name
  let d := { d with
    current := { d.current with tag := some tag }
    openTags := ⟨tag.toLower, start, stop⟩ :: d.openTags }
  d.expect (isValidTagName name) .tagNameCharacters start stop

def closeStartTag (d : Draft) (stop : Nat) : Draft :=
  if d.current.isVoid then
    { d.leave ({ · with stop, closed := true }) with openTags := d.openTags.tail }
  else { d with current := { d.current with stop } }

def selfClose (d : Draft) (stop : Nat) : Draft :=
  { d.leave ({ · with stop, closed := true }) with openTags := d.openTags.tail }

/-- The last child of the current element if it is a void element to which an end tag that begins
at `start` belongs: right before it but for white space, and without an end tag so far. -/
def voidBefore? (text : Text) (d : Draft) (name : String) (start : Nat) : Option Element :=
  if d.current.hasName name || !TagName.isVoid name then none
  else
    d.current.children.getLast?.filter fun child =>
      child.hasName name && child.closed && child.endTagStart.isNone &&
        ((text.slice? child.stop start).map Text.trim = some [])

/-- An end tag takes one start tag off the list, which should be its own. -/
def settle (d : Draft) (name : String) (start stop : Nat) : Draft :=
  match d.openTags with
  | [] => d.report (.startTagMissing name) start stop
  | tag :: rest =>
    { d with openTags := rest }.expect (tag.name = name) (.endTagMissing tag.name) tag.start tag.stop

/-- The name of an end tag. It goes to a void element right before it, or else ends the innermost
open element of that name together with all inside it. -/
def nameEndTag (text : Text) (d : Draft) (lexeme : Text) (start stop : Nat) : Draft :=
  let name := (String.ofList lexeme).toLower
  let tagStart := d.endTagOpen.getD start
  match d.voidBefore? text name tagStart with
  | some child =>
    { d with
      current := { child with endTagStart := some tagStart }
      above := { d.current with children := d.current.children.dropLast } :: d.above }
  | none =>
    let (current, above) := closeUpTo name tagStart d.current d.above
    let current := match above with
      | [] => current
      | _ => { current with closed := true, endTagStart := some tagStart }
    { d with current, above }.settle name start stop

def addAttribute (d : Draft) (name : Text) (start stop : Nat) : Draft :=
  let d := d.expect (isValidAttributeName name) (.attributeName (String.ofList name)) start (stop - 1)
  { d with current := { d.current with
    attributes := d.current.attributes ++ [{ name := String.ofList name, offset := start }] } }

def addValue (d : Draft) (value : Text) (start stop : Nat) : Draft :=
  let d := d.expect (isDoubleQuoted value) .valueNotQuoted start (stop - 1)
  { d with current := { d.current with
    attributes := setLastValue (String.ofList (unquote value)) d.current.attributes } }

def addText (d : Draft) (content : Text) : Draft :=
  match content.trim with
  | [] => d
  | run => { d with current := { d.current with text := d.current.text ++ [String.ofList run] } }

def note (d : Draft) (p : Placed) : Draft :=
  match p.token.fault with
  | some fault => d.report (.token fault) p.offset p.stop
  | none => d

def accept (text : Text) (d : Draft) (p : Placed) : Draft :=
  let d := d.note p
  match p.kind with
  | .tagOpen => d.openElement p.offset text.size
  | .tagName => d.nameElement p.lexeme p.offset p.stop
  | .tagClose => d.closeStartTag p.stop
  | .tagSelfClose => d.selfClose p.stop
  | .endTagOpen => { d with endTagOpen := some p.offset }
  | .endTagName => d.nameEndTag text p.lexeme p.offset p.stop
  | .endTagClose => d.leave ({ · with stop := p.stop })
  | .attributeName => d.addAttribute p.lexeme p.offset p.stop
  | .attributeValue => d.addValue p.lexeme p.offset p.stop
  | .content => d.addText p.lexeme
  | _ => d

def empty (text : Text) : Draft :=
  { current := { id := 0, start := 0, stop := text.size } }

def finish (text : Text) (d : Draft) : Document where
  text
  root := closeAll text.size d.current d.above
  problems := d.problems ++
    d.openTags.reverse.map fun tag => ⟨.endTagMissing tag.name, tag.start, tag.stop - 1⟩

end Draft

def Document.parse (text : Text) : Document :=
  ((tokens text).foldl (Draft.accept text) (Draft.empty text)).finish text

end PageMarkup
