import PageMarkup.Document.Lookup
import PageMarkup.Document.Mode
import PageMarkup.Path.Tree
import PageMarkup.Schema.Language
import PageMarkup.Schema.Markdown
import PageMarkup.Token.Scan

/-!
# Hovering

Over the name of an attribute or a tag an editor shows a page of documentation. A page from the
documentation directory takes precedence over the one made from the schema.
-/

namespace PageMarkup

structure Topic where
  /-- The name that the offset touches. -/
  start : Nat
  stop : Nat
  /-- Where a page on the topic is found in the documentation directory. -/
  page : List String
  /-- What to say without such a page. -/
  summary : String
  deriving DecidableEq, Repr

namespace Topic

def isPlain (name : String) : Bool :=
  name ≠ "" && name ≠ ".." && !name.toList.contains '/' && !name.toList.contains '\\'

def file? (t : Topic) (docs : String) : Option String :=
  if t.page.all isPlain then
    some (Path.within (t.page.dropLast.foldl Path.within docs) (t.page.getLastD "" ++ ".md"))
  else none

def text (t : Topic) (docs : Option String) (read : String → Except FileError String) : String :=
  match docs.bind t.file? with
  | none => t.summary
  | some file =>
    match read file with
    | .ok page => page
    | .error _ => t.summary

end Topic

namespace Document

def tagTopic? (s : Schema) (tag : String) (start stop : Nat) : Option Topic :=
  (s.component? tag).map fun c => ⟨start, stop, [tag], c.markdown⟩

def attributeTopic? (s : Schema) (e : Element) (tag : String) (a : Attribute) : Option Topic :=
  (s.rule? tag a.name (s.mode? e tag)).map fun rule => ⟨a.offset, a.stop, [tag, a.name], rule.markdown tag⟩

/-- The first token, from an offset on, that reaches to the cursor, if it is of the wanted kind. At
the end of a token of another kind the search goes on. -/
def tokenTouching (d : Document) (start cursor : Nat) (kind : TokenKind) :
    Except OffsetError (Option Placed) := do
  let found := (← scanFrom d.text start .content).find? fun p =>
    cursor < p.stop || (p.stop = cursor && p.kind = kind)
  return found.filter (·.kind = kind)

/-- What the offset is about, if the schema knows it. An unknown attribute is about its element. -/
def topic? (d : Document) (s : Schema) (offset : Nat) : Except OffsetError (Option Topic) := do
  match ← d.chainAt offset with
  | [] => return none
  | e :: _ =>
    let some tag := e.tag.map String.toLower | return none
    match e.attributeAt? offset with
    | some a => return (attributeTopic? s e tag a).or (tagTopic? s tag a.offset a.stop)
    | none =>
      let (kind, start) := match e.endTagStart with
        | some start => if start ≤ offset then (TokenKind.endTagName, start) else (.tagName, e.start)
        | none => (.tagName, e.start)
      let token ← d.tokenTouching start offset kind
      return token.bind fun p => tagTopic? s tag p.offset p.stop

end Document

end PageMarkup
