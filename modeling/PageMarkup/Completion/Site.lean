import PageMarkup.Token.Scan

/-!
# Where the cursor is

The tokens from the start of an element on decide what can be completed: the first token that
reaches to the cursor, and what follows it if the cursor is at its end.
-/

namespace PageMarkup

inductive CompletionSite where
  | nothing
  /-- Right after `<` or the blanks behind it, up to where a name may follow. -/
  | afterBracket (start stop : Nat)
  | tagName (start stop : Nat)
  /-- From the slash of an end tag to the end of its name. -/
  | endTag (slash stop : Nat)
  /-- Right after the start tag of an element. -/
  | afterStartTag (offset : Nat) (tag : Text)
  | attributeName (tag : Text) (start stop : Nat)
  | attributeValue (tag name : Text) (start stop : Nat)
  | content
  deriving DecidableEq, Repr

namespace CompletionSite

def extend (p : Placed) (rest : List Placed) (cursor : Nat) (kind : TokenKind) : Nat :=
  match rest with
  | q :: _ => if p.stop = cursor ∧ q.kind = kind then q.stop else cursor
  | [] => cursor

/-- The slash before an end tag's name and the blanks in front of it. -/
def slashBefore? (text : Text) (offset : Nat) : Option Nat :=
  let before := (text.upTo offset).reverse
  match before.dropWhile isBlank with
  | '/' :: _ => some (offset - (before.takeWhile isBlank).length - 1)
  | _ => none

/-- What blanks up to the cursor leave room for, which the state after them tells. -/
def ofBlank? (cursor : Nat) (tag name : Text) (p : Placed) (rest : List Placed) :
    Option CompletionSite :=
  match p.state with
  | .afterTagOpen => some (.afterBracket p.offset (extend p rest cursor .tagName))
  | .tag _ | .afterAttributeName _ => some (.attributeName tag p.stop cursor)
  | .beforeAttributeValue _ => some (.attributeValue tag name p.stop cursor)
  | .afterEndTagOpen => some (.endTag (p.offset - 1) cursor)
  | .content => some .content
  | _ => none

/-- The site at a token that reaches to the cursor, given the last names of a tag and an attribute;
none if the next token decides. -/
def ofToken? (text : Text) (cursor : Nat) (tag name : Text) (p : Placed) (rest : List Placed) :
    Option CompletionSite :=
  match p.kind with
  | .tagOpen =>
    if p.stop = cursor then some (.afterBracket cursor (extend p rest cursor .tagName)) else none
  | .tagName => some (.tagName p.offset p.stop)
  | .attributeName => some (.attributeName tag p.offset p.stop)
  | .assign =>
    if p.stop = cursor then
      some (.attributeValue tag name cursor (extend p rest cursor .attributeValue))
    else none
  | .attributeValue => some (.attributeValue tag name p.offset p.stop)
  | .blank => ofBlank? cursor tag name p rest
  | .endTagOpen => some (.endTag (p.offset + 1) (extend p rest cursor .endTagName))
  | .endTagName => (slashBefore? text p.offset).map (.endTag · p.stop)
  | .tagClose => if tag.isEmpty then none else some (.afterStartTag p.stop tag)
  | .content => some .content
  | _ => some .nothing

def ofTokens (text : Text) (cursor : Nat) (tag name : Text) : List Placed → CompletionSite
  | [] => .nothing
  | p :: rest =>
    if cursor < p.offset then .nothing
    else
      let tag' := if p.kind = .tagName then p.lexeme else tag
      let name' := if p.kind = .attributeName then p.lexeme else name
      if cursor ≤ p.stop then
        match ofToken? text cursor tag name p rest with
        | some site => site
        | none => ofTokens text cursor tag' name' rest
      else ofTokens text cursor tag' name' rest

end CompletionSite

end PageMarkup
