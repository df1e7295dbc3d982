import PageMarkup.Completion.Basic
import PageMarkup.Completion.Site
import PageMarkup.Document.Lookup
import PageMarkup.Document.Mode
import PageMarkup.Entity.Table
import PageMarkup.Schema.Language
import PageMarkup.Schema.Markdown

/-!
# Completion

The element before the cursor is scanned again from its start; the site of the cursor in it decides
which items are offered. Nothing is offered outside of all elements.
-/

namespace PageMarkup

def isFollowedBy (text : Text) (offset : Nat) (state : ScanState) (kind : TokenKind) :
    Except OffsetError Bool := do
  let rest := (← scanFrom text offset state).dropWhile (·.kind = .blank)
  return (rest.head?.map Placed.kind) = some kind

/-- The blanks before an offset, if nothing else precedes it on its line. -/
def lineIndent? (text : Text) (offset : Nat) : Option Text :=
  let before := (text.upTo offset).reverse
  let inLine (c : Char) : Bool := isBlank c && c ≠ '\n' && c ≠ '\r'
  match before.dropWhile inLine with
  | [] | '\n' :: _ | '\r' :: _ => some (before.takeWhile inLine).reverse
  | _ => none

namespace Text

/-- The end of the run of characters that satisfy `p` around an offset, at most `limit`. -/
def runStop (p : Char → Bool) (cs : Text) (offset limit : Nat) : Nat :=
  max offset (min limit (size (cs.upTo offset) + size ((cs.onward offset).takeWhile p)))

/-- The start of that run, at least `limit`. -/
def runStart (p : Char → Bool) (cs : Text) (offset limit : Nat) : Nat :=
  let before := cs.upTo offset
  min offset (max limit (size before - size (before.reverse.takeWhile p)))

end Text

def joinAtColon (name : String) : String :=
  let cs := name.toList
  String.ofList (cs.takeWhile (· ≠ ':') ++ (cs.dropWhile (· ≠ ':')).tail)

/-- Drops attributes that are present or switched off. A handler with a colon and the one without
are the same handler. -/
def offer (events : Bool) (present : List String) : List AttributeRule → List AttributeRule
  | [] => []
  | rule :: rest =>
    let joined := joinAtColon rule.name
    if present.contains rule.name then offer events present rest
    else if rule.kind = .event then
      if !events || (joined ≠ rule.name && present.contains joined) then
        offer events (rule.name :: present) rest
      else rule :: offer events (joined :: rule.name :: present) rest
    else rule :: offer events (rule.name :: present) rest

structure Completion where
  document : Document
  schema : Schema
  options : CompletionOptions
  cursor : Nat
  element : Element
  /-- Innermost first. -/
  above : List Element

namespace Completion

variable (c : Completion)

def text : Text := c.document.text

/-- An edit never begins after the cursor. -/
def edit (start stop : Nat) (text : String) : Edit :=
  ⟨min start c.cursor, stop, text⟩

def openingTags (start stop : Nat) : List CompletionItem :=
  c.schema.components.map fun component =>
    { label := component.name, kind := .tag, note := some (.markdown component.markdown),
      edit := c.edit start stop component.name }

def waits (e : Element) : Bool :=
  e.tag.isSome && (!e.closed || e.endTagStart.any (c.cursor < ·))

/-- The end tag of an open element. If its start tag and the end tag stand first on their lines, the
end tag is indented like the start tag. -/
def closing (e : Element) (tag : String) (start stop : Nat) (close : String) : CompletionItem :=
  let bracket := start - 1
  let item : CompletionItem :=
    { label := "/" ++ tag, kind := .tag, filter := some ("/" ++ tag ++ close),
      edit := c.edit start stop ("/" ++ tag ++ close) }
  match lineIndent? c.text e.start, lineIndent? c.text bracket with
  | some wanted, some written =>
    if wanted = written then item
    else
      { item with
        filter := some (String.ofList written ++ "</" ++ tag ++ close)
        edit := c.edit (bracket - Text.size written) c.cursor
          (String.ofList wanted ++ "</" ++ tag ++ close) }
  | _, _ => item

def closingTag? (elements : List Element) (start stop : Nat) :
    Except OffsetError (Option CompletionItem) := do
  let close := if ← isFollowedBy c.text stop .endTag .endTagClose then "" else ">"
  return (elements.find? c.waits).bind fun e =>
    e.tag.map fun tag => c.closing e tag start stop close

def anyClosingTag (start stop : Nat) : Except OffsetError (List CompletionItem) := do
  let close := if ← isFollowedBy c.text stop .endTag .endTagClose then "" else ">"
  return c.schema.components.map fun component =>
    { label := "/" ++ component.name, kind := .tag, note := some (.markdown component.markdown),
      filter := some ("/" ++ component.name ++ close),
      edit := c.edit start stop ("/" ++ component.name ++ close) }

def closingTags (start stop : Nat) : Except OffsetError (List CompletionItem) := do
  match ← c.closingTag? (c.element :: c.above) start stop with
  | some item => return [item]
  | none => c.anyClosingTag start stop

def tags (start stop : Nat) : Except OffsetError (List CompletionItem) := do
  return c.openingTags start stop ++ (← c.closingTag? c.above start stop).toList

def closeElement (offset : Nat) (tag : String) : List CompletionItem :=
  if TagName.isVoid tag then []
  else
    let close := "</" ++ tag ++ ">"
    [{ label := close, kind := .tag, filter := some close, snippet := c.options.snippets
       edit := ⟨offset, offset, if c.options.snippets then "$0" ++ close else close⟩ }]

def attributeName (edit : String → Edit) (tag : String) (withValue : Bool) (rule : AttributeRule) :
    CompletionItem :=
  let withValue := withValue && rule.kind ≠ .boolean
  { label := rule.name, kind := .attributeName, note := some (.markdown (rule.markdown tag))
    edit := edit (if withValue then rule.name ++ "=\"$1\"" else rule.name)
    snippet := withValue, retrigger := withValue }

def wantsValue (stop : Nat) : Except OffsetError Bool :=
  if c.options.snippets then (!·) <$> isFollowedBy c.text stop (.afterAttributeName {}) .assign
  else .ok false

/-- Attributes that the element does not have yet; the one that is being written does not count. A
`<` in its name most likely begins the next tag and is left alone. -/
def attributeNames (tag : String) (start stop : Nat) : Except OffsetError (List CompletionItem) := do
  let withValue ← c.wantsValue stop
  let edit := c.edit start (c.text.runStop (· ≠ '<') c.cursor stop)
  let present := (c.element.attributes.filter (·.offset ≠ start)).map Attribute.name
  let rules := c.schema.accepted tag (c.schema.mode? c.element tag)
  return (offer c.options.events present rules).map (attributeName edit tag withValue)

/-- The word at the cursor inside a quoted value, or else the whole value with new quotes. -/
def valueEdit (start stop : Nat) (value : String) : Edit :=
  let whole := c.edit start stop ("\"" ++ value ++ "\"")
  if start < c.cursor ∧ c.cursor ≤ stop then
    match (c.text.onward start).head? with
    | some quote =>
      if quote = '"' ∨ quote = '\'' then
        let last := if (c.text.upTo stop).getLast? = some quote then stop - 1 else stop
        c.edit (c.text.runStart (!isBlank ·) c.cursor (start + 1))
          (c.text.runStop (!isBlank ·) c.cursor last) value
      else whole
    | none => whole
  else whole

def attributeValues (tag name : String) (start stop : Nat) : List CompletionItem :=
  (distinctBy Choice.value (c.schema.choices tag name (c.schema.mode? c.element tag))).map fun choice =>
    let edit := c.valueEdit start stop choice.value
    { label := choice.value, kind := .value, note := choice.desc.map .plain,
      filter := some edit.text, edit }

def entities : List CompletionItem :=
  let before := (c.text.upTo c.cursor).reverse
  let name := before.takeWhile Char.isAlphanum
  match before.dropWhile Char.isAlphanum with
  | '&' :: _ =>
    if Text.size before = c.cursor then
      Entity.current.map fun e =>
        { label := "&" ++ e.name, kind := .entity,
          note := some (.plain s!"Character entity representing '{e.replacement}'"),
          edit := c.edit (c.cursor - name.length - 1) c.cursor ("&" ++ e.name) }
    else []
  | _ => []

def items : CompletionSite → Except OffsetError (List CompletionItem)
  | .nothing => return []
  | .afterBracket start stop => c.tags start stop
  | .tagName start stop => return c.openingTags start stop
  | .endTag slash stop => c.closingTags slash stop
  | .afterStartTag offset tag => return c.closeElement offset (String.ofList tag)
  | .attributeName tag start stop => c.attributeNames (String.ofList tag).toLower start stop
  | .attributeValue tag name start stop =>
    return c.attributeValues (String.ofList tag).toLower (String.ofList name).toLower start stop
  | .content => return c.entities

end Completion

namespace Document

def completions (d : Document) (s : Schema) (options : CompletionOptions) (cursor : Nat) :
    Except OffsetError (List CompletionItem) := do
  match ← d.chainBefore cursor with
  | [] => return []
  | element :: above =>
    let tokens ← scanFrom d.text element.start .content
    Completion.items ⟨d, s, options, cursor, element, above⟩
      (CompletionSite.ofTokens d.text cursor [] [] tokens)

end Document

end PageMarkup
