import PageMarkup.Document.Draft

/-!
# Well-formed markup

A page is a list of items: runs of text, comments, and elements in one of four shapes. `render`
writes the items down, and `outline` is the tree of elements that they stand for, with the offsets
that each has in the written text.
-/

namespace PageMarkup.Markup

structure Attr where
  name : Text
  value : Option Text := none
  deriving DecidableEq, Repr

structure Tag where
  name : Text
  attributes : List Attr := []
  deriving DecidableEq, Repr

inductive Item where
  | run (text : Text)
  | comment (body : Text)
  | selfClosed (tag : Tag)
  | void (tag : Tag)
  | raw (tag : Tag) (body : Text)
  | nested (tag : Tag) (body : List Item)
  deriving Repr

-- ---------------------------------------------------------------------------
-- Writing
-- ---------------------------------------------------------------------------

def Attr.render (a : Attr) : Text :=
  ' ' :: a.name ++
    match a.value with
    | none => []
    | some value => '=' :: '"' :: value ++ ['"']

def renderAttrs : List Attr → Text
  | [] => []
  | a :: rest => a.render ++ renderAttrs rest

def Tag.render (t : Tag) : Text :=
  '<' :: t.name ++ renderAttrs t.attributes

def Tag.renderEnd (t : Tag) : Text :=
  '<' :: '/' :: t.name ++ ['>']

def Tag.enclose (t : Tag) (body : Text) : Text :=
  t.render ++ '>' :: body ++ t.renderEnd

mutual
def Item.render : Item → Text
  | .run text => text
  | .comment body => '<' :: '!' :: '-' :: '-' :: body ++ ['-', '-', '>']
  | .selfClosed tag => tag.render ++ ['/', '>']
  | .void tag => tag.render ++ ['>']
  | .raw tag body => tag.enclose body
  | .nested tag body => tag.enclose (render body)
def render : List Item → Text
  | [] => []
  | item :: rest => item.render ++ render rest
end

-- ---------------------------------------------------------------------------
-- Well-formed items
-- ---------------------------------------------------------------------------

/-- `[a-z][a-z0-9_-]*` -/
def IsTagName : Text → Prop
  | [] => False
  | c :: cs => c.isLower ∧ ∀ d ∈ cs, d.isLower ∨ d.isDigit ∨ d = '_' ∨ d = '-'

/-- `[a-zA-Z][A-Za-z0-9_:.-]*` -/
def IsAttributeName : Text → Prop
  | [] => False
  | c :: cs => c.isAlpha ∧ ∀ d ∈ cs, d.isAlphanum ∨ d = '_' ∨ d = ':' ∨ d = '.' ∨ d = '-'

instance : DecidablePred IsTagName
  | [] => .isFalse id
  | _ :: cs => @instDecidableAnd _ _ inferInstance (List.decidableBAll _ cs)

instance : DecidablePred IsAttributeName
  | [] => .isFalse id
  | _ :: cs => @instDecidableAnd _ _ inferInstance (List.decidableBAll _ cs)

structure Attr.WellFormed (a : Attr) : Prop where
  name : IsAttributeName a.name
  value : ∀ value ∈ a.value, '"' ∉ value

structure Tag.WellFormed (t : Tag) : Prop where
  name : IsTagName t.name
  attributes : ∀ a ∈ t.attributes, a.WellFormed

instance (a : Attr) : Decidable a.WellFormed :=
  decidable_of_iff (IsAttributeName a.name ∧ ∀ value ∈ a.value, '"' ∉ value)
    ⟨fun h => ⟨h.1, h.2⟩, fun h => ⟨h.name, h.value⟩⟩

instance (t : Tag) : Decidable t.WellFormed :=
  decidable_of_iff (IsTagName t.name ∧ ∀ a ∈ t.attributes, a.WellFormed)
    ⟨fun h => ⟨h.1, h.2⟩, fun h => ⟨h.name, h.attributes⟩⟩

def Tag.IsVoid (t : Tag) : Prop :=
  String.ofList t.name ∈ TagName.voidElements

def Tag.IsRaw (t : Tag) : Prop :=
  t.name = TagName.script ∨ t.name = TagName.style

instance (t : Tag) : Decidable t.IsVoid :=
  inferInstanceAs (Decidable (_ ∈ _))

instance (t : Tag) : Decidable t.IsRaw :=
  inferInstanceAs (Decidable (_ ∨ _))

def Item.isRun : Item → Bool
  | .run _ => true
  | _ => false

mutual
def Item.WellFormed : Item → Prop
  | .run text => text.any (!isWhiteSpace ·) ∧ '<' ∉ text
  | .comment body => ¬ ['-', '-', '>'] <:+: body
  | .selfClosed tag => tag.WellFormed
  | .void tag => tag.WellFormed ∧ tag.IsVoid
  | .raw tag body => tag.WellFormed ∧ tag.IsRaw ∧ ¬ '<' :: '/' :: tag.name <:+: body.fold
  | .nested tag body => tag.WellFormed ∧ ¬ tag.IsVoid ∧ ¬ tag.IsRaw ∧ WellFormed body
/-- Every item is well-formed, and no two runs are adjacent. -/
def WellFormed : List Item → Prop
  | [] => True
  | item :: rest =>
    item.WellFormed ∧ (item.isRun → ∀ next ∈ rest.head?, ¬ next.isRun) ∧ WellFormed rest
end

mutual
def Item.decideWellFormed : (item : Item) → Decidable item.WellFormed
  | .run _ => inferInstanceAs (Decidable (_ ∧ _))
  | .comment _ => inferInstanceAs (Decidable (¬ _))
  | .selfClosed tag => inferInstanceAs (Decidable tag.WellFormed)
  | .void _ => inferInstanceAs (Decidable (_ ∧ _))
  | .raw _ _ => inferInstanceAs (Decidable (_ ∧ _))
  | .nested _ body =>
    have := decideWellFormed body
    inferInstanceAs (Decidable (_ ∧ _ ∧ _ ∧ WellFormed body))
def decideWellFormed : (items : List Item) → Decidable (WellFormed items)
  | [] => .isTrue trivial
  | item :: rest =>
    have := item.decideWellFormed
    have := decideWellFormed rest
    inferInstanceAs (Decidable (item.WellFormed ∧ _ ∧ WellFormed rest))
end

instance : DecidablePred WellFormed :=
  decideWellFormed

-- ---------------------------------------------------------------------------
-- The tree of elements
-- ---------------------------------------------------------------------------

def placeAttrs (offset : Nat) : List Attr → List Attribute
  | [] => []
  | a :: rest =>
    { name := String.ofList a.name, offset := offset + 1, value := a.value.map String.ofList } ::
      placeAttrs (offset + Text.size a.render) rest

def Item.runs : Item → List String
  | .run text => [String.ofList text.trim]
  | _ => []

def runs (items : List Item) : List String :=
  items.flatMap Item.runs

/-- A script has no text, and a style sheet none if it is blank. -/
def rawRuns (tag : Tag) (body : Text) : List String :=
  if tag.name = TagName.style ∧ body.trim ≠ [] then [String.ofList body.trim] else []

def Tag.element (t : Tag) (number offset size : Nat) : Element where
  id := number
  tag := some (String.ofList t.name)
  start := offset
  stop := offset + size
  closed := true
  attributes := placeAttrs (offset + 1 + Text.size t.name) t.attributes

def Tag.enclosing (t : Tag) (number offset : Nat) (body : Text) (text : List String)
    (children : List Element) : Element :=
  { t.element number offset (Text.size (t.enclose body)) with
    endTagStart := some (offset + Text.size t.render + 1 + Text.size body)
    text
    children }

mutual
def Item.count : Item → Nat
  | .run _ | .comment _ => 0
  | .selfClosed _ | .void _ | .raw .. => 1
  | .nested _ body => 1 + count body
def count : List Item → Nat
  | [] => 0
  | item :: rest => item.count + count rest
end

mutual
/-- The elements of an item that is written at an offset, the first of which has the number. -/
def Item.elements (number offset : Nat) : Item → List Element
  | .run _ | .comment _ => []
  | .selfClosed tag => [tag.element number offset (Text.size (tag.render ++ ['/', '>']))]
  | .void tag => [tag.element number offset (Text.size (tag.render ++ ['>']))]
  | .raw tag body => [tag.enclosing number offset body (rawRuns tag body) []]
  | .nested tag body =>
    [tag.enclosing number offset (render body) (runs body)
      (elements (number + 1) (offset + Text.size tag.render + 1) body)]
def elements (number offset : Nat) : List Item → List Element
  | [] => []
  | item :: rest =>
    item.elements number offset ++
      elements (number + item.count) (offset + Text.size item.render) rest
end

/-- The tree under a root that spans the written text. -/
def outline (items : List Item) : Element where
  id := 0
  start := 0
  stop := Text.size (render items)
  text := runs items
  children := elements 1 0 items

end PageMarkup.Markup
