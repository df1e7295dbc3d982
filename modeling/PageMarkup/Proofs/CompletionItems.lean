import PageMarkup.Completion.Suggest

/-!
# What is offered at each site

One lemma for each function that makes items, which says what the items are once it has an answer.
`Completion.Offers` sums them up: it lists what an item can be at each site. Proofs about completion
go through these and do not open the functions.
-/

namespace PageMarkup

theorem bind_eq_ok {x : Except ε α} {f : α → Except ε β} :
    x >>= f = .ok b ↔ ∃ a, x = .ok a ∧ f a = .ok b := by
  cases x <;> simp [bind, Except.bind]

theorem pure_eq_ok {a b : α} : (pure a : Except ε α) = .ok b ↔ a = b := by
  simp [pure, Except.pure]

theorem offer_sublist (events : Bool) (present : List String) (rules : List AttributeRule) :
    (offer events present rules).Sublist rules := by
  induction rules generalizing present with
  | nil => exact .slnil
  | cons rule rest ih =>
    simp only [offer]
    split
    · exact (ih _).cons rule
    · split
      · split
        · exact (ih _).cons rule
        · exact (ih _).cons_cons rule
      · exact (ih _).cons_cons rule

namespace Completion

variable {c : Completion} {start stop : Nat} {items : List CompletionItem}

def startTag (c : Completion) (start stop : Nat) (component : Component) : CompletionItem :=
  { label := component.name, kind := .tag, note := some (.markdown component.markdown),
    edit := c.edit start stop component.name }

theorem openingTags_eq_map (c : Completion) (start stop : Nat) :
    c.openingTags start stop = c.schema.components.map (c.startTag start stop) :=
  rfl

def endTag (c : Completion) (start stop : Nat) (close : String) (component : Component) :
    CompletionItem :=
  { label := "/" ++ component.name, kind := .tag, note := some (.markdown component.markdown),
    filter := some ("/" ++ component.name ++ close),
    edit := c.edit start stop ("/" ++ component.name ++ close) }

@[simp]
theorem closing_label (e : Element) (tag : String) (start stop : Nat) (close : String) :
    (c.closing e tag start stop close).label = "/" ++ tag := by
  simp only [closing]
  repeat' split
  all_goals rfl

@[simp]
theorem closing_kind (e : Element) (tag : String) (start stop : Nat) (close : String) :
    (c.closing e tag start stop close).kind = .tag := by
  simp only [closing]
  repeat' split
  all_goals rfl

/-- An end tag is written where the cursor is, or together with the indent of its line. -/
theorem closing_edit (e : Element) (tag : String) (start stop : Nat) (close : String) :
    (c.closing e tag start stop close).edit = c.edit start stop ("/" ++ tag ++ close) ∨
      ∃ wanted written, lineIndent? c.text e.start = some wanted ∧
        lineIndent? c.text (start - 1) = some written ∧
        (c.closing e tag start stop close).edit = c.edit (start - 1 - Text.size written) c.cursor
          (String.ofList wanted ++ "</" ++ tag ++ close) := by
  simp only [closing]
  split
  · next wanted written hwanted hwritten =>
    split
    · exact .inl rfl
    · exact .inr ⟨wanted, written, hwanted, hwritten, rfl⟩
  · exact .inl rfl

/-- What has to follow the name of an end tag that is written up to `stop`: the bracket, if it is not
there yet. -/
def Closer (c : Completion) (stop : Nat) (close : String) : Prop :=
  ∃ followed, isFollowedBy c.text stop .endTag .endTagClose = .ok followed ∧
    close = if followed then "" else ">"

theorem closingTag?_cases (h : c.closingTag? es start stop = .ok found) :
    found = none ∨ ∃ e ∈ es, ∃ tag close, e.tag = some tag ∧ c.waits e = true ∧ c.Closer stop close ∧
      found = some (c.closing e tag start stop close) := by
  simp only [closingTag?, bind_eq_ok, pure_eq_ok] at h
  obtain ⟨followed, hfollowed, rfl⟩ := h
  cases hwaits : es.find? c.waits with
  | none => exact .inl rfl
  | some e =>
    cases htag : e.tag with
    | none => simp [htag]
    | some tag =>
      refine .inr ⟨e, List.mem_of_find?_eq_some hwaits, tag, if followed then "" else ">", htag,
        List.find?_some hwaits, ⟨followed, hfollowed, rfl⟩, ?_⟩
      simp [htag]

theorem of_closingTag? (h : c.closingTag? es start stop = .ok found) :
    found = none ∨ ∃ e ∈ es, ∃ tag close, e.tag = some tag ∧ c.waits e = true ∧
      found = some (c.closing e tag start stop close) := by
  refine (closingTag?_cases h).imp_right ?_
  rintro ⟨e, he, tag, close, htag, hwaits, -, hfound⟩
  exact ⟨e, he, tag, close, htag, hwaits, hfound⟩

theorem anyClosingTag_eq (h : c.anyClosingTag start stop = .ok items) :
    ∃ close, c.Closer stop close ∧ items = c.schema.components.map (c.endTag start stop close) := by
  simp only [anyClosingTag, bind_eq_ok, pure_eq_ok] at h
  obtain ⟨followed, hfollowed, rfl⟩ := h
  exact ⟨_, ⟨followed, hfollowed, rfl⟩, rfl⟩

theorem of_anyClosingTag (h : c.anyClosingTag start stop = .ok items) :
    ∃ close, items = c.schema.components.map (c.endTag start stop close) := by
  obtain ⟨close, -, hitems⟩ := anyClosingTag_eq h
  exact ⟨close, hitems⟩

theorem of_closingTags (h : c.closingTags start stop = .ok items) :
    (∃ e ∈ c.element :: c.above, ∃ tag close, e.tag = some tag ∧ c.waits e = true ∧
      items = [c.closing e tag start stop close]) ∨
    ∃ close, items = c.schema.components.map (c.endTag start stop close) := by
  simp only [closingTags, bind_eq_ok] at h
  obtain ⟨found, hfound, h⟩ := h
  rcases of_closingTag? hfound with rfl | ⟨e, he, tag, close, htag, hwaits, rfl⟩
  · exact .inr (of_anyClosingTag h)
  · simp only [pure_eq_ok] at h
    exact .inl ⟨e, he, tag, close, htag, hwaits, h.symm⟩

theorem of_tags (h : c.tags start stop = .ok items) :
    items = c.openingTags start stop ∨
      ∃ e ∈ c.above, ∃ tag close, e.tag = some tag ∧ c.waits e = true ∧
        items = c.openingTags start stop ++ [c.closing e tag start stop close] := by
  simp only [tags, bind_eq_ok, pure_eq_ok] at h
  obtain ⟨found, hfound, rfl⟩ := h
  rcases of_closingTag? hfound with rfl | ⟨e, he, tag, close, htag, hwaits, rfl⟩
  · exact .inl (by simp)
  · exact .inr ⟨e, he, tag, close, htag, hwaits, by simp⟩

theorem of_attributeNames (h : c.attributeNames tag start stop = .ok items) :
    ∃ withValue, items = (offer c.options.events
      ((c.element.attributes.filter (·.offset ≠ start)).map Attribute.name)
      (c.schema.accepted tag (c.schema.mode? c.element tag))).map
        (attributeName (c.edit start (c.text.runStop (· ≠ '<') c.cursor stop)) tag withValue) := by
  simp only [attributeNames, bind_eq_ok, pure_eq_ok] at h
  obtain ⟨withValue, -, rfl⟩ := h
  exact ⟨withValue, rfl⟩

def wholeEndTag (c : Completion) (offset : Nat) (tag : String) : CompletionItem :=
  let close := "</" ++ tag ++ ">"
  { label := close, kind := .tag, filter := some close, snippet := c.options.snippets
    edit := ⟨offset, offset, if c.options.snippets then "$0" ++ close else close⟩ }

theorem closeElement_eq (c : Completion) (offset : Nat) (tag : String) :
    c.closeElement offset tag = if TagName.isVoid tag then [] else [c.wholeEndTag offset tag] :=
  rfl

def value (c : Completion) (start stop : Nat) (choice : Choice) : CompletionItem :=
  let edit := c.valueEdit start stop choice.value
  { label := choice.value, kind := .value, note := choice.desc.map .plain,
    filter := some edit.text, edit }

theorem attributeValues_eq_map (c : Completion) (tag name : String) (start stop : Nat) :
    c.attributeValues tag name start stop =
      (distinctBy Choice.value (c.schema.choices tag name (c.schema.mode? c.element tag))).map
        (c.value start stop) :=
  rfl

def reference (c : Completion) (start : Nat) (e : Entity) : CompletionItem :=
  { label := "&" ++ e.name, kind := .entity,
    note := some (.plain s!"Character entity representing '{e.replacement}'"),
    edit := c.edit start c.cursor ("&" ++ e.name) }

theorem entities_cases (c : Completion) :
    c.entities = [] ∨ ∃ start, c.entities = Entity.current.map (c.reference start) := by
  generalize h : c.entities = offered
  simp only [entities] at h
  split at h
  · split at h
    · exact .inr ⟨_, h.symm⟩
    · exact .inl h.symm
  · exact .inl h.symm

end Completion

-- ---------------------------------------------------------------------------
-- All sites together
-- ---------------------------------------------------------------------------

namespace Completion

/-- What an item at a site can be. -/
inductive Offers (c : Completion) : CompletionSite → CompletionItem → Prop
  | firstTag (h : component ∈ c.schema.components) :
    Offers c (.afterBracket start stop) (c.startTag start stop component)
  | outerEndTag (he : e ∈ c.above) (htag : e.tag = some tag) (hwaits : c.waits e = true)
      (close : String) : Offers c (.afterBracket start stop) (c.closing e tag start stop close)
  | startTag (h : component ∈ c.schema.components) :
    Offers c (.tagName start stop) (c.startTag start stop component)
  | openEndTag (he : e ∈ c.element :: c.above) (htag : e.tag = some tag) (hwaits : c.waits e = true)
      (close : String) : Offers c (.endTag start stop) (c.closing e tag start stop close)
  | endTag (h : component ∈ c.schema.components) (close : String) :
    Offers c (.endTag start stop) (c.endTag start stop close component)
  | wholeEndTag (h : TagName.isVoid (String.ofList tag) = false) :
    Offers c (.afterStartTag offset tag) (c.wholeEndTag offset (String.ofList tag))
  | attributeName (h : rule ∈ offer c.options.events
      ((c.element.attributes.filter (·.offset ≠ start)).map Attribute.name)
      (c.schema.accepted (String.ofList tag).toLower
        (c.schema.mode? c.element (String.ofList tag).toLower))) (withValue : Bool) :
    Offers c (.attributeName tag start stop)
      (attributeName (c.edit start (c.text.runStop (· ≠ '<') c.cursor stop))
        (String.ofList tag).toLower withValue rule)
  | value (h : choice ∈ c.schema.choices (String.ofList tag).toLower (String.ofList name).toLower
      (c.schema.mode? c.element (String.ofList tag).toLower)) :
    Offers c (.attributeValue tag name start stop) (c.value start stop choice)
  | reference (h : entity ∈ Entity.current) (start : Nat) : Offers c .content (c.reference start entity)

theorem offers_of_mem {c : Completion} {offered : List CompletionItem} (h : c.items site = .ok offered)
    (hitem : item ∈ offered) : c.Offers site item := by
  cases site with
  | nothing =>
    cases pure_eq_ok.mp h
    cases hitem
  | afterBracket start stop =>
    rcases of_tags h with rfl | ⟨e, he, tag, close, htag, hwaits, rfl⟩
    · obtain ⟨component, hcomponent, rfl⟩ := List.mem_map.mp hitem
      exact .firstTag hcomponent
    · rcases List.mem_append.mp hitem with hitem | hitem
      · obtain ⟨component, hcomponent, rfl⟩ := List.mem_map.mp hitem
        exact .firstTag hcomponent
      · rw [List.mem_singleton.mp hitem]
        exact .outerEndTag he htag hwaits close
  | tagName start stop =>
    cases pure_eq_ok.mp h
    obtain ⟨component, hcomponent, rfl⟩ := List.mem_map.mp hitem
    exact .startTag hcomponent
  | endTag slash stop =>
    rcases of_closingTags h with ⟨e, he, tag, close, htag, hwaits, rfl⟩ | ⟨close, rfl⟩
    · rw [List.mem_singleton.mp hitem]
      exact .openEndTag he htag hwaits close
    · obtain ⟨component, hcomponent, rfl⟩ := List.mem_map.mp hitem
      exact .endTag hcomponent close
  | afterStartTag offset tag =>
    cases pure_eq_ok.mp h
    rw [closeElement_eq] at hitem
    split at hitem
    · cases hitem
    · next hvoid =>
      rw [List.mem_singleton.mp hitem]
      exact .wholeEndTag (Bool.eq_false_iff.mpr hvoid)
  | attributeName tag start stop =>
    obtain ⟨withValue, rfl⟩ := of_attributeNames h
    obtain ⟨rule, hrule, rfl⟩ := List.mem_map.mp hitem
    exact .attributeName hrule withValue
  | attributeValue tag name start stop =>
    cases pure_eq_ok.mp h
    obtain ⟨choice, hchoice, rfl⟩ := List.mem_map.mp hitem
    exact .value ((distinctBy_sublist _ _).subset hchoice)
  | content =>
    cases pure_eq_ok.mp h
    rcases c.entities_cases with hnone | ⟨start, hsome⟩
    · rw [hnone] at hitem
      cases hitem
    · rw [hsome] at hitem
      obtain ⟨entity, hentity, rfl⟩ := List.mem_map.mp hitem
      exact .reference hentity start

end Completion

theorem Document.of_completions {d : Document} (h : d.completions s options cursor = .ok items) :
    d.chainBefore cursor = .ok [] ∧ items = [] ∨
      ∃ e above ts, d.chainBefore cursor = .ok (e :: above) ∧
        scanFrom d.text e.start .content = .ok ts ∧
        Completion.items ⟨d, s, options, cursor, e, above⟩
          (CompletionSite.ofTokens d.text cursor [] [] ts) = .ok items := by
  simp only [completions, bind_eq_ok] at h
  obtain ⟨chain, hchain, h⟩ := h
  cases chain with
  | nil => exact .inl ⟨hchain, (pure_eq_ok.mp h).symm⟩
  | cons e above =>
    obtain ⟨ts, hscan, h⟩ := bind_eq_ok.mp h
    exact .inr ⟨e, above, ts, hchain, hscan, h⟩

end PageMarkup
