import PageMarkup.Proofs.AttributeChecks
import PageMarkup.Proofs.CompletionItems
import PageMarkup.Proofs.DecidingToken

/-!
# What is offered is accepted

Completion and checking ask a schema in different ways. Completion takes the list of all accepted
attributes, and values from what the component declares before anything else; checking looks up the
one declaration that counts. `offers_accepted` says that both agree, in any schema: an attribute that
is offered is known to the check, and a value that is offered passes it, even if the value is that of
the selector and puts the element into another mode.
-/

namespace PageMarkup

theorem find?_eq_some_of_nodup [DecidableEq κ] (key : α → κ) {items : List α}
    (h : (items.map key).Nodup) (ha : a ∈ items) : items.find? (key · = key a) = some a := by
  induction items with
  | nil => cases ha
  | cons b rest ih =>
    obtain ⟨hb, hrest⟩ := List.nodup_cons.mp h
    rcases List.mem_cons.mp ha with rfl | ha
    · simp
    · have hne : key b ≠ key a := fun heq => hb (heq ▸ List.mem_map_of_mem ha)
      rw [List.find?_cons_of_neg (by simpa using hne)]
      exact ih hrest ha

-- ---------------------------------------------------------------------------
-- The declaration that counts
-- ---------------------------------------------------------------------------

namespace Schema

variable {s : Schema} {tag name : String} {mode : Option String} {component : Component}

theorem rule?_of_mem_accepted (h : rule ∈ s.accepted tag mode) :
    s.rule? tag rule.name mode = some rule := by
  rw [← find?_accepted]
  exact find?_eq_some_of_nodup AttributeRule.name (nodup_map_distinctBy _ _) h

theorem exists_rule_of_mem_choices (h : choice ∈ s.choices tag name mode) :
    ∃ rule, s.rule? tag name mode = some rule ∧ choice ∈ rule.kind.choices := by
  rw [choices] at h
  split at h
  · split at h
    · cases h
    · next rule hrule => exact ⟨rule, hrule, h⟩
  · rw [declaredChoices] at h
    split at h
    · cases h
    · next rule hrule => exact ⟨rule, by rw [rule?, rules, List.find?_append, hrule]; rfl, h⟩

theorem declared_eq_append (known : s.component? tag = some component) (mode : Option String) :
    ∃ more, s.declared tag mode = component.attributes ++ more := by
  rw [declared, known]
  cases mode with
  | none => exact ⟨[], (List.append_nil _).symm⟩
  | some mode => exact ⟨component.attributesIn mode, rfl⟩

theorem rule?_of_attributes (known : s.component? tag = some component)
    (h : component.attributes.find? (·.name = name) = some rule) (mode : Option String) :
    s.rule? tag name mode = some rule := by
  obtain ⟨more, hdeclared⟩ := declared_eq_append known mode
  rw [rule?, rules, hdeclared, List.append_assoc, List.find?_append, h]
  rfl

/-- The selector means the same in all modes. -/
theorem rule?_selector (known : s.component? tag = some component)
    (h : component.selector? = some selector) (mode mode' : Option String) :
    s.rule? tag selector.name mode = s.rule? tag selector.name mode' := by
  have hfound : (component.attributes.find? (·.name = selector.name)).isSome = true :=
    List.find?_isSome.mpr ⟨selector, List.mem_of_find?_eq_some h, by simp⟩
  obtain ⟨rule, hrule⟩ := Option.isSome_iff_exists.mp hfound
  rw [rule?_of_attributes known hrule mode, rule?_of_attributes known hrule mode']

theorem name_of_component? (known : s.component? tag = some component) : component.name = tag := by
  simpa using List.find?_some known

theorem mode?_eq (known : s.component? tag = some component) (e : Element) :
    s.mode? e tag = e.mode? component := by
  rw [mode?, known]
  rfl

end Schema

/-- The element with a new value for one of its attributes. -/
def Element.fill (e : Element) (i : Nat) (value : String) : Element :=
  { e with attributes := e.attributes.modify i fun a => { a with value := some value } }

theorem Element.exists_fill {e : Element} (h : e.attributes[i]? = some a) (value : String) :
    ∃ front back, e.attributes = front ++ a :: back ∧ e.attributes.eraseIdx i = front ++ back ∧
      (e.fill i value).attributes = front ++ { a with value := some value } :: back := by
  obtain ⟨hi, rfl⟩ := List.getElem?_eq_some_iff.mp h
  exact ⟨e.attributes.take i, e.attributes.drop (i + 1), by simp, List.eraseIdx_eq_take_drop_succ _ _,
    List.modify_eq_take_cons_drop hi⟩

/-- A new value does not change which declaration counts for the attribute. It may put the element
into another mode, but then the attribute is the selector. -/
theorem Schema.rule?_fill {s : Schema} {e : Element} {component : Component}
    (known : s.component? tag = some component) (h : e.attributes[i]? = some a) (value : String) :
    s.rule? tag a.name ((e.fill i value).mode? component) =
      s.rule? tag a.name (e.mode? component) := by
  cases hselector : component.selector? with
  | none => simp [Element.mode?, hselector]
  | some selector =>
    by_cases hname : a.name = selector.name
    · rw [hname]
      exact rule?_selector known hselector _ _
    · obtain ⟨front, back, he, -, hfill⟩ := Element.exists_fill h value
      simp [Element.mode?, hselector, Element.attributeValue?, Element.attribute?, he, hfill,
        List.find?_append, List.find?_cons, hname]

-- ---------------------------------------------------------------------------
-- Offers
-- ---------------------------------------------------------------------------

namespace Completion

variable {c : Completion} {site : CompletionSite} {offered : List CompletionItem} {item : CompletionItem}

theorem of_items_attributeName (h : c.items site = .ok offered) (hitem : item ∈ offered)
    (hkind : item.kind = .attributeName) :
    ∃ tag start stop, site = .attributeName tag start stop ∧
      ∃ rule ∈ c.schema.accepted (String.ofList tag).toLower
        (c.schema.mode? c.element (String.ofList tag).toLower), item.label = rule.name := by
  cases offers_of_mem h hitem with
  | attributeName hrule => exact ⟨_, _, _, rfl, _, (offer_sublist _ _ _).subset hrule, rfl⟩
  | outerEndTag | openEndTag => simp at hkind
  | _ => cases hkind

theorem of_items_value (h : c.items site = .ok offered) (hitem : item ∈ offered)
    (hkind : item.kind = .value) :
    ∃ tag name start stop, site = .attributeValue tag name start stop ∧
      ∃ choice ∈ c.schema.choices (String.ofList tag).toLower (String.ofList name).toLower
        (c.schema.mode? c.element (String.ofList tag).toLower), item.label = choice.value := by
  cases offers_of_mem h hitem with
  | value hchoice => exact ⟨_, _, _, _, rfl, _, hchoice, rfl⟩
  | outerEndTag | openEndTag => simp at hkind
  | _ => cases hkind

end Completion

/-- The cursor is at an element of a known component whose name is in lower case. Completion answers;
every attribute that it offers is known to the check; and if it offers a value, the cursor is at
an attribute of the element, and whatever attribute of this name is given the value, the check then
finds fault with other attributes only. -/
theorem offers_accepted {text : Text} {s : Schema} {e : Element} {component : Component}
    (found : (Document.parse text).chainBefore cursor = .ok (e :: above)) (tagged : e.tag = some tag)
    (lower : tag.toLower = tag) (known : s.component? tag = some component)
    (options : CompletionOptions) :
    ∃ items, (Document.parse text).completions s options cursor = .ok items ∧
      (∀ item ∈ items, item.kind = .attributeName →
        (∃ rule, s.rule? tag item.label (e.mode? component) = some rule) ∧
        ∀ a : Attribute, a.name = item.label → ∀ x ∈ a.check s tag (e.mode? component),
          x.defect ≠ .unknownAttribute a.name) ∧
      ∀ item ∈ items, item.kind = .value →
        ∃ name, (e.attributes.filter (·.offset < cursor)).getLast?.map Attribute.name = some name ∧
          (name.toLower = name → name ≠ "wx:else" → item.label ≠ "" →
            ∀ i a, e.attributes[i]? = some a → a.name = name →
              (e.fill i item.label).checkAttributes s tag =
                (e.attributes.eraseIdx i).flatMap
                  (·.check s tag ((e.fill i item.label).mode? component))) := by
  obtain ⟨items, hitems⟩ := completions_ok (le_size_of_chainBefore found) s options
  rcases Document.of_completions hitems with ⟨hnone, -⟩ | ⟨e', above', ts, hfound, hscan, hoffered⟩
  · cases found.symm.trans hnone
  obtain ⟨rfl, rfl⟩ := List.cons.inj (Except.ok.inj (found.symm.trans hfound))
  have hbelongs := site_belongsTo_found found hscan
  have htag {w : Text} (h : e.tag.getD "" = String.ofList w) : (String.ofList w).toLower = tag := by
    rw [← h, tagged, Option.getD_some, lower]
  have hmode := Schema.mode?_eq known e
  refine ⟨items, hitems, ?_, ?_⟩
  · intro item hitem hkind
    obtain ⟨w, start, stop, hsite, rule, hrule, hlabel⟩ :=
      Completion.of_items_attributeName hoffered hitem hkind
    rw [show (Document.parse text).text = text from rfl] at hsite
    rw [hsite] at hbelongs
    simp only [htag hbelongs, hmode] at hrule
    have hfound := Schema.rule?_of_mem_accepted hrule
    rw [← hlabel] at hfound
    refine ⟨⟨rule, hfound⟩, ?_⟩
    intro a ha x hx
    exact Attribute.check_ne_unknown (ha ▸ hfound) hx a.name
  · intro item hitem hkind
    obtain ⟨w, v, start, stop, hsite, choice, hchoice, hlabel⟩ :=
      Completion.of_items_value hoffered hitem hkind
    rw [show (Document.parse text).text = text from rfl] at hsite
    rw [hsite] at hbelongs
    obtain ⟨hw, hlast⟩ := hbelongs
    refine ⟨String.ofList v, hlast, ?_⟩
    intro hlower helse hne i a ha hname
    simp only [htag hw, hmode, hlower] at hchoice
    obtain ⟨rule, hrule, hmem⟩ := Schema.exists_rule_of_mem_choices hchoice
    rw [← hname, ← Schema.rule?_fill known ha item.label] at hrule
    have hclean : ({ a with value := some item.label } : Attribute).check s tag
        ((e.fill i item.label).mode? component) = [] :=
      Attribute.check_of_choice hrule (hname ▸ helse) hmem (hlabel ▸ hne) (by rw [hlabel])
    obtain ⟨front, back, -, herase, hfill⟩ := Element.exists_fill ha item.label
    simp [Element.checkAttributes, known, Schema.name_of_component? known, herase, hfill, hclean]

/-- A component with two modes, one of which brings an attribute along. -/
def modalComponent : Component where
  name := "p"
  attributes := [
    { name := "mode", kind := .enum [{ value := "plain" }, { value := "region" }]
      modes := [("region", [{ name := "item", kind := .string }])] }]

def modalPage : Text :=
  "<p mode=\"plain\" x>".toList

theorem offers_accepted_modalPage :
    ∃ e above items item, (Document.parse modalPage).chainBefore 10 = .ok (e :: above) ∧
      e.tag = some "p" ∧ "p".toLower = "p" ∧
      Schema.component? ⟨[modalComponent]⟩ "p" = some modalComponent ∧
      (Document.parse modalPage).completions ⟨[modalComponent]⟩ {} 10 = .ok items ∧
      item ∈ items ∧ item.kind = .value ∧ item.label = "region" ∧
      e.mode? modalComponent = some "plain" ∧
      (e.fill 0 "region").mode? modalComponent = some "region" ∧
      (e.fill 0 "region").checkAttributes ⟨[modalComponent]⟩ "p" =
        (e.attributes.eraseIdx 0).flatMap (·.check ⟨[modalComponent]⟩ "p" (some "region")) := by
  have hfirst : (Element.chainBeforeAll 10 [] (Document.parse modalPage).roots).head?.map
      (fun e => (e.tag, e.attributes)) = some (some "p", [⟨"mode", 3, some "plain"⟩, ⟨"x", 16, none⟩]) := by
    decide +kernel
  have hchain : (Document.parse modalPage).chainBefore 10 =
      .ok (Element.chainBeforeAll 10 [] (Document.parse modalPage).roots) := parse_chainBefore (by decide)
  cases hfound : Element.chainBeforeAll 10 [] (Document.parse modalPage).roots with
  | nil => rw [hfound] at hfirst; cases hfirst
  | cons e above =>
    rw [hfound] at hfirst hchain
    obtain ⟨htag, hattributes⟩ : e.tag = some "p" ∧
        e.attributes = [⟨"mode", 3, some "plain"⟩, ⟨"x", 16, none⟩] := by simpa using hfirst
    have hlower : "p".toLower = "p" := by decide +kernel
    have hknown : Schema.component? ⟨[modalComponent]⟩ "p" = some modalComponent := rfl
    obtain ⟨items, hitems, -, hvalues⟩ := offers_accepted hchain htag hlower hknown {}
    have hany : ((Document.parse modalPage).completions ⟨[modalComponent]⟩ {} 10).toOption.any
        (·.any fun item => item.kind = .value && item.label = "region") = true := by decide +kernel
    rw [hitems] at hany
    obtain ⟨item, hitem, hregion⟩ := List.any_eq_true.mp hany
    obtain ⟨hkind, hlabel⟩ : item.kind = .value ∧ item.label = "region" := by simpa using hregion
    obtain ⟨name, hname, hclean⟩ := hvalues item hitem hkind
    replace hname : "mode" = name := by
      rw [hattributes] at hname
      exact Option.some.inj hname
    have hmode : (e.fill 0 "region").mode? modalComponent = some "region" := by
      simp [Element.mode?, Element.fill, Element.attributeValue?, Element.attribute?, hattributes,
        modalComponent, Component.selector?]
    refine ⟨e, above, items, item, hchain, htag, hlower, hknown, hitems, hitem, hkind, hlabel, ?_,
      hmode, ?_⟩
    · simp [Element.mode?, Element.attributeValue?, Element.attribute?, hattributes, modalComponent,
        Component.selector?]
    · subst hname
      rw [hlabel] at hclean
      have hfirst : e.attributes[0]? = some ⟨"mode", 3, some "plain"⟩ := by rw [hattributes]; rfl
      rw [hclean (by decide +kernel) (by decide) (by decide) 0 _ hfirst rfl, hmode]

end PageMarkup
