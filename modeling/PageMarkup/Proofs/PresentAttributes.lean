import PageMarkup.Proofs.Offers
import PageMarkup.Proofs.ValueEdits
import PageMarkup.Proofs.WrittenAttributes

/-!
# Attributes that an element has already

The attribute that is being written does not keep its name from being offered. Completion knows it by
its offset, which is compared with where the name to be completed begins; in blanks that is the end of
the blanks. So an attribute right after the blanks counts as being written, also for a cursor that does
not touch it, and is offered again. `offers_present_iff` says that no other attribute is.
-/

namespace PageMarkup

open ScanState (Reads)

def Attribute.Touches (cursor : Nat) (a : Attribute) : Prop :=
  a.offset ≤ cursor ∧ cursor ≤ a.stop

instance (cursor : Nat) (a : Attribute) : Decidable (a.Touches cursor) :=
  inferInstanceAs (Decidable (_ ∧ _))

/-- The attribute comes right after blanks that go on behind the cursor. -/
def Attribute.FollowsBlanks (text : Text) (cursor : Nat) (a : Attribute) : Prop :=
  ∃ t ∈ tokens text, t.kind = .blank ∧ t.offset < cursor ∧ cursor < t.stop ∧ t.stop = a.offset

instance (text : Text) (cursor : Nat) (a : Attribute) : Decidable (a.FollowsBlanks text cursor) :=
  inferInstanceAs (Decidable (∃ t ∈ tokens text, _))

/-- The names of the attributes that the element does not have, where one that begins at the offset
does not count. -/
def Element.missing (s : Schema) (options : CompletionOptions) (offset : Nat) (e : Element) : List String :=
  let tag := (e.tag.getD "").toLower
  (offer options.events ((e.attributes.filter (·.offset ≠ offset)).map Attribute.name)
    (s.accepted tag (s.mode? e tag))).map AttributeRule.name

theorem name_notMem_of_mem_offer {rules : List AttributeRule} (h : rule ∈ offer events present rules) :
    rule.name ∉ present := by
  induction rules generalizing present with
  | nil => cases h
  | cons first rest ih =>
    simp only [offer] at h
    split at h
    · exact ih h
    · next hnew =>
      have hfirst : first.name ∉ present := by simpa using hnew
      split at h
      · split at h
        · exact fun hmem => ih h (List.mem_cons_of_mem _ hmem)
        · rcases List.mem_cons.mp h with rfl | h
          · exact hfirst
          · exact fun hmem => ih h (List.mem_cons_of_mem _ (List.mem_cons_of_mem _ hmem))
      · rcases List.mem_cons.mp h with rfl | h
        · exact hfirst
        · exact fun hmem => ih h (List.mem_cons_of_mem _ hmem)

theorem Element.not_mem_missing {e : Element} (ha : a ∈ e.attributes) (hoffset : a.offset ≠ offset) :
    a.name ∉ e.missing s options offset := by
  intro hmem
  obtain ⟨rule, hrule, hname⟩ := List.mem_map.mp hmem
  refine name_notMem_of_mem_offer hrule ?_
  rw [hname]
  exact List.mem_map_of_mem (List.mem_filter.mpr ⟨ha, by simpa using hoffset⟩)

-- ---------------------------------------------------------------------------
-- Names at the cursor
-- ---------------------------------------------------------------------------

theorem exists_name_token (he : e ∈ (Document.parse text).elements) (ha : a ∈ e.attributes) :
    ∃ before p rest, tokens text = before ++ p :: rest ∧ p.kind = .attributeName ∧
      p.offset = a.offset ∧ p.stop = a.stop := by
  obtain ⟨before, p, rest, htokens, hkind, rfl⟩ := exists_token_of_mem_attributes he ha
  refine ⟨before, p, rest, htokens, hkind, rfl, ?_⟩
  rw [Attribute.stop, String.toList_ofList]
  rfl

namespace CompletionSite

/-- A name is completed as a whole. In blanks, a name is added at the cursor, but is said to begin where
the blanks end. -/
theorem of_attributeName (h : ofToken? text cursor tag name t back = some (.attributeName w start stop))
    (hreads : Reads state t.kind t.state) :
    t.kind = .attributeName ∧ start = t.offset ∧ stop = t.stop ∨
      t.kind = .blank ∧ start = t.stop ∧ stop = cursor ∧
        ((∃ context, t.state = .tag context) ∨ ∃ context, t.state = .afterAttributeName context) := by
  have hat : IsAt tag t (.attributeName w start stop) := ofToken?_isAt h hreads
  rw [ofToken?] at h
  rcases hat with hkind | ⟨hkind, hstate⟩
  · rw [hkind] at h
    cases h
    exact .inl ⟨hkind, rfl, rfl⟩
  · simp only [hkind, ofBlank?] at h
    have hsite : attributeName tag t.stop cursor = .attributeName w start stop := by
      rcases hstate with ⟨context, hstate⟩ | ⟨context, hstate⟩
      · simpa only [hstate, Option.some.injEq] using h
      · simpa only [hstate, Option.some.injEq] using h
    cases hsite
    exact .inr ⟨hkind, rfl, rfl, hstate⟩

theorem ofToken?_before_attributeName {before rest : List Placed} (h : tokens text = before ++ t :: p :: rest)
    (hblank : t.kind = .blank) (hp : p.kind = .attributeName) (tag name : Text) :
    ofToken? text cursor tag name t (p :: rest) = some (.attributeName tag t.stop cursor) := by
  have hreads := (reads_next h).1
  rw [hp] at hreads
  rw [ofToken?, hblank]
  simp only [ofBlank?]
  generalize t.state = state at hreads ⊢
  generalize p.state = after at hreads
  cases hreads with
  | tag | valueless => rfl
  | nameless hin | missingValue _ hin =>
    cases hin with
    | attributeName hafter => cases hafter

end CompletionSite

-- ---------------------------------------------------------------------------
-- Attributes that are offered again
-- ---------------------------------------------------------------------------

section
variable {text : Text} {cursor : Nat} {e : Element} {above : List Element} {ts : List Placed} {a : Attribute}
  (hchain : (Document.parse text).chainBefore cursor = .ok (e :: above))
  (hscan : scanFrom text e.start .content = .ok ts) (ha : a ∈ e.attributes)
include hchain hscan ha

/-- If an attribute that the cursor does not touch counts as being written, the cursor is in the blanks
before it. -/
theorem followsBlanks_of_site (hfar : ¬ a.Touches cursor)
    (hsite : CompletionSite.ofTokens text cursor [] [] ts = .attributeName w a.offset stop) :
    a.FollowsBlanks text cursor := by
  obtain ⟨_, p, _, hp, -, hbegins, hends⟩ :=
    exists_name_token (mem_elements_of_chainBefore hchain List.mem_cons_self) ha
  rcases site_cases hchain hscan with
    (hnone | hnone | ⟨slash, hnone⟩) | ⟨before, t, back, tag, name, htokens, hlt, hle, hdecided⟩
  · cases hsite.symm.trans hnone
  · cases hsite.symm.trans hnone
  · cases hsite.symm.trans hnone
  rw [hsite] at hdecided
  rcases CompletionSite.of_attributeName hdecided (reads_of_scan htokens).1 with
    ⟨-, hoffset, -⟩ | ⟨hblank, hoffset, -, -⟩
  · obtain rfl := eq_of_offset_eq htokens (p := p) (by rw [hp]; simp) (hbegins.trans hoffset)
    exact absurd ⟨by omega, by omega⟩ hfar
  · refine ⟨t, by rw [htokens]; simp, hblank, hlt, Nat.lt_of_le_of_ne hle fun heq => hfar ?_, hoffset.symm⟩
    exact ⟨by omega, Nat.le_trans (by omega) (Nat.le_add_right _ _)⟩

theorem site_of_followsBlanks (h : a.FollowsBlanks text cursor) :
    ∃ w stop, CompletionSite.ofTokens text cursor [] [] ts = .attributeName w a.offset stop := by
  obtain ⟨t, ht, hblank, hlt, hend, hstop⟩ := h
  obtain ⟨_, p, _, hp, hkind, hbegins, -⟩ :=
    exists_name_token (mem_elements_of_chainBefore hchain List.mem_cons_self) ha
  obtain ⟨before, back, htokens⟩ := List.append_of_mem ht
  obtain ⟨rest, rfl⟩ :=
    exists_cons_of_offset_eq htokens (show p ∈ tokens text by rw [hp]; simp) (hbegins.trans hstop.symm)
  obtain ⟨_, front, -, -, hsite⟩ := exists_site_onward hchain hscan htokens hlt (Nat.le_of_lt hend)
  refine ⟨lastLexeme .tagName [] front, cursor, ?_⟩
  rw [hsite, ← hstop]
  exact CompletionSite.ofTokens_cons_of_some (Nat.le_of_lt hlt) (Nat.le_of_lt hend)
    (CompletionSite.ofToken?_before_attributeName htokens hblank hkind _ _)

end

theorem Completion.mem_labels_iff {c : Completion} {offered : List CompletionItem}
    (h : c.items (.attributeName w start stop) = .ok offered) (hw : c.element.tag.getD "" = String.ofList w) :
    (∃ item ∈ offered, item.kind = .attributeName ∧ item.label = name) ↔
      name ∈ c.element.missing c.schema c.options start := by
  obtain ⟨withValue, rfl⟩ := of_attributeNames h
  simp only [Element.missing, hw, List.mem_map]
  constructor
  · rintro ⟨_, ⟨rule, hrule, rfl⟩, -, hname⟩
    exact ⟨rule, hrule, hname⟩
  · rintro ⟨rule, hrule, hname⟩
    exact ⟨_, ⟨rule, hrule, rfl⟩, rfl, hname⟩

/-- An attribute that the cursor does not touch is offered again if and only if the cursor is in the
blanks before it and the element could take it: there is no other of its name, nor one that is the same
handler. -/
theorem offers_present_iff {text : Text} {cursor : Nat} {e : Element} {above : List Element}
    (hchain : (Document.parse text).chainBefore cursor = .ok (e :: above)) (s : Schema)
    (options : CompletionOptions) :
    ∃ items, (Document.parse text).completions s options cursor = .ok items ∧
      ∀ a ∈ e.attributes, ¬ a.Touches cursor →
        ((∃ item ∈ items, item.kind = .attributeName ∧ item.label = a.name) ↔
          a.FollowsBlanks text cursor ∧ a.name ∈ e.missing s options a.offset) := by
  obtain ⟨items, hitems⟩ := completions_ok (le_size_of_chainBefore hchain) s options
  rcases Document.of_completions hitems with ⟨hnone, -⟩ | ⟨e', above', ts, hfound, hscan, hoffered⟩
  · cases hchain.symm.trans hnone
  obtain ⟨rfl, rfl⟩ := List.cons.inj (Except.ok.inj (hchain.symm.trans hfound))
  have hbelongs := site_belongsTo_found hchain hscan
  rw [show (Document.parse text).text = text from rfl] at hoffered
  refine ⟨items, hitems, fun a ha hfar => ?_⟩
  constructor
  · rintro ⟨item, hitem, hkind, hlabel⟩
    obtain ⟨w, start, stop, hsite, -⟩ := Completion.of_items_attributeName hoffered hitem hkind
    rw [hsite] at hoffered hbelongs
    have hmissing := (Completion.mem_labels_iff hoffered hbelongs).mp ⟨item, hitem, hkind, hlabel⟩
    obtain rfl : a.offset = start := Classical.byContradiction fun hne =>
      Element.not_mem_missing ha hne hmissing
    exact ⟨followsBlanks_of_site hchain hscan ha hfar hsite, hmissing⟩
  · rintro ⟨hblanks, hmissing⟩
    obtain ⟨w, stop, hsite⟩ := site_of_followsBlanks hchain hscan ha hblanks
    rw [hsite] at hoffered hbelongs
    exact (Completion.mem_labels_iff hoffered hbelongs).mpr hmissing

def widePage : Text :=
  "<view  class=\"é\" hidden>".toList

theorem offers_present_iff_widePage :
    ∃ e above items, (Document.parse widePage).chainBefore 6 = .ok (e :: above) ∧
      (Document.parse widePage).completions ⟨[]⟩ {} 6 = .ok items ∧
      (∃ a ∈ e.attributes, a.name = "class" ∧ ¬ a.Touches 6 ∧
        ∃ item ∈ items, item.kind = .attributeName ∧ item.label = a.name) ∧
      ∃ a ∈ e.attributes, a.name = "hidden" ∧ ¬ a.Touches 6 ∧
        ¬ ∃ item ∈ items, item.kind = .attributeName ∧ item.label = a.name := by
  have hfirst : (Element.chainBeforeAll 6 [] (Document.parse widePage).roots).head?.map
      (fun e => (e.tag, e.attributes)) =
        some (some "view", [⟨"class", 7, some "é"⟩, ⟨"hidden", 18, none⟩]) := by
    decide +kernel
  have hchain : (Document.parse widePage).chainBefore 6 =
      .ok (Element.chainBeforeAll 6 [] (Document.parse widePage).roots) := parse_chainBefore (by decide)
  cases hfound : Element.chainBeforeAll 6 [] (Document.parse widePage).roots with
  | nil => rw [hfound] at hfirst; cases hfirst
  | cons e above =>
    rw [hfound] at hfirst hchain
    obtain ⟨htag, hattributes⟩ : e.tag = some "view" ∧
        e.attributes = [⟨"class", 7, some "é"⟩, ⟨"hidden", 18, none⟩] := by simpa using hfirst
    obtain ⟨items, hitems, hiff⟩ := offers_present_iff hchain ⟨[]⟩ {}
    have hfirst : (⟨"class", 7, some "é"⟩ : Attribute) ∈ e.attributes := by rw [hattributes]; simp
    have hsecond : (⟨"hidden", 18, none⟩ : Attribute) ∈ e.attributes := by rw [hattributes]; simp
    refine ⟨e, above, items, hchain, hitems, ⟨_, hfirst, rfl, by decide, ?_⟩, _, hsecond, rfl, by decide, ?_⟩
    · refine (hiff _ hfirst (by decide)).mpr ⟨by decide +kernel, ?_⟩
      have hmode : Schema.mode? ⟨[]⟩ e "view".toLower = none := rfl
      simp only [Element.missing, htag, hattributes, Option.getD_some, hmode]
      decide +kernel
    · refine fun hoffered => ?_
      exact absurd ((hiff _ hsecond (by decide)).mp hoffered).1 (by decide +kernel)

/-- A second attribute of the name comes of it. -/
theorem widePage_offers_class :
    (Document.parse widePage).elements.map (·.attributes.map Attribute.label) =
        [[("class", 7), ("hidden", 18)]] ∧
      ((Document.parse widePage).completions ⟨[]⟩ {} 6).toOption.any (·.any fun item =>
        item.kind = .attributeName ∧ item.label = "class" ∧
        String.ofList (item.edit.apply widePage) = "<view class class=\"é\" hidden>") = true := by
  constructor
  · decide +kernel
  · decide +kernel

end PageMarkup
