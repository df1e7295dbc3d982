import PageMarkup.Proofs.PresentAttributes
import PageMarkup.Proofs.Spellings

/-!
# Handlers that are offered

Where the name of an attribute is completed, an element is offered the handlers that it does not carry.
An attribute that the cursor touches is being written and does not count; neither does one right after
the blanks that the cursor is in. `handlers_offered_iff` says when a handler is offered in which spelling.
-/

namespace PageMarkup

open ScanState (Reads)

-- ---------------------------------------------------------------------------
-- Names at the cursor
-- ---------------------------------------------------------------------------

/-- Whether the token has room for the name of an attribute: it is one, or blanks in a start tag that
neither follow its bracket nor precede a value. -/
def Placed.takesName (t : Placed) : Bool :=
  match t.kind, t.state with
  | .attributeName, _ | .blank, .tag _ | .blank, .afterAttributeName _ => true
  | _, _ => false

def Text.TakesNameAt (text : Text) (cursor : Nat) : Prop :=
  ∃ t ∈ tokens text, t.offset < cursor ∧ cursor ≤ t.stop ∧ t.takesName = true

instance (text : Text) (cursor : Nat) : Decidable (text.TakesNameAt cursor) :=
  inferInstanceAs (Decidable (∃ t ∈ tokens text, _))

theorem Placed.takesName_iff {t : Placed} : t.takesName = true ↔
    t.kind = .attributeName ∨ t.kind = .blank ∧
      ((∃ context, t.state = .tag context) ∨ ∃ context, t.state = .afterAttributeName context) := by
  rw [takesName]
  cases t.kind with
  | blank => cases t.state <;> simp
  | _ => simp

theorem ScanState.Reads.not_attributeName (h : Reads state .attributeName after) :
    ¬ Reads after .attributeName after' := by
  intro h'
  cases h with
  | nameless hin | tag hin | valueless hin | missingValue _ hin =>
    cases hin with
    | attributeName =>
      cases h' with
      | valueless hin' =>
        cases hin' with
        | attributeName hblank => cases hblank

section
variable {text : Text} {cursor : Nat} {e : Element} {above : List Element} {ts : List Placed}
  (hchain : (Document.parse text).chainBefore cursor = .ok (e :: above))
  (hscan : scanFrom text e.start .content = .ok ts)
include hchain hscan

theorem exists_deciding
    (hsite : CompletionSite.ofTokens text cursor [] [] ts = .attributeName w start stop) :
    ∃ before t back tag name, tokens text = before ++ t :: back ∧ t.offset < cursor ∧ cursor ≤ t.stop ∧
      CompletionSite.ofToken? text cursor tag name t back = some (.attributeName w start stop) := by
  rcases site_cases hchain hscan with (hnone | hnone | ⟨slash, hnone⟩) | hdecided
  · cases hsite.symm.trans hnone
  · cases hsite.symm.trans hnone
  · cases hsite.symm.trans hnone
  · rwa [hsite] at hdecided

theorem takesNameAt_iff_site : text.TakesNameAt cursor ↔
    ∃ w start stop, CompletionSite.ofTokens text cursor [] [] ts = .attributeName w start stop := by
  constructor
  · rintro ⟨t, ht, hlt, hle, htakes⟩
    obtain ⟨before, back, htokens⟩ := List.append_of_mem ht
    obtain ⟨_, front, -, -, hsite⟩ := exists_site_onward hchain hscan htokens hlt hle
    obtain ⟨start, stop, hdecided⟩ : ∃ start stop, CompletionSite.ofToken? text cursor
        (lastLexeme .tagName [] front) (lastLexeme .attributeName [] front) t back =
          some (.attributeName (lastLexeme .tagName [] front) start stop) := by
      rcases Placed.takesName_iff.mp htakes with hkind | ⟨hkind, ⟨context, hstate⟩ | ⟨context, hstate⟩⟩
      · exact ⟨t.offset, t.stop, by rw [CompletionSite.ofToken?, hkind]⟩
      · exact ⟨t.stop, cursor, by simp only [CompletionSite.ofToken?, hkind, CompletionSite.ofBlank?, hstate]⟩
      · exact ⟨t.stop, cursor, by simp only [CompletionSite.ofToken?, hkind, CompletionSite.ofBlank?, hstate]⟩
    have honward := CompletionSite.ofTokens_cons_of_some (Nat.le_of_lt hlt) hle hdecided
    exact ⟨_, start, stop, hsite.trans honward⟩
  · rintro ⟨w, start, stop, hsite⟩
    obtain ⟨before, t, back, tag, name, htokens, hlt, hle, hdecided⟩ := exists_deciding hchain hscan hsite
    refine ⟨t, by rw [htokens]; simp, hlt, hle, Placed.takesName_iff.mpr ?_⟩
    rcases CompletionSite.of_attributeName hdecided (reads_of_scan htokens).1 with
      ⟨hkind, -⟩ | ⟨hkind, -, -, hstate⟩
    · exact .inl hkind
    · exact .inr ⟨hkind, hstate⟩

/-- The attribute that counts as being written is the one that the cursor touches, or the one after
the blanks that the cursor is in. -/
theorem offset_eq_start_iff (ha : a ∈ e.attributes)
    (hsite : CompletionSite.ofTokens text cursor [] [] ts = .attributeName w start stop) :
    a.offset = start ↔ a.Touches cursor ∨ a.FollowsBlanks text cursor := by
  constructor
  · rintro rfl
    by_cases htouches : a.Touches cursor
    · exact .inl htouches
    · exact .inr (followsBlanks_of_site hchain hscan ha htouches hsite)
  · rintro (⟨hbegins, hends⟩ | hblanks)
    · obtain ⟨_, p, _, hp, hkind, hoffset, hstop⟩ :=
        exists_name_token (mem_elements_of_chainBefore hchain List.mem_cons_self) ha
      obtain ⟨before, t, back, tag, name, htokens, hlt, hle, hdecided⟩ := exists_deciding hchain hscan hsite
      have hmem : p ∈ before ++ t :: back := by
        rw [← htokens, hp]
        simp
      rcases List.mem_append.mp hmem with hmem | hmem
      · have hpassed := stop_le_of_mem_before htokens hmem
        omega
      rcases CompletionSite.of_attributeName hdecided (reads_of_scan htokens).1 with
        ⟨hname, hstart, -⟩ | ⟨hblank, hstart, -, -⟩
      · rcases List.mem_cons.mp hmem with rfl | hmem
        · omega
        · have hafter := stop_le_offset htokens hmem
          obtain ⟨rest, rfl⟩ := exists_cons_of_offset_eq htokens (show p ∈ tokens text by rw [hp]; simp)
            (by omega)
          have hreads := (reads_of_scan htokens).1
          rw [hname] at hreads
          exact absurd (hkind ▸ (reads_next htokens).1) hreads.not_attributeName
      · rcases List.mem_cons.mp hmem with rfl | hmem
        · cases hkind.symm.trans hblank
        · have hafter := stop_le_offset htokens hmem
          omega
    · obtain ⟨w', stop', hsite'⟩ := site_of_followsBlanks hchain hscan ha hblanks
      cases hsite.symm.trans hsite'
      rfl

end

-- ---------------------------------------------------------------------------
-- Handlers that an element has
-- ---------------------------------------------------------------------------

def OffersName (items : List CompletionItem) (name : String) : Prop :=
  ∃ item ∈ items, item.kind = .attributeName ∧ item.label = name

instance (items : List CompletionItem) (name : String) : Decidable (OffersName items name) :=
  inferInstanceAs (Decidable (∃ item ∈ items, _))

namespace Element

/-- The element has an attribute of the name, apart from one that the cursor touches and one right after
the blanks that the cursor is in. -/
def Carries (text : Text) (cursor : Nat) (e : Element) (name : String) : Prop :=
  ∃ a ∈ e.attributes, a.name = name ∧ ¬ a.Touches cursor ∧ ¬ a.FollowsBlanks text cursor

instance (text : Text) (cursor : Nat) (e : Element) (name : String) : Decidable (e.Carries text cursor name) :=
  inferInstanceAs (Decidable (∃ a ∈ e.attributes, _))

def Declares (s : Schema) (e : Element) (name : String) : Prop :=
  let tag := (e.tag.getD "").toLower
  name ∈ (s.declared tag (s.mode? e tag)).map AttributeRule.name

instance (s : Schema) (e : Element) (name : String) : Decidable (e.Declares s name) :=
  inferInstanceAs (Decidable (name ∈ _))

end Element

theorem carries_iff {text : Text} {cursor : Nat} {e : Element} {above : List Element} {ts : List Placed}
    (hchain : (Document.parse text).chainBefore cursor = .ok (e :: above))
    (hscan : scanFrom text e.start .content = .ok ts)
    (hsite : CompletionSite.ofTokens text cursor [] [] ts = .attributeName w start stop) (name : String) :
    e.Carries text cursor name ↔
      name ∈ (e.attributes.filter (·.offset ≠ start)).map Attribute.name := by
  simp only [Element.Carries, List.mem_map, List.mem_filter, decide_eq_true_eq]
  constructor
  · rintro ⟨a, ha, hname, htouches, hblanks⟩
    refine ⟨a, ⟨ha, fun heq => ?_⟩, hname⟩
    rcases (offset_eq_start_iff hchain hscan ha hsite).mp heq with h | h
    · exact htouches h
    · exact hblanks h
  · rintro ⟨a, ⟨ha, hne⟩, hname⟩
    rw [Ne, offset_eq_start_iff hchain hscan ha hsite, not_or] at hne
    exact ⟨a, ha, hname, hne.1, hne.2⟩

section
variable {text : Text} {cursor : Nat} {e : Element} {above : List Element} {ts : List Placed} {s : Schema}
  {options : CompletionOptions} {items : List CompletionItem}
  (hchain : (Document.parse text).chainBefore cursor = .ok (e :: above))
  (hscan : scanFrom text e.start .content = .ok ts)
  (hoffered : Completion.items ⟨Document.parse text, s, options, cursor, e, above⟩
    (CompletionSite.ofTokens text cursor [] [] ts) = .ok items)
include hchain hscan hoffered

theorem offersName_iff (name : String) : OffersName items name ↔
    ∃ w start stop, CompletionSite.ofTokens text cursor [] [] ts = .attributeName w start stop ∧
      name ∈ e.missing s options start := by
  have hbelongs := site_belongsTo_found hchain hscan
  constructor
  · rintro ⟨item, hitem, hkind, hlabel⟩
    obtain ⟨w, start, stop, hsite, -⟩ := Completion.of_items_attributeName hoffered hitem hkind
    rw [hsite] at hoffered hbelongs
    exact ⟨w, start, stop, hsite, (Completion.mem_labels_iff hoffered hbelongs).mp ⟨item, hitem, hkind, hlabel⟩⟩
  · rintro ⟨w, start, stop, hsite, hmissing⟩
    rw [hsite] at hoffered hbelongs
    exact (Completion.mem_labels_iff hoffered hbelongs).mpr hmissing

/-- Which spellings are offered, in any schema with plain handlers. -/
theorem offersName_handler_iff (hs : s.PlainHandlers) (h : Handler) :
    (OffersName items h.withColon ↔ text.TakesNameAt cursor ∧ options.events = true ∧
      ¬ e.Declares s h.joined ∧ ¬ e.Carries text cursor h.withColon ∧ ¬ e.Carries text cursor h.joined) ∧
    (OffersName items h.joined ↔ text.TakesNameAt cursor ∧ ¬ e.Carries text cursor h.joined ∧
      (e.Declares s h.joined ∨ options.events = true ∧ e.Carries text cursor h.withColon)) := by
  rw [offersName_iff hchain hscan hoffered, offersName_iff hchain hscan hoffered]
  by_cases htakes : text.TakesNameAt cursor
  · obtain ⟨w, start, stop, hsite⟩ := (takesNameAt_iff_site hchain hscan).mp htakes
    have hmissing (name : String) : (∃ w start stop,
        CompletionSite.ofTokens text cursor [] [] ts = .attributeName w start stop ∧
          name ∈ e.missing s options start) ↔ name ∈ e.missing s options start := by
      constructor
      · rintro ⟨w', start', stop', hsite', hmem⟩
        cases hsite.symm.trans hsite'
        exact hmem
      · exact fun hmem => ⟨w, start, stop, hsite, hmem⟩
    simp only [hmissing, htakes, true_and, carries_iff hchain hscan hsite]
    constructor
    · rw [Element.missing, withColon_mem_offer_iff hs]
      constructor
      · rintro ⟨hevents, hcolon, hjoined, hdeclares⟩
        exact ⟨hevents, hdeclares, hcolon, hjoined⟩
      · rintro ⟨hevents, hdeclares, hcolon, hjoined⟩
        exact ⟨hevents, hcolon, hjoined, hdeclares⟩
    · exact joined_mem_offer_iff hs _ _ _ _ h
  · have hnone (name : String) : ¬ ∃ w start stop,
        CompletionSite.ofTokens text cursor [] [] ts = .attributeName w start stop ∧
          name ∈ e.missing s options start := by
      rintro ⟨w, start, stop, hsite, -⟩
      exact htakes ((takesNameAt_iff_site hchain hscan).mpr ⟨w, start, stop, hsite⟩)
    simp only [hnone, htakes, false_and, and_self]

end

/-- Completion never offers both spellings of a handler. The one with a colon it offers where names are
completed and handlers are wanted, unless the component of the element declares the other one or the
element carries one of the two. The other one it offers if the component declares it, unless the element
carries it; and else only to elements that carry the one with a colon, which have the handler already. -/
theorem handlers_offered_iff {text : Text} {cursor : Nat} (hcursor : cursor ≤ text.size)
    (options : CompletionOptions) :
    ∃ items, (Document.parse text).completions .bundled options cursor = .ok items ∧
      ∀ h : Handler, ¬ (OffersName items h.withColon ∧ OffersName items h.joined) ∧
        ∀ e above, (Document.parse text).chainBefore cursor = .ok (e :: above) →
          (OffersName items h.withColon ↔ text.TakesNameAt cursor ∧ options.events = true ∧
            ¬ e.Declares .bundled h.joined ∧ ¬ e.Carries text cursor h.withColon ∧
            ¬ e.Carries text cursor h.joined) ∧
          (OffersName items h.joined ↔ text.TakesNameAt cursor ∧ ¬ e.Carries text cursor h.joined ∧
            (e.Declares .bundled h.joined ∨
              options.events = true ∧ e.Carries text cursor h.withColon)) := by
  obtain ⟨items, hitems⟩ := completions_ok hcursor .bundled options
  refine ⟨items, hitems, fun h => ?_⟩
  rcases Document.of_completions hitems with ⟨hnone, rfl⟩ | ⟨e, above, ts, hchain, hscan, hoffered⟩
  · refine ⟨by simp [OffersName], fun e above hchain => ?_⟩
    cases hchain.symm.trans hnone
  · have hiff := offersName_handler_iff hchain hscan hoffered Schema.bundled_plainHandlers h
    refine ⟨?_, fun e' above' hchain' => ?_⟩
    · rintro ⟨hcolon, hjoined⟩
      obtain ⟨-, -, hdeclares, hcarries, -⟩ := hiff.1.mp hcolon
      obtain ⟨-, -, hdeclared | ⟨-, hcarried⟩⟩ := hiff.2.mp hjoined
      · exact hdeclares hdeclared
      · exact hcarries hcarried
    · cases hchain.symm.trans hchain'
      exact hiff

def tapPage : Text :=
  "<view bind:tap=\"é\" >".toList

theorem handlers_offered_iff_tapPage :
    ∃ (e : Element) (above : List Element) (items : List CompletionItem) (tap press : Handler),
      (Document.parse tapPage).chainBefore 20 = .ok (e :: above) ∧
      (Document.parse tapPage).completions .bundled {} 20 = .ok items ∧
      tap.withColon = "bind:tap" ∧ e.Carries tapPage 20 tap.withColon ∧
      ¬ OffersName items tap.withColon ∧ OffersName items tap.joined ∧
      press.joined = "bindlongpress" ∧ OffersName items press.withColon ∧ ¬ OffersName items press.joined := by
  let tap : Handler := ⟨"bind", "tap", by decide, by decide +kernel⟩
  let press : Handler := ⟨"bind", "longpress", by decide, by decide +kernel⟩
  have hfirst : (Element.chainBeforeAll 20 [] (Document.parse tapPage).roots).head?.map (fun e =>
      [tap.withColon, tap.joined, press.withColon, press.joined].map fun name =>
        (decide (e.Carries tapPage 20 name), decide (e.Declares .bundled name))) =
      some [(true, false), (false, false), (false, false), (false, false)] := by
    decide +kernel
  have hchain : (Document.parse tapPage).chainBefore 20 =
      .ok (Element.chainBeforeAll 20 [] (Document.parse tapPage).roots) := parse_chainBefore (by decide)
  cases hfound : Element.chainBeforeAll 20 [] (Document.parse tapPage).roots with
  | nil => rw [hfound] at hfirst; cases hfirst
  | cons e above =>
    rw [hfound] at hfirst hchain
    simp only [List.head?_cons, Option.map_some, List.map_cons, List.map_nil, Option.some.injEq,
      List.cons.injEq, Prod.mk.injEq, decide_eq_true_eq, decide_eq_false_iff_not, and_true] at hfirst
    obtain ⟨⟨hcolon, -⟩, ⟨hjoined, htap⟩, ⟨hcolon', -⟩, hjoined', hpress⟩ := hfirst
    have htakes : tapPage.TakesNameAt 20 := by decide +kernel
    obtain ⟨items, hitems, hiff⟩ := handlers_offered_iff (show 20 ≤ tapPage.size by decide) {}
    obtain ⟨-, htaps⟩ := hiff tap
    obtain ⟨-, hpresses⟩ := hiff press
    refine ⟨e, above, items, tap, press, hchain, hitems, by decide, hcolon, ?_, ?_, by decide, ?_, ?_⟩
    · exact fun hoffers => ((htaps e above hchain).1.mp hoffers).2.2.2.1 hcolon
    · exact (htaps e above hchain).2.mpr ⟨htakes, hjoined, .inr ⟨rfl, hcolon⟩⟩
    · exact (hpresses e above hchain).1.mpr ⟨htakes, rfl, hpress, hcolon', hjoined'⟩
    · intro hoffers
      obtain ⟨-, -, hdeclared | ⟨-, hcarried⟩⟩ := (hpresses e above hchain).2.mp hoffers
      · exact hpress hdeclared
      · exact hcolon' hcarried

/-- The handler is there twice after that. -/
theorem tapPage_offers_bindtap :
    (Document.parse tapPage).elements.map (·.attributes.map Attribute.label) = [[("bind:tap", 6)]] ∧
      ((Document.parse tapPage).completions .bundled {} 20).toOption.any (·.any fun item =>
        item.kind = .attributeName ∧ item.label = "bindtap" ∧
        String.ofList (item.edit.apply tapPage) = "<view bind:tap=\"é\" bindtap>") = true := by
  constructor
  · decide +kernel
  · decide +kernel

end PageMarkup
