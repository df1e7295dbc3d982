import PageMarkup.Proofs.Answers
import PageMarkup.Proofs.AttributeChecks
import PageMarkup.Proofs.CompletionItems
import PageMarkup.Proofs.DecidingToken
import PageMarkup.Proofs.Positions
import PageMarkup.Proofs.Problems
import PageMarkup.Schema.Bundled

/-!
# Ranges in answers

Completion, hovering and checking speak about stretches of the text, from one offset to another.
The offsets are in order, wherever they come from, and an edit that completes something holds the
cursor.
-/

namespace PageMarkup

-- ---------------------------------------------------------------------------
-- Edits
-- ---------------------------------------------------------------------------

namespace CompletionSite

/-- The site does not end before the cursor. An attribute name may: it is extended when it is edited. -/
def Reaches (cursor : Nat) : CompletionSite → Prop
  | .nothing | .content | .attributeName .. => True
  | .afterBracket _ stop | .tagName _ stop | .endTag _ stop | .attributeValue _ _ _ stop => cursor ≤ stop
  | .afterStartTag offset _ => offset = cursor

variable {text : Text} {before rest : List Placed} {p : Placed} {site : CompletionSite}

theorem le_extend (h : tokens text = before ++ p :: rest) (kind : TokenKind) :
    cursor ≤ extend p rest cursor kind := by
  unfold extend
  split
  · next q more =>
    split
    · next hq =>
      have hnext := stop_le_offset h List.mem_cons_self
      rw [hq.1] at hnext
      exact Nat.le_trans hnext (Nat.le_add_right _ _)
    · exact Nat.le_refl cursor
  · exact Nat.le_refl cursor

theorem ofBlank?_reaches (h : tokens text = before ++ p :: rest)
    (hsite : ofBlank? cursor tag name p rest = some site) : site.Reaches cursor := by
  rw [ofBlank?] at hsite
  split at hsite
  · cases hsite
    exact le_extend h _
  all_goals
    cases hsite
  all_goals simp [Reaches]

theorem ofToken?_reaches (h : tokens text = before ++ p :: rest) (hlt : p.offset < cursor)
    (hle : cursor ≤ p.stop) (hsite : ofToken? text cursor tag name p rest = some site) :
    site.Reaches cursor := by
  rw [ofToken?] at hsite
  cases hkind : p.kind with
  | tagOpen =>
    simp only [hkind, Option.ite_none_right_eq_some, Option.some.injEq] at hsite
    obtain ⟨-, rfl⟩ := hsite
    exact le_extend h _
  | assign =>
    simp only [hkind, Option.ite_none_right_eq_some, Option.some.injEq] at hsite
    obtain ⟨-, rfl⟩ := hsite
    exact le_extend h _
  | tagName | attributeName | attributeValue =>
    simp only [hkind, Option.some.injEq] at hsite
    subst hsite
    simp [Reaches, hle]
  | blank =>
    simp only [hkind] at hsite
    exact ofBlank?_reaches h hsite
  | endTagOpen =>
    simp only [hkind, Option.some.injEq] at hsite
    subst hsite
    exact le_extend h _
  | endTagName =>
    simp only [hkind, Option.map_eq_some_iff] at hsite
    obtain ⟨slash, -, rfl⟩ := hsite
    exact hle
  | tagClose =>
    have hwrites : p.kind.Writes p.lexeme := writes_of_mem_scan (show p ∈ tokens text by rw [h]; simp)
    rw [hkind] at hwrites
    simp only [hkind, Option.ite_none_left_eq_some, Option.some.injEq] at hsite
    obtain ⟨-, rfl⟩ := hsite
    exact Placed.stop_eq_of_single hwrites rfl hlt hle
  | _ =>
    simp only [hkind, Option.some.injEq] at hsite
    subst hsite
    trivial

end CompletionSite

theorem site_reaches (hchain : (Document.parse text).chainBefore cursor = .ok (e :: above))
    (hscan : scanFrom text e.start .content = .ok ts) :
    (CompletionSite.ofTokens text cursor [] [] ts).Reaches cursor := by
  rcases site_cases hchain hscan with
    (hsite | hsite | ⟨slash, hsite⟩) | ⟨before, t, back, tag, name, htokens, hlt, hle, hsite⟩
  · rw [hsite]; trivial
  · rw [hsite]; trivial
  · rw [hsite]; exact Nat.le_refl cursor
  · exact CompletionSite.ofToken?_reaches htokens hlt hle hsite

def Edit.Holds (cursor : Nat) (e : Edit) : Prop :=
  e.start ≤ cursor ∧ cursor ≤ e.stop

namespace Completion

variable {c : Completion} {site : CompletionSite} {item : CompletionItem}

theorem edit_holds (h : c.cursor ≤ stop) (start : Nat) (text : String) :
    (c.edit start stop text).Holds c.cursor :=
  ⟨Nat.min_le_right start c.cursor, h⟩

theorem closing_holds (h : c.cursor ≤ stop) (e : Element) (tag : String) (start : Nat)
    (close : String) : (c.closing e tag start stop close).edit.Holds c.cursor := by
  rcases c.closing_edit e tag start stop close with hedit | ⟨wanted, written, -, -, hedit⟩
  · rw [hedit]
    exact edit_holds h _ _
  · rw [hedit]
    exact edit_holds (Nat.le_refl _) _ _

theorem valueEdit_holds (h : c.cursor ≤ stop) (start : Nat) (value : String) :
    (c.valueEdit start stop value).Holds c.cursor := by
  simp only [valueEdit]
  split
  · split
    · split
      · exact edit_holds (Nat.le_max_left _ _) _ _
      · exact edit_holds h _ _
    · exact edit_holds h _ _
  · exact edit_holds h _ _

theorem Offers.holds (h : c.Offers site item) (hreaches : site.Reaches c.cursor) :
    item.edit.Holds c.cursor := by
  cases h with
  | firstTag | startTag | endTag => exact edit_holds hreaches _ _
  | outerEndTag | openEndTag => exact closing_holds hreaches _ _ _ _
  | wholeEndTag => exact ⟨Nat.le_of_eq hreaches, Nat.le_of_eq hreaches.symm⟩
  | attributeName => exact edit_holds (Nat.le_max_left _ _) _ _
  | value => exact valueEdit_holds hreaches _ _
  | reference => exact edit_holds (Nat.le_refl _) _ _

end Completion

theorem completions_hold (h : (Document.parse text).completions s options cursor = .ok items)
    (hitem : item ∈ items) : item.edit.Holds cursor := by
  rcases Document.of_completions h with ⟨-, rfl⟩ | ⟨e, above, ts, hchain, hscan, hoffered⟩
  · cases hitem
  · exact (Completion.offers_of_mem hoffered hitem).holds (site_reaches hchain hscan)

-- ---------------------------------------------------------------------------
-- Topics
-- ---------------------------------------------------------------------------

namespace Document

theorem tagTopic?_ordered (h : tagTopic? s tag start stop = some topic) (hle : start ≤ stop) :
    topic.start ≤ topic.stop := by
  obtain ⟨component, -, rfl⟩ := Option.map_eq_some_iff.mp h
  exact hle

theorem attributeTopic?_ordered (h : attributeTopic? s e tag a = some topic) :
    topic.start ≤ topic.stop := by
  obtain ⟨rule, -, rfl⟩ := Option.map_eq_some_iff.mp h
  exact Nat.le_add_right _ _

theorem topic?_ordered {d : Document} (h : d.topic? s cursor = .ok (some topic)) :
    topic.start ≤ topic.stop := by
  simp only [topic?, bind_eq_ok] at h
  obtain ⟨chain, -, h⟩ := h
  cases chain with
  | nil => cases pure_eq_ok.mp h
  | cons e above =>
    cases htag : e.tag with
    | none => simp [htag, pure, Except.pure] at h
    | some tag =>
      simp only [htag, Option.map_some] at h
      cases hattribute : e.attributeAt? cursor with
      | some a =>
        simp only [hattribute] at h
        rcases Option.or_eq_some_iff.mp (pure_eq_ok.mp h) with htopic | ⟨-, htopic⟩
        · exact attributeTopic?_ordered htopic
        · exact tagTopic?_ordered htopic (Nat.le_add_right _ _)
      | none =>
        simp only [hattribute] at h
        obtain ⟨token, -, h⟩ := bind_eq_ok.mp h
        obtain ⟨p, -, htopic⟩ := Option.bind_eq_some_iff.mp (pure_eq_ok.mp h)
        exact tagTopic?_ordered htopic (Nat.le_add_right _ _)

end Document

-- ---------------------------------------------------------------------------
-- Diagnostics
-- ---------------------------------------------------------------------------

theorem Attribute.Blames.ordered {a : Attribute} (h : a.Blames x) : x.start ≤ x.stop := by
  cases h with
  | _ => exact Nat.le_add_right _ _

theorem Element.check_ordered {e : Element} (he : e.start ≤ e.stop)
    (hchildren : ∀ child ∈ e.children, child.start ≤ child.stop) (h : x ∈ e.check s dir) :
    x.start ≤ x.stop := by
  cases blames_of_mem_check h with
  | content => exact he
  | child c hc => exact hchildren c hc
  | known a hblames => exact hblames.ordered
  | source | repeated | unknown => exact Nat.le_add_right _ _

theorem diagnostics_ordered (h : x ∈ (Document.parse text).diagnostics s path has) :
    x.start ≤ x.stop := by
  rcases List.mem_append.mp (List.mem_filter.mp h).1 with h | h
  · obtain ⟨p, hp, rfl⟩ := List.mem_map.mp h
    exact (problems_ordered hp).1
  · obtain ⟨e, he, h⟩ := List.mem_flatMap.mp h
    have hranged := parse_allRanged text
    refine Element.check_ordered (Nat.le_of_lt (hranged e he).start_lt_stop) ?_ h
    intro child hchild
    exact Nat.le_of_lt (hranged child (Element.child_mem_preorderAll _ he hchild)).start_lt_stop

-- ---------------------------------------------------------------------------
-- Answers
-- ---------------------------------------------------------------------------

/-- Whatever is asked about a text of which the protocol can count the bytes, every range in the
answer can be found in the text and runs forward, and edits hold the cursor. -/
theorem answers_wellFormed {text : Text} (hsize : text.size < 0x100000000) (s : Schema) :
    (∀ cursor ≤ text.size,
      (∀ options, ∃ items, (Document.parse text).completions s options cursor = .ok items ∧
        ∀ item ∈ items, (text.range item.edit.start item.edit.stop).WellFormed text ∧
          (text.range item.edit.start item.edit.stop).start ≤ text.positionAt cursor ∧
          text.positionAt cursor ≤ (text.range item.edit.start item.edit.stop).stop) ∧
      ∃ topic, (Document.parse text).topic? s cursor = .ok topic ∧
        ∀ t ∈ topic, (text.range t.start t.stop).WellFormed text) ∧
    ∀ path has, ∀ d ∈ (Document.parse text).diagnostics s path has,
      (d.range text).WellFormed text := by
  refine ⟨?_, ?_⟩
  · intro cursor hcursor
    refine ⟨?_, ?_⟩
    · intro options
      obtain ⟨items, hitems⟩ := completions_ok hcursor s options
      refine ⟨items, hitems, ?_⟩
      intro item hitem
      obtain ⟨hstart, hstop⟩ := completions_hold hitems hitem
      exact ⟨Text.range_wellFormed hsize (Nat.le_trans hstart hstop), text.positionAt_mono hstart,
        text.positionAt_mono hstop⟩
    · obtain ⟨topic, htopic⟩ := topic?_ok hcursor s
      refine ⟨topic, htopic, ?_⟩
      rintro t rfl
      exact Text.range_wellFormed hsize (Document.topic?_ordered htopic)
  · intro path has d hd
    exact Text.range_wellFormed hsize (diagnostics_ordered hd)

/-- A page with a bad attribute name, which is reported up to an offset inside its only character. -/
def accentedPage : Text :=
  "<view é>".toList

theorem answers_wellFormed_accentedPage :
    accentedPage.size < 0x100000000 ∧ 8 ≤ accentedPage.size ∧
      (∃ items item, (Document.parse accentedPage).completions Schema.bundled {} 8 = .ok items ∧
        item ∈ items ∧ (accentedPage.range item.edit.start item.edit.stop).WellFormed accentedPage) ∧
      ∃ d ∈ (Document.parse accentedPage).diagnostics Schema.bundled none fun _ => false,
        d.stop = 7 ∧ (d.range accentedPage).WellFormed accentedPage := by
  have hsize : accentedPage.size < 0x100000000 := by decide
  have hcursor : 8 ≤ accentedPage.size := by decide
  obtain ⟨hcursors, hdiagnostics⟩ := answers_wellFormed hsize Schema.bundled
  refine ⟨hsize, hcursor, ?_, ?_⟩
  · obtain ⟨items, hitems, hranges⟩ := (hcursors 8 hcursor).1 {}
    have hany : ((Document.parse accentedPage).completions Schema.bundled {} 8).toOption.any
        (!·.isEmpty) = true := by decide +kernel
    rw [hitems] at hany
    cases items with
    | nil => cases hany
    | cons item more =>
      exact ⟨item :: more, item, hitems, List.mem_cons_self, (hranges item List.mem_cons_self).1⟩
  · have hany : ((Document.parse accentedPage).diagnostics Schema.bundled none fun _ => false).any
        (·.stop = 7) = true := by decide +kernel
    obtain ⟨d, hd, hstop⟩ := List.any_eq_true.mp hany
    exact ⟨d, hd, by simpa using hstop, hdiagnostics none _ d hd⟩

end PageMarkup
