import PageMarkup.Hover
import PageMarkup.Proofs.SiteBoundaries
import PageMarkup.Proofs.TagCursor

/-!
# Questions about a document are answered

Completion and hovering scan a document again from places that they compute. Whatever the text and
wherever the cursor, those places are boundaries, so that there is always an answer; and no offset
that they step back from is too small for the step.
-/

namespace PageMarkup

theorem isFollowedBy_ok (h : text.IsBoundary offset) (state : ScanState) (kind : TokenKind) :
    ∃ b, isFollowedBy text offset state kind = .ok b := by
  obtain ⟨ts, hts⟩ := h.scanFrom state
  rw [isFollowedBy, hts]
  exact ⟨_, rfl⟩

-- ---------------------------------------------------------------------------
-- Steps back
-- ---------------------------------------------------------------------------

namespace Text

theorem size_reverse (cs : Text) : size cs.reverse = cs.size := by
  induction cs with
  | nil => rfl
  | cons c cs ih =>
    rw [List.reverse_cons, size_append, ih, size_cons, size_cons, size_nil]
    omega

theorem size_takeWhile_le (p : Char → Bool) (cs : Text) : size (cs.takeWhile p) ≤ cs.size := by
  have hcut := congrArg size (List.takeWhile_append_dropWhile (p := p) (l := cs))
  rw [size_append] at hcut
  omega

theorem length_le_size (cs : Text) : cs.length ≤ cs.size := by
  induction cs with
  | nil => exact Nat.le_refl 0
  | cons c cs ih =>
    have := c.utf8Size_pos
    rw [List.length_cons, size_cons]
    omega

end Text

theorem size_lineIndent?_le (h : lineIndent? text offset = some indent) : indent.size ≤ offset := by
  have hle (p : Char → Bool) : Text.size ((text.upTo offset).reverse.takeWhile p).reverse ≤ offset := by
    rw [Text.size_reverse]
    refine Nat.le_trans (Text.size_takeWhile_le p _) ?_
    rw [Text.size_reverse]
    exact Text.size_upTo_le text offset
  rw [lineIndent?] at h
  split at h
  all_goals cases h
  all_goals exact hle _

theorem length_takeWhile_lt {before : Text} (h : before.dropWhile p = d :: rest) :
    (before.takeWhile p).length + 1 ≤ before.size := by
  have hcut := congrArg List.length (List.takeWhile_append_dropWhile (p := p) (l := before))
  rw [List.length_append, h, List.length_cons] at hcut
  have := before.length_le_size
  omega

namespace Completion

/-- Completion at a site looks at boundaries only, and what it steps back over is in front of where
it steps back from: the indent of a line, the name of an entity and its ampersand. -/
structure Grounded (c : Completion) (site : CompletionSite) : Prop where
  site : site.OnBoundaries c.text
  starts : ∀ e ∈ c.element :: c.above, c.text.IsBoundary e.start
  indents : ∀ offset indent, lineIndent? c.text offset = some indent → indent.size ≤ offset
  entity : ∀ rest, (c.text.upTo c.cursor).reverse.dropWhile Char.isAlphanum = '&' :: rest →
    ((c.text.upTo c.cursor).reverse.takeWhile Char.isAlphanum).length + 1 ≤ c.cursor

section
variable {c : Completion} {start stop : Nat}

theorem closingTag?_ok (h : c.text.IsBoundary stop) (start : Nat) (es : List Element) :
    ∃ item, c.closingTag? es start stop = .ok item := by
  obtain ⟨b, hb⟩ := isFollowedBy_ok h .endTag .endTagClose
  rw [closingTag?, hb]
  exact ⟨_, rfl⟩

theorem anyClosingTag_ok (h : c.text.IsBoundary stop) :
    ∃ items, c.anyClosingTag start stop = .ok items := by
  obtain ⟨b, hb⟩ := isFollowedBy_ok h .endTag .endTagClose
  rw [anyClosingTag, hb]
  exact ⟨_, rfl⟩

theorem closingTags_ok (h : c.text.IsBoundary stop) : ∃ items, c.closingTags start stop = .ok items := by
  obtain ⟨item, hitem⟩ := closingTag?_ok h start (c.element :: c.above)
  rw [closingTags, hitem]
  cases item with
  | some item => exact ⟨[item], rfl⟩
  | none => exact anyClosingTag_ok h

theorem tags_ok (h : c.text.IsBoundary stop) : ∃ items, c.tags start stop = .ok items := by
  obtain ⟨item, hitem⟩ := closingTag?_ok h start c.above
  rw [tags, hitem]
  exact ⟨_, rfl⟩

theorem wantsValue_ok (h : c.text.IsBoundary stop) : ∃ b, c.wantsValue stop = .ok b := by
  rw [wantsValue]
  split
  · obtain ⟨b, hb⟩ := isFollowedBy_ok h (.afterAttributeName {}) .assign
    rw [hb]
    exact ⟨_, rfl⟩
  · exact ⟨false, rfl⟩

theorem attributeNames_ok (h : c.text.IsBoundary stop) (tag : String) :
    ∃ items, c.attributeNames tag start stop = .ok items := by
  obtain ⟨b, hb⟩ := wantsValue_ok h
  rw [attributeNames, hb]
  exact ⟨_, rfl⟩

end

theorem items_ok {c : Completion} {site : CompletionSite} (h : site.OnBoundaries c.text) :
    ∃ items, c.items site = .ok items := by
  cases site with
  | afterBracket =>
    obtain ⟨_, -, -, hstop⟩ := h
    exact tags_ok hstop
  | endTag =>
    obtain ⟨_, -, -, hstop⟩ := h
    exact closingTags_ok hstop
  | attributeName tag => exact attributeNames_ok h.2 _
  | _ => exact ⟨_, rfl⟩

end Completion

-- ---------------------------------------------------------------------------
-- Completion
-- ---------------------------------------------------------------------------

theorem exists_tagOpen_of_mem_elements (he : e ∈ (Document.parse text).elements) :
    ∃ before p rest, tokens text = before ++ p :: rest ∧ p.kind = .tagOpen ∧ p.offset = e.start := by
  obtain ⟨p, hp, hkind, hoffset⟩ := (parse_allRanged text e he).opens
  obtain ⟨before, rest, htokens⟩ := List.append_of_mem hp
  exact ⟨before, p, rest, htokens, hkind, hoffset⟩

theorem chainBefore_lineage (text : Text) (cursor : Nat) :
    Lineage (Document.parse text).roots (Element.chainBeforeAll cursor [] (Document.parse text).roots) :=
  Element.chainBeforeAll_lineage _ .nil fun _ hc => .top hc

theorem chainAt_lineage (text : Text) (cursor : Nat) :
    Lineage (Document.parse text).roots (Element.chainAtAll cursor [] (Document.parse text).roots) :=
  Element.chainAtAll_lineage _ .nil fun _ hc => .top hc

section
variable {text : Text} {cursor : Nat} (hsize : cursor ≤ text.size)
include hsize

theorem completions_grounded (schema : Schema) (options : CompletionOptions)
    (hchain : (Document.parse text).chainBefore cursor = .ok (e :: above))
    (hscan : scanFrom text e.start .content = .ok ts) :
    Completion.Grounded ⟨Document.parse text, schema, options, cursor, e, above⟩
      (CompletionSite.ofTokens text cursor [] [] ts) := by
  have hlineage := chainBefore_lineage text cursor
  rw [parse_chainBefore hsize] at hchain
  rw [Except.ok.inj hchain] at hlineage
  have helements (x : Element) (hx : x ∈ e :: above) : x ∈ (Document.parse text).elements :=
    hlineage.mem_preorderAll hx
  obtain ⟨before, p, rest, htokens, hopen, hstart⟩ :=
    exists_tagOpen_of_mem_elements (helements e List.mem_cons_self)
  rw [← hstart, scanFrom_tagOpen htokens hopen] at hscan
  cases hscan
  refine ⟨CompletionSite.ofTokens_onBoundaries htokens cursor [] [], ?_, ?_, ?_⟩
  · exact fun x hx => (parse_allRanged text x (helements x hx)).opens.isBoundary
  · exact fun offset indent h => size_lineIndent?_le h
  · intro after h
    have hlt := length_takeWhile_lt h
    rw [Text.size_reverse] at hlt
    exact Nat.le_trans hlt (Text.size_upTo_le text cursor)

theorem completions_ok (schema : Schema) (options : CompletionOptions) :
    ∃ items, (Document.parse text).completions schema options cursor = .ok items := by
  have hlineage := chainBefore_lineage text cursor
  have hchain := parse_chainBefore hsize
  cases hfound : Element.chainBeforeAll cursor [] (Document.parse text).roots with
  | nil =>
    rw [hfound] at hchain
    rw [Document.completions, hchain]
    exact ⟨[], rfl⟩
  | cons e above =>
    rw [hfound] at hlineage hchain
    have he := hlineage.mem_preorderAll List.mem_cons_self
    obtain ⟨ts, hscan⟩ := (parse_allRanged text e he).opens.isBoundary.scanFrom .content
    rw [completions_eq hsize hfound hscan]
    exact Completion.items_ok (completions_grounded hsize schema options hchain hscan).site

-- ---------------------------------------------------------------------------
-- Hovering
-- ---------------------------------------------------------------------------

omit hsize in
theorem tokenTouching_ok (h : text.IsBoundary start) (cursor : Nat) (kind : TokenKind) :
    ∃ token, (Document.parse text).tokenTouching start cursor kind = .ok token := by
  obtain ⟨ts, hts⟩ := h.scanFrom .content
  have htext : (Document.parse text).text = text := rfl
  rw [Document.tokenTouching, htext, hts]
  exact ⟨_, rfl⟩

theorem topic?_ok (schema : Schema) :
    ∃ topic, (Document.parse text).topic? schema cursor = .ok topic := by
  have hlineage := chainAt_lineage text cursor
  rw [Document.topic?, parse_chainAt hsize]
  cases hfound : Element.chainAtAll cursor [] (Document.parse text).roots with
  | nil => exact ⟨none, rfl⟩
  | cons e above =>
    rw [hfound] at hlineage
    have hrange := parse_allRanged text e (hlineage.mem_preorderAll List.mem_cons_self)
    have htouching {start : Nat} (kind : TokenKind) (h : text.IsBoundary start)
        (answer : Option Placed → Option Topic) :
        ∃ topic, ((Document.parse text).tokenTouching start cursor kind).bind
          (fun token => .ok (answer token)) = .ok topic := by
      obtain ⟨token, htoken⟩ := tokenTouching_ok h cursor kind
      exact ⟨answer token, by rw [htoken]; rfl⟩
    simp only [bind, Except.bind]
    cases e.tag with
    | none => exact ⟨none, rfl⟩
    | some tag =>
      cases e.attributeAt? cursor with
      | some a => exact ⟨_, rfl⟩
      | none =>
        cases hend : e.endTagStart with
        | none => exact htouching .tagName hrange.opens.isBoundary _
        | some endTag =>
          by_cases hle : endTag ≤ cursor
          · simp only [if_pos hle]
            exact htouching .endTagName (hrange.endTag_last endTag hend).1.isBoundary _
          · simp only [if_neg hle]
            exact htouching .tagName hrange.opens.isBoundary _

end

end PageMarkup
