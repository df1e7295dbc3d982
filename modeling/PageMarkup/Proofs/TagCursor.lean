import PageMarkup.Completion.Suggest
import PageMarkup.Proofs.Chains
import PageMarkup.Proofs.Extents
import PageMarkup.Proofs.Rescan
import PageMarkup.Proofs.Sites

/-!
# A cursor inside a start tag

Where the cursor is in a start tag, the element that begins with this tag is what both lookups find;
so what completion reads off the tokens, the names of the tag and of the attribute at the cursor, and
what it reads off the element belong together.
-/

namespace PageMarkup

open ScanState (Reads ReadsInTag)

section
variable {text : Text} {before rest : List Placed} {p t : Placed} {e : Element}
  (htokens : tokens text = before ++ p :: rest) (hopen : p.kind = .tagOpen)
include htokens hopen

/-- An element reaches over its start tag, and its children come after it. -/
theorem tag_inside_element (ht : t ∈ p :: restOfTag rest) (he : e ∈ (Document.parse text).elements)
    (hstart : e.start = p.offset) : t.stop ≤ e.stop ∧ ∀ c ∈ e.children, t.stop ≤ c.start := by
  have hrange := parse_allRanged text e he
  refine ⟨?_, ?_⟩
  · have hlt := hrange.start_lt_stop
    rw [hstart] at hlt
    have hends := parse_allEnded text e he
    generalize e.stop = stop at hlt hends ⊢
    cases hends with
    | close mem ends => exact (stop_le_of_mem_tag htokens hopen ht mem).2 ends hlt
    | cut opens =>
      obtain ⟨q, hq, hkind, rfl⟩ := opens
      exact (stop_le_of_mem_tag htokens hopen ht hq).1 (by rw [hkind]; rfl) hlt
    | endOfText =>
      refine stop_le_of_mem_tokens ?_
      rw [htokens]
      rcases List.mem_cons.mp ht with rfl | ht
      · simp
      · simp [mem_of_mem_restOfTag ht]
  · intro c hc
    have hlt := (hrange.children_inside c hc).1
    rw [hstart] at hlt
    obtain ⟨q, hq, hkind, hoffset⟩ :=
      (parse_allRanged text c (Element.child_mem_preorderAll _ he hc)).opens
    rw [← hoffset] at hlt ⊢
    exact (stop_le_of_mem_tag htokens hopen ht hq).1 (by rw [hkind]; rfl) hlt

end

-- ---------------------------------------------------------------------------
-- Names before a token of a start tag
-- ---------------------------------------------------------------------------

theorem exists_split_restOfTag {rest : List Placed} (h : scan state offset cs = rest)
    (hstate : state.isInTag = true) (ht : t ∈ restOfTag rest) :
    ∃ front back, rest = front ++ t :: back ∧ (finalState state front).isInTag = true ∧
      ∀ x ∈ front, x.kind ≠ .tagOpen := by
  induction rest generalizing state offset cs with
  | nil => cases ht
  | cons q rest ih =>
    obtain ⟨hreads, -, tail, htail⟩ := scan_step h
    obtain ⟨hgoes, hbegins, -⟩ := hreads.inTag hstate
    rw [restOfTag] at ht
    split at ht
    · cases List.mem_singleton.mp ht
      exact ⟨[], rest, rfl, hstate, by simp⟩
    · next hends =>
      rcases List.mem_cons.mp ht with rfl | ht
      · exact ⟨[], rest, rfl, hstate, by simp⟩
      · obtain ⟨front, back, rfl, hinside, hfront⟩ := ih htail (hgoes.resolve_left hends) ht
        refine ⟨q :: front, back, rfl, by rwa [finalState_cons], ?_⟩
        refine List.forall_mem_cons.mpr ⟨fun hopen => ?_, hfront⟩
        rw [hopen] at hbegins
        cases hbegins

theorem Token.bodyState_ne_afterTagOpen (raw : RawText) : bodyState raw ≠ .afterTagOpen := by
  cases raw <;> nofun

theorem ScanState.Reads.ne_tagName (h : Reads state kind after) (hstate : state ≠ .afterTagOpen)
    (hkind : kind ≠ .tagOpen) : kind ≠ .tagName ∧ after ≠ .afterTagOpen := by
  cases h with
  | nameless h | tag h | valueless h | missingValue _ h =>
    cases h with
    | close => exact ⟨nofun, Token.bodyState_ne_afterTagOpen _⟩
    | _ => exact ⟨nofun, nofun⟩
  | tagOpen => exact absurd rfl hkind
  | tagName | blankBeforeName => exact absurd rfl hstate
  | _ => exact ⟨nofun, nofun⟩

theorem kind_ne_tagName_of_mem {ts : List Placed} (h : scan state offset cs = ts)
    (hstate : state ≠ .afterTagOpen) (hx : x ∈ ts.takeWhile (·.kind ≠ .tagOpen)) :
    x.kind ≠ .tagName := by
  induction ts generalizing state offset cs with
  | nil => cases hx
  | cons q ts ih =>
    obtain ⟨hreads, -, tail, htail⟩ := scan_step h
    rw [List.takeWhile_cons] at hx
    split at hx
    · next hopen =>
      obtain ⟨hname, hafter⟩ := hreads.ne_tagName hstate (by simpa using hopen)
      rcases List.mem_cons.mp hx with rfl | hx
      · exact hname
      · exact ih htail hafter hx
    · cases hx

def ScanState.isAtAttribute : ScanState → Bool
  | .afterAttributeName _ | .beforeAttributeValue _ => true
  | _ => false

theorem Token.bodyState_isAtAttribute (raw : RawText) : (bodyState raw).isAtAttribute = false := by
  cases raw <;> rfl

theorem ScanState.Reads.isAtAttribute_eq_false (h : Reads state kind after)
    (hstate : state.isAtAttribute = false) (hkind : kind ≠ .attributeName) :
    after.isAtAttribute = false := by
  cases h with
  | nameless h | tag h =>
    cases h with
    | attributeName => exact absurd rfl hkind
    | close => exact Token.bodyState_isAtAttribute _
    | _ => rfl
  | blankAfterName | assign | valueless | blankBeforeValue | value | missingValue => cases hstate
  | _ => rfl

theorem exists_attributeName {front : List Placed} (h : scan state offset cs = front ++ ts)
    (hstate : state.isAtAttribute = false) (hfinal : (finalState state front).isAtAttribute = true) :
    ∃ x ∈ front, x.kind = .attributeName := by
  induction front generalizing state offset cs with
  | nil => exact absurd (hstate.symm.trans hfinal) nofun
  | cons q front ih =>
    obtain ⟨hreads, -, tail, htail⟩ := scan_step h
    by_cases hkind : q.kind = .attributeName
    · exact ⟨q, List.mem_cons_self, hkind⟩
    · rw [finalState_cons] at hfinal
      obtain ⟨x, hx, hname⟩ := ih htail (hreads.isAtAttribute_eq_false hstate hkind) hfinal
      exact ⟨x, List.mem_cons_of_mem _ hx, hname⟩

section
variable {front back : List Placed} {t : Placed} {e : Element}
  (hscan : scan state offset cs = front ++ t :: back) (hfront : ∀ x ∈ front, x.kind ≠ .tagOpen)
  (hopen : t.kind ≠ .tagOpen)
  (hread : e.startTag = ((front ++ t :: back).takeWhile (·.kind ≠ .tagOpen)).foldl StartTag.read
    { id := n, start := start })
include hfront hopen hread

theorem startTag_eq_foldl :
    e.startTag = (front ++ t :: back.takeWhile (·.kind ≠ .tagOpen)).foldl StartTag.read
      { id := n, start := start } := by
  rw [hread, List.takeWhile_append_of_pos fun x hx => by simpa using hfront x hx,
    List.takeWhile_cons_of_pos (by simpa using hopen)]

include hscan

/-- The name of an element's tag is the last one before any later token of the tag. -/
theorem tag_eq_lastOf? (hkind : t.kind ≠ .tagName) (hstate : t.state ≠ .afterTagOpen) :
    e.tag = (lastOf? .tagName front).map fun p => String.ofList p.lexeme := by
  obtain ⟨_, tail, -, -, hrest⟩ := scan_eq_append hscan
  obtain ⟨-, -, tail', htail⟩ := scan_step hrest.symm
  have hlater : ∀ x ∈ t :: back.takeWhile (·.kind ≠ .tagOpen), x.kind ≠ .tagName :=
    List.forall_mem_cons.mpr ⟨hkind, fun x hx => kind_ne_tagName_of_mem htail hstate hx⟩
  have htag := congrArg StartTag.tag (startTag_eq_foldl hfront hopen hread)
  rw [StartTag.foldl_read_tag, lastOf?_append_of_forall_ne hlater, Option.or_none] at htag
  exact htag

theorem attribute_eq_lastLexeme (hkind : t.kind ≠ .attributeName) (hstate : state.isAtAttribute = false)
    (hfinal : (finalState state front).isAtAttribute = true) (hlt : t.offset < cursor)
    (hle : cursor ≤ t.stop) :
    (e.attributes.filter (·.offset < cursor)).getLast?.map Attribute.name =
      some (String.ofList (lastLexeme .attributeName [] front)) := by
  have hlabels : e.attributes.map Attribute.label =
      ((front ++ t :: back.takeWhile (·.kind ≠ .tagOpen)).filter (·.kind = .attributeName)).map
        fun p => (String.ofList p.lexeme, p.offset) := by
    have hread' := congrArg (·.attributes.map Attribute.label) (startTag_eq_foldl hfront hopen hread)
    simp only [StartTag.foldl_read_labels] at hread'
    exact hread'
  have hbefore : ∀ x ∈ front, x.offset < cursor := fun x hx => by
    have hstop := stop_le_of_mem_before hscan hx
    have : x.offset ≤ x.stop := Nat.le_add_right _ _
    omega
  have hafter : ∀ x ∈ back.takeWhile (·.kind ≠ .tagOpen), cursor ≤ x.offset := fun x hx =>
    Nat.le_trans hle (stop_le_offset hscan ((List.takeWhile_sublist _).subset hx))
  have hnames : ((front ++ t :: back.takeWhile (·.kind ≠ .tagOpen)).filter (·.kind = .attributeName)).filter
      (·.offset < cursor) = front.filter (·.kind = .attributeName) := by
    rw [List.filter_append, List.filter_append, List.filter_cons_of_neg (by simpa using hkind)]
    have hnone : ((back.takeWhile (·.kind ≠ .tagOpen)).filter (·.kind = .attributeName)).filter
        (·.offset < cursor) = [] :=
      List.filter_eq_nil_iff.mpr fun x hx => by simpa using hafter x (List.mem_filter.mp hx).1
    have hall : (front.filter (·.kind = .attributeName)).filter (·.offset < cursor) =
        front.filter (·.kind = .attributeName) :=
      List.filter_eq_self.mpr fun x hx => by simpa using hbefore x (List.mem_filter.mp hx).1
    rw [hnone, hall, List.append_nil]
  obtain ⟨x, hx, hname⟩ := exists_attributeName hscan hstate hfinal
  have hne : front.filter (·.kind = .attributeName) ≠ [] :=
    List.ne_nil_of_mem (List.mem_filter.mpr ⟨hx, by simpa using hname⟩)
  calc (e.attributes.filter (·.offset < cursor)).getLast?.map Attribute.name
    _ = ((e.attributes.map Attribute.label).filter (·.2 < cursor)).getLast?.map Prod.fst := by
      rw [List.filter_map, List.getLast?_map, Option.map_map]
      rfl
    _ = (front.filter (·.kind = .attributeName)).getLast?.map fun p => String.ofList p.lexeme := by
      rw [hlabels, List.filter_map, List.getLast?_map, Option.map_map, ← hnames]
      rfl
    _ = some (String.ofList (lastLexeme .attributeName [] front)) := by
      rw [lastLexeme, lastOf?, List.getLast?_eq_some_getLast hne]
      rfl

end

-- ---------------------------------------------------------------------------
-- Sites inside a start tag
-- ---------------------------------------------------------------------------

/-- The names that a site carries are those of the element: of its tag, and of the last of its
attributes that begins before the cursor. -/
def CompletionSite.BelongsTo (cursor : Nat) (e : Element) : CompletionSite → Prop
  | .afterStartTag _ tag => e.tag = some (String.ofList tag)
  | .attributeName tag _ _ => e.tag.getD "" = String.ofList tag
  | .attributeValue tag name _ _ => e.tag.getD "" = String.ofList tag ∧
    (e.attributes.filter (·.offset < cursor)).getLast?.map Attribute.name = some (String.ofList name)
  | _ => True

namespace CompletionSite

/-- What directly follows a start tag brings no names along. -/
theorem ofToken?_belongsTo (h : ofToken? text cursor tag name p rest = some site)
    (hreads : Reads (Token.bodyState raw) p.kind p.state) : site.BelongsTo cursor e := by
  rw [ofToken?] at h
  generalize p.kind = kind at h hreads
  generalize p.state = after at hreads
  cases raw with
  | none =>
    cases hreads with
    | tagOpen =>
      obtain ⟨-, hsite⟩ := Option.ite_none_right_eq_some.mp h
      cases hsite
      trivial
    | _ =>
      cases h
      trivial
  | script | style => cases hreads <;> cases h <;> trivial

theorem ofTokens_belongsTo_of_bodyState (h : scan (Token.bodyState raw) offset cs = ts)
    (hle : cursor ≤ offset) : (ofTokens text cursor tag name ts).BelongsTo cursor e := by
  rcases ofTokens_cases text cursor tag name ts with
    hsite | ⟨front, p, rest, tag', name', rfl, hstart, -, hsite⟩
  · rw [hsite]
    trivial
  · cases front with
    | nil => exact ofToken?_belongsTo hsite (scan_step h).1
    | cons q front =>
      have hscan : scan (Token.bodyState raw) offset cs = [] ++ q :: (front ++ p :: rest) := h
      have hlater : q.stop ≤ p.offset := stop_le_offset hscan (by simp)
      have hq := (scan_step h).2.1
      have hsize : 0 < q.token.size := size_pos_of_mem_scan (by rw [h]; exact List.mem_cons_self)
      rw [Placed.stop] at hlater
      omega

theorem ofTokens_cons_of_some (hstart : p.offset ≤ cursor) (hstop : cursor ≤ p.stop)
    (h : ofToken? text cursor tag name p rest = some site) :
    ofTokens text cursor tag name (p :: rest) = site := by
  rw [ofTokens, if_neg (Nat.not_lt.mpr hstart), if_pos hstop, h]

theorem ofTokens_cons_of_none (hstart : p.offset ≤ cursor)
    (h : ofToken? text cursor tag name p rest = none) :
    ofTokens text cursor tag name (p :: rest) = ofTokens text cursor
      (if p.kind = .tagName then p.lexeme else tag)
      (if p.kind = .attributeName then p.lexeme else name) rest := by
  rw [ofTokens, if_neg (Nat.not_lt.mpr hstart), h]
  exact ite_self _

theorem tag_eq_some_of_getD {w : Text} (h : tag.getD "" = String.ofList w) (hw : ¬ w.isEmpty = true) :
    tag = some (String.ofList w) := by
  cases tag with
  | none =>
    have hnil : ([] : Text) = w := by simpa using congrArg String.toList h
    rw [← hnil] at hw
    exact absurd rfl hw
  | some tag => exact congrArg some h

section
variable {front back : List Placed} {t : Placed} {e : Element}
  (hscan : scan .afterTagOpen offset cs = front ++ t :: back) (hfront : ∀ x ∈ front, x.kind ≠ .tagOpen)
  (hread : e.startTag = ((front ++ t :: back).takeWhile (·.kind ≠ .tagOpen)).foldl StartTag.read
    { id := n, start := start })
  (hinside : (finalState .afterTagOpen front).isInTag = true)
  (hlt : t.offset < cursor) (hle : cursor ≤ t.stop)
include hscan hfront hread hinside hlt hle

theorem ofTokens_belongsTo (text : Text) :
    (ofTokens text cursor (lastLexeme .tagName [] front) (lastLexeme .attributeName [] front)
      (t :: back)).BelongsTo cursor e := by
  have hreads := (reads_of_scan hscan).1
  have hopen : t.kind ≠ .tagOpen := fun h => by
    have hbegins := (hreads.inTag hinside).2.1
    rw [h] at hbegins
    cases hbegins
  have htag (hkind : t.kind ≠ .tagName) (hstate : t.state ≠ .afterTagOpen) :
      e.tag.getD "" = String.ofList (lastLexeme .tagName [] front) := by
    rw [tag_eq_lastOf? hscan hfront hopen hread hkind hstate, lastLexeme]
    cases lastOf? .tagName front <;> rfl
  have hname (hkind : t.kind ≠ .attributeName)
      (hfinal : (finalState .afterTagOpen front).isAtAttribute = true) :=
    attribute_eq_lastLexeme hscan hfront hopen hread hkind rfl hfinal hlt hle
  have hsite (site : CompletionSite) (hbelongs : site.BelongsTo cursor e)
      (h : ofToken? text cursor (lastLexeme .tagName [] front) (lastLexeme .attributeName [] front) t
        back = some site) :
      (ofTokens text cursor (lastLexeme .tagName [] front) (lastLexeme .attributeName [] front)
        (t :: back)).BelongsTo cursor e := by
    rwa [ofTokens_cons_of_some (Nat.le_of_lt hlt) hle h]
  generalize hst : finalState .afterTagOpen front = st at hreads hinside hname
  generalize hkind : t.kind = kind at hreads htag hname
  generalize hstate : t.state = after at hreads htag
  cases hreads with
  | tagName => exact hsite (.tagName t.offset t.stop) trivial (by rw [ofToken?, hkind])
  | blankBeforeName =>
    exact hsite (.afterBracket t.offset _) trivial (by rw [ofToken?, hkind, ofBlank?, hstate])
  | nameless h | tag h | valueless h | missingValue _ h =>
    cases h with
    | blank =>
      exact hsite (.attributeName _ t.stop cursor) (htag (by simp) (by simp))
        (by rw [ofToken?, hkind, ofBlank?, hstate])
    | attributeName =>
      exact hsite (.attributeName _ t.offset t.stop) (htag (by simp) (by simp)) (by rw [ofToken?, hkind])
    | selfClose | unexpected => exact hsite .nothing trivial (by rw [ofToken?, hkind])
    | close =>
      by_cases hempty : (lastLexeme .tagName [] front).isEmpty = true
      · obtain ⟨_, _, -, -, hrest⟩ := scan_eq_append hscan
        obtain ⟨-, -, tail, hback⟩ := scan_step hrest.symm
        rw [ofTokens_cons_of_none (Nat.le_of_lt hlt) (by rw [ofToken?, hkind]; exact if_pos hempty)]
        exact ofTokens_belongsTo_of_bodyState (hstate ▸ hback) hle
      · refine hsite (.afterStartTag t.stop _) ?_ (by rw [ofToken?, hkind]; exact if_neg hempty)
        exact tag_eq_some_of_getD (htag (by simp) (Token.bodyState_ne_afterTagOpen _)) hempty
  | blankAfterName =>
    exact hsite (.attributeName _ t.stop cursor) (htag (by simp) (by simp))
      (by rw [ofToken?, hkind, ofBlank?, hstate])
  | assign =>
    have hstop : t.stop = cursor := by
      have hmem : t ∈ scan .afterTagOpen offset cs := by rw [hscan]; simp
      have hwrites := writes_of_mem_scan hmem
      rw [hkind] at hwrites
      have hsize : t.token.size = 1 := congrArg Text.size hwrites
      rw [Placed.stop] at hle ⊢
      omega
    exact hsite (.attributeValue _ _ cursor _) ⟨htag (by simp) (by simp), hname (by simp) rfl⟩
      (by rw [ofToken?, hkind]; exact if_pos hstop)
  | blankBeforeValue =>
    exact hsite (.attributeValue _ _ t.stop cursor) ⟨htag (by simp) (by simp), hname (by simp) rfl⟩
      (by rw [ofToken?, hkind, ofBlank?, hstate])
  | value =>
    exact hsite (.attributeValue _ _ t.offset t.stop) ⟨htag (by simp) (by simp), hname (by simp) rfl⟩
      (by rw [ofToken?, hkind])
  | _ => cases hinside

end

end CompletionSite

-- ---------------------------------------------------------------------------
-- Completion
-- ---------------------------------------------------------------------------

theorem completions_eq (hsize : cursor ≤ text.size)
    (hchain : Element.chainBeforeAll cursor [] (Document.parse text).roots = e :: above)
    (hscan : scanFrom text e.start .content = .ok ts) (schema : Schema) (options : CompletionOptions) :
    (Document.parse text).completions schema options cursor =
      Completion.items ⟨Document.parse text, schema, options, cursor, e, above⟩
        (CompletionSite.ofTokens text cursor [] [] ts) := by
  have htext : (Document.parse text).text = text := rfl
  rw [Document.completions, parse_chainBefore hsize, hchain, htext]
  simp only [bind, Except.bind, hscan]

theorem scanFrom_bracket {text : Text} {before rest : List Placed} {p : Placed}
    (htokens : tokens text = before ++ p :: rest) (hw : p.kind.bracket? = some (c :: w)) :
    scanFrom text p.offset .content = .ok (p :: rest) := by
  have hat : TokenAt text p.kind p.offset := ⟨p, by rw [htokens]; simp, rfl, rfl⟩
  rw [(hat.rescans hw).tokens, htokens]
  have hbefore : ∀ q ∈ before, q.offset < p.offset := fun q hq => by
    have hstop := stop_le_of_mem_before htokens hq
    have hsize : 0 < q.token.size := size_pos_of_mem_tokens (by rw [htokens]; simp [hq])
    rw [Placed.stop] at hstop
    omega
  rw [List.dropWhile_append_of_pos fun q hq => by simpa using hbefore q hq,
    List.dropWhile_cons_of_neg (by simp)]

section
variable {text : Text} {before rest : List Placed} {p : Placed}
  (htokens : tokens text = before ++ p :: rest) (hopen : p.kind = .tagOpen)
include htokens hopen

theorem scanFrom_tagOpen : scanFrom text p.offset .content = .ok (p :: rest) :=
  scanFrom_bracket htokens (show p.kind.bracket? = some ['<'] by rw [hopen]; rfl)

theorem scan_tagOpen : ∃ tail, scan .afterTagOpen p.stop tail = rest := by
  obtain ⟨_, _, -, -, hrest⟩ := scan_eq_append htokens
  obtain ⟨hreads, -, tail, htail⟩ := scan_step hrest.symm
  rw [hopen] at hreads
  exact ⟨tail, hreads.of_tagOpen ▸ htail⟩

theorem site_belongsTo (ht : t ∈ p :: restOfTag rest) (hlt : t.offset < cursor) (hle : cursor ≤ t.stop)
    (hread : e.startTag = (rest.takeWhile (·.kind ≠ .tagOpen)).foldl StartTag.read
      { id := n, start := start }) :
    (CompletionSite.ofTokens text cursor [] [] (p :: rest)).BelongsTo cursor e := by
  rcases List.mem_cons.mp ht with rfl | ht
  · have hstop : t.stop = cursor := by
      have hmem : t ∈ tokens text := by rw [htokens]; simp
      have hstop : t.stop = t.offset + 1 := stop_of_bracket (w := ['<']) hmem (by rw [hopen]; rfl)
      omega
    rw [CompletionSite.ofTokens_cons_of_some (Nat.le_of_lt hlt) hle
      (by rw [CompletionSite.ofToken?, hopen]; exact if_pos hstop)]
    trivial
  · obtain ⟨tail, hscan⟩ := scan_tagOpen htokens hopen
    obtain ⟨front, back, rfl, hinside, hfront⟩ := exists_split_restOfTag hscan rfl ht
    have hpassed : ∀ q ∈ p :: front, q.stop < cursor := fun q hq => by
      have hsplit : tokens text = (before ++ p :: front) ++ t :: back := by rw [htokens]; simp
      exact Nat.lt_of_le_of_lt (stop_le_of_mem_before hsplit (List.mem_append_right _ hq)) hlt
    rw [← List.cons_append, CompletionSite.ofTokens_append text [] [] hpassed, lastLexeme_cons,
      lastLexeme_cons, hopen]
    exact CompletionSite.ofTokens_belongsTo hscan hfront hread hinside hlt hle text

/-- The cursor is inside the start tag that begins with the bracket `p`: at the end of or inside one
of its tokens `t`. Then both lookups find the element of that tag, the elements around it above it,
and completion offers items for this element and for names of its own tag and attributes. -/
theorem completions_inside_startTag (ht : t ∈ p :: restOfTag rest) (hlt : t.offset < cursor)
    (hle : cursor ≤ t.stop) :
    ∃ e above, Lineage (Document.parse text).roots (e :: above) ∧
      e.id = before.countP (·.kind = .tagOpen) + 1 ∧ e.start = p.offset ∧
      (Document.parse text).chainAt cursor = .ok (e :: above) ∧
      (Document.parse text).chainBefore cursor = .ok (e :: above) ∧
      (∀ schema options, (Document.parse text).completions schema options cursor =
        Completion.items ⟨Document.parse text, schema, options, cursor, e, above⟩
          (CompletionSite.ofTokens text cursor [] [] (p :: rest))) ∧
      (CompletionSite.ofTokens text cursor [] [] (p :: rest)).BelongsTo cursor e := by
  obtain ⟨e, he, hread⟩ := exists_element_of_tagOpen htokens hopen
  obtain ⟨hid, hstart⟩ := StartTag.foldl_read_place
    { id := before.countP (·.kind = .tagOpen) + 1, start := p.offset } (rest.takeWhile (·.kind ≠ .tagOpen))
  rw [← hread] at hid hstart
  replace hstart : e.start = p.offset := hstart
  obtain ⟨above, hlineage⟩ := Element.exists_lineage he
  obtain ⟨hstop, hchildren⟩ := tag_inside_element htokens hopen ht he hstart
  have hle' : p.offset ≤ t.offset := by
    rcases List.mem_cons.mp ht with rfl | ht
    · exact Nat.le_refl _
    · have hlater := stop_le_offset htokens (mem_of_mem_restOfTag ht)
      exact Nat.le_trans (Nat.le_add_right _ _) hlater
  have hspans : e.Spans cursor := ⟨by omega, Nat.le_trans hle hstop⟩
  obtain ⟨hat, hbefore⟩ := (parse_forest text).chain_eq hlineage hspans
    fun c hc => Nat.le_trans hle (hchildren c hc)
  have hsize : cursor ≤ text.size :=
    Nat.le_trans hspans.le_stop (parse_allRanged text e he).stop_le_size
  rw [parse_chainAt hsize, hat, parse_chainBefore hsize, hbefore]
  refine ⟨e, above, hlineage, hid, hstart, rfl, rfl, ?_, site_belongsTo htokens hopen ht hlt hle hread⟩
  exact completions_eq hsize hbefore (by rw [hstart]; exact scanFrom_tagOpen htokens hopen)

end

def openInput : Text :=
  ['<', '>', '<', 'i', 'n', 'p', 'u', 't', ' ', 'a', '=', 'é', ' ', 'B', '=', '>']

theorem completions_inside_openInput :
    ∃ e above, (Document.parse openInput).chainAt 16 = .ok (e :: above) ∧
      (Document.parse openInput).chainBefore 16 = .ok (e :: above) ∧ e.id = 2 ∧ e.start = 2 ∧
      CompletionSite.BelongsTo 16 e (.attributeValue "input".toList ['B'] 16 16) := by
  have htokens : tokens openInput = (tokens openInput).take 2 ++
      ⟨⟨.tagOpen, ['<'], none⟩, 2, .afterTagOpen⟩ :: (tokens openInput).drop 3 := by decide +kernel
  have hlt : (⟨⟨.assign, ['='], none⟩, 15, .beforeAttributeValue {}⟩ : Placed).offset < 16 := by decide
  obtain ⟨e, above, -, hid, hstart, hat, hbefore, -, hsite⟩ :=
    completions_inside_startTag htokens rfl (by decide +kernel) hlt (by decide)
  have hcount : ((tokens openInput).take 2).countP (·.kind = .tagOpen) + 1 = 2 := by decide +kernel
  have hwhere : CompletionSite.ofTokens openInput 16 [] []
      (⟨⟨.tagOpen, ['<'], none⟩, 2, .afterTagOpen⟩ :: (tokens openInput).drop 3) =
        .attributeValue "input".toList ['B'] 16 16 := by decide +kernel
  rw [hwhere] at hsite
  exact ⟨e, above, hat, hbefore, hid.trans hcount, hstart, hsite⟩

end PageMarkup
