import PageMarkup.Proofs.Answers

/-!
# The token that decides what is completed

The first token that reaches to the cursor decides the site of completion. Only the end of a start
tag without a name and the parts of an end tag leave it to the next token, which then begins at the
cursor and says nothing about names. So where a site carries the names of a tag and an attribute,
the cursor is inside that tag, and the tag is that of the element which completion looks at.
-/

namespace PageMarkup

open ScanState (Reads ReadsInTag)

-- ---------------------------------------------------------------------------
-- The element before the cursor
-- ---------------------------------------------------------------------------

namespace Element

mutual
theorem start_lt_of_mem_chainBefore (e : Element) (hx : x ∈ chainBefore offset above e) :
    x ∈ above ∨ x.start < offset := by
  cases e with
  | mk head children =>
    rw [chainBefore] at hx
    split at hx
    · next hlt =>
      have hbegun (hx : x ∈ (⟨head, children⟩ : Element) :: above) : x ∈ above ∨ x.start < offset := by
        rcases List.mem_cons.mp hx with rfl | hx
        · exact .inr hlt
        · exact .inl hx
      split at hx
      · rcases start_lt_of_mem_chainBeforeAll children hx with hx | hx
        · exact hbegun hx
        · exact .inr hx
      · exact hbegun hx
    · exact .inl hx
theorem start_lt_of_mem_chainBeforeAll (es : List Element) (hx : x ∈ chainBeforeAll offset above es) :
    x ∈ above ∨ x.start < offset := by
  cases es with
  | nil =>
    rw [chainBeforeAll] at hx
    exact .inl hx
  | cons e rest =>
    rw [chainBeforeAll] at hx
    split at hx
    · exact start_lt_of_mem_chainBeforeAll rest hx
    · exact start_lt_of_mem_chainBefore e hx
end

end Element

theorem le_size_of_chainBefore (h : (Document.parse text).chainBefore cursor = .ok chain) :
    cursor ≤ text.size := by
  rw [Document.chainBefore, Document.checkOffset, parse_root_stop] at h
  split at h
  · assumption
  · cases h

theorem start_lt_of_chainBefore (h : (Document.parse text).chainBefore cursor = .ok (e :: above)) :
    e.start < cursor := by
  rw [parse_chainBefore (le_size_of_chainBefore h)] at h
  have he : e ∈ Element.chainBeforeAll cursor [] (Document.parse text).roots := by
    rw [Except.ok.inj h]
    exact List.mem_cons_self
  exact (Element.start_lt_of_mem_chainBeforeAll _ he).resolve_left (by simp)

theorem mem_elements_of_chainBefore (h : (Document.parse text).chainBefore cursor = .ok chain)
    (he : e ∈ chain) : e ∈ (Document.parse text).elements := by
  have hlineage := chainBefore_lineage text cursor
  rw [parse_chainBefore (le_size_of_chainBefore h)] at h
  rw [Except.ok.inj h] at hlineage
  exact hlineage.mem_preorderAll he

-- ---------------------------------------------------------------------------
-- The first token that reaches to the cursor
-- ---------------------------------------------------------------------------

theorem Placed.stop_eq_of_single {p : Placed} (hlexeme : p.lexeme = [c]) (hc : c.utf8Size = 1)
    (hlt : p.offset < cursor) (hle : cursor ≤ p.stop) : p.stop = cursor := by
  have hsize : p.token.size = 1 := (congrArg Text.size hlexeme).trans hc
  rw [stop] at hle ⊢
  omega

namespace CompletionSite

theorem ofTokens_decided (text : Text) (h : scan state offset cs = ts) (hlt : offset < cursor)
    (tag name : Text) :
    ofTokens text cursor tag name ts = .nothing ∨
      ∃ front t back, ts = front ++ t :: back ∧ (∀ q ∈ front, q.stop < cursor) ∧
        t.offset < cursor ∧ cursor ≤ t.stop := by
  induction ts generalizing state offset cs tag name with
  | nil => exact .inl rfl
  | cons p ts ih =>
    obtain ⟨-, hoffset, tail, htail⟩ := scan_step h
    by_cases hstop : cursor ≤ p.stop
    · exact .inr ⟨[], p, ts, rfl, by simp, by omega, hstop⟩
    · rw [ofTokens, if_neg (by omega), if_neg hstop]
      refine (ih htail (Nat.not_le.mp hstop) _ _).imp_right ?_
      rintro ⟨front, t, back, rfl, hfront, ht⟩
      exact ⟨p :: front, t, back, rfl, List.forall_mem_cons.mpr ⟨Nat.not_le.mp hstop, hfront⟩, ht⟩

/-- A token that ends at the cursor or holds it is passed over only at the end of a start tag or in
an end tag. -/
theorem state_of_undecided (h : ofToken? text cursor tag name t back = none)
    (hreads : Reads state t.kind t.state) (hwrites : t.kind.Writes t.lexeme) (hlt : t.offset < cursor)
    (hle : cursor ≤ t.stop) :
    (t.kind = .tagClose ∧ ∃ raw, t.state = Token.bodyState raw) ∨ t.state = .endTag := by
  rw [ofToken?] at h
  generalize hkind : t.kind = kind at h hreads hwrites ⊢
  generalize hafter : t.state = after at hreads ⊢
  cases hreads with
  | nameless hin | tag hin | valueless hin | missingValue _ hin =>
    cases hin with
    | close => exact .inl ⟨rfl, _, rfl⟩
    | blank => rw [ofBlank?, hafter] at h; cases h
    | _ => cases h
  | tagOpen => simp [Placed.stop_eq_of_single hwrites rfl hlt hle] at h
  | assign => simp [Placed.stop_eq_of_single hwrites rfl hlt hle] at h
  | blankBeforeName | blankAfterName | blankBeforeValue | blankBeforeEndName =>
    rw [ofBlank?, hafter] at h
    cases h
  | blankInEndTag | endTagName => exact .inr rfl
  | _ => cases h

theorem ofTokens_later (text : Text) (h : scan state offset cs = ts)
    (hstate : (∃ raw, state = Token.bodyState raw) ∨ state = .endTag) (hle : cursor ≤ offset)
    (tag name : Text) :
    ofTokens text cursor tag name ts = .nothing ∨ (∃ raw, state = Token.bodyState raw) ∧
      (ofTokens text cursor tag name ts = .content ∨
        ofTokens text cursor tag name ts = .endTag (cursor + 1) cursor) := by
  rcases ofTokens_cases text cursor tag name ts with
    hsite | ⟨front, p, rest, tag', name', rfl, hstart, -, hsite⟩
  · exact .inl hsite
  generalize ofTokens text cursor tag name (front ++ p :: rest) = site at hsite ⊢
  cases front with
  | cons q front =>
    have hlater : q.stop ≤ p.offset := stop_le_of_mem_before h List.mem_cons_self
    have hq := (scan_step h).2.1
    have hsize : 0 < q.token.size := size_pos_of_mem_scan (by rw [h]; exact List.mem_cons_self)
    rw [Placed.stop] at hlater
    omega
  | nil =>
    obtain ⟨hreads, hoffset, -⟩ := scan_step h
    have hpos : 0 < p.token.size := size_pos_of_mem_scan (by rw [h]; exact List.mem_cons_self)
    have hstop : p.stop ≠ cursor := by rw [Placed.stop]; omega
    have hslash (kind : TokenKind) :
        endTag (p.offset + 1) (extend p rest cursor kind) = endTag (cursor + 1) cursor := by
      rw [extend_of_ne hstop, show p.offset = cursor by omega]
    rw [ofToken?] at hsite
    generalize hkind : p.kind = kind at hreads hsite
    generalize hafter : p.state = after at hreads
    rcases hstate with ⟨raw, rfl⟩ | rfl
    · cases raw with
      | none =>
        cases hreads with
        | content => cases hsite; exact .inr ⟨⟨_, rfl⟩, .inl rfl⟩
        | tagOpen => rw [if_neg hstop] at hsite; cases hsite
        | endTagOpen => cases hsite; exact .inr ⟨⟨_, rfl⟩, .inr (hslash _)⟩
        | _ => cases hsite; exact .inl rfl
      | script =>
        cases hreads with
        | scriptEnd => cases hsite; exact .inr ⟨⟨_, rfl⟩, .inr (hslash _)⟩
        | _ => cases hsite; exact .inl rfl
      | style =>
        cases hreads with
        | styleEnd => cases hsite; exact .inr ⟨⟨_, rfl⟩, .inr (hslash _)⟩
        | _ => cases hsite; exact .inr ⟨⟨_, rfl⟩, .inl rfl⟩
    · cases hreads with
      | blankInEndTag =>
        rw [ofBlank?, hafter] at hsite
        cases hsite
      | _ => cases hsite; exact .inl rfl

theorem ofToken?_belongsTo_outside (h : ofToken? text cursor tag name p rest = some site)
    (hreads : Reads state p.kind p.state) (hstate : state.isInTag = false) :
    site.BelongsTo cursor e := by
  rw [ofToken?] at h
  generalize hkind : p.kind = kind at h hreads
  generalize hafter : p.state = after at hreads
  cases hreads with
  | tagName | nameless | tag | valueless | missingValue | blankBeforeName | blankAfterName | assign
  | blankBeforeValue | value => cases hstate
  | tagOpen =>
    obtain ⟨-, hsite⟩ := Option.ite_none_right_eq_some.mp h
    cases hsite
    trivial
  | endTagName =>
    obtain ⟨slash, -, rfl⟩ := Option.map_eq_some_iff.mp h
    trivial
  | blankBeforeEndName =>
    rw [ofBlank?, hafter] at h
    cases h
    trivial
  | blankInEndTag =>
    rw [ofBlank?, hafter] at h
    cases h
  | _ =>
    cases h
    trivial

end CompletionSite

-- ---------------------------------------------------------------------------
-- The start tag around the cursor
-- ---------------------------------------------------------------------------

theorem ScanState.beginning?_of_isInTag {state : ScanState} (h : state.isInTag = true) :
    state.beginning? = some (.tagOpen, startTagParts) := by
  cases state with
  | afterTagOpen | tag | afterAttributeName | beforeAttributeValue => rfl
  | _ => cases h

theorem mem_restOfTag_append {mid : List Placed} (hmid : ∀ m ∈ mid, m.kind ∈ startTagParts)
    (back : List Placed) : t ∈ restOfTag (mid ++ t :: back) := by
  induction mid with
  | nil =>
    rw [List.nil_append, restOfTag]
    split <;> simp
  | cons m mid ih =>
    obtain ⟨hm, hmid⟩ := List.forall_mem_cons.mp hmid
    have hends : ¬ m.kind.endsTag = true := by
      intro h
      generalize m.kind = kind at hm h
      cases kind <;> simp [TokenKind.endsTag, startTagParts] at h hm
    rw [List.cons_append, restOfTag, if_neg hends]
    exact List.mem_cons_of_mem m (ih hmid)

theorem chainBefore_startTag (htokens : tokens text = before ++ p :: rest) (hopen : p.kind = .tagOpen)
    (ht : t ∈ p :: restOfTag rest) (hlt : t.offset < cursor) (hle : cursor ≤ t.stop)
    (hchain : (Document.parse text).chainBefore cursor = .ok (e :: above)) :
    e.startTag = (rest.takeWhile (·.kind ≠ .tagOpen)).foldl StartTag.read
      { id := before.countP (·.kind = .tagOpen) + 1, start := p.offset } := by
  obtain ⟨x, hx, hread⟩ := exists_element_of_tagOpen htokens hopen
  have hstart : x.start = p.offset := by
    have hplace := (StartTag.foldl_read_place
      { id := before.countP (·.kind = .tagOpen) + 1, start := p.offset }
      (rest.takeWhile (·.kind ≠ .tagOpen))).2
    rwa [← hread] at hplace
  obtain ⟨hstop, hchildren⟩ := tag_inside_element htokens hopen ht hx hstart
  have hbegun : p.offset ≤ t.offset := by
    rcases List.mem_cons.mp ht with rfl | ht
    · exact Nat.le_refl _
    · exact Nat.le_trans (Nat.le_add_right _ _) (stop_le_offset htokens (mem_of_mem_restOfTag ht))
  obtain ⟨around, hlineage⟩ := Element.exists_lineage hx
  have hfound := ((parse_forest text).chain_eq hlineage ⟨by omega, Nat.le_trans hle hstop⟩
    fun c hc => Nat.le_trans hle (hchildren c hc)).2
  rw [parse_chainBefore (le_size_of_chainBefore hchain), hfound] at hchain
  obtain ⟨rfl, -⟩ := List.cons.inj (Except.ok.inj hchain)
  exact hread

section
variable {text : Text} {cursor : Nat} {e : Element} {above : List Element} {ts : List Placed}
  (hchain : (Document.parse text).chainBefore cursor = .ok (e :: above))
  (hscan : scanFrom text e.start .content = .ok ts)
include hchain hscan

theorem exists_tokens_before : ∃ before p rest, tokens text = before ++ p :: rest ∧ ts = p :: rest ∧
    p.kind = .tagOpen ∧ p.offset = e.start := by
  obtain ⟨before, p, rest, htokens, hopen, hstart⟩ :=
    exists_tagOpen_of_mem_elements (mem_elements_of_chainBefore hchain List.mem_cons_self)
  rw [← hstart, scanFrom_tagOpen htokens hopen] at hscan
  exact ⟨before, p, rest, htokens, (Except.ok.inj hscan).symm, hopen, hstart⟩

/-- The tokens before the one which ends at the cursor or holds it only leave their names. -/
theorem exists_site_onward (htokens : tokens text = before ++ t :: back) (hlt : t.offset < cursor)
    (hle : cursor ≤ t.stop) :
    ∃ outer front, before = outer ++ front ∧ ts = front ++ t :: back ∧
      CompletionSite.ofTokens text cursor [] [] ts =
        CompletionSite.ofTokens text cursor (lastLexeme .tagName [] front)
          (lastLexeme .attributeName [] front) (t :: back) := by
  obtain ⟨outer, p, rest, hopened, rfl, -, hstart⟩ := exists_tokens_before hchain hscan
  obtain ⟨front, rfl, hrest⟩ : ∃ front, before = outer ++ front ∧ p :: rest = front ++ t :: back := by
    rcases List.append_eq_append_iff.mp (hopened.symm.trans htokens) with
      ⟨front, hbefore, hrest⟩ | ⟨_ | ⟨x, more⟩, rfl, hrest⟩
    · exact ⟨front, hbefore, hrest⟩
    · exact ⟨[], by simp, hrest.symm⟩
    · obtain ⟨rfl, -⟩ := List.cons.inj hrest
      have hpassed : t.stop ≤ p.offset := stop_le_of_mem_before hopened (by simp)
      have hbegun := start_lt_of_chainBefore hchain
      omega
  have hfront : ∀ q ∈ front, q.stop < cursor := fun q hq =>
    Nat.lt_of_le_of_lt (stop_le_of_mem_before htokens (List.mem_append_right _ hq)) hlt
  refine ⟨outer, front, rfl, hrest, ?_⟩
  rw [hrest, CompletionSite.ofTokens_append text [] [] hfront]

/-- The token which ends at the cursor or holds it decides the site, or else little is left. -/
theorem site_at (htokens : tokens text = before ++ t :: back) (hlt : t.offset < cursor)
    (hle : cursor ≤ t.stop) :
    ∃ outer front, before = outer ++ front ∧ ts = front ++ t :: back ∧
      (CompletionSite.ofToken? text cursor (lastLexeme .tagName [] front)
          (lastLexeme .attributeName [] front) t back =
            some (CompletionSite.ofTokens text cursor [] [] ts) ∨
        CompletionSite.ofTokens text cursor [] [] ts = .nothing ∨
        t.kind = .tagClose ∧ (CompletionSite.ofTokens text cursor [] [] ts = .content ∨
          CompletionSite.ofTokens text cursor [] [] ts = .endTag (cursor + 1) cursor)) := by
  obtain ⟨outer, front, rfl, hrest, hsite⟩ := exists_site_onward hchain hscan htokens hlt hle
  refine ⟨outer, front, rfl, hrest, ?_⟩
  rw [hsite]
  cases hdecided : CompletionSite.ofToken? text cursor (lastLexeme .tagName [] front)
      (lastLexeme .attributeName [] front) t back with
  | some site =>
    rw [CompletionSite.ofTokens_cons_of_some (Nat.le_of_lt hlt) hle hdecided]
    exact .inl rfl
  | none =>
    have hwrites : t.kind.Writes t.lexeme :=
      writes_of_mem_scan (show t ∈ tokens text by rw [htokens]; simp)
    have hstate := CompletionSite.state_of_undecided hdecided (reads_of_scan htokens).1 hwrites hlt hle
    obtain ⟨_, _, -, -, hback⟩ := scan_eq_append htokens
    obtain ⟨-, -, _, hlater⟩ := scan_step hback.symm
    rw [CompletionSite.ofTokens_cons_of_none (Nat.le_of_lt hlt) hdecided]
    refine .inr ((CompletionSite.ofTokens_later text hlater (hstate.imp_left And.right) hle _ _).imp_right ?_)
    rintro ⟨⟨raw, hbody⟩, hsite⟩
    rcases hstate with ⟨hclose, -⟩ | hend
    · exact ⟨hclose, hsite⟩
    · rw [hend] at hbody
      cases raw <;> cases hbody

theorem exists_token_at : CompletionSite.ofTokens text cursor [] [] ts = .nothing ∨
    ∃ before t back, tokens text = before ++ t :: back ∧ t.offset < cursor ∧ cursor ≤ t.stop := by
  obtain ⟨before, p, rest, htokens, rfl, -, hstart⟩ := exists_tokens_before hchain hscan
  obtain ⟨_, tail, -, -, hrest⟩ := scan_eq_append htokens
  have hbegun : finalOffset 0 before < cursor := by
    rw [← (reads_of_scan htokens).2, hstart]
    exact start_lt_of_chainBefore hchain
  refine (CompletionSite.ofTokens_decided text hrest.symm hbegun [] []).imp_right ?_
  rintro ⟨front, t, back, hsplit, -, hlt, hle⟩
  exact ⟨before ++ front, t, back, by rw [htokens, hsplit, List.append_assoc], hlt, hle⟩

theorem site_cases :
    (CompletionSite.ofTokens text cursor [] [] ts = .nothing ∨
      CompletionSite.ofTokens text cursor [] [] ts = .content ∨
      ∃ slash, CompletionSite.ofTokens text cursor [] [] ts = .endTag slash cursor) ∨
    ∃ before t back tag name, tokens text = before ++ t :: back ∧ t.offset < cursor ∧ cursor ≤ t.stop ∧
      CompletionSite.ofToken? text cursor tag name t back =
        some (CompletionSite.ofTokens text cursor [] [] ts) := by
  rcases exists_token_at hchain hscan with hsite | ⟨before, t, back, htokens, hlt, hle⟩
  · exact .inl (.inl hsite)
  obtain ⟨_, _, -, -, hsite | hsite | ⟨-, hsite | hsite⟩⟩ := site_at hchain hscan htokens hlt hle
  · exact .inr ⟨before, t, back, _, _, htokens, hlt, hle, hsite⟩
  · exact .inl (.inl hsite)
  · exact .inl (.inr (.inl hsite))
  · exact .inl (.inr (.inr ⟨_, hsite⟩))

theorem exists_startTag_found (htokens : tokens text = before ++ t :: back) (hlt : t.offset < cursor)
    (hle : cursor ≤ t.stop) (hin : (finalState .content before).isInTag = true) :
    ∃ front q mid, before = front ++ q :: mid ∧ q.kind = .tagOpen ∧ (∀ m ∈ mid, m.kind ∈ startTagParts) ∧
      ts = q :: (mid ++ t :: back) ∧
      e.startTag = ((mid ++ t :: back).takeWhile (·.kind ≠ .tagOpen)).foldl StartTag.read
        { id := front.countP (·.kind = .tagOpen) + 1, start := q.offset } := by
  have hcontent : ScanState.content.beginning? = none := rfl
  obtain ⟨front, q, mid, rfl, hopen, hmid⟩ :=
    exists_beginning hcontent htokens (ScanState.beginning?_of_isInTag hin)
  have htag : tokens text = front ++ q :: (mid ++ t :: back) := by rw [htokens]; simp
  have ht : t ∈ q :: restOfTag (mid ++ t :: back) :=
    List.mem_cons_of_mem q (mem_restOfTag_append hmid back)
  have hread := chainBefore_startTag htag hopen ht hlt hle hchain
  have hplace := (StartTag.foldl_read_place
    { id := front.countP (·.kind = .tagOpen) + 1, start := q.offset }
    ((mid ++ t :: back).takeWhile (·.kind ≠ .tagOpen))).2
  rw [← hread] at hplace
  replace hplace : e.start = q.offset := hplace
  rw [hplace, scanFrom_tagOpen htag hopen] at hscan
  exact ⟨front, q, mid, rfl, hopen, hmid, (Except.ok.inj hscan).symm, hread⟩

theorem site_belongsTo_found : (CompletionSite.ofTokens text cursor [] [] ts).BelongsTo cursor e := by
  rcases site_cases hchain hscan with
    (hsite | hsite | ⟨slash, hsite⟩) | ⟨before, t, back, tag, name, htokens, hlt, hle, hsite⟩
  · rw [hsite]; trivial
  · rw [hsite]; trivial
  · rw [hsite]; trivial
  cases hin : (finalState .content before).isInTag with
  | true =>
    obtain ⟨front, q, mid, rfl, hopen, hmid, rfl, hread⟩ :=
      exists_startTag_found hchain hscan htokens hlt hle hin
    have htag : tokens text = front ++ q :: (mid ++ t :: back) := by rw [htokens]; simp
    exact site_belongsTo htag hopen (List.mem_cons_of_mem q (mem_restOfTag_append hmid back)) hlt hle hread
  | false =>
    exact CompletionSite.ofToken?_belongsTo_outside hsite (reads_of_scan htokens).1 hin

end

end PageMarkup
