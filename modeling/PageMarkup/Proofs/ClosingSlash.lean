import PageMarkup.Proofs.ClosingEdits
import PageMarkup.Proofs.Contents
import PageMarkup.Proofs.Lexemes
import PageMarkup.Proofs.LongerTexts
import PageMarkup.Proofs.OpenChains
import PageMarkup.Proofs.SharedFronts

/-!
# Typing `</`

Where a tag may begin, `</` at the end of a text asks for one end tag only, that of the innermost open
element with a name. Accepting it closes the element, and no other (`slash_closes_innermost`), even if the
edit changes the indent of the line: the blanks belong to a run of content, and those before the run stay
as they are.
-/

namespace PageMarkup

-- ---------------------------------------------------------------------------
-- Another indent
-- ---------------------------------------------------------------------------

theorem scan_content {cs : Text} (hne : cs ≠ []) (h : '<' ∉ cs) (offset : Nat) :
    scan .content offset cs = [⟨⟨.content, cs, none⟩, offset, .content⟩] := by
  obtain ⟨c, cs, rfl⟩ := List.exists_cons_of_ne_nil hne
  have hnext : Token.next .content c (cs ++ []) = _ := Token.next_content_append h (by simp [Text.Stops])
  rw [List.append_nil] at hnext
  rw [scan_cons, hnext, scan]

theorem Token.nextBracket_state_ne (cs : Text) : (nextBracket cs).state ≠ .content := by
  unfold nextBracket
  repeat' split
  all_goals simp

theorem Token.nextRaw_state_ne {name : Text} {kind : TokenKind} (hstate : state ≠ .content)
    (hrest : (nextRaw name kind state c cs).rest = []) : (nextRaw name kind state c cs).state ≠ .content := by
  by_cases hend : startsEndTag name (c :: cs) = true
  · obtain ⟨rest, hnext⟩ := nextContent_of_startsEndTag hend
    rw [nextRaw, if_pos hend, hnext]
    simp
  · rw [nextRaw_eq hend] at hrest ⊢
    rwa [if_pos hrest]

theorem Token.content_of_next (h : (next state c cs).state = .content) (hrest : (next state c cs).rest = [])
    (hlast : (next state c cs).token.lexeme.getLast? ≠ some '>') : state = .content ∧ c ≠ '<' := by
  have hreads := next_reads state c cs
  have hwrites := (next_shaped state c cs).writes
  cases state with
  | content =>
    refine ⟨rfl, ?_⟩
    rintro rfl
    exact absurd h (nextBracket_state_ne cs)
  | scriptBody | styleBody => exact absurd h (nextRaw_state_ne (by simp) hrest)
  | comment =>
    simp only [next, nextComment] at h hlast
    split at h
    · exact absurd rfl hlast
    · cases h
  | doctype =>
    by_cases hc : c = '>'
    · rw [next, nextDoctype, if_pos hc] at hlast
      exact absurd (congrArg some hc) hlast
    · rw [next, nextDoctype, if_neg hc] at h
      cases h
  | _ =>
    refine absurd (hreads.getLast?_of_isBody ?_ (by simp [ScanState.beginning?]) hwrites) hlast
    rw [h]
    rfl

theorem content_of_last {text : Text} {before : List Placed} {t : Placed} (h : tokens text = before ++ [t])
    (hstate : t.state = .content) (hlast : text.getLast? ≠ some '>') :
    text = before.flatMap Placed.lexeme ++ t.lexeme ∧ finalState .content before = .content ∧
      t.kind = .content ∧ '<' ∉ t.lexeme := by
  obtain ⟨tail, htext, hscan⟩ := exists_scan_onward h
  obtain ⟨c, cs, rfl, ht, hrest⟩ := scan_eq_cons hscan.symm
  have hrest := eq_nil_of_scan_eq_nil hrest.symm
  have hcut := Token.next_lexeme_append_rest (finalState .content before) c cs
  rw [hrest, List.append_nil] at hcut
  rw [← hcut] at htext
  rw [ht] at hstate
  obtain ⟨hbefore, hc⟩ := Token.content_of_next hstate hrest fun hclose => hlast (by
    rw [htext, List.getLast?_append, hclose]
    rfl)
  rw [hbefore] at ht htext
  rw [Token.next, Token.nextContent, if_neg hc] at ht htext
  rw [ht]
  refine ⟨htext, hbefore, rfl, fun hmem => ?_⟩
  rcases List.mem_cons.mp hmem with heq | hmem
  · exact hc heq.symm
  · exact absurd (List.all_eq_true.mp List.all_takeWhile '<' hmem) (by simp)

theorem getLast?_append_blanks_ne {w : Text} (hne : w ≠ []) (hw : ∀ c ∈ w, isBlank c = true) (front : Text) :
    (front ++ w).getLast? ≠ some '>' := by
  intro hlast
  cases hw _ (Text.mem_of_getLast?_append hne hlast)

/-- A run of content has all the blanks before its end: what comes before the run does not end in one. -/
theorem lexeme_of_blanks {y w : Text} {before : List Placed} {t : Placed} (h : tokens (y ++ w) = before ++ [t])
    (hkind : t.kind = .content) (htext : y ++ w = before.flatMap Placed.lexeme ++ t.lexeme)
    (hw : ∀ c ∈ w, isBlank c = true) : ∃ x, y = before.flatMap Placed.lexeme ++ x ∧ t.lexeme = x ++ w := by
  rcases List.append_eq_append_iff.mp htext with ⟨_ | ⟨d, x⟩, hfront, hx⟩ | ⟨x, hfront, hx⟩
  · exact ⟨[], by simpa using hfront.symm, hx.symm⟩
  · rcases getLast?_before_content h hkind with rfl | hclose
    · simp at hfront
    · rw [upTo_offset h, hfront] at hclose
      rw [hx] at hw
      exact absurd hclose (getLast?_append_blanks_ne (List.cons_ne_nil _ _) (List.forall_mem_append.mp hw).1 _)
  · exact ⟨x, hfront, hx⟩

theorem tokens_reindent {y written wanted : Text} (hq : isBlank q = true)
    (hwritten : ∀ c ∈ written, isBlank c = true) (hwanted : ∀ c ∈ wanted, isBlank c = true)
    (hstate : finalState .content (tokens (y ++ q :: written)) = .content) :
    ∃ before t t', tokens (y ++ q :: written) = before ++ [t] ∧ tokens (y ++ q :: wanted) = before ++ [t'] ∧
      t.offset ≤ y.size ∧ t.kind = .content ∧ t'.kind = .content ∧ t'.state = .content := by
  have hold : ∀ c ∈ q :: written, isBlank c = true := List.forall_mem_cons.mpr ⟨hq, hwritten⟩
  have hnew : ∀ c ∈ q :: wanted, isBlank c = true := List.forall_mem_cons.mpr ⟨hq, hwanted⟩
  rcases List.eq_nil_or_concat (tokens (y ++ q :: written)) with hnil | ⟨before, t, hts⟩
  · exact absurd (eq_nil_of_scan_eq_nil hnil) (by simp)
  rw [List.concat_eq_append] at hts
  rw [hts, finalState_concat] at hstate
  obtain ⟨htext, hbefore, hkind, hrun⟩ :=
    content_of_last hts hstate (getLast?_append_blanks_ne (List.cons_ne_nil _ _) hold y)
  obtain ⟨x, rfl, hlexeme⟩ := lexeme_of_blanks hts hkind htext hold
  rw [hlexeme] at hrun
  have hclear : '<' ∉ x ++ q :: wanted := by
    intro hmem
    rcases List.mem_append.mp hmem with hmem | hmem
    · exact hrun (List.mem_append_left _ hmem)
    · cases hnew _ hmem
  rw [List.append_assoc] at hts
  have hscan := scan_before_delimiter (show isDelimiter q = true by simp [isDelimiter, hq]) hts rfl wanted
  rw [hbefore, scan_content (by simp) hclear] at hscan
  rw [List.append_assoc, List.append_assoc]
  refine ⟨before, t, _, hts, hscan, ?_, hkind, rfl, rfl⟩
  rw [offset_eq_size hts, Text.size_append]
  exact Nat.le_add_right _ _

-- ---------------------------------------------------------------------------
-- What is offered
-- ---------------------------------------------------------------------------

theorem tokens_append_slash {text : Text} (h : finalState .content (tokens text) = .content) :
    tokens (text ++ ['<', '/']) =
      tokens text ++ [⟨⟨.endTagOpen, ['<', '/'], none⟩, text.size, .afterEndTagOpen⟩] := by
  have hnext : Token.next .content '<' ['/'] = ⟨⟨.endTagOpen, ['<', '/'], none⟩, .afterEndTagOpen, []⟩ := rfl
  rw [tokens, scan_append_bracket h, Nat.zero_add, scan_cons, hnext, scan]
  rfl

theorem offset_le_size_of_mem_tokens (h : p ∈ tokens text) : p.offset ≤ text.size :=
  Nat.le_trans (Nat.le_add_right _ _) (stop_le_of_mem_tokens h)

theorem Draft.accept_endTagOpen (text : Text) (d : Draft) {p : Placed} (hp : p.kind = .endTagOpen) :
    (d.accept text p).current = d.current ∧ (d.accept text p).above = d.above ∧
      (d.accept text p).endTagOpen = some p.offset := by
  obtain ⟨hcurrent, habove, -⟩ := d.note_sameTree p
  simp only [accept, hp]
  exact ⟨hcurrent, habove, trivial⟩

/-- At the end of the text, behind `</`, the open elements are found, and none of them is closed. -/
theorem exists_chain_slash {text : Text} (hstate : finalState .content (tokens text) = .content)
    (hopen : (Draft.after text (tokens text)).openStartTags ≠ []) :
    ∃ chain, (Document.parse (text ++ ['<', '/'])).chainBefore (text.size + 2) = .ok chain ∧
      chain.map Element.startTag = (Draft.after text (tokens text)).openStartTags ∧
      ∀ x ∈ chain, x.closed = false := by
  have htokens := tokens_append_slash hstate
  have hsize : Text.size (text ++ ['<', '/']) = text.size + 2 := Text.size_append _ _
  have halike := Draft.after_alike text [] ['<', '/'] fun p (hp : p ∈ tokens text) =>
    offset_le_size_of_mem_tokens hp
  rw [List.append_nil] at halike
  rw [halike.openStartTags] at hopen ⊢
  have horder := Draft.after_inOrder htokens
  rw [hstate, tokens, finalOffset_scan, Nat.zero_add] at horder
  obtain ⟨hcurrent, habove, -⟩ := Draft.accept_endTagOpen (text ++ ['<', '/'])
    (Draft.after (text ++ ['<', '/']) (tokens text))
    (p := ⟨⟨.endTagOpen, ['<', '/'], none⟩, text.size, .afterEndTagOpen⟩) rfl
  rw [← Draft.after_concat, ← htokens] at hcurrent habove
  rw [← hsize]
  refine ⟨_, parse_chainBefore_end rfl ?_ ?_, ?_, ?_⟩
  · rw [habove]
    intro hnil
    rw [Draft.openStartTags, hnil] at hopen
    exact hopen rfl
  · rw [hcurrent, hsize]
    intro c hc
    exact Nat.lt_add_right 1 (Nat.lt_succ_of_le (Open.stop_le horder (Element.mem_preorderAll hc)))
  · rw [map_endedElements fun _ _ _ _ => rfl, hcurrent, habove]
    rfl
  · exact fun x hx => (ended_of_mem_endedElements hx).2

/-- Of elements that are not closed, the first one with a name waits for its end tag. -/
theorem Completion.find?_waits {c : Completion} {chain : List Element} {s : StartTag} {inner outer : List StartTag}
    (hchain : chain.map Element.startTag = inner ++ s :: outer) (hclosed : ∀ x ∈ chain, x.closed = false)
    (hinner : ∀ x ∈ inner, x.tag = none) (hs : s.tag = some tag) :
    ∃ x, chain.find? c.waits = some x ∧ x.startTag = s := by
  obtain ⟨front, back, rfl, hfront, hback⟩ := List.map_eq_append_iff.mp hchain
  obtain ⟨x, rest, rfl, hx, -⟩ := List.map_eq_cons_iff.mp hback
  refine ⟨x, List.find?_eq_some_iff_append.mpr ⟨?_, front, rest, rfl, fun y hy => ?_⟩, hx⟩
  · have htag : x.tag = some tag := (congrArg StartTag.tag hx).trans hs
    simp [waits, htag, hclosed x (by simp)]
  · have htag : y.tag = none := hinner y.startTag (by rw [← hfront]; exact List.mem_map_of_mem hy)
    simp [waits, htag]

theorem isFollowedBy_size (text : Text) (state : ScanState) (kind : TokenKind) :
    isFollowedBy text text.size state kind = .ok false := by
  have hend := Text.suffixAt?_size_append text []
  rw [List.append_nil] at hend
  simp only [isFollowedBy, scanFrom, hend, scan]
  rfl

theorem Completion.closingTags_of_find? {c : Completion} {x : Element}
    (hfind : (c.element :: c.above).find? c.waits = some x) (htag : x.tag = some tag)
    (hstop : c.text.size = stop) (start : Nat) :
    c.closingTags start stop = .ok [c.closing x tag start stop ">"] := by
  subst hstop
  simp only [closingTags, closingTag?, isFollowedBy_size, hfind, htag, bind, Except.bind, pure, Except.pure,
    Option.bind_some, Option.map_some]
  rfl

theorem CompletionSite.ofTokens_slash (text tag name : Text) (offset : Nat) :
    ofTokens text (offset + 2) tag name [⟨⟨.endTagOpen, ['<', '/'], none⟩, offset, .afterEndTagOpen⟩] =
      .endTag (offset + 1) (offset + 2) := by
  have hstop : Placed.stop ⟨⟨.endTagOpen, ['<', '/'], none⟩, offset, .afterEndTagOpen⟩ = offset + 2 := rfl
  rw [ofTokens, if_neg (Nat.not_lt.mpr (Nat.le_add_right _ _)), hstop, if_pos (Nat.le_refl _)]
  rfl

theorem completions_slash {text : Text} {s : StartTag} {inner outer : List StartTag}
    (hstate : finalState .content (tokens text) = .content)
    (hopen : (Draft.after text (tokens text)).openStartTags = inner ++ s :: outer)
    (hinner : ∀ x ∈ inner, x.tag = none) (hs : s.tag = some tag) (schema : Schema) (options : CompletionOptions) :
    ∃ (c : Completion) (x : Element), c.text = text ++ ['<', '/'] ∧ c.cursor = text.size + 2 ∧
      x.startTag = s ∧
      (Document.parse (text ++ ['<', '/'])).completions schema options (text.size + 2) =
        .ok [c.closing x tag (text.size + 1) (text.size + 2) ">"] := by
  have hsize : Text.size (text ++ ['<', '/']) = text.size + 2 := Text.size_append _ _
  obtain ⟨chain, hchain, htags, hclosed⟩ := exists_chain_slash hstate (by simp [hopen])
  rw [hopen] at htags
  cases chain with
  | nil => simp at htags
  | cons e above =>
    have he := mem_elements_of_chainBefore hchain List.mem_cons_self
    obtain ⟨ts, hscan⟩ := (parse_allRanged _ e he).opens.isBoundary.scanFrom .content
    obtain ⟨_, front, -, -, hsite⟩ := exists_site_onward hchain hscan (tokens_append_slash hstate)
      (Nat.lt_add_of_pos_right (Nat.zero_lt_succ 1)) (Nat.le_refl _)
    obtain ⟨x, hfind, hx⟩ := Completion.find?_waits
      (c := ⟨Document.parse (text ++ ['<', '/']), schema, options, text.size + 2, e, above⟩) htags hclosed hinner hs
    refine ⟨⟨Document.parse (text ++ ['<', '/']), schema, options, text.size + 2, e, above⟩, x, rfl, rfl, hx, ?_⟩
    have hall := Except.ok.inj ((parse_chainBefore (le_size_of_chainBefore hchain)).symm.trans hchain)
    rw [completions_eq (le_size_of_chainBefore hchain) hall hscan, hsite, CompletionSite.ofTokens_slash]
    exact Completion.closingTags_of_find? hfind ((congrArg StartTag.tag hx).trans hs) hsize _

-- ---------------------------------------------------------------------------
-- What is written
-- ---------------------------------------------------------------------------

theorem getLast?_of_lineIndent? {text front indent : Text} (h : lineIndent? text offset = some indent)
    (hfront : text.upTo offset = front ++ indent) : ∀ q ∈ front.getLast?, q = '\n' ∨ q = '\r' := by
  have hparts (p : Char → Bool) (hindent : indent = ((text.upTo offset).reverse.takeWhile p).reverse) :
      front.reverse = (text.upTo offset).reverse.dropWhile p := by
    have hcut : (text.upTo offset).reverse.takeWhile p ++ (text.upTo offset).reverse.dropWhile p =
        indent.reverse ++ front.reverse := by
      rw [List.takeWhile_append_dropWhile, hfront, List.reverse_append]
    rw [hindent, List.reverse_reverse] at hcut
    exact (List.append_cancel_left hcut).symm
  rw [← List.head?_reverse]
  rw [lineIndent?] at h
  split at h
  · next hrest =>
    rw [hparts _ (Option.some.inj h).symm, hrest]
    rintro _ ⟨⟩
  · next hrest =>
    rw [hparts _ (Option.some.inj h).symm, hrest]
    rintro _ ⟨⟩
    exact .inl rfl
  · next hrest =>
    rw [hparts _ (Option.some.inj h).symm, hrest]
    rintro _ ⟨⟩
    exact .inr rfl
  · cases h

/-- The second text is the first one, or differs from it in the indent of the last line. -/
inductive Text.Reindented : Text → Text → Prop
  | same (text : Text) : Reindented text text
  | line {front written wanted : Text} (start : ∀ q ∈ front.getLast?, q = '\n' ∨ q = '\r')
      (old : ∀ c ∈ written, isBlank c = true) (new : ∀ c ∈ wanted, isBlank c = true) :
      Reindented (front ++ written) (front ++ wanted)

theorem Completion.closing_apply {c : Completion} {text : Text} (htext : c.text = text ++ ['<', '/'])
    (hcursor : c.cursor = text.size + 2) (x : Element) (tag : String) :
    ∃ front, (c.closing x tag (text.size + 1) (text.size + 2) ">").edit.apply c.text =
        front ++ '<' :: '/' :: (tag.toList ++ ['>']) ∧ text.Reindented front := by
  have hsize : Text.size (text ++ ['<', '/']) = text.size + 2 := Text.size_append _ _
  have hend : c.text.onward (text.size + 2) = [] := by
    have hend := Text.onward_size_append (text ++ ['<', '/']) []
    rwa [hsize, List.append_nil, ← htext] at hend
  rcases c.closing_edit x tag (text.size + 1) (text.size + 2) ">" with
    hedit | ⟨wanted, written, hwanted, hwritten, hedit⟩
  · refine ⟨text, ?_, .same text⟩
    have hfront : c.text.upTo (text.size + 1) = text ++ ['<'] := by
      have hfront := Text.upTo_size_append (text ++ ['<']) ['/']
      rw [Text.size_append, List.append_assoc] at hfront
      rw [htext]
      exact hfront
    rw [hedit, edit_apply (by omega), hfront, hend]
    simp
  · rw [Nat.add_sub_cancel] at hwritten hedit
    obtain ⟨⟨line, hline⟩, hblank⟩ := of_lineIndent? hwritten
    have hstart := getLast?_of_lineIndent? hwritten hline
    rw [htext, Text.upTo_size_append] at hline
    subst hline
    have hfront : c.text.upTo (Text.size (line ++ written) - Text.size written) = line := by
      rw [htext, Text.size_append, Nat.add_sub_cancel, List.append_assoc, Text.upTo_size_append]
    refine ⟨line ++ wanted, ?_, .line hstart hblank (of_lineIndent? hwanted).2⟩
    rw [hedit, edit_apply (by omega), hfront, hcursor, hend]
    simp

-- ---------------------------------------------------------------------------
-- The end tag
-- ---------------------------------------------------------------------------

theorem tokens_append_endTag {front name : Text} (h : finalState .content (tokens front) = .content)
    (hname : TokenKind.endTagName.Writes name) :
    tokens (front ++ '<' :: '/' :: (name ++ ['>'])) = tokens front ++
      [⟨⟨.endTagOpen, ['<', '/'], none⟩, front.size, .afterEndTagOpen⟩,
        ⟨⟨.endTagName, name, none⟩, front.size + 2, .endTag⟩,
        ⟨⟨.endTagClose, ['>'], none⟩, front.size + 2 + name.size, .content⟩] := by
  obtain ⟨c, cs, rfl, hc, hcs⟩ := hname
  have hopen : Token.next .content '<' ('/' :: (c :: cs ++ ['>'])) =
      ⟨⟨.endTagOpen, ['<', '/'], none⟩, .afterEndTagOpen, c :: cs ++ ['>']⟩ := rfl
  have hnext : Token.next .afterEndTagOpen c (cs ++ ['>']) =
      ⟨⟨.endTagName, c :: cs, none⟩, .endTag, ['>']⟩ := by
    rw [Token.next, Token.nextEndTagName, if_pos hc, Token.stepRun_append hcs (Text.stops_cons rfl)]
  have hclose : Token.next .endTag '>' [] = ⟨⟨.endTagClose, ['>'], none⟩, .content, []⟩ := rfl
  rw [tokens, scan_append_bracket h, Nat.zero_add, scan_cons, hopen]
  simp only
  rw [List.cons_append, scan_cons, hnext]
  simp only
  rw [scan_cons, hclose, scan]
  rfl

namespace Draft

variable {d : Draft} {p q r : Placed} {s : StartTag} {inner outer : List StartTag}

theorem accept_endTagName (text : Text) (hq : q.kind = .endTagName) (hbegun : d.endTagOpen = some start)
    (hvoid : ∀ x ∈ openElements d.current d.above, x.isVoid = false)
    (hopen : d.openStartTags = inner ++ s :: outer)
    (hinner : ∀ x ∈ inner, x.hasName (String.ofList q.lexeme) = false)
    (hs : s.hasName (String.ofList q.lexeme) = true) :
    ∃ (x parent : Element) (rest : List Element), x.startTag = s ∧
      (openElements parent rest).map Element.startTag = outer ∧
      (d.accept text q).current = { x with closed := true, endTagStart := some start } ∧
      (d.accept text q).above = parent :: rest := by
  simp only [← StartTag.hasName_toLower _ (String.ofList q.lexeme)] at hinner hs
  obtain ⟨x, parent, rest, hclosed, hx, houter⟩ := closeUpTo_of_openElements hopen hinner hs start
  have hstep := nameEndTag_step text (d.note q) q.lexeme q.offset q.stop
  obtain ⟨hcurrent, habove, hsame⟩ := d.note_sameTree q
  rw [hsame, hbegun, Option.getD_some] at hstep
  rw [← hcurrent, ← habove] at hclosed hvoid
  simp only [accept, hq]
  refine ⟨x, parent, rest, hx, houter, ?_⟩
  generalize ((d.note q).nameEndTag text q.lexeme q.offset q.stop).current = e,
    ((d.note q).nameEndTag text q.lexeme q.offset q.stop).above = above at hstep ⊢
  cases hstep with
  | absorbed void =>
    -- A void element is never open, so the tag is not the name of one.
    obtain ⟨-, hname, -⟩ := of_voidBefore? void
    have hmem : s ∈ d.openStartTags := by
      rw [hopen]
      exact List.mem_append_right _ List.mem_cons_self
    obtain ⟨y, hy, rfl⟩ := List.mem_map.mp hmem
    rw [← hcurrent, ← habove] at hy
    exact absurd (Element.isVoid_of_hasName hs hname) (ne_true_of_eq_false (hvoid y hy))
  | found void closed =>
    rw [hclosed] at closed
    obtain ⟨rfl, hrest⟩ := Prod.mk.inj closed
    exact ⟨rfl, hrest.symm⟩
  | lost void closed =>
    rw [hclosed] at closed
    cases (Prod.mk.inj closed).2

/-- The tokens of an end tag close the innermost open element of its name. -/
theorem accept_endTag (text : Text) (hp : p.kind = .endTagOpen) (hq : q.kind = .endTagName)
    (hr : r.kind = .endTagClose)
    (hvoid : ∀ x ∈ openElements d.current d.above, x.isVoid = false)
    (hopen : d.openStartTags = inner ++ s :: outer)
    (hinner : ∀ x ∈ inner, x.hasName (String.ofList q.lexeme) = false)
    (hs : s.hasName (String.ofList q.lexeme) = true) :
    ([p, q, r].foldl (accept text) d).openStartTags = outer ∧
      ∃ x ∈ ([p, q, r].foldl (accept text) d).current.children, x.startTag = s ∧ x.closed = true ∧
        x.endTagStart = some p.offset ∧ x.stop = r.stop := by
  obtain ⟨hcurrent, habove, hbegun⟩ := d.accept_endTagOpen text hp
  rw [← hcurrent, ← habove] at hvoid
  rw [openStartTags, ← hcurrent, ← habove] at hopen
  obtain ⟨x, parent, rest, hx, houter, hcurrent, habove⟩ :=
    accept_endTagName text hq hbegun hvoid hopen hinner hs
  simp only [List.foldl_cons, List.foldl_nil]
  generalize (d.accept text p).accept text q = d' at hcurrent habove ⊢
  obtain ⟨hcurrent', habove', -⟩ := d'.note_sameTree r
  rw [accept, hr]
  simp only [leave, habove', hcurrent', habove, hcurrent]
  refine ⟨?_, _, List.mem_append_right _ List.mem_cons_self, hx, rfl, rfl, rfl⟩
  rw [← houter]
  exact map_openElements_push (fun _ _ _ _ => rfl) parent _ rest

end Draft

-- ---------------------------------------------------------------------------
-- Before and after
-- ---------------------------------------------------------------------------

theorem waiting_of_content {text : Text} {ts rest : List Placed} (htokens : tokens text = ts ++ rest)
    (hstate : finalState .content ts = .content) :
    ∀ x ∈ openElements (Draft.after text ts).current (Draft.after text ts).above, Waiting text x := by
  have htracked := Tracked.after htokens
  rw [hstate] at htracked
  exact htracked.waiting

theorem exists_of_mem_openStartTags {text : Text} {s : StartTag}
    (hstate : finalState .content (tokens text) = .content)
    (hs : s ∈ (Draft.after text (tokens text)).openStartTags) :
    ∃ x ∈ (Document.parse text).elements, x.startTag = s ∧ x.closed = false ∧ x.endTagStart = none ∧
      x.stop = text.size := by
  have hwaiting := waiting_of_content (List.append_nil _).symm hstate
  have hmap := map_endedElements (f := fun e : Element => (e.startTag, e.endTagStart)) (fun _ _ _ _ => rfl)
    text.size (Draft.after text (tokens text)).current (Draft.after text (tokens text)).above
  obtain ⟨y, hy, rfl⟩ := List.mem_map.mp hs
  have hmem := List.mem_map_of_mem (f := fun e : Element => (e.startTag, e.endTagStart)) hy
  rw [← hmap] at hmem
  obtain ⟨x, hx, hxy⟩ := List.mem_map.mp hmem
  obtain ⟨htag, hend⟩ := Prod.mk.inj hxy
  obtain ⟨hstop, hclosed⟩ := ended_of_mem_endedElements hx
  exact ⟨x, (lineage_endedElements _ _ _).mem_preorderAll hx, htag, hclosed,
    hend.trans (hwaiting y hy).endTag, hstop⟩

theorem openStartTags_of_not_mem {cs : Text} (h : '<' ∉ cs) (text : Text) :
    (Draft.after text (tokens cs)).openStartTags = [] := by
  by_cases hne : cs = []
  · rw [hne, tokens, scan]
    rfl
  · rw [tokens, scan_content hne h, ← List.nil_append [_], Draft.after_concat,
      Draft.openStartTags_accept_content _ _ rfl]
    rfl

theorem Text.Reindented.openStartTags {text front : Text} (h : text.Reindented front)
    (hstate : finalState .content (tokens text) = .content)
    (hopen : (Draft.after text (tokens text)).openStartTags ≠ []) (rest : Text) :
    finalState .content (tokens front) = .content ∧
      (Draft.after (front ++ rest) (tokens front)).openStartTags =
        (Draft.after text (tokens text)).openStartTags := by
  cases h with
  | same =>
    have halike := Draft.after_alike text rest [] fun p (hp : p ∈ tokens text) => offset_le_size_of_mem_tokens hp
    rw [List.append_nil] at halike
    exact ⟨hstate, halike.openStartTags⟩
  | @line front written wanted start old new =>
    rcases List.eq_nil_or_concat front with rfl | ⟨y, q, rfl⟩
    · refine absurd (openStartTags_of_not_mem (fun hmem => ?_) _) hopen
      cases old _ hmem
    · rw [List.concat_eq_append] at start hstate hopen ⊢
      have hq : isBlank q = true := by
        rcases start q List.getLast?_concat with rfl | rfl <;> rfl
      simp only [List.append_assoc, List.singleton_append] at hstate hopen ⊢
      obtain ⟨before, t, t', hts, hts', hle, ht, ht', hstate'⟩ := tokens_reindent hq old new hstate
      rw [hts, hts', finalState_concat, Draft.after_concat, Draft.after_concat,
        Draft.openStartTags_accept_content _ _ ht, Draft.openStartTags_accept_content _ _ ht']
      refine ⟨hstate', (Draft.after_alike y _ _ fun p hp => ?_).openStartTags⟩
      calc p.offset ≤ p.stop := Nat.le_add_right _ _
        _ ≤ t.offset := stop_le_of_mem_before hts hp
        _ ≤ Text.size y := hle

/-- An end tag at the end of a page closes the innermost open element that has a name, if it is its own. -/
theorem endTag_closes {page front : Text} {s : StartTag} {inner outer : List StartTag} {tag : String}
    (hpage : page = front ++ '<' :: '/' :: (tag.toList ++ ['>']))
    (hstate : finalState .content (tokens front) = .content) (hname : TokenKind.endTagName.Writes tag.toList)
    (hopen : (Draft.after page (tokens front)).openStartTags = inner ++ s :: outer)
    (hinner : ∀ x ∈ inner, x.tag = none) (hs : s.tag = some tag) :
    finalState .content (tokens page) = .content ∧
      (Draft.after page (tokens page)).openStartTags = outer ∧
      ∃ x ∈ (Document.parse page).elements, x.startTag = s ∧ x.closed = true ∧
        x.endTagStart = some front.size ∧ x.stop = page.size := by
  have htokens := tokens_append_endTag hstate hname
  rw [← hpage] at htokens
  have hnone : ∀ x ∈ inner, x.hasName (String.ofList tag.toList) = false := fun x hx => by
    rw [StartTag.hasName, hinner x hx]
  have hown : s.hasName (String.ofList tag.toList) = true := by
    rw [StartTag.hasName, hs, String.ofList_toList]
    exact decide_eq_true rfl
  obtain ⟨houter, x, hx, htag, hclosed, hend, hstop⟩ := Draft.accept_endTag page
    (p := ⟨⟨.endTagOpen, ['<', '/'], none⟩, front.size, .afterEndTagOpen⟩)
    (q := ⟨⟨.endTagName, tag.toList, none⟩, front.size + 2, .endTag⟩)
    (r := ⟨⟨.endTagClose, ['>'], none⟩, front.size + 2 + Text.size tag.toList, .content⟩)
    rfl rfl rfl (fun x hx => (waiting_of_content htokens hstate x hx).not_void) hopen hnone hown
  rw [Draft.after, ← List.foldl_append, ← htokens] at houter hx
  refine ⟨?_, houter, x, mem_closeAll_of_mem_children hx _ _, htag, hclosed, hend, hstop.trans ?_⟩
  · rw [htokens]
    exact finalState_append _ _ (List.cons_ne_nil _ _)
  · rw [hpage, Text.size_append, Text.size_cons, Text.size_cons, Text.size_append]
    show front.size + 2 + Text.size tag.toList + 1 = front.size + (1 + (1 + (Text.size tag.toList + 1)))
    omega

/-- Where a tag may begin, typing `</` at the end of a text asks for the end tag of the innermost open element
with a name, and nothing else. Accepting it closes the element, and those around it stay open. -/
theorem slash_closes_innermost {text : Text} {e : Element} {inner outer : List Element} {tag : String}
    (hstate : finalState .content (tokens text) = .content)
    (hopen : openElements (Draft.after text (tokens text)).current (Draft.after text (tokens text)).above =
      inner ++ e :: outer)
    (hinner : ∀ x ∈ inner, x.tag = none) (htag : e.tag = some tag) (schema : Schema)
    (options : CompletionOptions) :
    ∃ item front page,
      (Document.parse (text ++ ['<', '/'])).completions schema options (text.size + 2) = .ok [item] ∧
      item.label = "/" ++ tag ∧ item.edit.apply (text ++ ['<', '/']) = page ∧
      page = front ++ '<' :: '/' :: (tag.toList ++ ['>']) ∧ text.Reindented front ∧
      (∃ x ∈ (Document.parse page).elements, x.startTag = e.startTag ∧ x.closed = true ∧
        x.endTagStart = some front.size ∧ x.stop = page.size) ∧
      (Draft.after page (tokens page)).openStartTags = outer.map Element.startTag ∧
      ∀ y ∈ outer, ∃ x ∈ (Document.parse page).elements, x.startTag = y.startTag ∧ x.closed = false ∧
        x.endTagStart = none ∧ x.stop = page.size := by
  have htags : (Draft.after text (tokens text)).openStartTags =
      inner.map Element.startTag ++ e.startTag :: outer.map Element.startTag := by
    rw [Draft.openStartTags, hopen, List.map_append, List.map_cons]
  have hinner : ∀ s ∈ inner.map Element.startTag, s.tag = none := List.forall_mem_map.mpr hinner
  obtain ⟨c, x, htext, hcursor, -, hitems⟩ := completions_slash hstate htags hinner htag schema options
  obtain ⟨front, happly, hfront⟩ := Completion.closing_apply htext hcursor x tag
  rw [htext] at happly
  obtain ⟨hfinal, hsame⟩ := hfront.openStartTags hstate (by simp [htags]) ('<' :: '/' :: (tag.toList ++ ['>']))
  obtain ⟨named, hnamed, hstart, -⟩ := exists_of_mem_openStartTags (s := e.startTag) hstate (by simp [htags])
  have hwrites := writes_of_mem_elements hnamed ((congrArg StartTag.tag hstart).trans htag)
  obtain ⟨hend, houter, hclosed⟩ := endTag_closes rfl hfinal hwrites (hsame.trans htags) hinner htag
  refine ⟨_, front, _, hitems, c.closing_label x tag _ _ _, happly, rfl, hfront, hclosed, houter, fun y hy => ?_⟩
  refine exists_of_mem_openStartTags hend ?_
  rw [houter]
  exact List.mem_map_of_mem hy

def unfinishedPage : Text :=
  "<block>\n  <view>\n<>é\n".toList

theorem slash_closes_innermost_unfinishedPage :
    ∃ inner e outer item page,
      openElements (Draft.after unfinishedPage (tokens unfinishedPage)).current
        (Draft.after unfinishedPage (tokens unfinishedPage)).above = [inner, e, outer] ∧
      inner.tag = none ∧ e.tag = some "view" ∧ outer.tag = some "block" ∧
      (Document.parse (unfinishedPage ++ ['<', '/'])).completions ⟨[]⟩ {} (unfinishedPage.size + 2) =
        .ok [item] ∧
      item.label = "/view" ∧ item.edit.apply (unfinishedPage ++ ['<', '/']) = page ∧
      String.ofList page = "<block>\n  <view>\n<>é\n  </view>" ∧
      (∃ x ∈ (Document.parse page).elements, x.startTag = e.startTag ∧ x.closed = true ∧ x.stop = page.size) ∧
      ∃ x ∈ (Document.parse page).elements, x.startTag = outer.startTag ∧ x.closed = false ∧
        x.endTagStart = none := by
  have htags : (openElements (Draft.after unfinishedPage (tokens unfinishedPage)).current
      (Draft.after unfinishedPage (tokens unfinishedPage)).above).map (·.tag) =
        [none, some "view", some "block"] := by decide +kernel
  obtain ⟨inner, _, hopen, hinner, hrest⟩ := List.map_eq_cons_iff.mp htags
  obtain ⟨e, _, rfl, htag, hrest⟩ := List.map_eq_cons_iff.mp hrest
  obtain ⟨outer, _, rfl, houter, hrest⟩ := List.map_eq_cons_iff.mp hrest
  obtain rfl := List.map_eq_nil_iff.mp hrest
  have hstate : finalState .content (tokens unfinishedPage) = .content := by decide +kernel
  have hnameless : ∀ x ∈ [inner], x.tag = none := List.forall_mem_singleton.mpr hinner
  obtain ⟨item, front, page, hitems, hlabel, happly, -, -, ⟨x, hx, hstart, hclosed, -, hstop⟩, -, haround⟩ :=
    slash_closes_innermost hstate hopen hnameless htag ⟨[]⟩ {}
  obtain ⟨y, hy, hystart, hyclosed, hyend, -⟩ := haround outer List.mem_cons_self
  have hwritten : ((Document.parse (unfinishedPage ++ ['<', '/'])).completions ⟨[]⟩ {}
      (unfinishedPage.size + 2)).toOption.any (·.all fun item =>
        String.ofList (item.edit.apply (unfinishedPage ++ ['<', '/'])) = "<block>\n  <view>\n<>é\n  </view>") =
          true := by decide +kernel
  rw [hitems] at hwritten
  have hpage := of_decide_eq_true (List.all_eq_true.mp hwritten item List.mem_cons_self)
  rw [happly] at hpage
  exact ⟨inner, e, outer, item, page, hopen, hinner, htag, houter, hitems, hlabel, happly, hpage,
    ⟨x, hx, hstart, hclosed, hstop⟩, y, hy, hystart, hyclosed, hyend⟩

end PageMarkup
