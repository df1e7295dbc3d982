import PageMarkup.Proofs.EndTags
import PageMarkup.Proofs.Lookups
import PageMarkup.Proofs.PresentAttributes

/-!
# Names in tags

The name in a tag follows its bracket, with nothing but blanks in between. An offset that touches the
name in the start tag or in the end tag of an element is in no child of the element and touches none of
its attributes. For end tags this rests on where elements end that have one: with the tag, or with the
text if the tag is not complete.
-/

namespace PageMarkup

open ScanState (Reads)

-- ---------------------------------------------------------------------------
-- Where elements with an end tag end
-- ---------------------------------------------------------------------------

/-- If the element has an end tag, it ends with the tag or, in a tag that is cut off, with the text. -/
def Element.EndsWithTag (text : Text) (e : Element) : Prop :=
  ∀ start, e.endTagStart = some start →
    (∃ t, TagEnds text start t ∧ e.stop = t.stop) ∨
      TagBegun .endTagOpen start (tokens text) ∧ e.stop = text.size

section
variable {text : Text} {done todo : List Placed} {p : Placed} {d : Draft} {e : Element} {above : List Element}

theorem Element.endsWithTag_of_none (h : e.endTagStart = none) : e.EndsWithTag text := by
  intro start hstart
  cases h.symm.trans hstart

theorem Finished.closeUpTo_endsWithTag (h : Finished (Element.EndsWithTag text) e above)
    (hopen : ∀ x ∈ openElements e above, x.endTagStart = none) (name : String) (stop : Nat) :
    Finished (Element.EndsWithTag text) (closeUpTo name stop e above).1 (closeUpTo name stop e above).2 := by
  fun_induction closeUpTo name stop e above with
  | case1 => exact h
  | case2 => exact h
  | case3 e parent above _ ih =>
    obtain ⟨he, habove⟩ := List.forall_mem_cons.mp hopen
    exact ih (h.push (Element.endsWithTag_of_none he) rfl) (forall_openElements_congr habove id)

theorem Finished.closeAll_endsWithTag (h : Finished (Element.EndsWithTag text) e above)
    (hopen : ∀ x ∈ openElements e above, x.endTagStart = none) (stop : Nat) :
    AllIn (Element.EndsWithTag text) (closeAll stop e above).children := by
  fun_induction closeAll stop e above with
  | case1 => exact h.1
  | case2 e parent above ih =>
    obtain ⟨he, habove⟩ := List.forall_mem_cons.mp hopen
    exact ih (h.push (Element.endsWithTag_of_none he) rfl) (forall_openElements_congr habove id)

/-- Only the innermost open element may have got its end tag, which then is being read. -/
theorem Tracked.endTagStart (h : Tracked text done state d) :
    (∀ x ∈ openElements d.current d.above, x.endTagStart = none) ∨
      ∃ parent above start, d.above = parent :: above ∧ state = .endTag ∧
        d.current.endTagStart = some start ∧ TagBegun .endTagOpen start done ∧
        ∀ x ∈ openElements parent above, x.endTagStart = none := by
  obtain ⟨current, above⟩ := d
  cases state with
  | content | doctype | comment | scriptBody | styleBody => exact .inl fun x hx => (h.waiting x hx).endTag
  | afterEndTagOpen => exact .inl fun x hx => (h.resting.waiting x hx).endTag
  | endTag =>
    cases h with
    | own begun endTag closed tag finished around =>
      exact .inr ⟨_, _, _, rfl, rfl, endTag, begun, fun x hx => (around x hx).endTag⟩
    | stray resting => exact .inl fun x hx => (resting.waiting x hx).endTag
  | afterTagOpen | tag | afterAttributeName | beforeAttributeValue =>
    cases h with
    | mk begun children endTag closed around =>
      exact .inl (List.forall_mem_cons.mpr ⟨endTag, fun x hx => (around.waiting x hx).endTag⟩)

theorem Finished.accept_endsWithTag (h : Finished (Element.EndsWithTag text) d.current d.above)
    (htracked : Tracked text done state d) (htokens : tokens text = done ++ p :: todo)
    (hreads : Reads state p.kind p.state) :
    Finished (Element.EndsWithTag text) (d.accept text p).current (d.accept text p).above := by
  have hstep := d.accept_step text p
  generalize (d.accept text p).current = e, (d.accept text p).above = above at hstep ⊢
  cases hstep with
  | stay children => exact h.congr children
  | begin children => exact h.opened children
  | leave outer children endTag stop kind =>
    rw [outer] at h
    refine h.push ?_ children
    rcases htracked.endTagStart with hopen | ⟨parent, above, start, -, rfl, hstart, hbegun, -⟩
    · rw [outer] at hopen
      exact Element.endsWithTag_of_none (endTag.trans (hopen _ List.mem_cons_self))
    · intro start' hstart'
      obtain rfl := Option.some.inj (hstart.symm.trans (endTag.symm.trans hstart'))
      have hends : p.kind.beginning? = some (.endTagOpen, endTagParts) := by
        rcases kind with hkind | hkind | hkind
        · cases hreads.beginning? (x := (.tagOpen, startTagParts)) (by rw [hkind]; rfl)
        · cases hreads.beginning? (x := (.tagOpen, startTagParts)) (by rw [hkind]; rfl)
        · rw [hkind]
          rfl
      exact .inl ⟨p, hbegun.ends htokens hends, stop⟩
  | endTagName kind step =>
    rw [kind] at hreads
    obtain rfl := hreads.of_endTagName
    have hopen : ∀ x ∈ openElements d.current d.above, x.endTagStart = none :=
      fun x hx => (htracked.resting.waiting x hx).endTag
    have hclosed (name : String) (stop : Nat) := h.closeUpTo_endsWithTag hopen name stop
    cases step with
    | absorbed void => exact h.pop (Draft.voidBefore?_eq_some void) rfl
    | found void closed =>
      have hfinished := hclosed (String.ofList p.lexeme).toLower (d.endTagOpen.getD p.offset)
      rw [closed] at hfinished
      exact hfinished.congr rfl
    | lost void closed =>
      have hfinished := hclosed (String.ofList p.lexeme).toLower (d.endTagOpen.getD p.offset)
      rw [closed] at hfinished
      exact hfinished

end

theorem Draft.finished_endsWithTag {text : Text} {done todo : List Placed} (h : tokens text = done ++ todo) :
    Finished (Element.EndsWithTag text) (after text done).current (after text done).above := by
  refine after_induction
    (motive := fun done => Finished (Element.EndsWithTag text) (after text done).current (after text done).above)
    ⟨allIn_nil, List.forall_mem_nil _⟩ (fun done p todo htokens hreads ih => ?_) h
  rw [after_concat]
  exact ih.accept_endsWithTag (Tracked.after htokens) htokens hreads

theorem parse_endsWithTag (text : Text) : AllIn (Element.EndsWithTag text) (Document.parse text).roots := by
  have htokens : tokens text = tokens text ++ [] := (List.append_nil _).symm
  have hfinished := Draft.finished_endsWithTag htokens
  show AllIn _ (closeAll text.size (Draft.after text (tokens text)).current
    (Draft.after text (tokens text)).above).children
  rcases (Tracked.after htokens).endTagStart with
    hopen | ⟨parent, above, start, habove, -, hstart, hbegun, hopen⟩
  · exact hfinished.closeAll_endsWithTag hopen text.size
  · rw [habove, closeAll]
    rw [habove] at hfinished
    have hcut : Element.EndsWithTag text
        { (Draft.after text (tokens text)).current with stop := text.size, closed := false } := by
      intro start' hstart'
      obtain rfl := Option.some.inj (hstart.symm.trans hstart')
      exact .inr ⟨hbegun, rfl⟩
    exact (hfinished.push hcut rfl).closeAll_endsWithTag (forall_openElements_congr hopen id) text.size

-- ---------------------------------------------------------------------------
-- The name in a tag
-- ---------------------------------------------------------------------------

/-- The token is the name in the tag that the bracket at `start` begins. -/
def NameIn (text : Text) (bracket name : TokenKind) (start : Nat) (p : Placed) : Prop :=
  p.kind = name ∧ ∃ before b gap rest, tokens text = before ++ b :: (gap ++ p :: rest) ∧
    b.kind = bracket ∧ b.offset = start ∧ ∀ g ∈ gap, g.kind = .blank

/-- The token is the name in the start tag of the element, or in its end tag. -/
inductive Element.NamedBy (text : Text) (e : Element) (p : Placed) : Prop
  | startTag (name : NameIn text .tagOpen .tagName e.start p)
  | endTag (recorded : e.endTagStart = some start) (name : NameIn text .endTagOpen .endTagName start p)

def Placed.Touches (offset : Nat) (p : Placed) : Prop :=
  p.offset ≤ offset ∧ offset ≤ p.stop

theorem exists_nameIn {text : Text} {p : Placed} (hp : p ∈ tokens text)
    (hkind : p.kind.predecessor? = some (bracket, .blank)) : ∃ start, NameIn text bracket p.kind start p := by
  obtain ⟨before, rest, htokens⟩ := List.append_of_mem hp
  have hreads := (reads_of_scan htokens).1
  have hstart : ScanState.content.predecessor? = none := rfl
  obtain ⟨front, b, gap, rfl, hb, hgap⟩ := exists_predecessor hstart htokens (hreads.predecessor? hkind)
  exact ⟨b.offset, rfl, front, b, gap, rest, by rw [htokens]; simp, hb, rfl, hgap⟩

section
variable {text : Text} {bracket name : TokenKind} {start : Nat} {p q : Placed} (h : NameIn text bracket name start p)
include h

theorem NameIn.mem_tokens : p ∈ tokens text := by
  obtain ⟨-, before, b, gap, rest, htokens, -⟩ := h
  rw [htokens]
  simp

theorem NameIn.start_lt : start < p.offset := by
  obtain ⟨-, before, b, gap, rest, htokens, -, rfl, -⟩ := h
  have hsize : 0 < b.token.size := size_pos_of_mem_tokens (by rw [htokens]; simp)
  have hstop := stop_le_offset htokens (show p ∈ gap ++ p :: rest by simp)
  rw [Placed.stop] at hstop
  omega

theorem NameIn.place (hq : q ∈ tokens text) (hstart : q.offset ≠ start) (hblank : q.kind ≠ .blank)
    (hne : q ≠ p) : q.stop ≤ start ∨ p.stop ≤ q.offset := by
  obtain ⟨-, before, b, gap, rest, htokens, -, rfl, hgap⟩ := h
  have hsplit : tokens text = (before ++ b :: gap) ++ p :: rest := by simpa using htokens
  rw [hsplit, List.mem_append, List.mem_append, List.mem_cons, List.mem_cons] at hq
  rcases hq with (hq | rfl | hq) | rfl | hq
  · exact .inl (stop_le_of_mem_before htokens hq)
  · exact absurd rfl hstart
  · exact absurd (hgap q hq) hblank
  · exact absurd rfl hne
  · exact .inr (stop_le_offset hsplit hq)

theorem NameIn.reads_of_stop_eq (hq : q ∈ tokens text) (hstop : q.offset = p.stop) :
    Reads p.state q.kind q.state := by
  obtain ⟨-, before, b, gap, rest, htokens, -⟩ := h
  have hsplit : tokens text = (before ++ b :: gap) ++ p :: rest := by simpa using htokens
  obtain ⟨rest, rfl⟩ := exists_cons_of_offset_eq hsplit hq hstop
  exact (reads_next hsplit).1

end

theorem Element.NamedBy.mem_tokens {text : Text} {e : Element} {p : Placed} (h : e.NamedBy text p) :
    p ∈ tokens text := by
  cases h with
  | startTag name => exact name.mem_tokens
  | endTag _ name => exact name.mem_tokens

section
variable {text : Text} {start : Nat} {p : Placed}

theorem NameIn.state_of_startTag (h : NameIn text .tagOpen .tagName start p) :
    ∃ raw, p.state = .tag ⟨raw, false⟩ := by
  obtain ⟨before, rest, htokens⟩ := List.append_of_mem h.mem_tokens
  obtain ⟨c, tail, htoken, hstate, -⟩ := exists_next_of_scan htokens
  have hkind : (Token.next (finalState .content before) c tail).token.kind = .tagName := by
    rw [← htoken]
    exact h.1
  exact ⟨_, hstate.trans (Token.next_tagName hkind).2⟩

theorem NameIn.state_of_endTag (h : NameIn text .endTagOpen .endTagName start p) : p.state = .endTag := by
  obtain ⟨before, rest, htokens⟩ := List.append_of_mem h.mem_tokens
  have hreads := (reads_of_scan htokens).1
  rw [h.1] at hreads
  generalize finalState .content before = state, p.state = after at hreads ⊢
  cases hreads with
  | endTagName => rfl
  | nameless hin | tag hin | valueless hin | missingValue _ hin => cases hin

end

section
variable {text : Text} {e : Element} {p : Placed} {offset : Nat} (he : e ∈ (Document.parse text).elements)
include he

theorem startTag_of_bracket {before rest : List Placed} {b : Placed}
    (htokens : tokens text = before ++ b :: rest) (hoffset : b.offset = e.start) :
    e.startTag = (rest.takeWhile (·.kind ≠ .tagOpen)).foldl StartTag.read
      { id := before.countP (·.kind = .tagOpen) + 1, start := b.offset } := by
  have hmem : e.startTag ∈ startTags 0 (tokens text) := by
    rw [← elements_map_startTag]
    exact List.mem_map_of_mem he
  obtain ⟨before', b', rest', htokens', -, hread⟩ := exists_of_mem_startTags hmem
  have hstart : e.start = b'.offset := by
    have hplace := (StartTag.foldl_read_place _ _).2.symm.trans (congrArg StartTag.start hread).symm
    exact hplace.symm
  obtain ⟨rfl, rfl, rfl⟩ := split_unique (tokens_pairwise text) htokens htokens' (hoffset.trans hstart)
  rw [hread, Nat.zero_add]

theorem tag_of_nameIn (h : NameIn text .tagOpen .tagName e.start p) : e.tag = some (String.ofList p.lexeme) := by
  obtain ⟨raw, hstate⟩ := h.state_of_startTag
  obtain ⟨hkind, before, b, gap, rest, htokens, -, hoffset, hgap⟩ := h
  have hsplit : tokens text = (before ++ b :: gap) ++ p :: rest := by simpa using htokens
  obtain ⟨_, _, -, -, hrest⟩ := scan_eq_append hsplit
  obtain ⟨-, -, tail, htail⟩ := scan_step hrest.symm
  have hlater : ∀ x ∈ rest.takeWhile (·.kind ≠ .tagOpen), x.kind ≠ .tagName :=
    fun x hx => kind_ne_tagName_of_mem htail (by rw [hstate]; exact ScanState.noConfusion) hx
  have htaken : (gap ++ p :: rest).takeWhile (·.kind ≠ .tagOpen) =
      (gap ++ [p]) ++ rest.takeWhile (·.kind ≠ .tagOpen) := by
    rw [List.takeWhile_append_of_pos (fun g hg => by simp [hgap g hg]),
      List.takeWhile_cons_of_pos (by simp [hkind])]
    simp
  have hlast : lastOf? .tagName (gap ++ [p]) = some p := by
    simp [lastOf?, List.filter_append, hkind]
  have htag := congrArg StartTag.tag (startTag_of_bracket he htokens hoffset)
  rw [htaken, StartTag.foldl_read_tag, lastOf?_append_of_forall_ne hlater, hlast] at htag
  exact htag

/-- An end tag has a name, and the element to which it goes is called by it, but for case. -/
theorem exists_name_of_endTagStart (h : e.endTagStart = some start) :
    ∃ q, NameIn text .endTagOpen .endTagName start q ∧ e.hasName (String.ofList q.lexeme) = true := by
  obtain ⟨before, b, gap, q, rest, htokens, hb, hoffset, hgap, hq, howner⟩ :=
    (parse_attributed text e he).endTag start h
  exact ⟨q, ⟨hq, before, b, gap, rest, htokens, hb, hoffset, hgap⟩, (Draft.of_owner? howner).1⟩

end

theorem NameIn.unique {text : Text} {p q : Placed} (h : NameIn text bracket name start p)
    (h' : NameIn text bracket name start q) (hname : name ≠ .blank) : p = q := by
  obtain ⟨hkind, before, b, gap, rest, htokens, -, hoffset, hgap⟩ := h
  obtain ⟨hkind', before', b', gap', rest', htokens', -, hoffset', hgap'⟩ := h'
  obtain ⟨-, -, hrest⟩ := split_unique (tokens_pairwise text) htokens htokens' (hoffset.trans hoffset'.symm)
  have hfirst {gap rest : List Placed} {p : Placed} (hgap : ∀ g ∈ gap, g.kind = .blank) (hkind : p.kind = name) :
      (gap ++ p :: rest).find? (·.kind ≠ .blank) = some p := by
    rw [List.find?_append, List.find?_eq_none.mpr (by simpa using hgap), Option.none_or,
      List.find?_cons_of_pos (by simpa [hkind] using hname)]
  exact Option.some.inj ((hfirst hgap hkind).symm.trans (hrest ▸ hfirst hgap' hkind'))

section
variable {text : Text} {e : Element} {p q : Placed} {start offset : Nat}
  (he : e ∈ (Document.parse text).elements)
include he

theorem hasName_of_namedBy (h : e.NamedBy text p) : e.hasName (String.ofList p.lexeme) = true := by
  cases h with
  | startTag name => simp [Element.hasName, tag_of_nameIn he name]
  | endTag recorded name =>
    obtain ⟨q, hq, hasName⟩ := exists_name_of_endTagStart he recorded
    rwa [name.unique hq (by decide)]

theorem stop_le_of_later_endTag (h : e.endTagStart = some start) (hq : q ∈ tokens text)
    (hkind : q.kind = .endTagOpen) (hlt : start < q.offset) : e.stop ≤ q.offset := by
  have hparts (kind : TokenKind) : q.kind ∉ kind.tagParts := by
    rw [hkind]
    cases kind <;> decide
  rcases parse_endsWithTag text e he start h with
    ⟨t, ⟨before, b, mid, rest, htokens, hb, ht, hmid⟩, hstop⟩ | ⟨⟨before, b, mid, htokens, -, hb, hmid⟩, -⟩
  · have hsplit : tokens text = (before ++ b :: mid) ++ t :: rest := by simpa using htokens
    rw [hsplit, List.mem_append, List.mem_append, List.mem_cons, List.mem_cons] at hq
    rcases hq with (hq | rfl | hq) | rfl | hq
    · have := stop_le_of_mem_before htokens hq
      rw [Placed.stop] at this
      omega
    · omega
    · exact absurd (hmid q hq) (hparts _)
    · rw [hkind] at ht
      cases ht
    · rw [hstop]
      exact stop_le_offset hsplit hq
  · rw [htokens, List.mem_append, List.mem_cons] at hq
    rcases hq with hq | rfl | hq
    · have := stop_le_of_mem_before htokens hq
      rw [Placed.stop] at this
      omega
    · omega
    · have hout := hparts .endTagOpen
      exact absurd (hmid q hq) hout

theorem stop_le_of_endTagName (h : e.endTagStart = some start)
    (hname : NameIn text .endTagOpen .endTagName start p) : p.stop ≤ e.stop := by
  have hp := hname.mem_tokens
  obtain ⟨hkind, before, b, gap, rest, htokens, hb, hoffset, hgap⟩ := hname
  have hsplit : tokens text = (before ++ b :: gap) ++ p :: rest := by simpa using htokens
  rcases parse_endsWithTag text e he start h with ⟨t, hends, hstop⟩ | ⟨-, hstop⟩
  · have hfound := hends.find? htokens hoffset
    rw [hb, List.find?_append,
      List.find?_eq_none.mpr (fun g hg => by simp [hgap g hg, TokenKind.tagParts, endTagParts]),
      Option.none_or, List.find?_cons_of_neg (by simp [hkind, TokenKind.tagParts, endTagParts])] at hfound
    have hlater := stop_le_offset hsplit (List.mem_of_find?_eq_some hfound)
    rw [hstop]
    exact Nat.le_trans hlater (Nat.le_add_right _ _)
  · rw [hstop]
    exact stop_le_of_mem_tokens hp

theorem not_touches_of_nameIn (hname : NameIn text bracket name start p) (hblank : p.state.afterBlank = false)
    (hbracket : bracket ≠ .attributeName) (hkind : name ≠ .attributeName) (htouches : p.Touches offset)
    (ha : a ∈ e.attributes) (hstart : start < a.stop) : ¬ a.Touches offset := by
  rintro ⟨hbegins, hends⟩
  obtain ⟨_, q, _, hq, hqkind, hoffset, hstop⟩ := exists_name_token he ha
  have hmem : q ∈ tokens text := by
    rw [hq]
    simp
  have hplace := hname.place hmem ?_ (by rw [hqkind]; decide) ?_
  · have hnext : q.offset = p.stop := by
      have := htouches.2
      omega
    have hreads := hname.reads_of_stop_eq hmem hnext
    rw [hqkind] at hreads
    exact Bool.false_ne_true (hblank.symm.trans hreads.of_attributeName)
  · rintro rfl
    obtain ⟨-, before, b, gap, rest, htokens, hb, hb', -⟩ := hname
    rw [eq_of_offset_eq htokens hmem hb'.symm] at hqkind
    exact hbracket (hb.symm.trans hqkind)
  · rintro rfl
    exact hkind (hname.1.symm.trans hqkind)

/-- An element whose name an offset touches is around the offset, and none of its children is. -/
theorem innermost_of_namedBy (h : e.NamedBy text p) (htouches : p.Touches offset) :
    e.Spans offset ∧ (∀ c ∈ e.children, ¬ c.Spans offset) ∧ ∀ a ∈ e.attributes, ¬ a.Touches offset := by
  obtain ⟨hbegins, hends⟩ := id htouches
  have hrange := parse_allRanged text e he
  cases h with
  | startTag hname =>
    have hlt := hname.start_lt
    obtain ⟨raw, hstate⟩ := hname.state_of_startTag
    have hattributes : ∀ a ∈ e.attributes, ¬ a.Touches offset := fun a ha => by
      refine not_touches_of_nameIn he hname (by rw [hstate]; rfl) (by decide) (by decide) htouches ha ?_
      have := hrange.attributes_inside a ha
      omega
    obtain ⟨-, before, b, gap, rest, htokens, hb, hoffset, hgap⟩ := hname
    have hparts : ∀ g ∈ gap, g.kind ∈ startTagParts := fun g hg => by
      rw [hgap g hg]
      decide
    obtain ⟨hstop, hchildren⟩ := tag_inside_element htokens hb
      (List.mem_cons_of_mem _ (mem_restOfTag_append hparts rest)) he hoffset.symm
    refine ⟨⟨by omega, by omega⟩, fun c hc hspans => ?_, hattributes⟩
    have hafter := hchildren c hc
    have hbefore := hspans.start_lt
    omega
  | @endTag start hrecorded hname =>
    have hlt := hname.start_lt
    obtain ⟨-, hstart, -, hchildren⟩ := hrange.endTag_last start hrecorded
    have hstop := stop_le_of_endTagName he hrecorded hname
    refine ⟨⟨by omega, by omega⟩, fun c hc hspans => ?_, fun a ha ha' => ?_⟩
    · have hbefore := hchildren c hc
      have hafter := hspans.le_stop
      omega
    · refine not_touches_of_nameIn he hname ?_ (by decide) (by decide) htouches ha ?_ ha'
      · rw [hname.state_of_endTag]
        rfl
      · have hafter := ha'.2
        omega

theorem chainAt_of_namedBy (h : e.NamedBy text p) (htouches : p.Touches offset) :
    ∃ above, (Document.parse text).chainAt offset = .ok (e :: above) := by
  obtain ⟨hspans, hchildren, -⟩ := innermost_of_namedBy he h htouches
  obtain ⟨above, hlineage⟩ := Element.exists_lineage he
  have hforest := parse_forest text
  have hdescends : ∀ x ∈ Element.preorderAll e.children, x ∈ (Document.parse text).elements := fun x hx =>
    Element.preorderAll_induction (fun c hc => Element.child_mem_preorderAll _ he hc)
      (fun _ _ hparent c hc => Element.child_mem_preorderAll _ hparent hc) hx
  have hbelow : Forest text e.children :=
    ⟨fun x hx => hforest.ranged x (hdescends x hx), (hforest.ranged e he).children_ordered⟩
  refine ⟨above, ?_⟩
  rw [parse_chainAt (Nat.le_trans htouches.2 (stop_le_of_mem_tokens h.mem_tokens)),
    hforest.chainAtAll_descends hlineage hspans, Element.chainAtAll_eq_filter _ hbelow,
    List.filter_eq_nil_iff.mpr]
  · rfl
  · intro x hx hx'
    obtain ⟨c, hc, hstart, hstop⟩ := hbelow.within hx
    obtain ⟨hlt, hle⟩ : x.start < offset ∧ offset ≤ x.stop := by simpa using hx'
    exact hchildren c hc ⟨by omega, by omega⟩

end

end PageMarkup
