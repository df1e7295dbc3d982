import PageMarkup.Proofs.AttributeReading

/-!
# Completing the name of an attribute

A name that is there is replaced, up to the first `<` behind the cursor; in blanks, a name is added. The
new name is read with all that follows it and can be part of it, so it is the label only if nothing of
the kind follows (`offered_attribute_added`): there is no blank between a name that is added at the end of
blanks and the next attribute. Nor is there one between it and `=`, or what cannot be part of a tag;
then other attributes may change as well.
-/

namespace PageMarkup

def Token.isExpected (c : Char) : Bool :=
  isBlank c || isAttributeNameChar c || c = '>'

/-- The text goes on after a name as it does after a blank: there is no `=` that gives the name a value,
and nothing unexpected follows directly. -/
def Text.GoesOn (cs : Text) : Prop :=
  (cs.dropWhile isBlank).head? ≠ some '=' ∧ (cs.Stops (!Token.isExpected ·) ∨ ['/', '>'] <+: cs)

theorem Text.takeWhile_eq_nil_iff {p : Char → Bool} {cs : Text} : cs.takeWhile p = [] ↔ cs.Stops p := by
  cases cs with
  | nil => simp [Text.Stops]
  | cons c cs => cases hc : p c <;> simp [Text.Stops, hc]

instance (p : Char → Bool) (cs : Text) : Decidable (cs.Stops p) :=
  decidable_of_decidable_of_iff Text.takeWhile_eq_nil_iff

instance (cs : Text) : Decidable cs.GoesOn :=
  inferInstanceAs (Decidable (_ ∧ (_ ∨ _)))

-- ---------------------------------------------------------------------------
-- Reading on after a name
-- ---------------------------------------------------------------------------

namespace Token

theorem AfterPart.isInTag (h : AfterPart raw blank state) : state.isInTag = true := by
  cases h <;> rfl

theorem AfterPart.scan_eq {rest : Text} (h : AfterPart raw blank state) (hblank : rest.Stops isBlank)
    (hassign : rest.head? ≠ some '=') (offset : Nat) :
    scan state offset rest = scan (.tag ⟨raw, blank⟩) offset rest := by
  cases h with
  | tag => rfl
  | attributeName =>
    cases rest with
    | nil => rw [scan, scan]
    | cons c cs =>
      have hnext : next (.afterAttributeName ⟨raw, blank⟩) c cs = next (.tag ⟨raw, blank⟩) c cs := by
        have hc : c ≠ '=' := fun hc => hassign (by rw [hc]; rfl)
        simp [next, nextAfterAttributeName, hblank c rfl, hc]
      rw [scan_cons, hnext, scan_cons]

theorem scan_tag_eq {rest : Text} (h : rest = [] ∨ rest.head? = some '>' ∨ ['/', '>'] <+: rest) (offset : Nat) :
    scan (.tag ⟨raw, false⟩) offset rest = scan (.tag ⟨raw, true⟩) offset rest := by
  rcases h with rfl | hclose | ⟨tail, rfl⟩
  · rw [scan, scan]
  · obtain ⟨tail, rfl⟩ := List.head?_eq_some_iff.mp hclose
    rw [scan_cons, scan_cons]
    rfl
  · rw [List.cons_append, scan_cons, scan_cons]
    rfl

end Token

theorem Token.AfterPart.scan_name {w : Text} (hstate : AfterPart raw true state)
    (hw : ¬ w.Stops isAttributeNameChar) (offset : Nat) :
    scan state offset w =
      ⟨⟨.attributeName, w.takeWhile isAttributeNameChar, none⟩, offset, .afterAttributeName ⟨raw, false⟩⟩ ::
        scan (.afterAttributeName ⟨raw, false⟩) (offset + Text.size (w.takeWhile isAttributeNameChar))
          (w.dropWhile isAttributeNameChar) := by
  obtain ⟨c, cs, rfl, hc⟩ := Text.exists_cons_of_not_stops hw
  rw [scan_cons, hstate.next_name hc, List.takeWhile_cons_of_pos hc, List.dropWhile_cons_of_pos hc]
  rfl

theorem Markup.IsAttributeName.not_stops_append (h : IsAttributeName name) (w : Text) :
    ¬ Text.Stops Token.isAttributeNameChar (name ++ w) := by
  obtain ⟨c, cs, rfl, hc, -, -⟩ := h.exists_cons
  simp [Text.Stops, hc]

theorem Token.AfterPart.scan_label {name : Text} (hstate : AfterPart raw true state)
    (hname : Markup.IsAttributeName name) (offset : Nat) (w : Text) :
    scan state offset (name ++ w) =
      ⟨⟨.attributeName, name ++ w.takeWhile isAttributeNameChar, none⟩, offset,
        .afterAttributeName ⟨raw, false⟩⟩ ::
      scan (.afterAttributeName ⟨raw, false⟩) (offset + Text.size (name ++ w.takeWhile isAttributeNameChar))
        (w.dropWhile isAttributeNameChar) := by
  have hall : ∀ d ∈ name, isAttributeNameChar d = true := by
    obtain ⟨c, cs, rfl, hc, -, hcs⟩ := hname.exists_cons
    exact List.forall_mem_cons.mpr ⟨hc, hcs⟩
  rw [hstate.scan_name (hname.not_stops_append w), List.takeWhile_append_of_pos hall,
    List.dropWhile_append_of_pos hall]

theorem Text.GoesOn.head?_ne {blanks w : Text} (h : Text.GoesOn (blanks ++ w))
    (hblanks : ∀ c ∈ blanks, isBlank c = true) (hw : w.Stops isBlank) : w.head? ≠ some '=' := by
  have hassign := h.1
  rwa [Text.dropWhile_append hblanks hw] at hassign

/-- After a name and maybe blanks, a text that goes on is read as after blanks alone. -/
theorem Text.GoesOn.scan_eq {blanks w : Text} (h : Text.GoesOn (blanks ++ w))
    (hblanks : ∀ c ∈ blanks, isBlank c = true) (hw : w.Stops isBlank)
    (hname : Text.Stops Token.isAttributeNameChar (blanks ++ w)) (raw : RawText) (offset : Nat) :
    ∃ gap offset', (∀ g ∈ gap, g.kind = .blank) ∧
      scan (.afterAttributeName ⟨raw, false⟩) offset (blanks ++ w) =
        gap ++ scan (.tag ⟨raw, true⟩) offset' w := by
  have hassign := h.head?_ne hblanks hw
  have hexpected := h.2
  cases blanks with
  | nil =>
    have hend : w = [] ∨ w.head? = some '>' ∨ ['/', '>'] <+: w := by
      rcases hexpected with hexpected | hclose
      · cases w with
        | nil => exact .inl rfl
        | cons c w =>
          have hc : Token.isExpected c = true := by simpa using hexpected c rfl
          simp only [Token.isExpected, hw c rfl, show Token.isAttributeNameChar c = false from hname c rfl,
            Bool.false_or, decide_eq_true_eq] at hc
          exact .inr (.inl (by rw [hc]; rfl))
      · exact .inr (.inr hclose)
    refine ⟨[], offset, by simp, ?_⟩
    rw [List.nil_append, Token.AfterPart.attributeName.scan_eq hw hassign, Token.scan_tag_eq hend, List.nil_append]
  | cons b blanks =>
    obtain ⟨hb, hblanks⟩ := List.forall_mem_cons.mp hblanks
    have hblank : Token.next (.afterAttributeName ⟨raw, false⟩) b (blanks ++ w) =
        ⟨⟨.blank, b :: blanks, none⟩, .afterAttributeName ⟨raw, true⟩, w⟩ := by
      simp only [Token.next, Token.nextAfterAttributeName, hb, ↓reduceIte]
      exact Token.stepRun_append hblanks hw
    rw [List.cons_append, scan_cons, hblank, Token.AfterPart.attributeName.scan_eq hw hassign]
    refine ⟨[_], _, ?_, rfl⟩
    intro g hg
    rw [List.mem_singleton.mp hg]
    rfl

theorem scan_tokens_eq (state : ScanState) (offset offset' : Nat) (cs : Text) :
    (scan state offset cs).map Placed.token = (scan state offset' cs).map Placed.token := by
  have hshift (n : Nat) : (scan state n cs).map Placed.token = (scan state 0 cs).map Placed.token := by
    have h := scan_shift n state 0 cs
    rw [Nat.add_zero] at h
    rw [h, List.map_map]
    rfl
  rw [hshift offset, hshift offset']

-- ---------------------------------------------------------------------------
-- The element with another name in it
-- ---------------------------------------------------------------------------

theorem tagTokens_eq {ts ts' : List Placed} (h : ts.map Placed.token = ts'.map Placed.token) :
    (ts.takeWhile (·.kind ≠ .tagOpen)).map Placed.token =
      (ts'.takeWhile (·.kind ≠ .tagOpen)).map Placed.token := by
  have hmap (ts : List Placed) : (ts.takeWhile (·.kind ≠ .tagOpen)).map Placed.token =
      (ts.map Placed.token).takeWhile (·.kind ≠ .tagOpen) := by
    rw [List.takeWhile_map]
    rfl
  rw [hmap, hmap, h]

theorem exists_element_named {new : Text} {front mid more : List Placed} {q n : Placed}
    (hnew : tokens new = front ++ q :: (mid ++ n :: more)) (hq : q.kind = .tagOpen)
    (hmid : ∀ m ∈ mid, m.kind ≠ .tagOpen) (hn : n.kind = .attributeName) :
    ∃ e ∈ (Document.parse new).elements, e.start = q.offset ∧
      e.attributes = ((more.takeWhile (·.kind ≠ .tagOpen)).foldl StartTag.read
        ((mid.foldl StartTag.read
          { id := front.countP (·.kind = .tagOpen) + 1, start := q.offset }).read n)).attributes := by
  obtain ⟨e, he, hread⟩ := exists_element_of_tagOpen hnew hq
  have hplace := (StartTag.foldl_read_place { id := front.countP (·.kind = .tagOpen) + 1, start := q.offset }
    ((mid ++ n :: more).takeWhile (·.kind ≠ .tagOpen))).2
  rw [← hread] at hplace
  have htag := startTag_eq_foldl hmid (by simp [hn]) hread
  rw [List.foldl_append, List.foldl_cons] at htag
  exact ⟨e, he, hplace, congrArg StartTag.attributes htag⟩

section
variable {new : Text} {front mid back more : List Placed} {q n n' : Placed} {e : Element}
  (hread : e.startTag = ((mid ++ n :: back).takeWhile (·.kind ≠ .tagOpen)).foldl StartTag.read
    { id := front.countP (·.kind = .tagOpen) + 1, start := q.offset })
  (hmid : ∀ m ∈ mid, m.kind ≠ .tagOpen) (hq : q.kind = .tagOpen)
include hread hmid hq

/-- With a name in place of another one, the attributes before and after it are the same. -/
theorem exists_element_replaced (hn : n.kind = .attributeName)
    (hnew : tokens new = front ++ q :: (mid ++ n' :: more)) (hn' : n'.kind = .attributeName)
    (hmore : back.map Placed.token = more.map Placed.token) :
    ∃ e' ∈ (Document.parse new).elements, e'.start = q.offset ∧
      ∃ before value later later',
        e.attributes = before ++ ⟨String.ofList n.lexeme, n.offset, value⟩ :: later ∧
        e'.attributes = before ++ ⟨String.ofList n'.lexeme, n'.offset, value⟩ :: later' ∧
        later.map Attribute.content = later'.map Attribute.content := by
  obtain ⟨e', he', hplace, hattributes'⟩ := exists_element_named hnew hq hmid hn'
  have htag := startTag_eq_foldl hmid (by simp [hn]) hread
  rw [List.foldl_append, List.foldl_cons] at htag
  have hattributes : e.attributes = _ := congrArg StartTag.attributes htag
  generalize mid.foldl StartTag.read _ = s at hattributes hattributes'
  obtain ⟨value, later, hlast⟩ := StartTag.foldl_read_name (back.takeWhile (·.kind ≠ .tagOpen))
  obtain ⟨value', later', hlast'⟩ := StartTag.foldl_read_name (more.takeWhile (·.kind ≠ .tagOpen))
  have hcontent := StartTag.content_foldl_read (tagTokens_eq hmore)
    (show (s.read n).attributes.map Attribute.content = _ from rfl)
  rw [hlast s n hn, hlast' s n hn] at hcontent
  obtain ⟨rfl, hlater⟩ : value = value' ∧ later.map Attribute.content = later'.map Attribute.content := by
    simpa [Attribute.content] using hcontent
  exact ⟨e', he', hplace, s.attributes, value, later, later', hattributes.trans (hlast s n hn),
    hattributes'.trans (hlast' s n' hn'), hlater⟩

theorem exists_element_inserted {b : Placed} {gap : List Placed} {rest : Text} (hn : n.kind = .blank)
    (hback : scan (.tag context) offset rest = back)
    (hnew : tokens new = front ++ q :: (mid ++ b :: n' :: (gap ++ more))) (hb : b.kind = .blank)
    (hn' : n'.kind = .attributeName) (hgap : ∀ g ∈ gap, g.kind = .blank)
    (hmore : scan (.tag context) offset' rest = more) :
    ∃ e' ∈ (Document.parse new).elements, e'.start = q.offset ∧
      ∃ before later later', e.attributes = before ++ later ∧
        e'.attributes = before ++ ⟨String.ofList n'.lexeme, n'.offset, none⟩ :: later' ∧
        later.map Attribute.content = later'.map Attribute.content := by
  have hblanks : ∀ m ∈ mid ++ [b], m.kind ≠ .tagOpen := by
    intro m hm
    rcases List.mem_append.mp hm with hm | hm
    · exact hmid m hm
    · simp [List.mem_singleton.mp hm, hb]
  obtain ⟨e', he', hplace, hattributes'⟩ := exists_element_named
    (show tokens new = front ++ q :: ((mid ++ [b]) ++ n' :: (gap ++ more)) by simpa using hnew) hq hblanks hn'
  have htag := startTag_eq_foldl hmid (by simp [hn]) hread
  rw [List.foldl_append, List.foldl_cons, StartTag.read_blank _ hn] at htag
  have hattributes : e.attributes = _ := congrArg StartTag.attributes htag
  have hgaps : ∀ g ∈ gap, decide (g.kind ≠ .tagOpen) = true := fun g hg => by simp [hgap g hg]
  rw [List.foldl_append, List.foldl_cons, List.foldl_nil, StartTag.read_blank _ hb,
    List.takeWhile_append_of_pos hgaps, List.foldl_append, StartTag.foldl_read_blanks _ hgap] at hattributes'
  generalize mid.foldl StartTag.read _ = s at hattributes hattributes'
  obtain ⟨later, hadded⟩ := StartTag.foldl_read_of_scan hback rfl
  obtain ⟨later', hadded'⟩ := StartTag.foldl_read_of_scan hmore rfl
  have htokens : back.map Placed.token = more.map Placed.token := by
    rw [← hback, ← hmore]
    exact scan_tokens_eq _ _ _ _
  have hcontent := StartTag.content_foldl_read (tagTokens_eq htokens)
    (show s.attributes.map Attribute.content = _ from rfl)
  rw [hadded, hadded', List.map_append, List.map_append] at hcontent
  refine ⟨e', he', hplace, s.attributes, later, later', hattributes.trans (hadded s), ?_,
    List.append_cancel_left hcontent⟩
  rw [hattributes', hadded' (s.read n')]
  simp [StartTag.read, hn']

end

-- ---------------------------------------------------------------------------
-- What the edit does
-- ---------------------------------------------------------------------------

/-- In the edited text, the element has an attribute with the new name if and only if nothing follows
that can be part of it. If the edit replaces a name, or the text goes on as it did, the element also keeps
the attributes that the cursor does not touch. -/
def Edit.AddsAttribute (text : Text) (cursor : Nat) (e : Element) (edit : Edit) : Prop :=
  ∃ e' ∈ (Document.parse (edit.apply text)).elements, e'.start = e.start ∧
    ((∃ a ∈ e'.attributes, a.name = edit.text) ↔
      (text.onward edit.stop).Stops Token.isAttributeNameChar) ∧
    (edit.start < cursor ∨ (text.onward cursor).GoesOn →
      ((e.attributes.filter fun a => ¬ a.Touches cursor).map Attribute.content).Sublist
        (e'.attributes.map Attribute.content))

theorem ne_tagOpen_of_startTagParts {mid : List Placed} (h : ∀ m ∈ mid, m.kind ∈ startTagParts) :
    ∀ m ∈ mid, m.kind ≠ .tagOpen := by
  intro m hm hopen
  have hpart := h m hm
  rw [hopen] at hpart
  simp [startTagParts] at hpart

theorem start_of_read {e : Element} {id start : Nat} {ts : List Placed}
    (h : e.startTag = ts.foldl StartTag.read { id := id, start := start }) :
    e.start = start := by
  have hplace := (StartTag.foldl_read_place { id := id, start := start } ts).2
  rw [← h] at hplace
  exact hplace

theorem offset_ne_of_attributes (he : e ∈ (Document.parse text).elements)
    (h : e.attributes = before ++ old :: later) : ∀ a ∈ before ++ later, a.offset ≠ old.offset := by
  have hordered := (parse_allRanged text e he).attributes_ordered
  rw [h, List.pairwise_append, List.pairwise_cons] at hordered
  intro a ha
  rcases List.mem_append.mp ha with ha | ha
  · have hlt : a.stop < old.offset := hordered.2.2 a ha old List.mem_cons_self
    rw [Attribute.stop] at hlt
    omega
  · have hlt : old.stop < a.offset := hordered.2.1.1 a ha
    rw [Attribute.stop] at hlt
    omega

section
variable {text : Text} {cursor : Nat} {e e' : Element} {edit : Edit} {before later later' : List Attribute}
  {new : Attribute} (hparse : e' ∈ (Document.parse (edit.apply text)).elements) (hstart : e'.start = e.start)
  (hnew : e'.attributes = before ++ new :: later')
  (hlater : later.map Attribute.content = later'.map Attribute.content)
include hparse hstart hnew hlater

theorem adds_of_replaced (he : e ∈ (Document.parse text).elements)
    (hold : e.attributes = before ++ old :: later) (hmissing : edit.text ∈ e.missing s options old.offset)
    (hname : new.name =
      String.ofList (edit.text.toList ++ (text.onward edit.stop).takeWhile Token.isAttributeNameChar))
    (htouches : old.Touches cursor) : edit.AddsAttribute text cursor e := by
  have hother : ∀ a ∈ before ++ later, a.name ≠ edit.text := by
    intro a ha hlabel
    have hmem : a ∈ e.attributes := by
      rw [hold]
      rcases List.mem_append.mp ha with ha | ha
      · exact List.mem_append_left _ ha
      · exact List.mem_append_right _ (List.mem_cons_of_mem _ ha)
    rw [← hlabel] at hmissing
    exact Element.not_mem_missing hmem (offset_ne_of_attributes he hold a ha) hmissing
  refine ⟨e', hparse, hstart, Iff.trans ⟨?_, fun hnil => ?_⟩ Text.takeWhile_eq_nil_iff, fun _ => ?_⟩
  · rintro ⟨a, ha, hlabel⟩
    rw [hnew] at ha
    rcases List.mem_append.mp ha with ha | ha
    · exact absurd hlabel (hother a (List.mem_append_left _ ha))
    rcases List.mem_cons.mp ha with rfl | ha
    · rw [hname] at hlabel
      have hchars := congrArg String.toList hlabel
      rw [String.toList_ofList] at hchars
      simpa using hchars
    · have hmem : a.content ∈ later.map Attribute.content := by
        rw [hlater]
        exact List.mem_map_of_mem ha
      obtain ⟨b, hb, hcontent⟩ := List.mem_map.mp hmem
      have hsame : b.name = a.name := congrArg Prod.fst hcontent
      exact absurd (hsame.trans hlabel) (hother b (List.mem_append_right _ hb))
  · refine ⟨new, by rw [hnew]; simp, ?_⟩
    rw [hname, hnil, List.append_nil, String.ofList_toList]
  · rw [hold, hnew, List.filter_append, List.filter_cons_of_neg (by simpa using htouches), List.map_append,
      List.map_append, List.map_cons, ← hlater]
    exact ((List.filter_sublist).map _).append (((List.filter_sublist).map _).cons _)

theorem adds_of_inserted (hold : e.attributes = before ++ later) (hname : new.name = edit.text)
    (hstops : (text.onward edit.stop).Stops Token.isAttributeNameChar) : edit.AddsAttribute text cursor e := by
  refine ⟨e', hparse, hstart, iff_of_true ⟨new, by rw [hnew]; simp, hname⟩ hstops, fun _ => ?_⟩
  rw [hold, hnew, List.filter_append, List.map_append, List.map_append, List.map_cons, ← hlater]
  exact ((List.filter_sublist).map _).append (((List.filter_sublist).map _).cons _)

end

/-- Replacing a name leaves the tokens before it and moves those after it. -/
theorem tokens_edit_name {label : String} (h : tokens text = before ++ t :: back)
    (hkind : t.kind = .attributeName) (hlabel : Markup.IsAttributeName label.toList) (hstart : t.offset ≤ stop)
    (hstop : stop ≤ t.stop) :
    ∃ n more, tokens (Edit.apply ⟨t.offset, stop, label⟩ text) = before ++ n :: more ∧
      n.kind = .attributeName ∧
      n.lexeme = label.toList ++ (text.onward stop).takeWhile Token.isAttributeNameChar ∧
      back.map Placed.token = more.map Placed.token := by
  obtain ⟨raw, hpart, hstate, hstops⟩ := exists_afterPart_around_name h hkind
  obtain ⟨-, -, -, -, -, hback⟩ := exists_next_onward h
  have hwrites := writes_of_mem_scan (show t ∈ tokens text by rw [h]; simp)
  rw [hkind] at hwrites
  have htext := Text.upTo_append_onward text t.stop
  rw [upTo_stop h] at htext
  generalize text.onward t.stop = w at htext hstops hback
  have hoffset := offset_eq_size h
  have hsize := stop_eq_size h
  obtain ⟨x, z, hlexeme, -, hrest⟩ := Text.exists_cut (n := stop) (u := before.flatMap Placed.lexeme)
    (v := t.lexeme) (by omega) (by omega) w
  rw [htext] at hrest
  have hz : ∀ c ∈ z, Token.isAttributeNameChar c = true := fun c hc =>
    hwrites c (by rw [hlexeme]; exact List.mem_append_right x hc)
  have happly : Edit.apply ⟨t.offset, stop, label⟩ text =
      before.flatMap Placed.lexeme ++ (label.toList ++ (z ++ w)) := by
    rw [Edit.apply, upTo_offset h, hrest, List.append_assoc]
  rw [happly, tokens_replace_name h hkind (hlabel.not_stops_append _), hpart.scan_label hlabel, hrest]
  refine ⟨_, _, rfl, rfl, rfl, ?_⟩
  rw [Text.dropWhile_append hz hstops, hback, hstate]
  exact scan_tokens_eq _ _ _ _

/-- The blanks of the token `t` are divided by a name that is added at the cursor: `b` and `n` are read for
the blanks before it and for the name, and the blanks `y` come after it. -/
structure NameInBlanks (text : Text) (cursor : Nat) (label : String) (before : List Placed) (t : Placed)
    (raw : RawText) (y : Text) (b n : Placed) (offset : Nat) : Prop where
  afterPart : Token.AfterPart raw true t.state
  stops : (text.onward t.stop).Stops isBlank
  blanks : ∀ c ∈ y, isBlank c = true
  onward_eq : text.onward cursor = y ++ text.onward t.stop
  at_end : y = [] → b = t ∧ t.stop ≤ cursor
  tokens_eq : tokens (Edit.apply ⟨cursor, cursor, label⟩ text) =
    before ++ b :: n :: scan (.afterAttributeName ⟨raw, false⟩) offset
      ((text.onward cursor).dropWhile Token.isAttributeNameChar)
  kind_blank : b.kind = .blank
  kind_name : n.kind = .attributeName
  lexeme_eq : n.lexeme = label.toList ++ (text.onward cursor).takeWhile Token.isAttributeNameChar

theorem exists_nameInBlanks {label : String} (h : tokens text = before ++ t :: back) (hkind : t.kind = .blank)
    (hstate : (∃ context, t.state = .tag context) ∨ ∃ context, t.state = .afterAttributeName context)
    (hlabel : Markup.IsAttributeName label.toList) (hlt : t.offset < cursor) (hle : cursor ≤ t.stop) :
    ∃ raw y b n offset, NameInBlanks text cursor label before t raw y b n offset := by
  obtain ⟨c, cs, htoken, hnext, honward, -⟩ := exists_next_onward h
  have hblank : (Token.next (finalState .content before) c cs).token.kind = .blank := by
    rw [← htoken]
    exact hkind
  have hstops : (text.onward t.stop).Stops isBlank := by
    rw [honward]
    exact (Token.next_shaped (finalState .content before) c cs).whole hblank
  rw [hnext] at hstate
  obtain ⟨raw, q, blanks, hpart, hb, -, hnew⟩ :=
    tokens_replace_blank h hkind (Token.state_of_next_blank hblank hstate)
  have hlexeme : t.lexeme = q :: blanks := congrArg Token.lexeme hb
  have hwrites : ∀ c ∈ t.lexeme, isBlank c = true := by
    have hwrites := writes_of_mem_scan (show t ∈ tokens text by rw [h]; simp)
    rwa [hkind] at hwrites
  rw [hlexeme] at hwrites
  have hoffset := offset_eq_size h
  have hstop := stop_eq_size h
  have htext := Text.upTo_append_onward text t.stop
  rw [upTo_stop h, hlexeme, List.append_cons] at htext
  rw [hlexeme, List.append_cons] at hstop
  have hfirst : Text.size (before.flatMap Placed.lexeme ++ [q]) ≤ cursor := by
    rw [Text.size_append, ← hoffset, Text.size_cons, utf8Size_of_isBlank (hwrites q List.mem_cons_self)]
    exact hlt
  obtain ⟨x, y, rfl, hupTo, hrest⟩ := Text.exists_cut hfirst (hstop ▸ hle) (text.onward t.stop)
  rw [htext] at hupTo hrest
  obtain ⟨hq, hblanks⟩ := List.forall_mem_cons.mp hwrites
  have hx : ∀ c ∈ x, isBlank c = true := fun c hc => hblanks c (List.mem_append_left y hc)
  have hfollows : Text.Stops isBlank (label.toList ++ text.onward cursor) := by
    obtain ⟨d, ds, hchars, hd, -, -⟩ := hlabel.exists_cons
    rw [hchars]
    exact Text.stops_cons (isBlank_of_isAttributeNameChar hd)
  have happly : Edit.apply ⟨cursor, cursor, label⟩ text =
      before.flatMap Placed.lexeme ++ q :: x ++ (label.toList ++ text.onward cursor) := by
    simp [Edit.apply, hupTo]
  have htokens := hnew x _ hx hfollows
  rw [hpart.scan_label hlabel, ← happly] at htokens
  refine ⟨raw, y, _, _, _, ⟨hpart, hstops, fun c hc => hblanks c (List.mem_append_right x hc), hrest, ?_, htokens,
    rfl, rfl, rfl⟩⟩
  rintro rfl
  rw [List.append_nil] at hb hstop
  refine ⟨by rw [← hb], ?_⟩
  rw [hstop, ← hupTo]
  exact Text.size_upTo_le text cursor

section
variable {text y : Text} {cursor offset : Nat} {label : String} {e : Element} {front mid back : List Placed}
  {q t b n : Placed} {raw : RawText} (h : NameInBlanks text cursor label (front ++ q :: mid) t raw y b n offset)
  (hback : back = scan t.state t.stop (text.onward t.stop)) (hq : q.kind = .tagOpen)
  (hmid : ∀ m ∈ mid, m.kind ≠ .tagOpen)
  (hread : e.startTag = ((mid ++ t :: back).takeWhile (·.kind ≠ .tagOpen)).foldl StartTag.read
    { id := front.countP (·.kind = .tagOpen) + 1, start := q.offset })
include h hmid

theorem NameInBlanks.ne_tagOpen : ∀ m ∈ mid ++ [b], m.kind ≠ .tagOpen := by
  simpa [or_imp, forall_and, h.kind_blank] using hmid

include hback hq hread

theorem NameInBlanks.adds_apart (hkind : t.kind = .blank)
    (hstop : (text.onward cursor).Stops Token.isAttributeNameChar) :
    Edit.AddsAttribute text cursor e ⟨cursor, cursor, label⟩ := by
  have hname : String.ofList n.lexeme = label := by
    rw [h.lexeme_eq, Text.takeWhile_eq_nil_iff.mpr hstop, List.append_nil, String.ofList_toList]
  have hdrop : (text.onward cursor).dropWhile Token.isAttributeNameChar = text.onward cursor := by
    simpa using Text.dropWhile_append (List.forall_mem_nil _) hstop
  have hnew := h.tokens_eq
  rw [hdrop] at hnew
  by_cases hgoes : (text.onward cursor).GoesOn
  · have hfollows := hstop
    rw [h.onward_eq] at hgoes hfollows hnew
    obtain ⟨gap, offset', hgap, hgoesOn⟩ := hgoes.scan_eq h.blanks h.stops hfollows raw offset
    rw [h.afterPart.scan_eq h.stops (hgoes.head?_ne h.blanks h.stops)] at hback
    rw [hgoesOn] at hnew
    obtain ⟨e', he', hstart, before, later, later', hold, hattributes, hlater⟩ := exists_element_inserted
      hread hmid hq hkind hback.symm (by simpa using hnew) h.kind_blank h.kind_name hgap rfl
    exact adds_of_inserted he' (hstart.trans (start_of_read hread).symm) hattributes hlater hold hname hstop
  · obtain ⟨e', he', hstart, hattributes⟩ := exists_element_named
      (show tokens _ = front ++ q :: ((mid ++ [b]) ++ n :: _) by simpa using hnew) hq (h.ne_tagOpen hmid)
      h.kind_name
    obtain ⟨value, later, hlast⟩ := StartTag.foldl_read_name
      ((scan (.afterAttributeName ⟨raw, false⟩) offset (text.onward cursor)).takeWhile (·.kind ≠ .tagOpen))
    rw [hlast _ n h.kind_name] at hattributes
    have hmem : ⟨String.ofList n.lexeme, n.offset, value⟩ ∈ e'.attributes := by
      rw [hattributes]
      exact List.mem_append_right _ List.mem_cons_self
    refine ⟨e', he', hstart.trans (start_of_read hread).symm, iff_of_true ⟨_, hmem, hname⟩ hstop, ?_⟩
    rintro (hlt | hgoes')
    · exact absurd hlt (Nat.lt_irrefl cursor)
    · exact absurd hgoes' hgoes

/-- A name follows and becomes part of the new one. -/
theorem NameInBlanks.adds_joined (he : e ∈ (Document.parse text).elements)
    (hmissing : label ∈ e.missing s options t.stop) (hle : cursor ≤ t.stop)
    (hstop : ¬ (text.onward cursor).Stops Token.isAttributeNameChar) :
    Edit.AddsAttribute text cursor e ⟨cursor, cursor, label⟩ := by
  have hnil : y = [] := by
    rw [h.onward_eq] at hstop
    obtain ⟨d, ds, hcons, hd⟩ := Text.exists_cons_of_not_stops hstop
    cases y with
    | nil => rfl
    | cons c cs =>
      cases hcons
      have hblank := isBlank_of_isAttributeNameChar hd
      rw [h.blanks d List.mem_cons_self] at hblank
      cases hblank
  obtain ⟨rfl, hstart⟩ := h.at_end hnil
  obtain rfl : cursor = b.stop := Nat.le_antisymm hle hstart
  rw [h.afterPart.scan_name hstop] at hback
  subst hback
  have hnew := h.tokens_eq
  obtain ⟨e', he', hplace, before, value, later, later', hold, hattributes, hlater⟩ :=
    exists_element_replaced (by simpa using hread) (h.ne_tagOpen hmid) hq rfl (by simpa using hnew) h.kind_name
      (scan_tokens_eq _ _ _ _)
  refine adds_of_replaced he' (hplace.trans (start_of_read hread).symm) hattributes hlater he hold hmissing
    (congrArg String.ofList h.lexeme_eq) ?_
  exact ⟨Nat.le_refl _, Nat.le_add_right _ _⟩

end

section
variable {text : Text} {cursor : Nat} {e : Element} {above : List Element} {ts : List Placed}
  {before back : List Placed} {t : Placed} {label : String}
  (hchain : (Document.parse text).chainBefore cursor = .ok (e :: above))
  (hscan : scanFrom text e.start .content = .ok ts) (htokens : tokens text = before ++ t :: back)
  (hlt : t.offset < cursor) (hle : cursor ≤ t.stop) (hlabel : Markup.IsAttributeName label.toList)
include hchain hscan htokens hlt hle hlabel

theorem adds_in_name (hkind : t.kind = .attributeName) (hmissing : label ∈ e.missing s options t.offset)
    (hstop : cursor ≤ stop) (hend : stop ≤ t.stop) :
    Edit.AddsAttribute text cursor e ⟨t.offset, stop, label⟩ := by
  obtain ⟨raw, hpart, -, -⟩ := exists_afterPart_around_name htokens hkind
  obtain ⟨front, q, mid, rfl, hopen, hmid, -, hread⟩ :=
    exists_startTag_found hchain hscan htokens hlt hle hpart.isInTag
  obtain ⟨n, more, hnew, hn, hlexeme, hmore⟩ :=
    tokens_edit_name htokens hkind hlabel (Nat.le_trans (Nat.le_of_lt hlt) hstop) hend
  obtain ⟨e', he', hplace, before, value, later, later', hold, hattributes, hlater⟩ :=
    exists_element_replaced hread (ne_tagOpen_of_startTagParts hmid) hopen hkind (by simpa using hnew) hn hmore
  have htouches : Attribute.Touches cursor ⟨String.ofList t.lexeme, t.offset, value⟩ := by
    refine ⟨Nat.le_of_lt hlt, ?_⟩
    rw [Attribute.stop, String.toList_ofList]
    exact hle
  exact adds_of_replaced he' (hplace.trans (start_of_read hread).symm) hattributes hlater
    (mem_elements_of_chainBefore hchain List.mem_cons_self) hold hmissing (congrArg String.ofList hlexeme)
    htouches

theorem adds_in_blank (hkind : t.kind = .blank) (hmissing : label ∈ e.missing s options t.stop)
    (hstate : (∃ context, t.state = .tag context) ∨ ∃ context, t.state = .afterAttributeName context) :
    Edit.AddsAttribute text cursor e ⟨cursor, cursor, label⟩ := by
  obtain ⟨c, cs, htoken, hnext, -, hback⟩ := exists_next_onward htokens
  have hblank : (Token.next (finalState .content before) c cs).token.kind = .blank := by
    rw [← htoken]
    exact hkind
  have hin : (finalState .content before).isInTag = true := by
    rcases Token.state_of_next_blank hblank (hnext ▸ hstate) with ⟨context, h⟩ | ⟨context, h⟩ <;> rw [h] <;> rfl
  obtain ⟨raw, y, b, n, offset, hnew⟩ := exists_nameInBlanks htokens hkind hstate hlabel hlt hle
  obtain ⟨front, q, mid, rfl, hopen, hmid, -, hread⟩ :=
    exists_startTag_found hchain hscan htokens hlt hle hin
  have hmid := ne_tagOpen_of_startTagParts hmid
  by_cases hstop : (text.onward cursor).Stops Token.isAttributeNameChar
  · exact hnew.adds_apart hback hopen hmid hread hkind hstop
  · exact hnew.adds_joined hback hopen hmid hread (mem_elements_of_chainBefore hchain List.mem_cons_self)
      hmissing hle hstop

end

theorem Completion.edit_of_attributeNames {c : Completion} {offered : List CompletionItem} {item : CompletionItem}
    (h : c.items (.attributeName w start stop) = .ok offered) (hplain : c.options.snippets = false)
    (hitem : item ∈ offered) :
    item.edit = c.edit start (c.text.runStop (· ≠ '<') c.cursor stop) item.label := by
  simp only [items, attributeNames, wantsValue, hplain, bind_eq_ok, pure_eq_ok] at h
  obtain ⟨withValue, hvalue, rfl⟩ := h
  cases hvalue
  obtain ⟨rule, -, rfl⟩ := List.mem_map.mp hitem
  rfl

/-- Without snippets, the edit of every attribute name that is offered adds the attribute to the element at
the cursor, but for what the text behind it changes about that. -/
theorem offered_attribute_added {text : Text} {cursor : Nat} {e : Element} {above : List Element}
    (hchain : (Document.parse text).chainBefore cursor = .ok (e :: above)) (s : Schema)
    (options : CompletionOptions) (hplain : options.snippets = false) :
    ∃ items, (Document.parse text).completions s options cursor = .ok items ∧
      ∀ item ∈ items, item.kind = .attributeName → Markup.IsAttributeName item.label.toList →
        item.edit.text = item.label ∧ item.edit.AddsAttribute text cursor e := by
  obtain ⟨items, hitems⟩ := completions_ok (le_size_of_chainBefore hchain) s options
  rcases Document.of_completions hitems with ⟨hnone, -⟩ | ⟨e', above', ts, hfound, hscan, hoffered⟩
  · cases hchain.symm.trans hnone
  obtain ⟨rfl, rfl⟩ := List.cons.inj (Except.ok.inj (hchain.symm.trans hfound))
  have hbelongs := site_belongsTo_found hchain hscan
  rw [show (Document.parse text).text = text from rfl] at hoffered
  refine ⟨items, hitems, fun item hitem hkind hlabel => ?_⟩
  obtain ⟨w, start, stop, hsite, -⟩ := Completion.of_items_attributeName hoffered hitem hkind
  rw [hsite] at hoffered hbelongs
  have hmissing := (Completion.mem_labels_iff hoffered hbelongs).mp ⟨item, hitem, hkind, rfl⟩
  rw [Completion.edit_of_attributeNames hoffered hplain hitem]
  refine ⟨rfl, ?_⟩
  rcases site_cases hchain hscan with
    (hnone | hnone | ⟨slash, hnone⟩) | ⟨before, t, back, tag, name, htokens, hlt, hle, hdecided⟩
  · cases hsite.symm.trans hnone
  · cases hsite.symm.trans hnone
  · cases hsite.symm.trans hnone
  rw [hsite] at hdecided
  rcases CompletionSite.of_attributeName hdecided (reads_of_scan htokens).1 with
    ⟨hname, rfl, rfl⟩ | ⟨hblank, rfl, rfl, hstate⟩
  · rw [Completion.edit, Nat.min_eq_left (Nat.le_of_lt hlt)]
    exact adds_in_name hchain hscan htokens hlt hle hlabel hname hmissing Text.le_runStop (Text.runStop_le hle)
  · rw [Completion.edit, Nat.min_eq_right hle, Text.runStop_eq (Nat.le_refl _)]
    exact adds_in_blank hchain hscan htokens hlt hle hlabel hblank hmissing hstate

def typedPage : Text :=
  "<view  c<b hidden=\"é\">".toList

theorem offered_attribute_added_typedPage :
    ∃ e above items, (Document.parse typedPage).chainBefore 6 = .ok (e :: above) ∧
      (Document.parse typedPage).completions ⟨[]⟩ {} 6 = .ok items ∧
      ∃ item ∈ items, item.kind = .attributeName ∧ item.label = "id" ∧
        ∃ e' ∈ (Document.parse (item.edit.apply typedPage)).elements, (∃ a ∈ e'.attributes, a.name = "id") ∧
          List.Sublist [("c<b", none), ("hidden", some "é")] (e'.attributes.map Attribute.content) := by
  have hfirst : (Element.chainBeforeAll 6 [] (Document.parse typedPage).roots).head?.map (·.attributes) =
      some [⟨"c<b", 7, none⟩, ⟨"hidden", 11, some "é"⟩] := by
    decide +kernel
  have hchain : (Document.parse typedPage).chainBefore 6 =
      .ok (Element.chainBeforeAll 6 [] (Document.parse typedPage).roots) := parse_chainBefore (by decide)
  have hoffers : ((Document.parse typedPage).completions ⟨[]⟩ {} 6).toOption.any (·.any fun item =>
      item.kind = .attributeName ∧ item.label = "id" ∧ item.edit = ⟨6, 6, "id"⟩) = true := by
    decide +kernel
  cases hfound : Element.chainBeforeAll 6 [] (Document.parse typedPage).roots with
  | nil => rw [hfound] at hfirst; cases hfirst
  | cons e above =>
    rw [hfound] at hfirst hchain
    have hattributes : e.attributes = [⟨"c<b", 7, none⟩, ⟨"hidden", 11, some "é"⟩] := by simpa using hfirst
    obtain ⟨items, hitems, hadds⟩ := offered_attribute_added hchain ⟨[]⟩ {} rfl
    rw [hitems] at hoffers
    obtain ⟨item, hitem, hfields⟩ := List.any_eq_true.mp hoffers
    obtain ⟨hkind, hlabel, hedit⟩ := of_decide_eq_true hfields
    obtain ⟨-, e', he', -, hname, hkept⟩ := hadds item hitem hkind (by rw [hlabel]; decide)
    rw [hedit] at hname hkept
    refine ⟨e, above, items, hchain, hitems, item, hitem, hkind, hlabel, e', he',
      hname.mpr (by decide), ?_⟩
    have hkept := hkept (.inr (by decide))
    rw [hattributes] at hkept
    exact hkept

/-- The first attribute is next to the cursor, and the second one has its value behind the cursor: the
new attribute takes the name of the one and the value of the other. -/
theorem attribute_taken :
    ((Document.parse "<view class=\"é\">".toList).completions ⟨[]⟩ {} 6).toOption.any
        (·.any fun item => item.kind = .attributeName ∧ item.label = "id" ∧
          (Document.parse (item.edit.apply "<view class=\"é\">".toList)).elements.map (·.attributes) =
            [[⟨"idclass", 6, some "é"⟩]]) = true ∧
      ((Document.parse "<view class = \"é\">".toList).completions ⟨[]⟩ {} 12).toOption.any
        (·.any fun item => item.kind = .attributeName ∧ item.label = "id" ∧
          (Document.parse (item.edit.apply "<view class = \"é\">".toList)).elements.map (·.attributes) =
            [[⟨"class", 6, none⟩, ⟨"id", 12, some "é"⟩]]) = true := by
  constructor
  · decide +kernel
  · decide +kernel

end PageMarkup
