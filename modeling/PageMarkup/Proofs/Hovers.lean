import PageMarkup.Proofs.TagNames

/-!
# What an offset is about

`TopicAt` says what there is to say about an offset without a lookup: names of attributes count in the
innermost element around the offset, names in tags wherever they are. The lookup finds these topics and
no others, although it searches the tokens only from the tag of the innermost element on: a name that the
offset touches further on would belong to an element inside, or come after the end of this one.
-/

namespace PageMarkup

/-- The topics that the schema has for an offset. -/
inductive TopicAt (text : Text) (s : Schema) (offset : Nat) : Topic → Prop
  | knownAttribute (innermost : (Document.parse text).chainAt offset = .ok (e :: above)) (tag : e.tag = some name)
      (mem : a ∈ e.attributes) (touches : a.Touches offset)
      (known : s.rule? name.toLower a.name (s.mode? e name.toLower) = some rule) :
      TopicAt text s offset ⟨a.offset, a.stop, [name.toLower, a.name], rule.markdown name.toLower⟩
  | unknownAttribute (innermost : (Document.parse text).chainAt offset = .ok (e :: above))
      (tag : e.tag = some name) (mem : a ∈ e.attributes) (touches : a.Touches offset)
      (unknown : s.rule? name.toLower a.name (s.mode? e name.toLower) = none)
      (known : s.component? name.toLower = some component) :
      TopicAt text s offset ⟨a.offset, a.stop, [name.toLower], component.markdown⟩
  | tagName (mem : e ∈ (Document.parse text).elements) (tag : e.tag = some name) (named : e.NamedBy text p)
      (touches : p.Touches offset) (known : s.component? name.toLower = some component) :
      TopicAt text s offset ⟨p.offset, p.stop, [name.toLower], component.markdown⟩

-- ---------------------------------------------------------------------------
-- Names that are touched
-- ---------------------------------------------------------------------------

/-- Names of attributes do not touch one another, so there is one attribute at most. -/
theorem attributeAt?_eq_some_iff {text : Text} {e : Element} {a : Attribute} {offset : Nat}
    (he : e ∈ (Document.parse text).elements) :
    e.attributeAt? offset = some a ↔ a ∈ e.attributes ∧ a.Touches offset := by
  constructor
  · intro h
    have htouches := List.find?_some h
    simp only [Bool.and_eq_true, decide_eq_true_eq] at htouches
    exact ⟨List.mem_of_find?_eq_some h, htouches⟩
  · rintro ⟨ha, htouches⟩
    cases hfound : e.attributeAt? offset with
    | none =>
      have hnot := List.find?_eq_none.mp hfound a ha
      simp only [Bool.and_eq_true, decide_eq_true_eq] at hnot
      exact absurd htouches hnot
    | some b =>
      obtain ⟨hb, front, back, hattributes, hfront⟩ := List.find?_eq_some_iff_append.mp hfound
      simp only [Bool.and_eq_true, decide_eq_true_eq] at hb
      have hordered := (parse_allRanged text e he).attributes_ordered
      rw [hattributes] at ha hordered
      rcases List.mem_append.mp ha with ha | ha
      · have hnot := hfront a ha
        simp only [Bool.not_eq_true', Bool.and_eq_false_iff, decide_eq_false_iff_not] at hnot
        rcases hnot with hnot | hnot
        · exact absurd htouches.1 hnot
        · exact absurd htouches.2 hnot
      · rcases List.mem_cons.mp ha with rfl | ha
        · rfl
        · have hlater := (List.pairwise_cons.mp (List.pairwise_append.mp hordered).2.1).1 a ha
          have := htouches.1
          omega

section
variable {text : Text} {before rest : List Placed} {b p : Placed} {start offset : Nat} {kind : TokenKind}

theorem tokenTouching_of_nameIn (h : NameIn text bracket kind start p) (htouches : p.Touches offset)
    (hw : bracket.bracket? = some (c :: w)) (hbracket : bracket ≠ kind) (hblank : kind ≠ .blank) :
    (Document.parse text).tokenTouching start offset kind = .ok (some p) := by
  obtain ⟨hkind, before, b, gap, rest, htokens, hb, rfl, hgap⟩ := h
  have hsplit : tokens text = (before ++ b :: gap) ++ p :: rest := by simpa using htokens
  have hfound : (b :: (gap ++ p :: rest)).find? (fun q =>
      offset < q.stop || (q.stop = offset && q.kind = kind)) = some p := by
    refine List.find?_eq_some_iff_append.mpr ⟨?_, b :: gap, rest, rfl, fun q hq => ?_⟩
    · simp only [Bool.or_eq_true, Bool.and_eq_true, decide_eq_true_eq]
      rcases Nat.lt_or_eq_of_le htouches.2 with hlt | heq
      · exact .inl hlt
      · exact .inr ⟨heq.symm, hkind⟩
    · have hother : q.kind ≠ kind := by
        rcases List.mem_cons.mp hq with rfl | hq
        · rwa [hb]
        · rw [hgap q hq]
          exact hblank.symm
      have hstop := stop_le_of_mem_before hsplit (List.mem_append_right _ hq)
      have := htouches.1
      simp only [hother, decide_false, Bool.and_false, Bool.or_false, Bool.not_eq_true', decide_eq_false_iff_not]
      omega
  have htext : (Document.parse text).text = text := rfl
  rw [Document.tokenTouching, htext, scanFrom_bracket htokens (by rw [hb]; exact hw)]
  simp only [bind, Except.bind, hfound]
  rw [Option.filter_some_pos (by simpa using hkind)]
  rfl

theorem of_tokenTouching (htokens : tokens text = before ++ b :: rest)
    (hw : b.kind.bracket? = some (c :: w)) (hle : b.offset ≤ offset)
    (h : (Document.parse text).tokenTouching b.offset offset kind = .ok (some p)) :
    p.kind = kind ∧ p.Touches offset ∧ p ∈ b :: rest := by
  have htext : (Document.parse text).text = text := rfl
  rw [Document.tokenTouching, htext, scanFrom_bracket htokens hw] at h
  obtain ⟨hfound, hkind⟩ := Option.filter_eq_some_iff.mp (Except.ok.inj h)
  obtain ⟨hreaches, front, back, hsplit, hfront⟩ := List.find?_eq_some_iff_append.mp hfound
  simp only [Bool.or_eq_true, Bool.and_eq_true, decide_eq_true_eq] at hreaches
  refine ⟨by simpa using hkind, ⟨?_, by omega⟩, List.mem_of_find?_eq_some hfound⟩
  rcases List.eq_nil_or_concat front with rfl | ⟨init, q, rfl⟩
  · obtain ⟨rfl, -⟩ := List.cons.inj hsplit
    exact hle
  · have hnext : tokens text = (before ++ init) ++ q :: p :: back := by
      rw [htokens, hsplit]
      simp
    have hpassed := hfront q (by simp)
    simp only [Bool.not_eq_true', Bool.or_eq_false_iff, decide_eq_false_iff_not] at hpassed
    have := (reads_next hnext).2
    omega

end

-- ---------------------------------------------------------------------------
-- The lookup
-- ---------------------------------------------------------------------------

section
variable {text : Text} {e : Element} {above : List Element} {name : String} {offset : Nat}
  (hchain : (Document.parse text).chainAt offset = .ok (e :: above))
include hchain

theorem spans_of_chainAt : e ∈ (Document.parse text).elements ∧ e.Spans offset := by
  rw [Document.chainAt, Document.checkOffset] at hchain
  split at hchain
  · have hfound : Element.chainAtAll offset [] (Document.parse text).roots = _ :=
      Element.chainAtAll_eq_filter _ (parse_forest text)
    rw [Except.ok.inj hchain, List.append_nil] at hfound
    have hmem : e ∈ e :: above := List.mem_cons_self
    rw [hfound, List.mem_reverse, List.mem_filter, decide_eq_true_eq] at hmem
    exact ⟨hmem.1, hmem.2.1, hmem.2.2⟩
  · cases hchain

variable (htag : e.tag = some name) (s : Schema)
include htag

theorem topic?_of_attribute (ha : e.attributeAt? offset = some a) :
    (Document.parse text).topic? s offset =
      .ok ((Document.attributeTopic? s e name.toLower a).or
        (Document.tagTopic? s name.toLower a.offset a.stop)) := by
  simp only [Document.topic?, hchain, bind, Except.bind, htag, Option.map_some, ha]
  rfl

theorem topic?_of_startTag (ha : e.attributeAt? offset = none)
    (hend : ∀ start, e.endTagStart = some start → offset < start) :
    (Document.parse text).topic? s offset =
      ((Document.parse text).tokenTouching e.start offset .tagName).map
        (·.bind fun p => Document.tagTopic? s name.toLower p.offset p.stop) := by
  simp only [Document.topic?, hchain, bind, Except.bind, htag, Option.map_some, ha]
  cases hstart : e.endTagStart with
  | none => rfl
  | some start =>
    simp only [if_neg (Nat.not_le_of_lt (hend start hstart))]
    rfl

theorem topic?_of_endTag (ha : e.attributeAt? offset = none) (hend : e.endTagStart = some start)
    (hle : start ≤ offset) :
    (Document.parse text).topic? s offset =
      ((Document.parse text).tokenTouching start offset .endTagName).map
        (·.bind fun p => Document.tagTopic? s name.toLower p.offset p.stop) := by
  simp only [Document.topic?, hchain, bind, Except.bind, htag, Option.map_some, ha, hend, if_pos hle]
  rfl

end

section
variable {text : Text} {offset : Nat} {s : Schema} {t : Topic}

/-- The end tag of an element does not begin right after the name in its start tag. -/
theorem lt_endTagStart {e : Element} {p : Placed} (he : e ∈ (Document.parse text).elements)
    (hname : NameIn text .tagOpen .tagName e.start p) (hend : e.endTagStart = some start) : p.stop < start := by
  obtain ⟨⟨q, hq, hkind, rfl⟩, hlt, -⟩ := (parse_allRanged text e he).endTag_last start hend
  have hstart := hname.start_lt
  have hplace := hname.place hq (by omega) (by rw [hkind]; decide)
    (by rintro rfl; cases hname.1.symm.trans hkind)
  have hsize : 0 < q.token.size := size_pos_of_mem_tokens hq
  rw [Placed.stop] at hplace
  refine Nat.lt_of_le_of_ne (by omega) fun heq => ?_
  obtain ⟨raw, hstate⟩ := hname.state_of_startTag
  have hreads := hname.reads_of_stop_eq hq heq.symm
  rw [hstate] at hreads
  rcases hreads.state_of_bracket (show q.kind.bracket? = some ['<', '/'] by rw [hkind]; rfl) with h | h | h
  · cases h
  · cases h
  · cases h

theorem TopicAt.found (h : TopicAt text s offset t) : (Document.parse text).topic? s offset = .ok (some t) := by
  cases h with
  | knownAttribute innermost tag mem touches known =>
    have he := (spans_of_chainAt innermost).1
    rw [topic?_of_attribute innermost tag s ((attributeAt?_eq_some_iff he).mpr ⟨mem, touches⟩),
      Document.attributeTopic?, known]
    rfl
  | unknownAttribute innermost tag mem touches unknown known =>
    have he := (spans_of_chainAt innermost).1
    rw [topic?_of_attribute innermost tag s ((attributeAt?_eq_some_iff he).mpr ⟨mem, touches⟩),
      Document.attributeTopic?, unknown, Document.tagTopic?, known]
    rfl
  | @tagName e name p component mem tag named touches known =>
    obtain ⟨-, -, hattributes⟩ := innermost_of_namedBy mem named touches
    obtain ⟨above, hchain⟩ := chainAt_of_namedBy mem named touches
    have ha : e.attributeAt? offset = none := by
      refine Option.eq_none_iff_forall_ne_some.mpr fun a ha => ?_
      obtain ⟨hmem, htouches⟩ := (attributeAt?_eq_some_iff mem).mp ha
      exact hattributes a hmem htouches
    cases named with
    | startTag hname =>
      rw [topic?_of_startTag hchain tag s ha fun start hend =>
          Nat.lt_of_le_of_lt touches.2 (lt_endTagStart mem hname hend),
        tokenTouching_of_nameIn hname touches (c := '<') rfl (by decide) (by decide)]
      simp [Except.map, Document.tagTopic?, known]
    | endTag hend hname =>
      rw [topic?_of_endTag hchain tag s ha hend (Nat.le_trans (Nat.le_of_lt hname.start_lt) touches.1),
        tokenTouching_of_nameIn hname touches (c := '<') rfl (by decide) (by decide)]
      simp [Except.map, Document.tagTopic?, known]

theorem exists_element_of_nameIn {p : Placed} (h : NameIn text .tagOpen .tagName start p) :
    ∃ e ∈ (Document.parse text).elements, e.NamedBy text p := by
  obtain ⟨-, before, b, gap, rest, htokens, hb, hoffset, -⟩ := id h
  obtain ⟨e, he, hread⟩ := exists_element_of_tagOpen htokens hb
  have hstart : e.start = start := by
    have hplace := congrArg StartTag.start hread
    rw [(StartTag.foldl_read_place _ _).2] at hplace
    exact hplace.trans hoffset
  exact ⟨e, he, .startTag (hstart ▸ h)⟩

/-- From the end tag of an element on, no other end tag has a name inside the element. -/
theorem nameIn_of_endTagStart {e : Element} {p : Placed} (he : e ∈ (Document.parse text).elements)
    (hend : e.endTagStart = some start) (hp : p ∈ tokens text) (hkind : p.kind = .endTagName)
    (hle : start ≤ p.offset) (hlt : p.offset ≤ e.stop) : NameIn text .endTagOpen .endTagName start p := by
  obtain ⟨start', hname⟩ := exists_nameIn hp (show p.kind.predecessor? = some (.endTagOpen, .blank) by
    rw [hkind]; rfl)
  rw [hkind] at hname
  obtain ⟨⟨q, hq, hqkind, rfl⟩, -⟩ := (parse_allRanged text e he).endTag_last start hend
  by_cases hstart : q.offset = start'
  · exact hstart ▸ hname
  · have hplace := hname.place hq hstart (by rw [hqkind]; decide) (by rintro rfl; cases hkind.symm.trans hqkind)
    have hafter := hname.start_lt
    have hqsize : 0 < q.token.size := size_pos_of_mem_tokens hq
    have hpsize : 0 < p.token.size := size_pos_of_mem_tokens hp
    obtain ⟨-, before, b, gap, rest, htokens, hb, rfl, -⟩ := hname
    rw [Placed.stop, Placed.stop] at hplace
    have hstop := stop_le_of_later_endTag he hend (show b ∈ tokens text by rw [htokens]; simp) hb (by omega)
    omega

theorem exists_token_of_map {x : Except OffsetError (Option Placed)} {f : Placed → Option Topic}
    (h : x.map (·.bind f) = .ok (some t)) : ∃ p, x = .ok (some p) ∧ f p = some t := by
  cases x with
  | error => cases h
  | ok token =>
    obtain ⟨p, rfl, hp⟩ := Option.bind_eq_some_iff.mp (Except.ok.inj h)
    exact ⟨p, rfl, hp⟩

theorem named_of_found {e : Element} {name : String}
    (hchain : (Document.parse text).chainAt offset = .ok (e :: above)) (htag : e.tag = some name)
    (ha : e.attributeAt? offset = none) (h : (Document.parse text).topic? s offset = .ok (some t)) :
    ∃ p, e.NamedBy text p ∧ p.Touches offset ∧
      Document.tagTopic? s name.toLower p.offset p.stop = some t := by
  obtain ⟨he, hspans⟩ := spans_of_chainAt hchain
  have hrange := parse_allRanged text e he
  by_cases hend : ∃ start, e.endTagStart = some start ∧ start ≤ offset
  · obtain ⟨start, hend, hle⟩ := hend
    rw [topic?_of_endTag hchain htag s ha hend hle] at h
    obtain ⟨p, htoken, htopic⟩ := exists_token_of_map h
    obtain ⟨⟨b, hb, hbkind, rfl⟩, -⟩ := hrange.endTag_last start hend
    obtain ⟨before, rest, htokens⟩ := List.append_of_mem hb
    obtain ⟨hkind, htouches, hmem⟩ := of_tokenTouching htokens
      (show b.kind.bracket? = some ['<', '/'] by rw [hbkind]; rfl) hle htoken
    have hp : p ∈ tokens text := by
      rw [htokens]
      exact List.mem_append_right _ hmem
    have hafter : b.offset ≤ p.offset := by
      rcases List.mem_cons.mp hmem with rfl | hmem
      · exact Nat.le_refl _
      · exact Nat.le_trans (Nat.le_add_right _ _) (stop_le_offset htokens hmem)
    have hname := nameIn_of_endTagStart he hend hp hkind hafter (Nat.le_trans htouches.1 hspans.le_stop)
    exact ⟨p, .endTag hend hname, htouches, htopic⟩
  · rw [topic?_of_startTag hchain htag s ha fun start hstart =>
      Nat.lt_of_not_le fun hle => hend ⟨start, hstart, hle⟩] at h
    obtain ⟨p, htoken, htopic⟩ := exists_token_of_map h
    obtain ⟨before, b, rest, htokens, hbkind, hstart⟩ := exists_tagOpen_of_mem_elements he
    rw [← hstart] at htoken
    obtain ⟨hkind, htouches, hmem⟩ := of_tokenTouching htokens
      (show b.kind.bracket? = some ['<'] by rw [hbkind]; rfl)
      (Nat.le_of_lt (hstart ▸ hspans.start_lt)) htoken
    have hp : p ∈ tokens text := by
      rw [htokens]
      exact List.mem_append_right _ hmem
    obtain ⟨start, hname⟩ := exists_nameIn hp (show p.kind.predecessor? = some (.tagOpen, .blank) by
      rw [hkind]; rfl)
    rw [hkind] at hname
    obtain ⟨x, hx, hnamed⟩ := exists_element_of_nameIn hname
    obtain ⟨above', hchain'⟩ := chainAt_of_namedBy hx hnamed htouches
    obtain ⟨rfl, -⟩ := List.cons.inj (Except.ok.inj (hchain.symm.trans hchain'))
    exact ⟨p, hnamed, htouches, htopic⟩

theorem topicAt_of_found (h : (Document.parse text).topic? s offset = .ok (some t)) :
    TopicAt text s offset t := by
  cases hchain : (Document.parse text).chainAt offset with
  | error => simp [Document.topic?, hchain, bind, Except.bind] at h
  | ok chain =>
    cases chain with
    | nil => simp [Document.topic?, hchain, bind, Except.bind, pure, Except.pure] at h
    | cons e above =>
      obtain ⟨he, hspans⟩ := spans_of_chainAt hchain
      cases htag : e.tag with
      | none => simp [Document.topic?, hchain, bind, Except.bind, pure, Except.pure, htag] at h
      | some name =>
        cases ha : e.attributeAt? offset with
        | some a =>
          obtain ⟨hmem, htouches⟩ := (attributeAt?_eq_some_iff he).mp ha
          rw [topic?_of_attribute hchain htag s ha] at h
          rcases Option.or_eq_some_iff.mp (Except.ok.inj h) with htopic | ⟨hnone, htopic⟩
          · obtain ⟨rule, hrule, rfl⟩ := Option.map_eq_some_iff.mp htopic
            exact .knownAttribute hchain htag hmem htouches hrule
          · obtain ⟨component, hcomponent, rfl⟩ := Option.map_eq_some_iff.mp htopic
            exact .unknownAttribute hchain htag hmem htouches (Option.map_eq_none_iff.mp hnone) hcomponent
        | none =>
          obtain ⟨p, hnamed, htouches, htopic⟩ := named_of_found hchain htag ha h
          obtain ⟨component, hcomponent, rfl⟩ := Option.map_eq_some_iff.mp htopic
          exact .tagName he htag hnamed htouches hcomponent

end

-- ---------------------------------------------------------------------------
-- Ranges of topics
-- ---------------------------------------------------------------------------

theorem slice?_of_mem_tokens (h : p ∈ tokens text) : text.slice? p.offset p.stop = some p.lexeme := by
  obtain ⟨front, rest, rfl, hoffset⟩ := exists_append_of_mem_tokens h
  rw [Placed.stop, ← hoffset]
  exact Text.slice?_append front p.lexeme rest

theorem slice?_name {e : Element} {a : Attribute} (he : e ∈ (Document.parse text).elements)
    (ha : a ∈ e.attributes) : text.slice? a.offset a.stop = some a.name.toList := by
  obtain ⟨before, p, rest, htokens, -, rfl⟩ := exists_token_of_mem_attributes he ha
  rw [Attribute.stop, String.toList_ofList]
  exact slice?_of_mem_tokens (htokens ▸ List.mem_append_right before List.mem_cons_self)

/-- Hovering is about exactly the names that the offset touches and the schema knows: that of an
attribute of the innermost element, also if only the element is known, and the name in a start tag or end
tag. The range of an attribute is its name; that of a tag is the name in it, by which the element is
called but for case. -/
theorem topic_found_iff {text : Text} {offset : Nat} (hoffset : offset ≤ text.size) (s : Schema) :
    (∃ topic, (Document.parse text).topic? s offset = .ok topic ∧
      ∀ t, topic = some t ↔ TopicAt text s offset t) ∧
    ∀ e ∈ (Document.parse text).elements,
      (∀ a ∈ e.attributes, text.slice? a.offset a.stop = some a.name.toList) ∧
      ∀ p, e.NamedBy text p →
        text.slice? p.offset p.stop = some p.lexeme ∧ e.hasName (String.ofList p.lexeme) = true := by
  refine ⟨?_, fun e he => ⟨fun a ha => slice?_name he ha, fun p hnamed => ?_⟩⟩
  · obtain ⟨topic, htopic⟩ := topic?_ok hoffset s
    refine ⟨topic, htopic, fun t => ⟨?_, fun h => ?_⟩⟩
    · rintro rfl
      exact topicAt_of_found htopic
    · exact Except.ok.inj (htopic.symm.trans h.found)
  · exact ⟨slice?_of_mem_tokens hnamed.mem_tokens, hasName_of_namedBy he hnamed⟩

def loosePage : Text :=
  "é<text x></ text >".toList

def textSchema : Schema :=
  ⟨[{ name := "text" }]⟩

theorem topic_found_iff_loosePage :
    (∃ t, (Document.parse loosePage).topic? textSchema 17 = .ok (some t) ∧ TopicAt loosePage textSchema 17 t ∧
      (t.start, t.stop, t.page) = (13, 17, ["text"])) ∧
    ∃ t, (Document.parse loosePage).topic? textSchema 8 = .ok (some t) ∧ TopicAt loosePage textSchema 8 t ∧
      (t.start, t.stop, t.page) = (8, 9, ["text"]) := by
  have hsize : loosePage.size = 19 := by decide
  have htag : ((Document.parse loosePage).topic? textSchema 17).toOption.map
      (·.map fun t => (t.start, t.stop, t.page)) = some (some (13, 17, ["text"])) := by decide +kernel
  have hattribute : ((Document.parse loosePage).topic? textSchema 8).toOption.map
      (·.map fun t => (t.start, t.stop, t.page)) = some (some (8, 9, ["text"])) := by decide +kernel
  obtain ⟨⟨topic, htopic, hiff⟩, -⟩ := topic_found_iff (show 17 ≤ loosePage.size by omega) textSchema
  obtain ⟨⟨topic', htopic', hiff'⟩, -⟩ := topic_found_iff (show 8 ≤ loosePage.size by omega) textSchema
  rw [htopic] at htag
  rw [htopic'] at hattribute
  obtain ⟨t, rfl, ht⟩ := Option.map_eq_some_iff.mp (Option.some.inj htag)
  obtain ⟨t', rfl, ht'⟩ := Option.map_eq_some_iff.mp (Option.some.inj hattribute)
  exact ⟨⟨t, htopic, (hiff t).mp rfl, ht⟩, t', htopic', (hiff' t').mp rfl, ht'⟩

end PageMarkup
