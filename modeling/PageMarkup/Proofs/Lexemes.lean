import Mathlib.Data.List.TakeWhile
import PageMarkup.Proofs.CaseLaws
import PageMarkup.Proofs.Markup

/-!
# The tokens of written markup

What the scanner takes from the front of a text that begins with a piece of well-formed markup: the
whole piece, whatever follows it, as long as what follows cannot be taken for more of it.
-/

namespace PageMarkup

-- ---------------------------------------------------------------------------
-- Names
-- ---------------------------------------------------------------------------

theorem isAttributeNameChar_of_isAlphanum {c : Char} (h : c.isAlphanum = true) :
    Token.isAttributeNameChar c = true := by
  unfold Char.isAlphanum Char.isAlpha Char.isUpper Char.isLower Char.isDigit at h
  simp only [Bool.or_eq_true, Bool.and_eq_true, decide_eq_true_eq, UInt32.le_iff_toNat_le,
    ge_iff_le, seval] at h
  simp only [Token.isAttributeNameChar, isWhiteSpace, isControl, Bool.not_eq_true',
    Bool.or_eq_false_iff, Bool.and_eq_false_iff, decide_eq_false_iff_not]
  have hval : c.toNat = c.val.toNat := rfl
  refine ⟨⟨⟨⟨⟨⟨?_, ?_⟩, ?_⟩, ?_⟩, ?_⟩, ?_⟩, ?_⟩
  · omega
  · omega
  all_goals
    rintro rfl
    revert h
    decide

theorem isAttributeNameChar_of_isNameChar (h : Token.isNameChar c = true) :
    Token.isAttributeNameChar c = true := by
  simp only [Token.isNameChar, Bool.or_eq_true, decide_eq_true_eq] at h
  rcases h with (((rfl | rfl) | rfl) | rfl) | h
  · rfl
  · rfl
  · rfl
  · rfl
  · exact isAttributeNameChar_of_isAlphanum h

theorem isBlank_of_isAttributeNameChar (h : Token.isAttributeNameChar c = true) :
    isBlank c = false := by
  cases hc : isBlank c with
  | false => rfl
  | true => simp [Token.isAttributeNameChar, isWhiteSpace_of_isBlank hc] at h

theorem toLower_ofList {name : Text} (h : name.fold = name) :
    (String.ofList name).toLower = String.ofList name := by
  apply String.toList_injective
  show ((String.ofList name).map Char.toLower).toList = _
  rw [String.toList_map, String.toList_ofList]
  exact h

namespace Markup

theorem IsTagName.exists_cons (h : IsTagName name) :
    ∃ c cs, name = c :: cs ∧ c.isLower = true ∧ ∀ d ∈ cs, Token.isNameChar d = true := by
  cases name with
  | nil => cases h
  | cons c cs =>
    refine ⟨c, cs, rfl, h.1, fun d hd => ?_⟩
    rcases h.2 d hd with hd | hd | rfl | rfl
    · simp [Token.isNameChar, isAlphanum_of_isLower hd]
    · simp [Token.isNameChar, isAlphanum_of_isDigit hd]
    · rfl
    · rfl

theorem IsTagName.fold_eq (h : IsTagName name) : name.fold = name := by
  cases name with
  | nil => cases h
  | cons c cs =>
    refine (List.map_congr_left fun d hd => ?_).trans (List.map_id _)
    refine toLower_of_not_isUpper ?_
    rcases List.mem_cons.mp hd with rfl | hd
    · exact isUpper_of_isLower h.1
    · rcases h.2 d hd with hd | hd | rfl | rfl
      · exact isUpper_of_isLower hd
      · exact isUpper_of_isDigit hd
      · rfl
      · rfl

theorem IsTagName.isValid (h : IsTagName name) : isValidTagName name = true := by
  cases name with
  | nil => cases h
  | cons c cs =>
    simp only [isValidTagName, Bool.and_eq_true, List.all_eq_true]
    refine ⟨h.1, fun d hd => ?_⟩
    rcases h.2 d hd with hd | hd | rfl | rfl
    · simp [hd]
    · simp [hd]
    · rfl
    · rfl

theorem IsAttributeName.isValid (h : IsAttributeName name) : isValidAttributeName name = true := by
  cases name with
  | nil => cases h
  | cons c cs =>
    simp only [isValidAttributeName, Bool.and_eq_true, List.all_eq_true]
    refine ⟨h.1, fun d hd => ?_⟩
    rcases h.2 d hd with hd | rfl | rfl | rfl | rfl
    · simp [hd]
    all_goals rfl

theorem IsAttributeName.exists_cons (h : IsAttributeName name) :
    ∃ c cs, name = c :: cs ∧ Token.isAttributeNameChar c = true ∧ c ≠ '=' ∧
      ∀ d ∈ cs, Token.isAttributeNameChar d = true := by
  cases name with
  | nil => cases h
  | cons c cs =>
    refine ⟨c, cs, rfl, ?_, ?_, fun d hd => ?_⟩
    · exact isAttributeNameChar_of_isAlphanum (by simp [Char.isAlphanum, h.1])
    · rintro rfl
      exact absurd h.1 (by decide)
    · rcases h.2 d hd with hd | rfl | rfl | rfl | rfl
      · exact isAttributeNameChar_of_isAlphanum hd
      all_goals decide

theorem Tag.WellFormed.isVoid_iff {tag : Tag} (h : tag.WellFormed) :
    TagName.isVoid (String.ofList tag.name) = true ↔ tag.IsVoid := by
  rw [TagName.isVoid, toLower_ofList h.name.fold_eq, List.contains_iff_mem]
  rfl

theorem Tag.IsRaw.not_isVoid {tag : Tag} (h : tag.IsRaw) : ¬ tag.IsVoid := by
  intro hvoid
  rw [Tag.IsVoid] at hvoid
  rcases h with h | h
  all_goals
    rw [h] at hvoid
    revert hvoid
    decide

theorem Tag.WellFormed.rawText_eq {tag : Tag} (h : tag.WellFormed) (hraw : ¬ tag.IsRaw) :
    TagName.rawText tag.name = .none := by
  rw [TagName.rawText, h.name.fold_eq, if_neg (hraw ∘ .inl), if_neg (hraw ∘ .inr)]

theorem Tag.size_render (tag : Tag) :
    Text.size tag.render = 1 + Text.size tag.name + Text.size (renderAttrs tag.attributes) := by
  rw [Tag.render, Text.size_append]
  rfl

end Markup

-- ---------------------------------------------------------------------------
-- Runs of characters
-- ---------------------------------------------------------------------------

def Text.Stops (p : Char → Bool) (cs : Text) : Prop :=
  ∀ c ∈ cs.head?, p c = false

namespace Text

theorem stops_cons (h : p c = false) : Stops p (c :: cs) := by
  rintro _ ⟨rfl⟩
  exact h

theorem takeWhile_append (h : ∀ d ∈ cs, p d = true) (hrest : Stops p rest) :
    (cs ++ rest).takeWhile p = cs := by
  rw [List.takeWhile_append_of_pos h]
  cases rest with
  | nil => simp
  | cons r rest =>
    have hr : p r = false := hrest r rfl
    simp [hr]

theorem dropWhile_append (h : ∀ d ∈ cs, p d = true) (hrest : Stops p rest) :
    (cs ++ rest).dropWhile p = rest := by
  rw [List.dropWhile_append_of_pos h]
  cases rest with
  | nil => rfl
  | cons r rest =>
    have hr : p r = false := hrest r rfl
    simp [hr]

theorem trim_ne_nil {cs : Text} (h : cs.any (!isWhiteSpace ·) = true) : cs.trim ≠ [] := by
  obtain ⟨c, hc, hblank⟩ := List.any_eq_true.mp h
  rw [Bool.not_eq_true'] at hblank
  intro htrim
  simp only [Text.trim, List.reverse_eq_nil_iff, List.dropWhile_eq_nil_iff, List.mem_reverse] at htrim
  rw [← List.takeWhile_append_dropWhile (p := isWhiteSpace) (l := cs), List.mem_append] at hc
  rcases hc with hc | hc
  · exact absurd (List.mem_takeWhile_imp hc) (ne_true_of_eq_false hblank)
  · exact absurd (htrim c hc) (ne_true_of_eq_false hblank)

theorem breakAt_of_append (hcs : ∀ a b, cs = a ++ b → b ≠ [] → p (b ++ rest) = false)
    (hrest : p rest = true) : breakAt p (cs ++ rest) = (cs, rest) := by
  induction cs with
  | nil =>
    cases rest with
    | nil => rfl
    | cons r rest => simp [breakAt, hrest]
  | cons c cs ih =>
    have hc := hcs [] (c :: cs) rfl (List.cons_ne_nil c cs)
    have htail := ih fun a b hab hb => hcs (c :: a) b (by rw [hab, List.cons_append]) hb
    rw [List.cons_append] at hc ⊢
    simp [breakAt, hc, htail]

end Text

namespace Token

theorem stepRun_append {kind : TokenKind} {rest : Text} (h : ∀ d ∈ cs, p d = true)
    (hrest : rest.Stops p) :
    Step.run kind p c (cs ++ rest) state = ⟨⟨kind, c :: cs, none⟩, state, rest⟩ := by
  rw [Step.run, Text.takeWhile_append h hrest, Text.dropWhile_append h hrest]

theorem next_content_append {rest : Text} (h : '<' ∉ c :: cs) (hrest : rest.Stops (· ≠ '<')) :
    next .content c (cs ++ rest) = ⟨⟨.content, c :: cs, none⟩, .content, rest⟩ := by
  have hc : c ≠ '<' := fun hc => h (hc ▸ List.mem_cons_self)
  have hcs : ∀ d ∈ cs, decide (d ≠ '<') = true := by
    intro d hd
    exact decide_eq_true fun hlt => h (hlt ▸ List.mem_cons_of_mem c hd)
  show nextContent c (cs ++ rest) = _
  rw [nextContent, if_neg hc, stepRun_append hcs hrest]

-- ---------------------------------------------------------------------------
-- Tags
-- ---------------------------------------------------------------------------

theorem next_tagOpen (h : c.isLower = true) :
    next .content '<' (c :: cs) = ⟨⟨.tagOpen, ['<'], none⟩, .afterTagOpen, c :: cs⟩ := by
  have hbang : c ≠ '!' := by
    rintro rfl
    exact absurd h (by decide)
  have hslash : c ≠ '/' := by
    rintro rfl
    exact absurd h (by decide)
  show nextBracket (c :: cs) = _
  unfold nextBracket
  split
  · next heq =>
    cases heq
    exact absurd rfl hbang
  · next heq =>
    cases heq
    exact absurd rfl hslash
  · have hdoctype : Text.startsWithFolded "!doctype".toList (c :: cs) = false := by
      have hc : c.toLower ≠ '!' := by rwa [toLower_of_not_isUpper (isUpper_of_isLower h)]
      simp [Text.startsWithFolded, Text.fold, hc]
    rw [if_neg (ne_true_of_eq_false hdoctype)]

theorem isNameStart_of_isLower {c : Char} (h : c.isLower = true) : isNameStart c = true := by
  simp [isNameStart, isAlphanum_of_isLower h]

theorem next_tagName_append {rest : Text} (hc : c.isLower = true)
    (hcs : ∀ d ∈ cs, isNameChar d = true) (hrest : rest.Stops isNameChar) :
    next .afterTagOpen c (cs ++ rest) =
      ⟨⟨.tagName, c :: cs, none⟩, .tag ⟨TagName.rawText (c :: cs), false⟩, rest⟩ := by
  show nextTagName c (cs ++ rest) = _
  rw [nextTagName, if_pos (isNameStart_of_isLower hc), Text.takeWhile_append hcs hrest,
    stepRun_append hcs hrest]

theorem next_endTagName_append {rest : Text} (hc : c.isLower = true)
    (hcs : ∀ d ∈ cs, isNameChar d = true) (hrest : rest.Stops isNameChar) :
    next .afterEndTagOpen c (cs ++ rest) = ⟨⟨.endTagName, c :: cs, none⟩, .endTag, rest⟩ := by
  show nextEndTagName c (cs ++ rest) = _
  rw [nextEndTagName, if_pos (isNameStart_of_isLower hc), stepRun_append hcs hrest]

/-- A start tag after its name, or after an attribute that is over. -/
inductive AfterPart (raw : RawText) (blank : Bool) : ScanState → Prop
  | tag : AfterPart raw blank (.tag ⟨raw, blank⟩)
  | attributeName : AfterPart raw blank (.afterAttributeName ⟨raw, blank⟩)

theorem AfterPart.next_tagClose (h : AfterPart raw false state) :
    next state '>' cs = ⟨⟨.tagClose, ['>'], none⟩, bodyState raw, cs⟩ := by
  cases h <;> rfl

theorem AfterPart.next_tagSelfClose (h : AfterPart raw false state) :
    next state '/' ('>' :: cs) = ⟨⟨.tagSelfClose, ['/', '>'], none⟩, .content, cs⟩ := by
  cases h <;> rfl

theorem AfterPart.next_blank {rest : Text} (h : AfterPart raw false state)
    (hrest : rest.Stops isBlank) :
    ∃ after, AfterPart raw true after ∧
      next state ' ' rest = ⟨⟨.blank, [' '], none⟩, after, rest⟩ := by
  have hrun : ∀ after, Step.run .blank isBlank ' ' rest after = ⟨⟨.blank, [' '], none⟩, after, rest⟩ :=
    fun _ => stepRun_append (List.forall_mem_nil _) hrest
  cases h with
  | tag => exact ⟨_, .tag, hrun _⟩
  | attributeName => exact ⟨_, .attributeName, hrun _⟩

theorem AfterPart.next_attributeName {rest : Text} (h : AfterPart raw true state)
    (hc : isAttributeNameChar c = true) (hassign : c ≠ '=')
    (hcs : ∀ d ∈ cs, isAttributeNameChar d = true) (hrest : rest.Stops isAttributeNameChar) :
    next state c (cs ++ rest) =
      ⟨⟨.attributeName, c :: cs, none⟩, .afterAttributeName ⟨raw, false⟩, rest⟩ := by
  have hblank := isBlank_of_isAttributeNameChar hc
  have hname : nextInTag ⟨raw, true⟩ c (cs ++ rest) =
      ⟨⟨.attributeName, c :: cs, none⟩, .afterAttributeName ⟨raw, false⟩, rest⟩ := by
    simp only [nextInTag, hblank, hc, Bool.and_self, Bool.false_eq_true, ↓reduceIte]
    exact stepRun_append hcs hrest
  cases h with
  | tag => exact hname
  | attributeName =>
    show nextAfterAttributeName _ c (cs ++ rest) = _
    rwa [nextAfterAttributeName, if_neg (ne_true_of_eq_false hblank), if_neg hassign]

theorem next_assign (raw : RawText) (cs : Text) :
    next (.afterAttributeName ⟨raw, false⟩) '=' cs =
      ⟨⟨.assign, ['='], none⟩, .beforeAttributeValue ⟨raw, false⟩, cs⟩ := rfl

theorem next_attributeValue {rest : Text} (h : '"' ∉ value) :
    next (.beforeAttributeValue ⟨raw, false⟩) '"' (value ++ '"' :: rest) =
      ⟨⟨.attributeValue, '"' :: value ++ ['"'], none⟩, .tag ⟨raw, false⟩, rest⟩ := by
  have hvalue : ∀ d ∈ value, decide (d ≠ '"') = true := by
    intro d hd
    exact decide_eq_true fun hquote => h (hquote ▸ hd)
  have hquoted : nextQuoted ⟨raw, false⟩ '"' (value ++ '"' :: rest) =
      ⟨⟨.attributeValue, '"' :: value ++ ['"'], none⟩, .tag ⟨raw, false⟩, rest⟩ := by
    have hstop : Text.Stops (fun d => decide (d ≠ '"')) ('"' :: rest) := by simp [Text.Stops]
    rw [nextQuoted, Text.dropWhile_append hvalue hstop, Text.takeWhile_append hvalue hstop]
  exact hquoted

-- ---------------------------------------------------------------------------
-- Comments and raw bodies
-- ---------------------------------------------------------------------------

theorem next_commentClose (rest : Text) :
    next .comment '-' ('-' :: '>' :: rest) = ⟨⟨.commentClose, ['-', '-', '>'], none⟩, .content, rest⟩ :=
  rfl

/-- A comment does not end before its body does, even if the body ends in dashes. -/
theorem isPrefixOf_comment_append {rest : Text} (h : ¬ ['-', '-', '>'] <:+: a ++ b) (hb : b ≠ []) :
    ['-', '-', '>'].isPrefixOf (b ++ '-' :: '-' :: '>' :: rest) = false := by
  match b with
  | [x] => simp [List.isPrefixOf]
  | [x, y] => simp [List.isPrefixOf]
  | x :: y :: z :: b =>
    cases hpre : ['-', '-', '>'].isPrefixOf (x :: y :: z :: b ++ '-' :: '-' :: '>' :: rest) with
    | false => rfl
    | true =>
      simp only [List.cons_append, List.isPrefixOf_cons_cons, Bool.and_eq_true, beq_iff_eq] at hpre
      obtain ⟨rfl, rfl, rfl, -⟩ := hpre
      exact absurd ⟨a, b, by simp⟩ h

theorem next_comment_append {rest : Text} (h : ¬ ['-', '-', '>'] <:+: c :: cs) :
    next .comment c (cs ++ '-' :: '-' :: '>' :: rest) =
      ⟨⟨.comment, c :: cs, none⟩, .comment, '-' :: '-' :: '>' :: rest⟩ := by
  have hbreak : Text.breakAt (['-', '-', '>'].isPrefixOf ·) (cs ++ '-' :: '-' :: '>' :: rest) =
      (cs, '-' :: '-' :: '>' :: rest) := by
    refine Text.breakAt_of_append (fun a b hab hb => ?_) (by simp)
    exact isPrefixOf_comment_append (a := c :: a) (by rwa [List.cons_append, ← hab]) hb
  have hpre : ['-', '-', '>'].isPrefixOf (c :: (cs ++ '-' :: '-' :: '>' :: rest)) = false :=
    isPrefixOf_comment_append (a := []) h (List.cons_ne_nil c cs)
  show nextComment c _ = _
  unfold nextComment
  split
  · next hrest =>
    rw [hrest] at hpre
    simp at hpre
  · rw [hbreak]

/-- The end tag of a raw body does not begin inside the body. -/
theorem startsEndTag_append_eq_false {rest : Text} (hname : '<' ∉ name)
    (h : ¬ '<' :: '/' :: name <:+: Text.fold (a ++ b)) (hb : b ≠ []) :
    startsEndTag name (b ++ '<' :: rest) = false := by
  cases hstart : startsEndTag name (b ++ '<' :: rest) with
  | false => rfl
  | true =>
    simp only [startsEndTag, Text.startsWithFolded, decide_eq_true_eq] at hstart
    by_cases hlen : ('<' :: '/' :: name).length ≤ b.length
    · rw [List.take_append_of_le_length hlen] at hstart
      generalize ('<' :: '/' :: name).length = n at hstart
      refine absurd ⟨Text.fold a, Text.fold (b.drop n), ?_⟩ h
      rw [← hstart, Text.fold, Text.fold, Text.fold, Text.fold, List.append_assoc,
        ← List.map_append, List.take_append_drop, ← List.map_append]
    · -- The word would reach into the end tag, whose `<` is not inside the word.
      have hpos := List.length_pos_iff.mpr hb
      have hget : (Text.fold ((b ++ '<' :: rest).take ('<' :: '/' :: name).length))[b.length]? =
          some '<' := by
        rw [Text.fold, List.getElem?_map, List.getElem?_take_of_lt (Nat.lt_of_not_le hlen)]
        simp
      rw [hstart, List.getElem?_cons, if_neg (Nat.ne_of_gt hpos)] at hget
      have hmem := List.mem_of_getElem? hget
      simp [hname] at hmem

theorem startsEndTag_append {rest : Text} (hname : Text.fold name = name) :
    startsEndTag name ('<' :: '/' :: name ++ rest) = true := by
  have hfold : Text.fold ('<' :: '/' :: name) = '<' :: '/' :: name := by
    show '<'.toLower :: '/'.toLower :: Text.fold name = _
    rw [hname]
    rfl
  rw [startsEndTag, Text.startsWithFolded, List.take_left, decide_eq_true_eq, hfold]

theorem nextRaw_append {kind : TokenKind} {rest : Text} (hname : Text.fold name = name)
    (hlt : '<' ∉ name) (h : ¬ '<' :: '/' :: name <:+: Text.fold (c :: cs)) :
    nextRaw name kind state c (cs ++ ('<' :: '/' :: name ++ rest)) =
      ⟨⟨kind, c :: cs, none⟩, .content, '<' :: '/' :: name ++ rest⟩ := by
  have hbreak : Text.breakAt (startsEndTag name) (cs ++ ('<' :: '/' :: name ++ rest)) =
      (cs, '<' :: '/' :: name ++ rest) := by
    refine Text.breakAt_of_append (fun a b hab hb => ?_) (startsEndTag_append hname)
    exact startsEndTag_append_eq_false (a := c :: a) hlt (by rwa [List.cons_append, ← hab]) hb
  have hstart : startsEndTag name (c :: (cs ++ ('<' :: '/' :: name ++ rest))) = false :=
    startsEndTag_append_eq_false (a := []) hlt h (List.cons_ne_nil c cs)
  rw [nextRaw, if_neg (ne_true_of_eq_false hstart), hbreak]
  rfl

theorem nextRaw_endTag {kind : TokenKind} {rest : Text} (hname : Text.fold name = name) :
    nextRaw name kind state '<' ('/' :: name ++ rest) =
      ⟨⟨.endTagOpen, ['<', '/'], none⟩, .afterEndTagOpen, name ++ rest⟩ := by
  have hstart : startsEndTag name ('<' :: ('/' :: name ++ rest)) = true := startsEndTag_append hname
  rw [nextRaw, if_pos hstart]
  rfl

end Token

end PageMarkup
