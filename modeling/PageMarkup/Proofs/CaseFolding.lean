import PageMarkup.Proofs.CaseLaws
import PageMarkup.Proofs.OffsetLaws
import PageMarkup.Proofs.ScanLaws

/-!
# Scanning folded text

Which token comes next does not depend on the case of ASCII letters: no character class tells a
letter from its lower-case form, and the few words that matter are compared up to case. So the
tokens of a folded text are the folded tokens of the text (`scanFrom_fold`).
-/

namespace PageMarkup

-- ---------------------------------------------------------------------------
-- Letters
-- ---------------------------------------------------------------------------

theorem toLower_toLower (c : Char) : c.toLower.toLower = c.toLower := by
  cases h : c.isUpper with
  | false => rw [toLower_of_not_isUpper h, toLower_of_not_isUpper h]
  | true => exact toLower_of_not_isUpper (isUpper_of_isLower (isLower_toLower h))

theorem isAlpha_of_isUpper {c : Char} (h : c.isUpper = true) : c.isAlpha = true := by
  unfold Char.isAlpha
  rw [h, Bool.true_or]

theorem isAlpha_toLower {c : Char} (h : c.isUpper = true) : c.toLower.isAlpha = true := by
  unfold Char.isAlpha
  rw [isLower_toLower h, Bool.or_true]

theorem toNat_of_isAlpha {c : Char} (h : c.isAlpha = true) :
    65 ≤ c.toNat ∧ c.toNat ≤ 90 ∨ 97 ≤ c.toNat ∧ c.toNat ≤ 122 := by
  unfold Char.isAlpha Char.isUpper Char.isLower at h
  simpa [UInt32.le_iff_toNat_le] using h

theorem utf8Size_of_isAlpha {c : Char} (h : c.isAlpha = true) : c.utf8Size = 1 := by
  rw [Char.utf8Size_eq_one_iff, UInt32.le_iff_toNat_le]
  have hrange := toNat_of_isAlpha h
  rw [Char.toNat] at hrange
  show c.val.toNat ≤ 127
  omega

theorem utf8Size_toLower (c : Char) : c.toLower.utf8Size = c.utf8Size := by
  cases h : c.isUpper with
  | false => rw [toLower_of_not_isUpper h]
  | true => rw [utf8Size_of_isAlpha (isAlpha_toLower h), utf8Size_of_isAlpha (isAlpha_of_isUpper h)]

theorem ne_of_isAlpha {c d : Char} (hc : c.isAlpha = true) (hd : d.isAlpha = false) : c ≠ d := by
  rintro rfl
  rw [hc] at hd
  cases hd

theorem toLower_eq_iff {c d : Char} (hd : d.isAlpha = false) : c.toLower = d ↔ c = d := by
  cases h : c.isUpper with
  | false => rw [toLower_of_not_isUpper h]
  | true =>
    exact ⟨fun hc => absurd hc (ne_of_isAlpha (isAlpha_toLower h) hd),
      fun hc => absurd hc (ne_of_isAlpha (isAlpha_of_isUpper h) hd)⟩

theorem isWhiteSpace_of_isAlpha {c : Char} (h : c.isAlpha = true) : isWhiteSpace c = false := by
  have hrange := toNat_of_isAlpha h
  simp only [isWhiteSpace, Bool.or_eq_false_iff, Bool.and_eq_false_iff, decide_eq_false_iff_not]
  omega

theorem isControl_of_isAlpha {c : Char} (h : c.isAlpha = true) : isControl c = false := by
  have hrange := toNat_of_isAlpha h
  simp only [isControl, Bool.or_eq_false_iff, Bool.and_eq_false_iff, decide_eq_false_iff_not]
  omega

theorem isBlank_of_isAlpha {c : Char} (h : c.isAlpha = true) : isBlank c = false := by
  cases hblank : isBlank c with
  | false => rfl
  | true => exact absurd ((isWhiteSpace_of_isAlpha h).symm.trans (isWhiteSpace_of_isBlank hblank)) nofun

-- ---------------------------------------------------------------------------
-- Character classes
-- ---------------------------------------------------------------------------

/-- The class does not tell a letter from its lower-case form. -/
def CaseBlind (p : Char → Bool) : Prop :=
  ∀ c, p c.toLower = p c

namespace CaseBlind

/-- A class is blind to case if it has all letters or none. -/
theorem of_isAlpha (b : Bool) (h : ∀ c, c.isAlpha = true → p c = b) : CaseBlind p := by
  intro c
  cases hc : c.isUpper with
  | false => rw [toLower_of_not_isUpper hc]
  | true => rw [h c (isAlpha_of_isUpper hc), h c.toLower (isAlpha_toLower hc)]

theorem ne {d : Char} (hd : d.isAlpha = false) : CaseBlind (· ≠ d) :=
  of_isAlpha true fun _ hc => decide_eq_true (ne_of_isAlpha hc hd)

theorem isWhiteSpace : CaseBlind isWhiteSpace :=
  of_isAlpha false fun _ hc => isWhiteSpace_of_isAlpha hc

theorem isBlank : CaseBlind isBlank :=
  of_isAlpha false fun _ hc => isBlank_of_isAlpha hc

theorem isNameStart : CaseBlind Token.isNameStart :=
  of_isAlpha true fun c hc => by
    unfold Token.isNameStart Char.isAlphanum
    rw [hc]
    simp

theorem isNameChar : CaseBlind Token.isNameChar :=
  of_isAlpha true fun c hc => by
    unfold Token.isNameChar Char.isAlphanum
    rw [hc]
    simp

theorem isAttributeNameChar : CaseBlind Token.isAttributeNameChar := by
  refine of_isAlpha true fun c hc => ?_
  have hne (d : Char) (hd : d.isAlpha = false := by decide) : decide (c = d) = false :=
    decide_eq_false (ne_of_isAlpha hc hd)
  unfold Token.isAttributeNameChar
  rw [isWhiteSpace_of_isAlpha hc, isControl_of_isAlpha hc, hne '"', hne '\'', hne '>', hne '/', hne '=']
  rfl

theorem isUnquotedValueChar : CaseBlind Token.isUnquotedValueChar := by
  refine of_isAlpha true fun c hc => ?_
  have hne (d : Char) (hd : d.isAlpha = false := by decide) : decide (c = d) = false :=
    decide_eq_false (ne_of_isAlpha hc hd)
  unfold Token.isUnquotedValueChar
  rw [isWhiteSpace_of_isAlpha hc, hne '"', hne '\'', hne '\x60', hne '=', hne '<', hne '>', hne '/']
  rfl

end CaseBlind

-- ---------------------------------------------------------------------------
-- Texts
-- ---------------------------------------------------------------------------

namespace Text

theorem fold_cons (c : Char) (cs : Text) : fold (c :: cs) = c.toLower :: fold cs := rfl

theorem fold_fold (cs : Text) : cs.fold.fold = cs.fold := by
  rw [fold, fold, List.map_map]
  exact List.map_congr_left fun c _ => toLower_toLower c

theorem size_fold (cs : Text) : cs.fold.size = cs.size := by
  induction cs with
  | nil => rfl
  | cons c cs ih => rw [fold_cons, size_cons, size_cons, utf8Size_toLower, ih]

theorem takeWhile_fold (hp : CaseBlind p) (cs : Text) : cs.fold.takeWhile p = fold (cs.takeWhile p) := by
  rw [fold, List.takeWhile_map, show p ∘ Char.toLower = p from funext hp]
  rfl

theorem dropWhile_fold (hp : CaseBlind p) (cs : Text) : cs.fold.dropWhile p = fold (cs.dropWhile p) := by
  rw [fold, List.dropWhile_map, show p ∘ Char.toLower = p from funext hp]
  rfl

theorem all_fold (hp : CaseBlind p) (cs : Text) : cs.fold.all p = cs.all p := by
  rw [fold, List.all_map, show p ∘ Char.toLower = p from funext hp]

theorem trim_fold (cs : Text) : cs.fold.trim = fold cs.trim := by
  rw [trim, dropWhile_fold .isWhiteSpace, fold, ← List.map_reverse]
  show ((fold _).dropWhile isWhiteSpace).reverse = _
  rw [dropWhile_fold .isWhiteSpace, fold, ← List.map_reverse]
  rfl

theorem eq_cons_of_fold_eq {d : Char} (hd : d.isLower = false) (h : fold cs = d :: ds) :
    ∃ tail, cs = d :: tail ∧ fold tail = ds := by
  cases cs with
  | nil => cases h
  | cons c cs =>
    obtain ⟨hc, hcs⟩ := List.cons.inj h
    exact ⟨cs, by rw [eq_of_toLower_eq hc hd], hcs⟩

theorem startsWithFolded_fold (word cs : Text) :
    startsWithFolded word cs.fold = startsWithFolded word cs := by
  have htake : cs.fold.take word.length = fold (cs.take word.length) := List.map_take.symm
  rw [startsWithFolded, htake, fold_fold, startsWithFolded]

theorem isPrefixOf_fold {word : Text} (hword : ∀ d ∈ word, d.isAlpha = false) (cs : Text) :
    word.isPrefixOf cs.fold = word.isPrefixOf cs := by
  induction word generalizing cs with
  | nil => rfl
  | cons d word ih =>
    obtain ⟨hd, hword⟩ := List.forall_mem_cons.mp hword
    cases cs with
    | nil => rfl
    | cons c cs =>
      have hhead : (d == c.toLower) = (d == c) := by
        rw [Bool.eq_iff_iff, beq_iff_eq, beq_iff_eq, eq_comm, toLower_eq_iff hd, eq_comm]
      rw [fold_cons, List.isPrefixOf, List.isPrefixOf, hhead, ih hword]

theorem breakAt_fold {p : Text → Bool} (hp : ∀ cs : Text, p cs.fold = p cs) (cs : Text) :
    breakAt p cs.fold = ((breakAt p cs).1.fold, (breakAt p cs).2.fold) := by
  induction cs with
  | nil => rfl
  | cons c cs ih =>
    have hhere := hp (c :: cs)
    rw [fold_cons] at hhere ⊢
    rw [breakAt, hhere, breakAt]
    split
    · rfl
    · rw [ih]
      rfl

theorem suffixAt?_fold (cs : Text) (offset : Nat) :
    suffixAt? cs.fold offset = (suffixAt? cs offset).map fold := by
  fun_induction suffixAt? cs offset with
  | case1 cs => cases cs <;> rfl
  | case2 => rfl
  | case3 c cs n hle ih => rw [fold_cons, suffixAt?, utf8Size_toLower, if_pos hle, ih]
  | case4 c cs n hlt => rw [fold_cons, suffixAt?, utf8Size_toLower, if_neg hlt]; rfl

theorem slice?_fold (cs : Text) (start stop : Nat) :
    slice? cs.fold start stop = (slice? cs start stop).map fold := by
  rw [slice?, slice?, suffixAt?_fold, suffixAt?_fold]
  split
  · cases suffixAt? cs start <;> cases suffixAt? cs stop <;> simp [fold, List.map_take]
  · rfl

end Text

-- ---------------------------------------------------------------------------
-- Tokens
-- ---------------------------------------------------------------------------

def Token.fold (t : Token) : Token :=
  { t with lexeme := t.lexeme.fold }

def Token.Step.fold (s : Token.Step) : Token.Step :=
  ⟨s.token.fold, s.state, s.rest.fold⟩

def Placed.fold (p : Placed) : Placed :=
  { p with token := p.token.fold }

theorem TagName.rawText_fold (name : Text) : rawText name.fold = rawText name := by
  rw [rawText, Text.fold_fold, rawText]

namespace Token

theorem size_fold (t : Token) : t.fold.size = t.size :=
  Text.size_fold t.lexeme

theorem Step.run_fold (hp : CaseBlind p) (kind : TokenKind) (c : Char) (cs : Text) (state : ScanState)
    (fault : Option Fault) :
    Step.run kind p c.toLower cs.fold state fault = (Step.run kind p c cs state fault).fold := by
  rw [Step.run, Text.takeWhile_fold hp, Text.dropWhile_fold hp]
  rfl

theorem nextBracket_fold (cs : Text) : nextBracket cs.fold = (nextBracket cs).fold := by
  rw [nextBracket.eq_def cs.fold]
  split
  · next rest h =>
    obtain ⟨afterMark, rfl, h₁⟩ := Text.eq_cons_of_fold_eq (by decide) h
    obtain ⟨afterDash, rfl, h₂⟩ := Text.eq_cons_of_fold_eq (by decide) h₁
    obtain ⟨tail, rfl, rfl⟩ := Text.eq_cons_of_fold_eq (by decide) h₂
    rfl
  · next rest h =>
    obtain ⟨tail, rfl, rfl⟩ := Text.eq_cons_of_fold_eq (by decide) h
    rfl
  · next hcomment hslash =>
    rw [Text.startsWithFolded_fold]
    have hmatch : nextBracket cs = if Text.startsWithFolded "!doctype".toList cs then
        ⟨⟨.unknown, '<' :: cs.take 8, none⟩, .doctype, cs.drop 8⟩
      else ⟨⟨.tagOpen, ['<'], none⟩, .afterTagOpen, cs⟩ := by
      unfold nextBracket
      split
      · exact absurd rfl (hcomment _)
      · exact absurd rfl (hslash _)
      · rfl
    rw [hmatch]
    split
    · simp [Step.fold, fold, Text.fold, List.map_take, List.map_drop]
    · rfl

theorem nextContent_fold (c : Char) (cs : Text) :
    nextContent c.toLower cs.fold = (nextContent c cs).fold := by
  simp only [nextContent, toLower_eq_iff (c := c) (d := '<') (by decide)]
  split
  · exact nextBracket_fold cs
  · exact Step.run_fold (.ne (by decide)) ..

theorem nextComment_fold (c : Char) (cs : Text) :
    nextComment c.toLower cs.fold = (nextComment c cs).fold := by
  rw [nextComment.eq_def c.toLower]
  split
  · next rest hc h =>
    obtain rfl := (toLower_eq_iff (by decide)).mp hc
    obtain ⟨afterDash, rfl, h₁⟩ := Text.eq_cons_of_fold_eq (by decide) h
    obtain ⟨tail, rfl, rfl⟩ := Text.eq_cons_of_fold_eq (by decide) h₁
    rfl
  · next hclose =>
    have hmatch : nextComment c cs =
        ⟨⟨.comment, c :: (Text.breakAt (['-', '-', '>'].isPrefixOf ·) cs).1, none⟩, .comment,
          (Text.breakAt (['-', '-', '>'].isPrefixOf ·) cs).2⟩ := by
      unfold nextComment
      split
      · exact absurd rfl (hclose _ rfl)
      · rfl
    have hword : ∀ d ∈ ['-', '-', '>'], d.isAlpha = false :=
      List.forall_mem_cons.mpr ⟨rfl, List.forall_mem_cons.mpr ⟨rfl, List.forall_mem_singleton.mpr rfl⟩⟩
    rw [hmatch, Text.breakAt_fold (Text.isPrefixOf_fold hword)]
    rfl

theorem nextDoctype_fold (c : Char) (cs : Text) :
    nextDoctype c.toLower cs.fold = (nextDoctype c cs).fold := by
  simp only [nextDoctype, toLower_eq_iff (c := c) (d := '>') (by decide)]
  split
  · next h => rw [h]; rfl
  · exact Step.run_fold (.ne (by decide)) ..

theorem nextEndTag_fold (c : Char) (cs : Text) :
    nextEndTag c.toLower cs.fold = (nextEndTag c cs).fold := by
  simp only [nextEndTag, CaseBlind.isBlank c, toLower_eq_iff (c := c) (d := '>') (by decide)]
  split
  · exact Step.run_fold .isBlank ..
  · split <;> rfl

theorem nextEndTagName_fold (c : Char) (cs : Text) :
    nextEndTagName c.toLower cs.fold = (nextEndTagName c cs).fold := by
  simp only [nextEndTagName, CaseBlind.isNameStart c, CaseBlind.isBlank c,
    toLower_eq_iff (c := c) (d := '>') (by decide)]
  split
  · exact Step.run_fold .isNameChar ..
  · split
    · exact Step.run_fold .isBlank ..
    · split
      · exact nextEndTag_fold c cs
      · exact Step.run_fold (.ne (by decide)) ..

theorem nextInTag_fold (context : TagContext) (c : Char) (cs : Text) :
    nextInTag context c.toLower cs.fold = (nextInTag context c cs).fold := by
  simp only [nextInTag, CaseBlind.isBlank c, CaseBlind.isAttributeNameChar c]
  split
  · exact Step.run_fold .isBlank ..
  · split
    · exact Step.run_fold .isAttributeNameChar ..
    · split
      · next rest hc h =>
        obtain rfl := (toLower_eq_iff (by decide)).mp hc
        obtain ⟨tail, rfl, rfl⟩ := Text.eq_cons_of_fold_eq (by decide) h
        rfl
      · next hc =>
        obtain rfl := (toLower_eq_iff (by decide)).mp hc
        rfl
      · next hclose hself =>
        split
        · exact absurd rfl (hself _ rfl)
        · exact absurd rfl hclose
        · rfl

theorem nextTagName_fold (c : Char) (cs : Text) :
    nextTagName c.toLower cs.fold = (nextTagName c cs).fold := by
  have hname : c.toLower :: cs.fold.takeWhile isNameChar = Text.fold (c :: cs.takeWhile isNameChar) := by
    rw [Text.takeWhile_fold .isNameChar, Text.fold_cons]
  simp only [nextTagName, CaseBlind.isNameStart c, CaseBlind.isBlank c, hname, TagName.rawText_fold]
  split
  · exact Step.run_fold .isNameChar ..
  · split
    · exact Step.run_fold .isBlank ..
    · exact nextInTag_fold {} c cs

theorem nextAfterAttributeName_fold (context : TagContext) (c : Char) (cs : Text) :
    nextAfterAttributeName context c.toLower cs.fold = (nextAfterAttributeName context c cs).fold := by
  simp only [nextAfterAttributeName, CaseBlind.isBlank c, toLower_eq_iff (c := c) (d := '=') (by decide)]
  split
  · exact Step.run_fold .isBlank ..
  · split
    · rfl
    · exact nextInTag_fold context c cs

theorem nextQuoted_fold (context : TagContext) {q : Char} (hq : q.isAlpha = false) (cs : Text) :
    nextQuoted context q cs.fold = (nextQuoted context q cs).fold := by
  have hlower : q.toLower = q := (toLower_eq_iff hq).mpr rfl
  rw [nextQuoted, nextQuoted, Text.dropWhile_fold (.ne hq), Text.takeWhile_fold (.ne hq)]
  cases cs.dropWhile (· ≠ q) with
  | nil => simp [Step.fold, fold, Text.fold, hlower]
  | cons close rest => simp [Step.fold, fold, Text.fold, hlower]

theorem nextValue_fold (context : TagContext) (c : Char) (cs : Text) :
    nextValue context c.toLower cs.fold = (nextValue context c cs).fold := by
  simp only [nextValue, CaseBlind.isBlank c, CaseBlind.isUnquotedValueChar c, Bool.or_eq_true,
    decide_eq_true_eq, toLower_eq_iff (c := c) (d := '"') (by decide),
    toLower_eq_iff (c := c) (d := '\'') (by decide)]
  split
  · exact Step.run_fold .isBlank ..
  · split
    · exact Step.run_fold .isUnquotedValueChar ..
    · split
      · next h =>
        have hc : c.isAlpha = false := by rcases h with rfl | rfl <;> decide
        rw [(toLower_eq_iff hc).mpr rfl]
        exact nextQuoted_fold _ hc cs
      · exact nextInTag_fold _ c cs

theorem startsEndTag_fold (name cs : Text) : startsEndTag name cs.fold = startsEndTag name cs :=
  Text.startsWithFolded_fold _ cs

theorem nextRaw_fold (name : Text) (kind : TokenKind) (state : ScanState) (c : Char) (cs : Text) :
    nextRaw name kind state c.toLower cs.fold = (nextRaw name kind state c cs).fold := by
  rw [nextRaw, nextRaw, ← Text.fold_cons, startsEndTag_fold, Text.breakAt_fold (startsEndTag_fold name)]
  split
  · exact nextContent_fold c cs
  · generalize Text.breakAt (startsEndTag name) cs = parts
    obtain ⟨body, rest⟩ := parts
    cases rest <;> rfl

theorem next_fold (state : ScanState) (c : Char) (cs : Text) :
    next state c.toLower cs.fold = (next state c cs).fold := by
  cases state with
  | content => exact nextContent_fold c cs
  | afterTagOpen => exact nextTagName_fold c cs
  | afterEndTagOpen => exact nextEndTagName_fold c cs
  | doctype => exact nextDoctype_fold c cs
  | tag context => exact nextInTag_fold context c cs
  | endTag => exact nextEndTag_fold c cs
  | comment => exact nextComment_fold c cs
  | scriptBody => exact nextRaw_fold _ _ _ c cs
  | styleBody => exact nextRaw_fold _ _ _ c cs
  | afterAttributeName context => exact nextAfterAttributeName_fold context c cs
  | beforeAttributeValue context => exact nextValue_fold context c cs

end Token

theorem scan_fold (state : ScanState) (offset : Nat) (cs : Text) :
    scan state offset cs.fold = (scan state offset cs).map Placed.fold := by
  fun_induction scan state offset cs with
  | case1 => rw [Text.fold, List.map_nil, scan, List.map_nil]
  | case2 state offset c cs step ih =>
    rw [Text.fold_cons, scan_cons, Token.next_fold, List.map_cons, ← ih]
    simp only [Token.Step.fold, Token.size_fold]
    rfl

/-- From whatever offset and in whatever state: the tokens of the folded text are the folded tokens
of the text, at the same offsets, with the same faults and the same states after them. -/
theorem scanFrom_fold (text : Text) (offset : Nat) (state : ScanState) :
    scanFrom text.fold offset state = (scanFrom text offset state).map (·.map Placed.fold) := by
  rw [scanFrom, scanFrom, Text.suffixAt?_fold, Text.size_fold]
  cases text.suffixAt? offset with
  | none => rfl
  | some rest => exact congrArg Except.ok (scan_fold state offset rest)

end PageMarkup
