import PageMarkup.Proofs.CaseLaws
import PageMarkup.Token.Scan

/-!
# Which token can follow

`ScanState.Reads` lists, for every state, the kinds of token that can be read in it and the states
they leave; `next_reads` says that the list is complete. Proofs about whole documents go through
the list by cases and never open the functions that cut a token off.
-/

namespace PageMarkup

def TokenKind.bracket? : TokenKind → Option Text
  | .tagOpen => some ['<']
  | .endTagOpen => some ['<', '/']
  | _ => none

namespace ScanState

inductive ReadsInTag (context : TagContext) : TokenKind → ScanState → Prop
  | blank : ReadsInTag context .blank (.tag { context with afterBlank := true })
  | attributeName : context.afterBlank = true → ReadsInTag context .attributeName
      (.afterAttributeName { context with afterBlank := false })
  | selfClose : ReadsInTag context .tagSelfClose .content
  | close : ReadsInTag context .tagClose (Token.bodyState context.rawText)
  | unexpected : ReadsInTag context .unknown (.tag context)

/-- A token that a state can read, with the state after it. -/
inductive Reads : ScanState → TokenKind → ScanState → Prop
  | content : Reads .content .content .content
  | commentOpen : Reads .content .commentOpen .comment
  | doctypeOpen : Reads .content .unknown .doctype
  | tagOpen : Reads .content .tagOpen .afterTagOpen
  | endTagOpen : Reads .content .endTagOpen .afterEndTagOpen
  | comment : Reads .comment .comment .comment
  | commentClose : Reads .comment .commentClose .content
  | doctype : Reads .doctype .unknown .doctype
  | doctypeClose : Reads .doctype .unknown .content
  | tagName (context) : Reads .afterTagOpen .tagName (.tag context)
  | blankBeforeName : Reads .afterTagOpen .blank .afterTagOpen
  | nameless : ReadsInTag {} kind after → Reads .afterTagOpen kind after
  | tag : ReadsInTag context kind after → Reads (.tag context) kind after
  | blankAfterName (context) : Reads (.afterAttributeName context) .blank
      (.afterAttributeName { context with afterBlank := true })
  | assign (context) : Reads (.afterAttributeName context) .assign (.beforeAttributeValue context)
  | valueless : ReadsInTag context kind after → Reads (.afterAttributeName context) kind after
  | blankBeforeValue (context) :
    Reads (.beforeAttributeValue context) .blank (.beforeAttributeValue context)
  | value (context) : Reads (.beforeAttributeValue context) .attributeValue
      (.tag { context with afterBlank := false })
  | missingValue (context) : ReadsInTag { context with afterBlank := false } kind after →
    Reads (.beforeAttributeValue context) kind after
  | endTagName : Reads .afterEndTagOpen .endTagName .endTag
  | blankBeforeEndName : Reads .afterEndTagOpen .blank .afterEndTagOpen
  | namelessClose : Reads .afterEndTagOpen .endTagClose .content
  | unknownEndName : Reads .afterEndTagOpen .unknown .endTag
  | blankInEndTag : Reads .endTag .blank .endTag
  | endTagClose : Reads .endTag .endTagClose .content
  | unknownInEndTag : Reads .endTag .unknown .endTag
  | script : Reads .scriptBody .script .content
  | scriptToEnd : Reads .scriptBody .script .scriptBody
  | scriptEnd : Reads .scriptBody .endTagOpen .afterEndTagOpen
  | style : Reads .styleBody .content .content
  | styleToEnd : Reads .styleBody .content .styleBody
  | styleEnd : Reads .styleBody .endTagOpen .afterEndTagOpen

theorem ReadsInTag.ne_endOfText (h : ReadsInTag context kind after) : kind ≠ .endOfText := by
  cases h <;> nofun

theorem Reads.ne_endOfText (h : Reads state kind after) : kind ≠ .endOfText := by
  cases h with
  | nameless h | tag h | valueless h | missingValue _ h => exact h.ne_endOfText
  | _ => nofun

theorem ReadsInTag.bracket?_eq_none (h : ReadsInTag context kind after) : kind.bracket? = none := by
  cases h <;> rfl

theorem Reads.state_of_bracket (h : Reads state kind after) (hb : kind.bracket? = some w) :
    state = .content ∨ state = .scriptBody ∨ state = .styleBody := by
  cases h with
  | tagOpen | endTagOpen => exact .inl rfl
  | scriptEnd => exact .inr (.inl rfl)
  | styleEnd => exact .inr (.inr rfl)
  | nameless h | tag h | valueless h | missingValue _ h =>
    rw [h.bracket?_eq_none] at hb
    cases hb
  | _ => cases hb

theorem Reads.of_tagOpen (h : Reads state .tagOpen after) : after = .afterTagOpen := by
  cases h with
  | nameless h | tag h | valueless h | missingValue _ h => cases h
  | tagOpen => rfl

theorem Reads.of_endTagName (h : Reads state .endTagName after) : state = .afterEndTagOpen := by
  cases h with
  | nameless h | tag h | valueless h | missingValue _ h => cases h
  | endTagName => rfl

end ScanState

namespace Token

open ScanState (Reads ReadsInTag)

/-- The kind of a step's token can be read in `state` and leaves the step's state. -/
def Step.IsRead (s : Step) (state : ScanState) : Prop :=
  Reads state s.token.kind s.state

theorem nextContent_isRead (c : Char) (cs : Text) : (nextContent c cs).IsRead .content := by
  unfold nextContent nextBracket
  split
  · split
    · exact .commentOpen
    · exact .endTagOpen
    · split
      · exact .doctypeOpen
      · exact .tagOpen
  · exact .content

theorem nextComment_isRead (c : Char) (cs : Text) : (nextComment c cs).IsRead .comment := by
  unfold nextComment
  split
  · exact .commentClose
  · exact .comment

theorem nextDoctype_isRead (c : Char) (cs : Text) : (nextDoctype c cs).IsRead .doctype := by
  unfold nextDoctype
  split
  · exact .doctypeClose
  · exact .doctype

theorem nextEndTag_isRead (c : Char) (cs : Text) : (nextEndTag c cs).IsRead .endTag := by
  unfold nextEndTag
  split
  · exact .blankInEndTag
  · split
    · exact .endTagClose
    · exact .unknownInEndTag

theorem nextEndTagName_isRead (c : Char) (cs : Text) :
    (nextEndTagName c cs).IsRead .afterEndTagOpen := by
  unfold nextEndTagName
  split
  · exact .endTagName
  · split
    · exact .blankBeforeEndName
    · split
      · next hclose =>
        subst hclose
        exact .namelessClose
      · exact .unknownEndName

theorem nextInTag_reads (context : TagContext) (c : Char) (cs : Text) :
    ReadsInTag context (nextInTag context c cs).token.kind (nextInTag context c cs).state := by
  unfold nextInTag
  split
  · exact .blank
  · split
    · next hname =>
      rw [Bool.and_eq_true] at hname
      exact .attributeName hname.1
    · split
      · exact .selfClose
      · exact .close
      · exact .unexpected

theorem nextInTag_kind (context : TagContext) (hc : isBlank c = false) :
    (nextInTag context c cs).token.kind ≠ .blank := by
  unfold nextInTag
  rw [hc]
  simp only [Bool.false_eq_true, ↓reduceIte]
  split
  · simp [Step.run]
  · split <;> simp

theorem nextTagName_isRead (c : Char) (cs : Text) : (nextTagName c cs).IsRead .afterTagOpen := by
  unfold nextTagName
  split
  · exact .tagName _
  · split
    · exact .blankBeforeName
    · exact .nameless (nextInTag_reads {} c cs)

theorem nextAfterAttributeName_isRead (context : TagContext) (c : Char) (cs : Text) :
    (nextAfterAttributeName context c cs).IsRead (.afterAttributeName context) := by
  unfold nextAfterAttributeName
  split
  · exact .blankAfterName context
  · split
    · exact .assign context
    · exact .valueless (nextInTag_reads context c cs)

theorem nextValue_isRead (context : TagContext) (c : Char) (cs : Text) :
    (nextValue context c cs).IsRead (.beforeAttributeValue context) := by
  unfold nextValue
  simp only
  split
  · exact .blankBeforeValue context
  · split
    · exact .value context
    · split
      · unfold nextQuoted
        split <;> exact .value context
      · exact .missingValue context (nextInTag_reads _ c cs)

theorem nextAfterAttributeName_blank {context : TagContext}
    (h : (nextAfterAttributeName context c cs).token.kind = .blank) :
    (nextAfterAttributeName context c cs).state =
      .afterAttributeName { context with afterBlank := true } := by
  revert h
  unfold nextAfterAttributeName
  split
  · exact fun _ => rfl
  · next hc =>
    split
    · exact fun h => absurd h (by simp)
    · exact fun h => absurd h (nextInTag_kind context (Bool.of_not_eq_true hc))

theorem nextValue_blank {context : TagContext} (h : (nextValue context c cs).token.kind = .blank) :
    (nextValue context c cs).state = .beforeAttributeValue context := by
  revert h
  unfold nextValue nextQuoted
  simp only
  split
  · exact fun _ => rfl
  · next hc =>
    repeat' split
    · exact fun h => absurd h (by simp [Step.run])
    · exact fun h => absurd h (by simp)
    · exact fun h => absurd h (by simp)
    · exact fun h => absurd h (nextInTag_kind _ (Bool.of_not_eq_true hc))

theorem startsEndTag_eq (h : startsEndTag name cs = true) : ∃ rest, cs = '<' :: '/' :: rest := by
  simp only [startsEndTag, Text.startsWithFolded, decide_eq_true_eq] at h
  match cs, h with
  | [], h | [_], h => simp [Text.fold] at h
  | c :: d :: rest, h =>
    simp only [Text.fold, List.length_cons, List.take_succ_cons, List.map_cons, List.cons.injEq] at h
    obtain ⟨hc, hd, -⟩ := h
    have hc : c = '<' := eq_of_toLower_eq hc rfl
    have hd : d = '/' := eq_of_toLower_eq hd rfl
    exact ⟨rest, by rw [hc, hd]⟩

theorem nextContent_of_startsEndTag (h : startsEndTag name (c :: cs) = true) :
    ∃ rest, nextContent c cs = ⟨⟨.endTagOpen, ['<', '/'], none⟩, .afterEndTagOpen, rest⟩ := by
  obtain ⟨rest, h⟩ := startsEndTag_eq h
  cases h
  exact ⟨rest, rfl⟩

/-- A raw body is one token, up to its end tag or to the end of the text; there is no such token if
the end tag begins at once. -/
theorem nextRaw_isRead {kind : TokenKind} (hend : Reads state .endTagOpen .afterEndTagOpen)
    (hstay : Reads state kind state) (hdone : Reads state kind .content) :
    (nextRaw name kind state c cs).IsRead state := by
  unfold nextRaw
  split
  · next h =>
    obtain ⟨rest, hrest⟩ := nextContent_of_startsEndTag h
    rw [hrest]
    exact hend
  · split
    · exact hstay
    · exact hdone

theorem next_reads (state : ScanState) (c : Char) (cs : Text) :
    Reads state (next state c cs).token.kind (next state c cs).state := by
  cases state with
  | content => exact nextContent_isRead c cs
  | afterTagOpen => exact nextTagName_isRead c cs
  | afterEndTagOpen => exact nextEndTagName_isRead c cs
  | doctype => exact nextDoctype_isRead c cs
  | tag context => exact .tag (nextInTag_reads context c cs)
  | endTag => exact nextEndTag_isRead c cs
  | comment => exact nextComment_isRead c cs
  | scriptBody => exact nextRaw_isRead .scriptEnd .scriptToEnd .script
  | styleBody => exact nextRaw_isRead .styleEnd .styleToEnd .style
  | afterAttributeName context => exact nextAfterAttributeName_isRead context c cs
  | beforeAttributeValue context => exact nextValue_isRead context c cs

-- ---------------------------------------------------------------------------
-- Brackets
-- ---------------------------------------------------------------------------

theorem nextContent_bracket (h : (nextContent c cs).token.kind.bracket? = some w) :
    (nextContent c cs).token.lexeme = w := by
  revert h
  unfold nextContent nextBracket
  split
  · split
    · nofun
    · exact Option.some.inj
    · split
      · nofun
      · exact Option.some.inj
  · nofun

theorem nextRaw_bracket {kind : TokenKind} (hkind : kind.bracket? = none)
    (h : (nextRaw name kind state c cs).token.kind.bracket? = some w) :
    nextRaw name kind state c cs = nextContent c cs := by
  revert h
  unfold nextRaw
  split
  · exact fun _ => rfl
  · split <;> simp [hkind]

/-- A start or end tag begins only where it would in content. -/
theorem next_eq_nextContent (h : (next state c cs).token.kind.bracket? = some w) :
    next state c cs = nextContent c cs := by
  rcases (next_reads state c cs).state_of_bracket h with rfl | rfl | rfl
  · rfl
  · exact nextRaw_bracket rfl h
  · exact nextRaw_bracket rfl h

theorem next_bracket (h : (next state c cs).token.kind.bracket? = some w) :
    (next state c cs).token.lexeme = w := by
  have hcontent := next_eq_nextContent h
  rw [hcontent] at h ⊢
  exact nextContent_bracket h

end Token

end PageMarkup
