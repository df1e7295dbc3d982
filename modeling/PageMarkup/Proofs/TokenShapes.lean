import PageMarkup.Proofs.TokenOrder

/-!
# What tokens look like

Punctuation is always written the same way, and names and blanks are runs of the characters of their
class. A run of blanks is never cut in two: what follows it does not begin with another blank.
-/

namespace PageMarkup

/-- How tokens of a kind are written, as far as the kind tells. -/
def TokenKind.Writes : TokenKind → Text → Prop
  | .tagOpen, w => w = ['<']
  | .endTagOpen, w => w = ['<', '/']
  | .tagClose, w | .endTagClose, w => w = ['>']
  | .tagSelfClose, w => w = ['/', '>']
  | .assign, w => w = ['=']
  | .tagName, w | .endTagName, w =>
    ∃ c cs, w = c :: cs ∧ Token.isNameStart c = true ∧ ∀ d ∈ cs, Token.isNameChar d = true
  | .attributeName, w => ∀ d ∈ w, Token.isAttributeNameChar d = true
  | .blank, w => ∀ d ∈ w, isBlank d = true
  | _, _ => True

namespace Token

theorem of_mem_takeWhile_cons {p : Char → Bool} (hc : p c = true) :
    ∀ d ∈ c :: List.takeWhile p cs, p d = true := by
  intro d hd
  rcases List.mem_cons.mp hd with rfl | hd
  · exact hc
  · exact List.all_eq_true.mp List.all_takeWhile d hd

/-- The token of a step is written as its kind demands, and a run of blanks is taken whole. -/
structure Step.Shaped (s : Step) : Prop where
  writes : s.token.kind.Writes s.token.lexeme
  whole : s.token.kind = .blank → ∀ c ∈ s.rest.head?, isBlank c = false

theorem Step.shaped_blank (h : isBlank c = true) (state : ScanState) (fault : Option Fault) :
    (Step.run .blank isBlank c cs state fault).Shaped where
  writes := of_mem_takeWhile_cons h
  whole _ d hd := by
    have hnot := List.head?_dropWhile_not isBlank cs
    have hd : (cs.dropWhile isBlank).head? = some d := hd
    rw [hd] at hnot
    exact hnot

theorem nextContent_shaped (c : Char) (cs : Text) : (nextContent c cs).Shaped := by
  unfold nextContent nextBracket
  split
  · split
    · exact ⟨trivial, nofun⟩
    · exact ⟨rfl, nofun⟩
    · split
      · exact ⟨trivial, nofun⟩
      · exact ⟨rfl, nofun⟩
  · exact ⟨trivial, nofun⟩

theorem nextComment_shaped (c : Char) (cs : Text) : (nextComment c cs).Shaped := by
  unfold nextComment
  split <;> exact ⟨trivial, nofun⟩

theorem nextDoctype_shaped (c : Char) (cs : Text) : (nextDoctype c cs).Shaped := by
  unfold nextDoctype
  split <;> exact ⟨trivial, nofun⟩

theorem nextEndTag_shaped (c : Char) (cs : Text) : (nextEndTag c cs).Shaped := by
  unfold nextEndTag
  split
  · next h => exact Step.shaped_blank h _ _
  · split
    · next h =>
      subst h
      exact ⟨rfl, nofun⟩
    · exact ⟨trivial, nofun⟩

theorem nextEndTagName_shaped (c : Char) (cs : Text) : (nextEndTagName c cs).Shaped := by
  unfold nextEndTagName
  split
  · next h => exact ⟨⟨c, _, rfl, h, List.all_eq_true.mp List.all_takeWhile⟩, nofun⟩
  · split
    · next h => exact Step.shaped_blank h _ _
    · split
      · exact nextEndTag_shaped c cs
      · exact ⟨trivial, nofun⟩

theorem nextInTag_shaped (context : TagContext) (c : Char) (cs : Text) :
    (nextInTag context c cs).Shaped := by
  unfold nextInTag
  split
  · next h => exact Step.shaped_blank h _ _
  · split
    · next h =>
      rw [Bool.and_eq_true] at h
      exact ⟨of_mem_takeWhile_cons h.2, nofun⟩
    · split
      · exact ⟨rfl, nofun⟩
      · exact ⟨rfl, nofun⟩
      · exact ⟨trivial, nofun⟩

theorem nextTagName_shaped (c : Char) (cs : Text) : (nextTagName c cs).Shaped := by
  unfold nextTagName
  split
  · next h => exact ⟨⟨c, _, rfl, h, List.all_eq_true.mp List.all_takeWhile⟩, nofun⟩
  · split
    · next h => exact Step.shaped_blank h _ _
    · exact nextInTag_shaped {} c cs

theorem nextAfterAttributeName_shaped (context : TagContext) (c : Char) (cs : Text) :
    (nextAfterAttributeName context c cs).Shaped := by
  unfold nextAfterAttributeName
  split
  · next h => exact Step.shaped_blank h _ _
  · split
    · next h =>
      subst h
      exact ⟨rfl, nofun⟩
    · exact nextInTag_shaped context c cs

theorem nextValue_shaped (context : TagContext) (c : Char) (cs : Text) :
    (nextValue context c cs).Shaped := by
  unfold nextValue
  simp only
  split
  · next h => exact Step.shaped_blank h _ _
  · split
    · exact ⟨trivial, nofun⟩
    · split
      · unfold nextQuoted
        split <;> exact ⟨trivial, nofun⟩
      · exact nextInTag_shaped _ c cs

theorem nextRaw_shaped (kind : TokenKind) (hkind : ∀ w, kind.Writes w) (hblank : kind ≠ .blank)
    (name : Text) (state : ScanState) (c : Char) (cs : Text) :
    (nextRaw name kind state c cs).Shaped := by
  unfold nextRaw
  split
  · exact nextContent_shaped c cs
  · split <;> exact ⟨hkind _, fun h => absurd h hblank⟩

theorem next_shaped (state : ScanState) (c : Char) (cs : Text) : (next state c cs).Shaped := by
  cases state with
  | content => exact nextContent_shaped c cs
  | afterTagOpen => exact nextTagName_shaped c cs
  | afterEndTagOpen => exact nextEndTagName_shaped c cs
  | doctype => exact nextDoctype_shaped c cs
  | tag context => exact nextInTag_shaped context c cs
  | endTag => exact nextEndTag_shaped c cs
  | comment => exact nextComment_shaped c cs
  | scriptBody => exact nextRaw_shaped .script (fun _ => trivial) nofun _ _ c cs
  | styleBody => exact nextRaw_shaped .content (fun _ => trivial) nofun _ _ c cs
  | afterAttributeName context => exact nextAfterAttributeName_shaped context c cs
  | beforeAttributeValue context => exact nextValue_shaped context c cs

-- ---------------------------------------------------------------------------
-- Values
-- ---------------------------------------------------------------------------

theorem nextQuoted_closed (context : TagContext) {q : Char} {body : Text} (h : q ∉ body) (rest : Text) :
    nextQuoted context q (body ++ q :: rest) =
      ⟨⟨.attributeValue, q :: body ++ [q], none⟩, .tag context, rest⟩ := by
  have hbody : ∀ c ∈ body, decide (c ≠ q) = true := fun c hc =>
    decide_eq_true fun heq => h (heq ▸ hc)
  rw [nextQuoted, List.dropWhile_append_of_pos hbody, List.takeWhile_append_of_pos hbody]
  simp

theorem nextQuoted_unclosed (context : TagContext) {q : Char} {cs : Text} (h : q ∉ cs) :
    nextQuoted context q cs =
      ⟨⟨.attributeValue, q :: cs, some .closingQuoteExpected⟩, .tag context, []⟩ := by
  have hall : ∀ c ∈ cs, decide (c ≠ q) = true := fun c hc =>
    decide_eq_true fun heq => h (heq ▸ hc)
  have hnone : (cs ++ []).dropWhile (· ≠ q) = [] := List.dropWhile_append_of_pos hall
  rw [List.append_nil] at hnone
  rw [nextQuoted, hnone]

/-- A value in quotes is closed by the next quote, or it reaches to the end of the text. -/
theorem nextQuoted_cases (context : TagContext) (q : Char) (cs : Text) :
    q ∉ cs ∧ nextQuoted context q cs =
        ⟨⟨.attributeValue, q :: cs, some .closingQuoteExpected⟩, .tag context, []⟩ ∨
      ∃ body rest, cs = body ++ q :: rest ∧ q ∉ body ∧ nextQuoted context q cs =
        ⟨⟨.attributeValue, q :: body ++ [q], none⟩, .tag context, rest⟩ := by
  by_cases h : q ∈ cs
  · obtain ⟨body, rest, rfl, hbody⟩ := List.eq_append_cons_of_mem h
    exact .inr ⟨body, rest, rfl, hbody, nextQuoted_closed context hbody rest⟩
  · exact .inl ⟨h, nextQuoted_unclosed context h⟩

theorem next_value (h : (next state c cs).token.kind = .attributeValue) :
    ∃ context, state = .beforeAttributeValue context ∧
      ((∀ d ∈ (next state c cs).token.lexeme, isUnquotedValueChar d = true) ∨
        (c = '"' ∨ c = '\'') ∧
          next state c cs = nextQuoted { context with afterBlank := false } c cs) := by
  have hreads := next_reads state c cs
  rw [h] at hreads
  obtain ⟨context, rfl⟩ : ∃ context, state = .beforeAttributeValue context := by
    generalize (next state c cs).state = after at hreads
    cases hreads with
    | nameless h | tag h | valueless h | missingValue _ h => cases h
    | value context => exact ⟨context, rfl⟩
  refine ⟨context, rfl, ?_⟩
  revert h
  simp only [next, nextValue]
  split
  · exact fun h => absurd h (by simp [Step.run])
  · split
    · next hc => exact fun _ => .inl (of_mem_takeWhile_cons hc)
    · split
      · next hq => exact fun _ => .inr ⟨by simpa using hq, rfl⟩
      · intro h
        have hin := nextInTag_reads { context with afterBlank := false } c cs
        rw [h] at hin
        cases hin

end Token

end PageMarkup
