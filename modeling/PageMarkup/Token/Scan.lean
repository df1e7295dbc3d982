import PageMarkup.Token.Basic

/-!
# Cutting a text into tokens

`Token.next` reads one token from the front of a text that is not empty. Its lexeme is never empty
and, followed by the rest, is the text again (`next_lexeme_append_rest`, `next_lexeme_ne_nil`);
`scan` repeats it until the text is used up.
-/

namespace PageMarkup

namespace Token

def isNameStart (c : Char) : Bool :=
  c = '_' || c = ':' || c.isAlphanum

def isNameChar (c : Char) : Bool :=
  c = '_' || c = ':' || c = '-' || c = '.' || c.isAlphanum

def isAttributeNameChar (c : Char) : Bool :=
  !(isWhiteSpace c || isControl c || c = '"' || c = '\'' || c = '>' || c = '/' || c = '=')

def isUnquotedValueChar (c : Char) : Bool :=
  !(isWhiteSpace c || c = '"' || c = '\'' || c = '\x60' || c = '=' || c = '<' || c = '>' || c = '/')

/-- A token, the state after it and the text after it. -/
structure Step where
  token : Token
  state : ScanState
  rest : Text
  deriving DecidableEq, Repr

def Step.run (kind : TokenKind) (p : Char → Bool) (c : Char) (cs : Text) (state : ScanState)
    (fault : Option Fault := none) : Step :=
  ⟨⟨kind, c :: cs.takeWhile p, fault⟩, state, cs.dropWhile p⟩

def nextBracket (cs : Text) : Step :=
  match cs with
  | '!' :: '-' :: '-' :: rest => ⟨⟨.commentOpen, ['<', '!', '-', '-'], none⟩, .comment, rest⟩
  | '/' :: rest => ⟨⟨.endTagOpen, ['<', '/'], none⟩, .afterEndTagOpen, rest⟩
  | _ =>
    if Text.startsWithFolded "!doctype".toList cs then
      ⟨⟨.unknown, '<' :: cs.take 8, none⟩, .doctype, cs.drop 8⟩
    else ⟨⟨.tagOpen, ['<'], none⟩, .afterTagOpen, cs⟩

def nextContent (c : Char) (cs : Text) : Step :=
  if c = '<' then nextBracket cs else .run .content (· ≠ '<') c cs .content

def nextComment (c : Char) (cs : Text) : Step :=
  match c, cs with
  | '-', '-' :: '>' :: rest => ⟨⟨.commentClose, ['-', '-', '>'], none⟩, .content, rest⟩
  | _, _ =>
    let (body, rest) := Text.breakAt (['-', '-', '>'].isPrefixOf ·) cs
    ⟨⟨.comment, c :: body, none⟩, .comment, rest⟩

def nextDoctype (c : Char) (cs : Text) : Step :=
  if c = '>' then ⟨⟨.unknown, [c], none⟩, .content, cs⟩
  else .run .unknown (· ≠ '>') c cs .doctype

def nextEndTag (c : Char) (cs : Text) : Step :=
  if isBlank c then .run .blank isBlank c cs .endTag
  else if c = '>' then ⟨⟨.endTagClose, [c], none⟩, .content, cs⟩
  else ⟨⟨.unknown, [c], some .closingBracketExpected⟩, .endTag, cs⟩

def nextEndTagName (c : Char) (cs : Text) : Step :=
  if isNameStart c then .run .endTagName isNameChar c cs .endTag
  else if isBlank c then .run .blank isBlank c cs .afterEndTagOpen (some .blankBeforeTagName)
  else if c = '>' then nextEndTag c cs
  else .run .unknown (· ≠ '>') c cs .endTag (some .endTagNameExpected)

def bodyState : RawText → ScanState
  | .none => .content
  | .script => .scriptBody
  | .style => .styleBody

def nextInTag (context : TagContext) (c : Char) (cs : Text) : Step :=
  if isBlank c then .run .blank isBlank c cs (.tag { context with afterBlank := true })
  else if context.afterBlank && isAttributeNameChar c then
    .run .attributeName isAttributeNameChar c cs
      (.afterAttributeName { context with afterBlank := false })
  else
    match c, cs with
    | '/', '>' :: rest => ⟨⟨.tagSelfClose, ['/', '>'], none⟩, .content, rest⟩
    | '>', rest => ⟨⟨.tagClose, ['>'], none⟩, bodyState context.rawText, rest⟩
    | c, rest => ⟨⟨.unknown, [c], some .unexpectedInTag⟩, .tag context, rest⟩

def nextTagName (c : Char) (cs : Text) : Step :=
  if isNameStart c then
    .run .tagName isNameChar c cs
      (.tag { rawText := TagName.rawText (c :: cs.takeWhile isNameChar), afterBlank := false })
  else if isBlank c then .run .blank isBlank c cs .afterTagOpen (some .blankBeforeTagName)
  else nextInTag {} c cs

def nextAfterAttributeName (context : TagContext) (c : Char) (cs : Text) : Step :=
  if isBlank c then
    .run .blank isBlank c cs (.afterAttributeName { context with afterBlank := true })
  else if c = '=' then ⟨⟨.assign, [c], none⟩, .beforeAttributeValue context, cs⟩
  else nextInTag context c cs

/-- A value in quotes `q`; without a closing quote it reaches to the end of the text. -/
def nextQuoted (context : TagContext) (q : Char) (cs : Text) : Step :=
  match cs.dropWhile (· ≠ q) with
  | [] => ⟨⟨.attributeValue, q :: cs, some .closingQuoteExpected⟩, .tag context, []⟩
  | close :: rest => ⟨⟨.attributeValue, q :: cs.takeWhile (· ≠ q) ++ [close], none⟩, .tag context, rest⟩

def nextValue (context : TagContext) (c : Char) (cs : Text) : Step :=
  let after := { context with afterBlank := false }
  if isBlank c then .run .blank isBlank c cs (.beforeAttributeValue context)
  else if isUnquotedValueChar c then .run .attributeValue isUnquotedValueChar c cs (.tag after)
  else if c = '"' || c = '\'' then nextQuoted after c cs
  else nextInTag after c cs

def startsEndTag (name : Text) (cs : Text) : Bool :=
  Text.startsWithFolded ('<' :: '/' :: name) cs

/-- The body of a script or style element reaches to its end tag or the end of the text. -/
def nextRaw (name : Text) (kind : TokenKind) (state : ScanState) (c : Char) (cs : Text) : Step :=
  if startsEndTag name (c :: cs) then nextContent c cs
  else
    match Text.breakAt (startsEndTag name) cs with
    | (body, []) => ⟨⟨kind, c :: body, none⟩, state, []⟩
    | (body, rest) => ⟨⟨kind, c :: body, none⟩, .content, rest⟩

def next (state : ScanState) (c : Char) (cs : Text) : Step :=
  match state with
  | .content => nextContent c cs
  | .afterTagOpen => nextTagName c cs
  | .afterEndTagOpen => nextEndTagName c cs
  | .doctype => nextDoctype c cs
  | .tag context => nextInTag context c cs
  | .endTag => nextEndTag c cs
  | .comment => nextComment c cs
  | .scriptBody => nextRaw TagName.script .script state c cs
  | .styleBody => nextRaw TagName.style .content state c cs
  | .afterAttributeName context => nextAfterAttributeName context c cs
  | .beforeAttributeValue context => nextValue context c cs

/-! ## Nothing is lost and every token has a character -/

/-- The step cuts `text` in two and takes at least one character. -/
structure Step.Cuts (s : Step) (text : Text) : Prop where
  append : s.token.lexeme ++ s.rest = text
  ne_nil : s.token.lexeme ≠ []

theorem Step.run_cuts (kind : TokenKind) (p : Char → Bool) (c : Char) (cs : Text)
    (state : ScanState) (fault : Option Fault) : (Step.run kind p c cs state fault).Cuts (c :: cs) :=
  ⟨by simp [Step.run, List.takeWhile_append_dropWhile], by simp [Step.run]⟩

theorem nextBracket_cuts (cs : Text) : (nextBracket cs).Cuts ('<' :: cs) := by
  unfold nextBracket
  split
  · exact ⟨rfl, by simp⟩
  · exact ⟨rfl, by simp⟩
  · split
    · exact ⟨by simp, by simp⟩
    · exact ⟨rfl, by simp⟩

theorem nextContent_cuts (c : Char) (cs : Text) : (nextContent c cs).Cuts (c :: cs) := by
  unfold nextContent
  split
  · next h => exact h ▸ nextBracket_cuts cs
  · exact Step.run_cuts ..

theorem nextComment_cuts (c : Char) (cs : Text) : (nextComment c cs).Cuts (c :: cs) := by
  unfold nextComment
  split
  · exact ⟨rfl, by simp⟩
  · exact ⟨by simpa using Text.breakAt_append _ cs, by simp⟩

theorem nextDoctype_cuts (c : Char) (cs : Text) : (nextDoctype c cs).Cuts (c :: cs) := by
  unfold nextDoctype
  split
  · exact ⟨rfl, by simp⟩
  · exact Step.run_cuts ..

theorem nextEndTag_cuts (c : Char) (cs : Text) : (nextEndTag c cs).Cuts (c :: cs) := by
  unfold nextEndTag
  repeat' split
  · exact Step.run_cuts ..
  · exact ⟨rfl, by simp⟩
  · exact ⟨rfl, by simp⟩

theorem nextEndTagName_cuts (c : Char) (cs : Text) : (nextEndTagName c cs).Cuts (c :: cs) := by
  unfold nextEndTagName
  repeat' split
  · exact Step.run_cuts ..
  · exact Step.run_cuts ..
  · exact nextEndTag_cuts c cs
  · exact Step.run_cuts ..

theorem nextInTag_cuts (context : TagContext) (c : Char) (cs : Text) :
    (nextInTag context c cs).Cuts (c :: cs) := by
  unfold nextInTag
  split
  · exact Step.run_cuts ..
  · split
    · exact Step.run_cuts ..
    · split <;> exact ⟨rfl, by simp⟩

theorem nextTagName_cuts (c : Char) (cs : Text) : (nextTagName c cs).Cuts (c :: cs) := by
  unfold nextTagName
  repeat' split
  · exact Step.run_cuts ..
  · exact Step.run_cuts ..
  · exact nextInTag_cuts ..

theorem nextAfterAttributeName_cuts (context : TagContext) (c : Char) (cs : Text) :
    (nextAfterAttributeName context c cs).Cuts (c :: cs) := by
  unfold nextAfterAttributeName
  repeat' split
  · exact Step.run_cuts ..
  · exact ⟨rfl, by simp⟩
  · exact nextInTag_cuts ..

theorem nextQuoted_cuts (context : TagContext) (q : Char) (cs : Text) :
    (nextQuoted context q cs).Cuts (q :: cs) := by
  have cut := List.takeWhile_append_dropWhile (p := (· ≠ q)) (l := cs)
  unfold nextQuoted
  split
  · exact ⟨by simp, by simp⟩
  · next close rest h =>
    rw [h] at cut
    exact ⟨by simpa using cut, by simp⟩

theorem nextValue_cuts (context : TagContext) (c : Char) (cs : Text) :
    (nextValue context c cs).Cuts (c :: cs) := by
  unfold nextValue
  simp only
  repeat' split
  · exact Step.run_cuts ..
  · exact Step.run_cuts ..
  · exact nextQuoted_cuts ..
  · exact nextInTag_cuts ..

theorem nextRaw_cuts (name : Text) (kind : TokenKind) (state : ScanState) (c : Char) (cs : Text) :
    (nextRaw name kind state c cs).Cuts (c :: cs) := by
  have cut := Text.breakAt_append (startsEndTag name) cs
  unfold nextRaw
  split
  · exact nextContent_cuts c cs
  · split <;> next h => rw [h] at cut; exact ⟨by simpa using cut, by simp⟩

theorem next_cuts (state : ScanState) (c : Char) (cs : Text) : (next state c cs).Cuts (c :: cs) := by
  cases state with
  | content => exact nextContent_cuts c cs
  | afterTagOpen => exact nextTagName_cuts c cs
  | afterEndTagOpen => exact nextEndTagName_cuts c cs
  | doctype => exact nextDoctype_cuts c cs
  | tag context => exact nextInTag_cuts context c cs
  | endTag => exact nextEndTag_cuts c cs
  | comment => exact nextComment_cuts c cs
  | scriptBody => exact nextRaw_cuts _ _ _ c cs
  | styleBody => exact nextRaw_cuts _ _ _ c cs
  | afterAttributeName context => exact nextAfterAttributeName_cuts context c cs
  | beforeAttributeValue context => exact nextValue_cuts context c cs

theorem next_lexeme_append_rest (state : ScanState) (c : Char) (cs : Text) :
    (next state c cs).token.lexeme ++ (next state c cs).rest = c :: cs :=
  (next_cuts state c cs).append

theorem next_lexeme_ne_nil (state : ScanState) (c : Char) (cs : Text) :
    (next state c cs).token.lexeme ≠ [] :=
  (next_cuts state c cs).ne_nil

theorem next_rest_length_lt (state : ScanState) (c : Char) (cs : Text) :
    (next state c cs).rest.length < (c :: cs).length := by
  rw [← next_lexeme_append_rest state c cs, List.length_append]
  have := List.length_pos_iff.mpr (next_lexeme_ne_nil state c cs)
  omega

end Token

/-! ## Whole texts -/

/-- A token at its offset, with the state after it. -/
structure Placed where
  token : Token
  offset : Nat
  state : ScanState
  deriving DecidableEq, Repr

namespace Placed

def kind (p : Placed) : TokenKind :=
  p.token.kind

def stop (p : Placed) : Nat :=
  p.offset + p.token.size

def lexeme (p : Placed) : Text :=
  p.token.lexeme

end Placed

def scan (state : ScanState) (offset : Nat) : Text → List Placed
  | [] => []
  | c :: cs =>
    let step := Token.next state c cs
    ⟨step.token, offset, step.state⟩ :: scan step.state (offset + step.token.size) step.rest
termination_by cs => cs.length
decreasing_by exact Token.next_rest_length_lt state c cs

def finalState (state : ScanState) (tokens : List Placed) : ScanState :=
  (tokens.getLast?.map Placed.state).getD state

/-- All tokens of a text from a character boundary on. -/
def scanFrom (text : Text) (offset : Nat) (state : ScanState) : Except OffsetError (List Placed) :=
  match text.suffixAt? offset with
  | some rest => .ok (scan state offset rest)
  | none => .error (.notABoundary offset text.size)

def tokens (text : Text) : List Placed :=
  scan .content 0 text

end PageMarkup
