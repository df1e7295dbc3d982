import PageMarkup.Proofs.CaseFolding
import PageMarkup.Proofs.Neighbours

/-!
# The grammar of token streams

What a token means to a document depends on those before it: a name belongs to the bracket before
it, a value to the last attribute, the end of a tag to its beginning. `scan_grammatical` says that
tokens come in no other order, whatever the text. Its rules are read off the state in which a token
is found; `exists_entry` goes back from there to the token with which that state was entered.
-/

namespace PageMarkup

open ScanState (Reads ReadsInTag)

-- ---------------------------------------------------------------------------
-- Going back to where a state was entered
-- ---------------------------------------------------------------------------

theorem exists_next_of_scan {before rest : List Placed} (h : scan start offset cs = before ++ p :: rest) :
    ∃ c tail, p.token = (Token.next (finalState start before) c tail).token ∧
      p.state = (Token.next (finalState start before) c tail).state ∧
      rest = scan p.state p.stop (Token.next (finalState start before) c tail).rest := by
  obtain ⟨_, _, -, -, hscan⟩ := scan_eq_append h
  obtain ⟨c, tail, -, hp, hrest⟩ := scan_eq_cons hscan.symm
  exact ⟨c, tail, by rw [hp], by rw [hp], hrest⟩

section
variable (S : ScanState → Prop) (enters : ScanState → Token → Prop) (stays : Token → Prop)
  {start : ScanState} {offset : Nat} {cs : Text} {before rest : List Placed}
  (hstep : ∀ state c cs, S (Token.next state c cs).state →
    enters state (Token.next state c cs).token ∨ S state ∧ stays (Token.next state c cs).token)
include hstep

theorem entry_or_stays (h : scan start offset cs = before ++ rest) (hs : S (finalState start before)) :
    (∃ front q mid, before = front ++ q :: mid ∧ enters (finalState start front) q.token ∧
      ∀ m ∈ mid, stays m.token) ∨ S start ∧ ∀ m ∈ before, stays m.token := by
  induction before generalizing start offset cs with
  | nil => exact .inr ⟨hs, List.forall_mem_nil _⟩
  | cons p before ih =>
    obtain ⟨c, tail, -, hp, htail⟩ := scan_eq_cons h
    rw [finalState_cons] at hs
    rcases ih htail.symm hs with ⟨front, q, mid, rfl, henters, hmid⟩ | ⟨hs, hstays⟩
    · exact .inl ⟨p :: front, q, mid, rfl, by rwa [finalState_cons], hmid⟩
    · rw [hp] at hs ⊢
      rcases hstep start c tail hs with henters | ⟨hs, hp⟩
      · exact .inl ⟨[], _, before, rfl, henters, hstays⟩
      · exact .inr ⟨hs, List.forall_mem_cons.mpr ⟨hp, hstays⟩⟩

/-- A set of states in which a text does not begin was entered with one of the tokens before, and
all tokens since then have stayed in it. -/
theorem exists_entry (hstart : ¬ S start) (h : scan start offset cs = before ++ rest)
    (hs : S (finalState start before)) :
    ∃ front q mid, before = front ++ q :: mid ∧ enters (finalState start front) q.token ∧
      ∀ m ∈ mid, stays m.token :=
  (entry_or_stays S enters stays hstep h hs).resolve_right fun hstays => hstart hstays.1

end

-- ---------------------------------------------------------------------------
-- Tokens that follow one another directly
-- ---------------------------------------------------------------------------

/-- The kind of token that has to come right before one of this kind, and the kind of which one may
stand in between. -/
def TokenKind.predecessor? : TokenKind → Option (TokenKind × TokenKind)
  | .tagName => some (.tagOpen, .blank)
  | .endTagName => some (.endTagOpen, .blank)
  | .assign => some (.attributeName, .blank)
  | .attributeValue => some (.assign, .blank)
  | .commentClose => some (.commentOpen, .comment)
  | _ => none

def ScanState.predecessor? : ScanState → Option (TokenKind × TokenKind)
  | .afterTagOpen => some (.tagOpen, .blank)
  | .afterEndTagOpen => some (.endTagOpen, .blank)
  | .afterAttributeName _ => some (.attributeName, .blank)
  | .beforeAttributeValue _ => some (.assign, .blank)
  | .comment => some (.commentOpen, .comment)
  | _ => none

namespace ScanState

theorem Reads.predecessor? (h : Reads state kind after) (hkind : kind.predecessor? = some x) :
    state.predecessor? = some x := by
  cases h with
  | nameless h | tag h | valueless h | missingValue _ h => cases h <;> cases hkind
  | tagName | endTagName | assign | value | commentClose => exact hkind
  | _ => cases hkind

theorem predecessor?_bodyState (raw : RawText) : (Token.bodyState raw).predecessor? = none := by
  cases raw <;> rfl

theorem Reads.of_predecessor? (h : Reads state kind after)
    (hafter : after.predecessor? = some (first, filler)) :
    kind = first ∨ state.predecessor? = some (first, filler) ∧ kind = filler := by
  cases h with
  | nameless h | tag h | valueless h | missingValue _ h =>
    cases h with
    | close => simp [predecessor?_bodyState] at hafter
    | attributeName => exact .inl (Prod.ext_iff.mp (Option.some.inj hafter)).1
    | _ => cases hafter
  | tagOpen | endTagOpen | scriptEnd | styleEnd | assign | commentOpen =>
    exact .inl (Prod.ext_iff.mp (Option.some.inj hafter)).1
  | blankBeforeName | blankBeforeEndName | blankAfterName | blankBeforeValue | comment =>
    exact .inr ⟨hafter, (Prod.ext_iff.mp (Option.some.inj hafter)).2⟩
  | _ => cases hafter

end ScanState

theorem Text.breakAt_snd (p : Text → Bool) (cs : Text) :
    (breakAt p cs).2 = [] ∨ p (breakAt p cs).2 = true := by
  induction cs with
  | nil => exact .inl rfl
  | cons c cs ih =>
    simp only [breakAt]
    split
    · next h => exact .inr h
    · exact ih

theorem Token.nextComment_rest (h : (nextComment c cs).token.kind = .comment) :
    (nextComment c cs).rest = [] ∨ ∃ tail, (nextComment c cs).rest = '-' :: '-' :: '>' :: tail := by
  revert h
  unfold nextComment
  split
  · simp
  · intro _
    refine (Text.breakAt_snd (['-', '-', '>'].isPrefixOf ·) cs).imp_right fun hstarts => ?_
    obtain ⟨tail, htail⟩ := List.isPrefixOf_iff_prefix.mp hstarts
    exact ⟨tail, htail.symm⟩

section
variable {offset : Nat} {cs : Text} {before rest : List Placed} {p q : Placed}

theorem kind_ne_comment_of_comment (h : scan start offset cs = before ++ q :: p :: rest)
    (hq : q.kind = .comment) : p.kind ≠ .comment := by
  obtain ⟨c, tail, htoken, hstate, hnext⟩ := exists_next_of_scan h
  obtain ⟨d, tail', htail, hp, -⟩ := scan_eq_cons hnext.symm
  have hreads := Token.next_reads (finalState start before) c tail
  rw [Placed.kind, htoken] at hq
  rw [hq] at hreads
  generalize finalState start before = state at *
  generalize hafter : (Token.next state c tail).state = after at *
  cases hreads with
  | nameless h | tag h | valueless h | missingValue _ h => cases h
  | comment =>
    rcases Token.nextComment_rest hq with hrest | ⟨tail'', hrest⟩
    · cases hrest.symm.trans htail
    · obtain ⟨rfl, rfl⟩ := List.cons.inj (htail.symm.trans hrest)
      rw [hp, hstate]
      simp [Placed.kind, Token.next, Token.nextComment]

theorem kind_ne_filler (hx : ScanState.predecessor? state = some (first, filler))
    (h : scan start offset cs = before ++ q :: p :: rest) (hq : q.kind = filler) : p.kind ≠ filler := by
  cases state with
  | afterTagOpen | afterEndTagOpen | afterAttributeName | beforeAttributeValue =>
    obtain ⟨-, rfl⟩ := Prod.ext_iff.mp (Option.some.inj hx)
    exact kind_ne_blank_of_blank h hq
  | comment =>
    obtain ⟨-, rfl⟩ := Prod.ext_iff.mp (Option.some.inj hx)
    exact kind_ne_comment_of_comment h hq
  | _ => cases hx

theorem exists_predecessor (hstart : ScanState.predecessor? start = none)
    (h : scan start offset cs = before ++ rest)
    (hx : (finalState start before).predecessor? = some (first, filler)) :
    ∃ front q mid, before = front ++ q :: mid ∧ q.kind = first ∧ ∀ m ∈ mid, m.kind = filler := by
  refine exists_entry (fun state => state.predecessor? = some (first, filler))
    (fun _ t => t.kind = first) (fun t => t.kind = filler) ?_ (by simp [hstart]) h hx
  intro state c cs hs
  exact (Token.next_reads state c cs).of_predecessor? hs

/-- At most one filler stands in between. -/
theorem exists_predecessor_filler (hstart : ScanState.predecessor? start = none)
    (h : scan start offset cs = before ++ p :: rest)
    (hx : (finalState start before).predecessor? = some (first, filler)) :
    ∃ front q mid, before = front ++ q :: mid ∧ q.kind = first ∧
      (mid = [] ∨ ∃ m, mid = [m] ∧ m.kind = filler) := by
  obtain ⟨front, q, mid, rfl, hq, hmid⟩ := exists_predecessor hstart h hx
  refine ⟨front, q, mid, rfl, hq, ?_⟩
  rcases mid with _ | ⟨m, _ | ⟨n, mid⟩⟩
  · exact .inl rfl
  · exact .inr ⟨m, rfl, hmid m (by simp)⟩
  · have hmn : scan start offset cs = (front ++ [q]) ++ m :: n :: (mid ++ p :: rest) := by
      simpa using h
    exact absurd (hmid n (by simp)) (kind_ne_filler hx hmn (hmid m (by simp)))

theorem predecessor_suffix (hstart : ScanState.predecessor? start = none)
    (h : scan start offset cs = before ++ p :: rest)
    (hkind : p.kind.predecessor? = some (first, filler)) :
    [first] <:+ before.map Placed.kind ∨ [first, filler] <:+ before.map Placed.kind := by
  have hx := (reads_of_scan h).1.predecessor? hkind
  obtain ⟨front, q, mid, rfl, rfl, rfl | ⟨m, rfl, rfl⟩⟩ := exists_predecessor_filler hstart h hx
  · exact .inl ⟨front.map Placed.kind, by simp⟩
  · exact .inr ⟨front.map Placed.kind, by simp⟩

end

-- ---------------------------------------------------------------------------
-- Tags from one end to the other
-- ---------------------------------------------------------------------------

def startTagParts : List TokenKind :=
  [.tagName, .blank, .attributeName, .assign, .attributeValue, .unknown]

def endTagParts : List TokenKind :=
  [.endTagName, .blank, .unknown]

/-- The kind of token that begins the tag which one of this kind ends, and its parts. -/
def TokenKind.beginning? : TokenKind → Option (TokenKind × List TokenKind)
  | .tagClose | .tagSelfClose => some (.tagOpen, startTagParts)
  | .endTagClose => some (.endTagOpen, endTagParts)
  | _ => none

def ScanState.beginning? : ScanState → Option (TokenKind × List TokenKind)
  | .afterTagOpen | .tag _ | .afterAttributeName _ | .beforeAttributeValue _ =>
    some (.tagOpen, startTagParts)
  | .afterEndTagOpen | .endTag => some (.endTagOpen, endTagParts)
  | _ => none

namespace ScanState

theorem Reads.beginning? (h : Reads state kind after) (hkind : kind.beginning? = some x) :
    state.beginning? = some x := by
  cases h with
  | nameless h | tag h | valueless h | missingValue _ h =>
    cases h with
    | selfClose | close => exact hkind
    | _ => cases hkind
  | namelessClose | endTagClose => exact hkind
  | _ => cases hkind

theorem beginning?_bodyState (raw : RawText) : (Token.bodyState raw).beginning? = none := by
  cases raw <;> rfl

theorem ReadsInTag.mem_startTagParts (h : ReadsInTag context kind after) (hafter : after.beginning? ≠ none) :
    after.beginning? = some (.tagOpen, startTagParts) ∧ kind ∈ startTagParts := by
  cases h with
  | selfClose => exact absurd rfl hafter
  | close => exact absurd (beginning?_bodyState _) hafter
  | _ => exact ⟨rfl, by simp [startTagParts]⟩

theorem Reads.of_beginning? (h : Reads state kind after)
    (hafter : after.beginning? = some (first, parts)) :
    kind = first ∨ state.beginning? = some (first, parts) ∧ kind ∈ parts := by
  cases h with
  | nameless h | tag h | valueless h | missingValue _ h =>
    obtain ⟨htag, hmem⟩ := h.mem_startTagParts (by simp [hafter])
    obtain ⟨rfl, rfl⟩ := Prod.ext_iff.mp (Option.some.inj (htag.symm.trans hafter))
    exact .inr ⟨rfl, hmem⟩
  | tagOpen | endTagOpen | scriptEnd | styleEnd =>
    exact .inl (Prod.ext_iff.mp (Option.some.inj hafter)).1
  | tagName | blankBeforeName | blankAfterName | assign | blankBeforeValue | value =>
    obtain ⟨rfl, rfl⟩ := Prod.ext_iff.mp (Option.some.inj hafter)
    exact .inr ⟨rfl, by simp [startTagParts]⟩
  | endTagName | blankBeforeEndName | unknownEndName | blankInEndTag | unknownInEndTag =>
    obtain ⟨rfl, rfl⟩ := Prod.ext_iff.mp (Option.some.inj hafter)
    exact .inr ⟨rfl, by simp [endTagParts]⟩
  | _ => cases hafter

end ScanState

section
variable {offset : Nat} {cs : Text} {before rest : List Placed} {p q : Placed}

theorem exists_beginning (hstart : ScanState.beginning? start = none)
    (h : scan start offset cs = before ++ rest)
    (hx : (finalState start before).beginning? = some (first, parts)) :
    ∃ front q mid, before = front ++ q :: mid ∧ q.kind = first ∧ ∀ m ∈ mid, m.kind ∈ parts := by
  refine exists_entry (fun state => state.beginning? = some (first, parts))
    (fun _ t => t.kind = first) (fun t => t.kind ∈ parts) ?_ (by simp [hstart]) h hx
  intro state c cs hs
  exact (Token.next_reads state c cs).of_beginning? hs

end

-- ---------------------------------------------------------------------------
-- What a start tag remembers
-- ---------------------------------------------------------------------------

def attributeBounds : List TokenKind :=
  [.tagOpen, .tagName, .attributeName, .attributeValue]

/-- Whether a blank has been seen since the last token after which an attribute needs one. -/
def ScanState.afterBlank : ScanState → Bool
  | .tag context | .afterAttributeName context | .beforeAttributeValue context => context.afterBlank
  | _ => false

def ScanState.rawText : ScanState → RawText
  | .tag context | .afterAttributeName context | .beforeAttributeValue context => context.rawText
  | _ => .none

namespace ScanState

theorem Reads.of_tagName (h : Reads state .tagName after) : state = .afterTagOpen := by
  cases h with
  | nameless h | tag h | valueless h | missingValue _ h => cases h
  | tagName => rfl

theorem afterBlank_bodyState (raw : RawText) : (Token.bodyState raw).afterBlank = false := by
  cases raw <;> rfl

theorem rawText_bodyState (raw : RawText) : (Token.bodyState raw).rawText = .none := by
  cases raw <;> rfl

theorem Reads.of_afterBlank (h : Reads state kind after) (hname : kind ≠ .tagName)
    (hafter : after.afterBlank = true) :
    state.beginning? = some (.tagOpen, startTagParts) ∧ kind = .blank ∨
      state.afterBlank = true ∧ kind ∉ attributeBounds := by
  cases h with
  | nameless h | tag h | valueless h =>
    cases h with
    | blank => exact .inl ⟨rfl, rfl⟩
    | close => simp [afterBlank_bodyState] at hafter
    | unexpected => exact .inr ⟨hafter, by simp [attributeBounds]⟩
    | _ => cases hafter
  | missingValue _ h =>
    cases h with
    | blank => exact .inl ⟨rfl, rfl⟩
    | close => simp [afterBlank_bodyState] at hafter
    | _ => cases hafter
  | tagName => exact absurd rfl hname
  | blankAfterName => exact .inl ⟨rfl, rfl⟩
  | assign | blankBeforeValue => exact .inr ⟨hafter, by simp [attributeBounds]⟩
  | _ => cases hafter

theorem Reads.of_attributeName (h : Reads state .attributeName after) : state.afterBlank = true := by
  cases h with
  | nameless h | tag h | valueless h =>
    cases h with
    | attributeName hblank => exact hblank
  | missingValue _ h =>
    cases h with
    | attributeName hblank => cases hblank

theorem Reads.of_rawText (h : Reads state kind after) (hname : kind ≠ .tagName)
    (hafter : after.rawText = raw) (hraw : raw ≠ .none) :
    state.rawText = raw ∧ kind ∈ startTagParts.tail := by
  cases h with
  | nameless h | tag h | valueless h | missingValue _ h =>
    cases h with
    | close => exact absurd ((rawText_bodyState _).symm.trans hafter).symm hraw
    | selfClose => exact absurd hafter.symm hraw
    | _ => exact ⟨hafter, by simp [startTagParts]⟩
  | tagName => exact absurd rfl hname
  | blankAfterName | assign | blankBeforeValue | value => exact ⟨hafter, by simp [startTagParts]⟩
  | _ => exact absurd hafter.symm hraw

end ScanState

theorem Token.next_tagName (h : (next state c cs).token.kind = .tagName) :
    state = .afterTagOpen ∧
      (next state c cs).state = .tag ⟨TagName.rawText (next state c cs).token.lexeme, false⟩ := by
  have hreads := next_reads state c cs
  rw [h] at hreads
  obtain rfl := hreads.of_tagName
  refine ⟨rfl, ?_⟩
  revert h
  simp only [next, nextTagName]
  split
  · exact fun _ => rfl
  · split
    · rintro ⟨⟩
    · intro h
      have hin := nextInTag_reads {} c cs
      rw [h] at hin
      cases hin

section
variable {offset : Nat} {cs : Text} {before rest : List Placed} {p q : Placed}

theorem exists_blank (h : scan .content offset cs = before ++ p :: rest) (hp : p.kind = .attributeName) :
    ∃ front q mid, before = front ++ q :: mid ∧ q.kind ∈ attributeBounds ∧
      (∀ m ∈ mid, m.kind ∉ attributeBounds) ∧ ∃ m ∈ mid, m.kind = .blank := by
  have hreads := (reads_of_scan h).1
  rw [hp] at hreads
  have hblank : ∀ state c cs, (Token.next state c cs).state.afterBlank = true →
      state.beginning? = some (.tagOpen, startTagParts) ∧ (Token.next state c cs).token.kind = .blank ∨
        state.afterBlank = true ∧ (Token.next state c cs).token.kind ∉ attributeBounds := by
    intro state c cs hafter
    by_cases hname : (Token.next state c cs).token.kind = .tagName
    · simp [(Token.next_tagName hname).2, ScanState.afterBlank] at hafter
    · exact (Token.next_reads state c cs).of_afterBlank hname hafter
  have hbound : ∀ state c cs, (Token.next state c cs).state.beginning? = some (.tagOpen, startTagParts) →
      (Token.next state c cs).token.kind ∈ attributeBounds ∨
        state.beginning? = some (.tagOpen, startTagParts) ∧
          (Token.next state c cs).token.kind ∉ attributeBounds := by
    intro state c cs hafter
    by_cases hmem : (Token.next state c cs).token.kind ∈ attributeBounds
    · exact .inl hmem
    · rcases (Token.next_reads state c cs).of_beginning? hafter with hopen | ⟨htag, -⟩
      · exact .inl (by simp [hopen, attributeBounds])
      · exact .inr ⟨htag, hmem⟩
  obtain ⟨front, b, mid, rfl, ⟨htag, hb⟩, hmid⟩ :=
    exists_entry (fun state => state.afterBlank = true)
      (fun state t => state.beginning? = some (.tagOpen, startTagParts) ∧ t.kind = .blank)
      (fun t => t.kind ∉ attributeBounds) hblank (by simp [ScanState.afterBlank]) h
      hreads.of_attributeName
  have h' : scan .content offset cs = front ++ (b :: mid ++ p :: rest) := by simpa using h
  obtain ⟨front, q, mid', rfl, hq, hmid'⟩ :=
    exists_entry (fun state => state.beginning? = some (.tagOpen, startTagParts))
      (fun _ t => t.kind ∈ attributeBounds) (fun t => t.kind ∉ attributeBounds) hbound
      (by simp [ScanState.beginning?]) h' htag
  have hb' : b.kind = .blank := hb
  refine ⟨front, q, mid' ++ b :: mid, by simp, hq, ?_, b, by simp, hb'⟩
  intro m hm
  rcases List.mem_append.mp hm with hm | hm
  · exact hmid' m hm
  · rcases List.mem_cons.mp hm with rfl | hm
    · simp [hb', attributeBounds]
    · exact hmid m hm

end

-- ---------------------------------------------------------------------------
-- Raw bodies
-- ---------------------------------------------------------------------------

theorem Token.eq_script_of_bodyState (h : bodyState raw = .scriptBody) : raw = .script := by
  cases raw <;> first | rfl | cases h

namespace ScanState

theorem Reads.of_script (h : Reads state .script after) : state = .scriptBody := by
  cases h with
  | nameless h | tag h | valueless h | missingValue _ h => cases h
  | script | scriptToEnd => rfl

theorem Reads.of_scriptBody (h : Reads state kind after) (hafter : after = .scriptBody) :
    state.rawText = .script ∧ kind = .tagClose ∨ kind = .script := by
  cases h with
  | nameless h | tag h | valueless h | missingValue _ h =>
    cases h with
    | close => exact .inl ⟨Token.eq_script_of_bodyState hafter, rfl⟩
    | _ => cases hafter
  | scriptToEnd => exact .inr rfl
  | _ => cases hafter

end ScanState

namespace Token

theorem nextRaw_rest {kind : TokenKind} (hkind : kind ≠ .endTagOpen)
    (h : (nextRaw name kind state c cs).token.kind = kind) :
    (nextRaw name kind state c cs).rest = [] ∨
      (nextRaw name kind state c cs).state = .content ∧
        startsEndTag name (nextRaw name kind state c cs).rest = true := by
  have hbreak := Text.breakAt_snd (startsEndTag name) cs
  revert h
  unfold nextRaw
  split
  · next hstarts =>
    obtain ⟨rest, hrest⟩ := nextContent_of_startsEndTag hstarts
    rw [hrest]
    exact fun h => absurd h.symm hkind
  · split
    · exact fun _ => .inl rfl
    · next heq =>
      rw [heq] at hbreak
      exact fun _ => hbreak.imp_right fun hstarts => ⟨rfl, hstarts⟩

theorem take_takeWhile {cs : Text} {p : Char → Bool} (h : ∀ c ∈ cs.take n, p c = true) :
    (cs.takeWhile p).take n = cs.take n := by
  induction cs generalizing n with
  | nil => rfl
  | cons c cs ih =>
    cases n with
    | zero => rfl
    | succ n =>
      rw [List.take_succ_cons, List.forall_mem_cons] at h
      rw [List.takeWhile_cons_of_pos h.1, List.take_succ_cons, List.take_succ_cons, ih h.2]

theorem nextEndTagName_of_startsWithFolded (hd : isNameStart d = true)
    (hds : ∀ x ∈ ds, isNameChar x = true) (h : Text.startsWithFolded (d :: ds) cs = true) :
    ∃ c tail, cs = c :: tail ∧ (nextEndTagName c tail).token.kind = .endTagName ∧
      Text.startsWithFolded (d :: ds) (nextEndTagName c tail).token.lexeme = true := by
  cases cs with
  | nil => simp [Text.startsWithFolded, Text.fold] at h
  | cons c tail =>
    simp only [Text.startsWithFolded, Text.fold, List.length_cons, List.take_succ_cons, List.map_cons,
      decide_eq_true_eq, List.cons.injEq] at h
    obtain ⟨rfl, htail⟩ := h
    have hc : isNameStart c = true := by rwa [CaseBlind.isNameStart c] at hd
    have hmem : ∀ x ∈ tail.take ds.length, isNameChar x = true := by
      intro x hx
      rw [← CaseBlind.isNameChar x]
      exact hds _ (htail ▸ List.mem_map_of_mem hx)
    refine ⟨c, tail, rfl, ?_, ?_⟩
    · simp [nextEndTagName, hc, Step.run]
    · simpa [nextEndTagName, hc, Step.run, Text.startsWithFolded, Text.fold, take_takeWhile hmem]
        using htail

theorem scan_rawEndTag (offset : Nat) (hd : isNameStart d = true)
    (hds : ∀ x ∈ ds, isNameChar x = true) (h : startsEndTag (d :: ds) cs = true) :
    ∃ q name rest, scan .content offset cs = q :: name :: rest ∧ q.kind = .endTagOpen ∧
      name.kind = .endTagName ∧ Text.startsWithFolded (d :: ds) name.lexeme = true := by
  obtain ⟨tail, rfl⟩ := startsEndTag_eq h
  have hname : Text.startsWithFolded (d :: ds) tail = true := by
    simp only [startsEndTag, Text.startsWithFolded, Text.fold, List.length_cons, List.take_succ_cons,
      List.map_cons, decide_eq_true_eq, List.cons.injEq] at h
    simpa [Text.startsWithFolded, Text.fold] using h.2.2
  obtain ⟨c, tail, rfl, hkind, hlexeme⟩ := nextEndTagName_of_startsWithFolded hd hds hname
  rw [scan_cons]
  simp only [next, nextContent, nextBracket, ↓reduceIte]
  rw [scan_cons]
  exact ⟨_, _, _, rfl, rfl, hkind, hlexeme⟩

end Token

section
variable {offset : Nat} {cs : Text} {before rest : List Placed} {p q : Placed}

theorem TagName.fold_eq_script {name : Text} (h : rawText name = .script) : name.fold = script := by
  unfold rawText at h
  split at h
  · assumption
  · split at h <;> cases h

/-- A start tag whose body will be read in a raw way has the name that demands it. -/
theorem exists_rawTagName (hraw : raw ≠ .none) (h : scan .content offset cs = before ++ rest)
    (hs : (finalState .content before).rawText = raw) :
    ∃ front q mid, before = front ++ q :: mid ∧ q.kind = .tagOpen ∧ (∀ m ∈ mid, m.kind ∈ startTagParts) ∧
      (mid.filter (·.kind = .tagName)).map (TagName.rawText ·.lexeme) = [raw] := by
  have hstep : ∀ state c cs, (Token.next state c cs).state.rawText = raw →
      (state = .afterTagOpen ∧ (Token.next state c cs).token.kind = .tagName ∧
        TagName.rawText (Token.next state c cs).token.lexeme = raw) ∨
      state.rawText = raw ∧ (Token.next state c cs).token.kind ∈ startTagParts.tail := by
    intro state c cs hafter
    by_cases hname : (Token.next state c cs).token.kind = .tagName
    · obtain ⟨hstate, hnext⟩ := Token.next_tagName hname
      rw [hnext] at hafter
      exact .inl ⟨hstate, hname, hafter⟩
    · exact .inr ((Token.next_reads state c cs).of_rawText hname hafter hraw)
  have hstart : ¬ ScanState.rawText .content = raw := fun hnone => hraw hnone.symm
  obtain ⟨front, name, mid, rfl, ⟨hstate, hname, hlexeme⟩, hmid⟩ :=
    exists_entry (fun state => state.rawText = raw)
      (fun state t => state = .afterTagOpen ∧ t.kind = .tagName ∧ TagName.rawText t.lexeme = raw)
      (fun t => t.kind ∈ startTagParts.tail) hstep hstart h hs
  have hopened : (finalState .content front).predecessor? = some (.tagOpen, .blank) := by
    rw [hstate]
    rfl
  have h' : scan .content offset cs = front ++ (name :: mid ++ rest) := by simpa using h
  obtain ⟨front, q, gap, rfl, hq, hgap⟩ := exists_predecessor rfl h' hopened
  have hmid' : ∀ m ∈ mid, m.kind ∈ startTagParts.tail := hmid
  have hnone : mid.filter (·.kind = .tagName) = [] := by
    refine List.filter_eq_nil_iff.mpr fun m hm hkind => ?_
    have hmem := hmid' m hm
    rw [of_decide_eq_true hkind] at hmem
    simp [startTagParts] at hmem
  have hblank : gap.filter (·.kind = .tagName) = [] :=
    List.filter_eq_nil_iff.mpr fun m hm => by simp [hgap m hm]
  have hname' : name.kind = .tagName := hname
  refine ⟨front, q, gap ++ name :: mid, by simp, hq, ?_, ?_⟩
  · intro m hm
    rcases List.mem_append.mp hm with hm | hm
    · simp [hgap m hm, startTagParts]
    · rcases List.mem_cons.mp hm with rfl | hm
      · simp [hname', startTagParts]
      · exact List.mem_of_mem_tail (hmid' m hm)
  · rw [List.filter_append, hblank, List.nil_append, List.filter_cons_of_pos (by simpa using hname'), hnone]
    exact congrArg (fun r => [r]) hlexeme

theorem exists_scriptTag (h : scan .content offset cs = before ++ p :: rest) (hp : p.kind = .script) :
    ∃ front q mid close, before = front ++ q :: mid ++ [close] ∧ q.kind = .tagOpen ∧
      (∀ m ∈ mid, m.kind ∈ startTagParts) ∧ close.kind = .tagClose ∧
      (mid.filter (·.kind = .tagName)).map (Text.fold ·.lexeme) = [TagName.script] := by
  have hreads := (reads_of_scan h).1
  rw [hp] at hreads
  have hbody := hreads.of_script
  rcases List.eq_nil_or_concat before with rfl | ⟨before, close, rfl⟩
  · cases hbody
  · rw [List.concat_eq_append] at h hbody
    rw [finalState_concat] at hbody
    have hclose : scan .content offset cs = before ++ close :: p :: rest := by simpa using h
    rcases (reads_of_scan hclose).1.of_scriptBody hbody with ⟨hraw, hkind⟩ | hkind
    · obtain ⟨front, q, mid, rfl, hq, hmid, hname⟩ := exists_rawTagName (by decide) hclose hraw
      obtain ⟨name, hmem, hlexeme⟩ := List.map_eq_singleton_iff.mp hname
      exact ⟨front, q, mid, close, by simp, hq, hmid, hkind, by
        rw [hmem, List.map_singleton, TagName.fold_eq_script hlexeme]⟩
    · -- A script that leaves its state unchanged reaches to the end of the text.
      obtain ⟨c, tail, htoken, hstate, hrest⟩ := exists_next_of_scan hclose
      have hscript := (reads_of_scan hclose).1
      rw [hkind] at hscript
      rw [hscript.of_script] at htoken hstate hrest
      rw [Placed.kind, htoken] at hkind
      rcases Token.nextRaw_rest (by decide) hkind with hnil | ⟨hcontent, -⟩
      · simp only [Token.next, hnil, scan] at hrest
        cases hrest
      · cases hbody.symm.trans (hstate.trans hcontent)

/-- A script reaches to the end of the text or to the end tag of its element. -/
theorem script_followed (h : scan .content offset cs = before ++ p :: rest) (hp : p.kind = .script) :
    rest = [] ∨ ∃ q name rest', rest = q :: name :: rest' ∧ q.kind = .endTagOpen ∧
      name.kind = .endTagName ∧ Text.startsWithFolded TagName.script name.lexeme = true := by
  obtain ⟨c, tail, htoken, hstate, hrest⟩ := exists_next_of_scan h
  have hreads := (reads_of_scan h).1
  rw [hp] at hreads
  rw [hreads.of_script] at htoken hstate hrest
  rw [Placed.kind, htoken] at hp
  rcases Token.nextRaw_rest (by decide) hp with hnil | ⟨hcontent, hstarts⟩
  · exact .inl (by rw [hrest]; simp only [Token.next, hnil, scan])
  · rw [hrest, hstate, Token.next, hcontent]
    exact .inr (Token.scan_rawEndTag _ rfl (List.all_eq_true.mp rfl) hstarts)

end

-- ---------------------------------------------------------------------------
-- All rules together
-- ---------------------------------------------------------------------------

/-- The order in which tokens come. Each rule is about a token `p` and those before and after it. -/
structure Grammatical (ts : List Placed) : Prop where
  /-- Names, values and the end of a comment follow directly on what they belong to. -/
  directly : ∀ before p rest, ts = before ++ p :: rest →
    ∀ first filler, p.kind.predecessor? = some (first, filler) →
      [first] <:+ before.map Placed.kind ∨ [first, filler] <:+ before.map Placed.kind
  /-- A tag has nothing but its own parts between its brackets. -/
  enclosed : ∀ before p rest, ts = before ++ p :: rest →
    ∀ first parts, p.kind.beginning? = some (first, parts) →
      ∃ front q mid, before = front ++ q :: mid ∧ q.kind = first ∧ ∀ m ∈ mid, m.kind ∈ parts
  /-- There is a blank before every attribute. -/
  spaced : ∀ before p rest, ts = before ++ p :: rest → p.kind = .attributeName →
    ∃ front q mid, before = front ++ q :: mid ∧ q.kind ∈ attributeBounds ∧
      (∀ m ∈ mid, m.kind ∉ attributeBounds) ∧ ∃ m ∈ mid, m.kind = .blank
  /-- A script is the whole body of an element that is named for it. -/
  script : ∀ before p rest, ts = before ++ p :: rest → p.kind = .script →
    (∃ front q mid close, before = front ++ q :: mid ++ [close] ∧ q.kind = .tagOpen ∧
      (∀ m ∈ mid, m.kind ∈ startTagParts) ∧ close.kind = .tagClose ∧
      (mid.filter (·.kind = .tagName)).map (Text.fold ·.lexeme) = [TagName.script]) ∧
    (rest = [] ∨ ∃ q name rest', rest = q :: name :: rest' ∧ q.kind = .endTagOpen ∧
      name.kind = .endTagName ∧ Text.startsWithFolded TagName.script name.lexeme = true)

/-- A text that is read from content on gives tokens in their order, however malformed it is. -/
theorem scan_grammatical (offset : Nat) (text : Text) : Grammatical (scan .content offset text) where
  directly _ _ _ h _ _ hkind := predecessor_suffix rfl h hkind
  enclosed _ _ _ h _ _ hkind := exists_beginning rfl h ((reads_of_scan h).1.beginning? hkind)
  spaced _ _ _ h hkind := exists_blank h hkind
  script _ _ _ h hkind := ⟨exists_scriptTag h hkind, script_followed h hkind⟩

end PageMarkup
