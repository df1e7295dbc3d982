import PageMarkup.Proofs.CompletionItems
import PageMarkup.Proofs.DecidingToken
import PageMarkup.Proofs.Positions
import PageMarkup.Schema.Bundled

/-!
# Items and the token at the cursor

Completion starts to read at an element before the cursor and stops at the first token that reaches
to the cursor, or at the next one. `completions_fit` says what this comes to in terms of the whole
document: the kinds of items that are offered are those which the token at the cursor has room for.
-/

namespace PageMarkup

open ScanState (Reads ReadsInTag)

def TokenKind.isSilent : TokenKind → Bool
  | .commentOpen | .comment | .commentClose | .script | .unknown | .tagSelfClose | .endTagClose => true
  | _ => false

/-- The tokens end inside an end tag, after its name. -/
def EndTagNamed (before : List Placed) : Prop :=
  ∃ front name mid, before = front ++ name :: mid ∧ name.kind = .endTagName ∧
    ∀ m ∈ mid, m.kind ∈ endTagParts

def StartTagHas (before mid : List Placed) : Prop :=
  ∃ front p, before = front ++ p :: mid ∧ p.kind = .tagOpen ∧ ∀ m ∈ mid, m.kind ∈ startTagParts

/-- The text ends with an ampersand, which is not before `start`, and letters or digits. -/
def Text.EndsWithReference (cs : Text) (start : Nat) : Prop :=
  ∃ front name, cs = front ++ '&' :: name ∧ (∀ c ∈ name, c.isAlphanum = true) ∧ start ≤ front.size

/-- The token `t`, which comes after the tokens `before` and reaches to the cursor, has room for an
item of this kind. -/
structure CompletionItem.Fits (item : CompletionItem) (text : Text) (cursor : Nat)
    (before : List Placed) (t : Placed) : Prop where
  entity : item.kind = .entity → t.kind = .content ∧ (text.upTo cursor).size = cursor ∧
    (text.upTo cursor).EndsWithReference t.offset
  /-- After its bracket a tag is to be named, and after `=` there is a value to come, unless that
  sign was not expected. -/
  attributeName : item.kind = .attributeName → t.kind = .attributeName ∨
    t.kind = .blank ∧ ∃ mid q, StartTagHas before (mid ++ [q]) ∧
      (q.lexeme.getLast? = some '=' → q.kind = .unknown)
  value : item.kind = .value → t.kind = .assign ∨ t.kind = .attributeValue ∨
    t.kind = .blank ∧ ∃ front q, before = front ++ [q] ∧ q.kind = .assign
  /-- A whole end tag goes with the start tag before it. -/
  wholeEndTag : ∀ tag, item.kind = .tag → item.label = "</" ++ tag ++ ">" →
    item.filter = some item.label → t.kind = .tagClose ∧ TagName.isVoid tag = false ∧
      ∃ mid, StartTagHas before mid ∧
        (mid.filter (·.kind = .tagName)).map Placed.lexeme = [tag.toList]

-- ---------------------------------------------------------------------------
-- Blanks in tags
-- ---------------------------------------------------------------------------

theorem Token.nextTagName_blank (h : (nextTagName c cs).token.kind = .blank) :
    (nextTagName c cs).state = .afterTagOpen := by
  revert h
  unfold nextTagName
  split
  · exact fun h => absurd h (by simp [Step.run])
  · split
    · exact fun _ => rfl
    · next hc => exact fun h => absurd h (nextInTag_kind {} (Bool.of_not_eq_true hc))

theorem Token.state_of_next_blank (h : (next state c cs).token.kind = .blank)
    (hafter : (∃ context, (next state c cs).state = .tag context) ∨
      ∃ context, (next state c cs).state = .afterAttributeName context) :
    (∃ context, state = .tag context) ∨ ∃ context, state = .afterAttributeName context := by
  have hreads := next_reads state c cs
  rw [h] at hreads
  cases state with
  | tag context => exact .inl ⟨context, rfl⟩
  | afterAttributeName context => exact .inr ⟨context, rfl⟩
  | afterTagOpen => simp [next, nextTagName_blank h] at hafter
  | beforeAttributeValue context => simp [next, nextValue_blank h] at hafter
  | _ =>
    generalize (next _ c cs).state = after at hreads hafter
    cases hreads <;> simp at hafter

theorem ScanState.Reads.after_assign (h : Reads state .assign after) :
    ∃ context, after = .beforeAttributeValue context := by
  cases h with
  | nameless h | tag h | valueless h | missingValue _ h => cases h
  | assign context => exact ⟨context, rfl⟩

/-- In a start tag, `=` is an assignment, or else was not expected there. -/
theorem kind_of_getLast? {front back : List Placed} {q t : Placed}
    (h : tokens text = front ++ q :: t :: back) (hkind : q.kind ∈ startTagParts)
    (hlast : q.lexeme.getLast? = some '=') : q.kind = .assign ∨ q.kind = .unknown := by
  have hwrites : q.kind.Writes q.lexeme :=
    writes_of_mem_scan (show q ∈ tokens text by rw [h]; simp)
  have hmem := List.mem_of_getLast? hlast
  cases hq : q.kind with
  | assign => exact .inl rfl
  | unknown => exact .inr rfl
  | tagName =>
    rw [hq] at hwrites
    obtain ⟨c, cs, hcs, hc, hall⟩ := hwrites
    rw [hcs] at hmem
    rcases List.mem_cons.mp hmem with rfl | hmem
    · cases hc
    · cases hall _ hmem
  | blank | attributeName =>
    rw [hq] at hwrites
    cases hwrites _ hmem
  | attributeValue =>
    obtain ⟨c, tail, htoken, -, hnext⟩ := exists_next_of_scan h
    rw [Placed.kind, htoken] at hq
    rw [Placed.lexeme, htoken] at hlast hmem
    obtain ⟨context, -, hall | ⟨hc, hquoted⟩⟩ := Token.next_value hq
    · cases hall _ hmem
    · rw [hquoted] at hlast hnext
      rcases Token.nextQuoted_cases { context with afterBlank := false } c tail with
        ⟨-, hstep⟩ | ⟨body, rest, -, -, hstep⟩
      · rw [hstep, scan] at hnext
        cases hnext
      · have hend : (c :: body ++ [c]).getLast? = some c := List.getLast?_concat
        rw [hstep, hend] at hlast
        rcases hc with rfl | rfl <;> exact absurd (Option.some.inj hlast) (by decide)
  | _ =>
    rw [hq] at hkind
    simp [startTagParts] at hkind

section
variable {text : Text} {before back : List Placed} {t : Placed}
  (h : tokens text = before ++ t :: back)
include h

theorem exists_part_before (hkind : t.kind = .blank)
    (hstate : (∃ context, t.state = .tag context) ∨ ∃ context, t.state = .afterAttributeName context) :
    ∃ mid q, StartTagHas before (mid ++ [q]) ∧ (q.lexeme.getLast? = some '=' → q.kind = .unknown) := by
  obtain ⟨c, tail, htoken, hafter, -⟩ := exists_next_of_scan h
  rw [Placed.kind, htoken] at hkind
  rw [hafter] at hstate
  have hbefore := Token.state_of_next_blank hkind hstate
  have hin : (finalState .content before).beginning? = some (.tagOpen, startTagParts) := by
    rcases hbefore with ⟨context, hbefore⟩ | ⟨context, hbefore⟩ <;> rw [hbefore] <;> rfl
  obtain ⟨front, p, mid, rfl, hopen, hmid⟩ := exists_beginning rfl h hin
  rcases List.eq_nil_or_concat mid with rfl | ⟨mid, q, rfl⟩
  · have hp : tokens text = front ++ p :: t :: back := by simpa using h
    have hreads := (reads_of_scan hp).1
    rw [hopen] at hreads
    rw [finalState_concat, hreads.of_tagOpen] at hbefore
    simp at hbefore
  · rw [List.concat_eq_append] at h hmid hbefore ⊢
    have hq : tokens text = (front ++ p :: mid) ++ q :: t :: back := by simpa using h
    refine ⟨mid, q, ⟨front, p, rfl, hopen, hmid⟩, fun hlast => ?_⟩
    refine (kind_of_getLast? hq (hmid q (by simp)) hlast).resolve_left fun hassign => ?_
    have hreads := (reads_of_scan hq).1
    rw [hassign] at hreads
    obtain ⟨context, hq⟩ := hreads.after_assign
    have hfinal : finalState .content (front ++ p :: (mid ++ [q])) = q.state := by
      rw [← List.cons_append, ← List.append_assoc, finalState_concat]
    rw [hfinal, hq] at hbefore
    simp at hbefore

end

-- ---------------------------------------------------------------------------
-- Inside an end tag
-- ---------------------------------------------------------------------------

theorem ScanState.Reads.of_endTag_parts (h : Reads .endTag kind after) (hkind : kind ∈ endTagParts) :
    after = .endTag := by
  cases h with
  | blankInEndTag | unknownInEndTag => rfl
  | endTagClose => simp [endTagParts] at hkind

theorem ScanState.Reads.after_endTagName (h : Reads state .endTagName after) : after = .endTag := by
  cases h with
  | nameless h | tag h | valueless h | missingValue _ h => cases h
  | endTagName => rfl

theorem finalState_endTag {mid rest : List Placed} (h : scan .endTag offset cs = mid ++ rest)
    (hmid : ∀ m ∈ mid, m.kind ∈ endTagParts) : finalState .endTag mid = .endTag := by
  induction mid generalizing offset cs with
  | nil => rfl
  | cons m mid ih =>
    obtain ⟨hm, hmid⟩ := List.forall_mem_cons.mp hmid
    obtain ⟨hreads, -, tail, htail⟩ := scan_step h
    rw [hreads.of_endTag_parts hm] at htail
    rw [finalState_cons, hreads.of_endTag_parts hm]
    exact ih htail hmid

theorem EndTagNamed.finalState {before rest : List Placed} (hnamed : EndTagNamed before)
    (h : scan .content offset cs = before ++ rest) : finalState .content before = .endTag := by
  obtain ⟨front, name, mid, rfl, hname, hmid⟩ := hnamed
  have hsplit : scan .content offset cs = front ++ name :: (mid ++ rest) := by simpa using h
  obtain ⟨_, _, -, -, hscan⟩ := scan_eq_append hsplit
  obtain ⟨hreads, -, tail, htail⟩ := scan_step hscan.symm
  rw [hname] at hreads
  rw [hreads.after_endTagName] at htail
  rw [finalState_append _ _ (List.cons_ne_nil _ _), finalState_cons, hreads.after_endTagName]
  exact finalState_endTag htail hmid

-- ---------------------------------------------------------------------------
-- What content comes after
-- ---------------------------------------------------------------------------

def ScanState.isBody : ScanState → Bool
  | .content | .scriptBody | .styleBody => true
  | _ => false

theorem ScanState.Reads.getLast?_of_isBody (h : Reads state kind after) (hafter : after.isBody = true)
    (hstate : state.beginning? ≠ none) (hwrites : kind.Writes w) : w.getLast? = some '>' := by
  cases h with
  | nameless hin | tag hin | valueless hin | missingValue _ hin =>
    cases hin with
    | selfClose | close =>
      cases hwrites
      rfl
    | _ => cases hafter
  | namelessClose | endTagClose =>
    cases hwrites
    rfl
  | content | doctypeClose | commentClose | script | scriptToEnd | style | styleToEnd =>
    exact absurd rfl hstate
  | _ => cases hafter

namespace Token

theorem nextRaw_body {kind : TokenKind} (h : (nextRaw name kind state c cs).state.isBody = true) :
    (nextRaw name kind state c cs).rest = [] ∨ (nextRaw name kind state c cs).state = .content ∧
      ∃ tail, (nextRaw name kind state c cs).rest = '<' :: tail := by
  have hbreak := Text.breakAt_snd (startsEndTag name) cs
  revert h
  unfold nextRaw
  split
  · next hstarts =>
    obtain ⟨rest, hrest⟩ := nextContent_of_startsEndTag hstarts
    rw [hrest]
    exact fun h => absurd h (by simp [ScanState.isBody])
  · split
    · exact fun _ => .inl rfl
    · next heq =>
      rw [heq] at hbreak
      refine fun _ => hbreak.imp_right fun hstarts => ?_
      obtain ⟨tail, htail⟩ := startsEndTag_eq hstarts
      exact ⟨rfl, _, htail⟩

theorem nextContent_body (h : (nextContent c cs).state.isBody = true) :
    (nextContent c cs).rest = [] ∨ (nextContent c cs).state = .content ∧
      ∃ tail, (nextContent c cs).rest = '<' :: tail := by
  revert h
  unfold nextContent
  split
  · unfold nextBracket
    repeat' split
    all_goals exact fun h => absurd h (by simp [ScanState.isBody])
  · intro _
    have hstop := List.head?_dropWhile_not (· ≠ '<') cs
    cases hrest : cs.dropWhile (· ≠ '<') with
    | nil => exact .inl hrest
    | cons d tail =>
      rw [hrest] at hstop
      refine .inr ⟨rfl, tail, hrest.trans ?_⟩
      simpa using hstop

theorem nextBracket_ne_content (cs : Text) : (nextBracket cs).token.kind ≠ .content := by
  unfold nextBracket
  repeat' split
  all_goals simp

/-- A token after which text between tags is read ends with a bracket, or nothing is left but the
next bracket. -/
theorem next_body (h : (next state c cs).state.isBody = true) :
    (next state c cs).token.lexeme.getLast? = some '>' ∨ (next state c cs).rest = [] ∨
      (next state c cs).state = .content ∧ ∃ tail, (next state c cs).rest = '<' :: tail := by
  have hreads := next_reads state c cs
  have hwrites := (next_shaped state c cs).writes
  cases state with
  | content => exact .inr (nextContent_body h)
  | scriptBody | styleBody => exact .inr (nextRaw_body h)
  | comment =>
    revert h
    simp only [next, nextComment]
    split
    · exact fun _ => .inl rfl
    · exact fun h => absurd h (by simp [ScanState.isBody])
  | doctype =>
    revert h
    simp only [next, nextDoctype]
    split
    · next hc => exact fun _ => .inl (congrArg some hc)
    · exact fun h => absurd h (by simp [Step.run, ScanState.isBody])
  | _ => exact .inl (hreads.getLast?_of_isBody h (by simp [ScanState.beginning?]) hwrites)

end Token

section
variable {text : Text} {before back : List Placed} {t : Placed}
  (h : tokens text = before ++ t :: back)
include h

/-- Content begins the text or comes after a bracket. -/
theorem getLast?_before_content (hkind : t.kind = .content) :
    before = [] ∨ (text.upTo t.offset).getLast? = some '>' := by
  rcases List.eq_nil_or_concat before with rfl | ⟨front, q, rfl⟩
  · exact .inl rfl
  rw [List.concat_eq_append] at h ⊢
  have hq : tokens text = front ++ q :: t :: back := by simpa using h
  obtain ⟨c, tail, htoken, hstate, hnext⟩ := exists_next_of_scan hq
  have hbody : q.state.isBody = true := by
    have hreads := (reads_next hq).1
    rw [hkind] at hreads
    generalize q.state = state at hreads
    generalize t.state = after at hreads
    cases hreads with
    | nameless h | tag h | valueless h | missingValue _ h => cases h
    | content | style | styleToEnd => rfl
  rw [hstate] at hbody
  obtain ⟨d, rest, hrest, ht, -⟩ := scan_eq_cons hnext.symm
  rcases Token.next_body hbody with hlast | hnil | ⟨hcontent, more, hmore⟩
  · refine .inr ?_
    rw [upTo_offset h, List.flatMap_append, List.flatMap_singleton, Placed.lexeme, htoken,
      List.getLast?_append, hlast]
    rfl
  · cases hnil.symm.trans hrest
  · obtain ⟨rfl, rfl⟩ := List.cons.inj (hrest.symm.trans hmore)
    rw [ht, hstate, hcontent] at hkind
    exact absurd hkind (Token.nextBracket_ne_content rest)

end

-- ---------------------------------------------------------------------------
-- Character entities
-- ---------------------------------------------------------------------------

namespace Text

theorem mem_of_getLast?_append {front w : Text} (hw : w ≠ []) (h : (front ++ w).getLast? = some c) : c ∈ w := by
  have hlast := List.getLast?_eq_some_getLast hw
  rw [List.getLast?_append, hlast] at h
  exact List.mem_of_getLast? (hlast.trans h)

theorem EndsWithReference.getLast?_ne {cs : Text} (h : cs.EndsWithReference start) :
    cs.getLast? ≠ some '>' := by
  obtain ⟨front, name, rfl, hname, -⟩ := h
  intro hlast
  rcases List.mem_cons.mp (mem_of_getLast?_append (List.cons_ne_nil _ _) hlast) with heq | hmem
  · exact absurd heq (by decide)
  · exact absurd (hname _ hmem) (by decide)

/-- A reference does not reach over a bracket. -/
theorem EndsWithReference.not_before {front rest : Text} (h : (front ++ rest).EndsWithReference start)
    (hfront : front = [] ∨ front.getLast? = some '>') : (front ++ rest).EndsWithReference front.size := by
  obtain ⟨front', name, hcut, hname, -⟩ := h
  refine ⟨front', name, hcut, hname, ?_⟩
  rcases List.append_eq_append_iff.mp hcut with ⟨more, rfl, -⟩ | ⟨_ | ⟨x, more⟩, rfl, hmore⟩
  · simp
  · simp
  · rcases hfront with hnil | hlast
    · simp at hnil
    · obtain ⟨rfl, rfl⟩ := List.cons.inj hmore
      have hshorter : (front' ++ '&' :: more).EndsWithReference 0 :=
        ⟨front', more, rfl, fun c hc => hname c (List.mem_append_left _ hc), Nat.zero_le _⟩
      exact absurd hlast hshorter.getLast?_ne

end Text

theorem Completion.of_mem_entities {c : Completion} (h : item ∈ c.entities) :
    (c.text.upTo c.cursor).size = c.cursor ∧ (c.text.upTo c.cursor).EndsWithReference 0 := by
  have hcut := List.takeWhile_append_dropWhile (p := Char.isAlphanum) (l := (c.text.upTo c.cursor).reverse)
  simp only [entities] at h
  split at h
  · next rest hrest =>
    split at h
    · next hsize =>
      rw [Text.size_reverse] at hsize
      refine ⟨hsize, rest.reverse, ((c.text.upTo c.cursor).reverse.takeWhile Char.isAlphanum).reverse,
        ?_, ?_, Nat.zero_le _⟩
      · have hreverse := congrArg List.reverse hcut
        rw [hrest] at hreverse
        simpa using hreverse.symm
      · intro x hx
        exact List.all_eq_true.mp List.all_takeWhile x (List.mem_reverse.mp hx)
    · cases h
  · cases h

-- ---------------------------------------------------------------------------
-- Sites and their tokens
-- ---------------------------------------------------------------------------

namespace CompletionSite

/-- The site is of a kind that the token `t` can decide, after a start tag with the name `tag`. -/
def IsAt (tag : Text) (t : Placed) : CompletionSite → Prop
  | .attributeName .. => t.kind = .attributeName ∨ t.kind = .blank ∧
    ((∃ context, t.state = .tag context) ∨ ∃ context, t.state = .afterAttributeName context)
  | .attributeValue .. => t.kind = .assign ∨ t.kind = .attributeValue ∨ t.kind = .blank ∧
    t.state.predecessor? = some (.assign, .blank)
  | .afterStartTag _ named => t.kind = .tagClose ∧ named = tag ∧ tag ≠ []
  | .content => t.kind = .content
  | _ => True

theorem ofToken?_isAt (h : ofToken? text cursor tag name t back = some site)
    (hreads : Reads state t.kind t.state) : site.IsAt tag t := by
  rw [ofToken?] at h
  cases hkind : t.kind with
  | tagOpen | assign =>
    simp only [hkind, Option.ite_none_right_eq_some, Option.some.injEq] at h
    obtain ⟨-, rfl⟩ := h
    simp [IsAt, hkind]
  | endTagName =>
    simp only [hkind, Option.map_eq_some_iff] at h
    obtain ⟨slash, -, rfl⟩ := h
    trivial
  | tagClose =>
    simp only [hkind, Option.ite_none_left_eq_some, Option.some.injEq] at h
    obtain ⟨hne, rfl⟩ := h
    exact ⟨hkind, rfl, by simpa using hne⟩
  | blank =>
    simp only [hkind, ofBlank?] at h
    rw [hkind] at hreads
    cases hstate : t.state with
    | content =>
      rw [hstate] at hreads
      cases hreads with
      | nameless hin | tag hin | valueless hin | missingValue _ hin => cases hin
    | afterTagOpen | afterEndTagOpen | tag | afterAttributeName | beforeAttributeValue =>
      simp only [hstate, Option.some.injEq] at h
      subst h
      simp [IsAt, hkind, hstate, ScanState.predecessor?]
    | _ => simp [hstate] at h
  | _ =>
    simp only [hkind, Option.some.injEq] at h
    subst h
    simp [IsAt, hkind]

end CompletionSite

-- ---------------------------------------------------------------------------
-- The name of a start tag
-- ---------------------------------------------------------------------------

theorem ScanState.Reads.isInTag_of_endsTag (h : Reads state kind after) (hkind : kind.endsTag = true) :
    state.isInTag = true := by
  cases h with
  | nameless | tag | valueless | missingValue => rfl
  | _ => cases hkind

theorem filter_tagName_eq {mid rest : List Placed} (h : scan .afterTagOpen offset cs = mid ++ rest)
    (hmid : ∀ m ∈ mid, m.kind ≠ .tagOpen) :
    mid.filter (·.kind = .tagName) = (lastOf? .tagName mid).toList := by
  induction mid generalizing offset cs with
  | nil => rfl
  | cons m mid ih =>
    obtain ⟨hm, hmid⟩ := List.forall_mem_cons.mp hmid
    obtain ⟨hreads, -, tail, htail⟩ := scan_step h
    by_cases hstate : m.state = .afterTagOpen
    · have hblank : m.kind = .blank := by
        rw [hstate] at hreads
        generalize m.kind = kind at hreads
        cases hreads with
        | blankBeforeName => rfl
        | nameless hin => cases hin
      rw [hstate] at htail
      have hskip : (m :: mid).filter (·.kind = .tagName) = mid.filter (·.kind = .tagName) :=
        List.filter_cons_of_neg (by simp [hblank])
      rw [hskip, ih htail hmid, lastOf?, lastOf?, hskip]
    · have hnone : mid.filter (·.kind = .tagName) = [] := by
        refine List.filter_eq_nil_iff.mpr fun x hx => ?_
        have hmem : x ∈ (mid ++ rest).takeWhile (·.kind ≠ .tagOpen) := by
          rw [List.takeWhile_append_of_pos fun y hy => by simpa using hmid y hy]
          exact List.mem_append_left _ hx
        simpa using kind_ne_tagName_of_mem htail hstate hmem
      rw [lastOf?, List.filter_cons, hnone]
      split <;> rfl

-- ---------------------------------------------------------------------------
-- All items
-- ---------------------------------------------------------------------------

theorem slash_ne_bracket (name tag : String) : "/" ++ name ≠ "</" ++ tag ++ ">" := by
  intro h
  simpa using congrArg (·.toList.head?) h

theorem CompletionItem.Fits.of_tag {item : CompletionItem} {before : List Placed} {t : Placed}
    (hkind : item.kind = .tag)
    (hlabel : ∀ tag, item.label = "</" ++ tag ++ ">" → item.filter ≠ some item.label) :
    item.Fits text cursor before t where
  entity hentity := by simp [hkind] at hentity
  attributeName hname := by simp [hkind] at hname
  value hvalue := by simp [hkind] at hvalue
  wholeEndTag tag _ htag hfilter := absurd hfilter (hlabel tag htag)

theorem upTo_of_tagClose (hmem : t ∈ tokens text) (hclose : t.kind = .tagClose) (hlt : t.offset < cursor)
    (hle : cursor ≤ t.stop) :
    ∃ front, text.upTo cursor = front ++ ['>'] ∧ Text.size (front ++ ['>']) = cursor := by
  have hwrites := writes_of_mem_scan hmem
  rw [hclose] at hwrites
  obtain ⟨front, rest, htext, hoffset⟩ := exists_append_of_mem_tokens hmem
  have hsize : Text.size (front ++ t.lexeme) = cursor := by
    rw [← Placed.stop_eq_of_single hwrites rfl hlt hle, Text.size_append, hoffset]
    rfl
  refine ⟨front, ?_, hwrites ▸ hsize⟩
  rw [← hsize, htext, Text.upTo_size_append, hwrites]

section
variable {text : Text} {before back ts : List Placed} {t : Placed} {cursor : Nat} {e : Element}
  {above : List Element} (hchain : (Document.parse text).chainBefore cursor = .ok (e :: above))
  (hscan : scanFrom text e.start .content = .ok ts) (h : tokens text = before ++ t :: back)
  (hlt : t.offset < cursor) (hle : cursor ≤ t.stop)
include hchain hscan h hlt hle

theorem site_eq_nothing (hsilent : t.kind.isSilent = true ∨ t.kind = .blank ∧ EndTagNamed before) :
    CompletionSite.ofTokens text cursor [] [] ts = .nothing := by
  obtain ⟨_, front, -, -, hsite | hsite | ⟨hclose, -⟩⟩ := site_at hchain hscan h hlt hle
  · rw [CompletionSite.ofToken?] at hsite
    rcases hsilent with hsilent | ⟨hblank, hnamed⟩
    · cases hkind : t.kind with
      | commentOpen | comment | commentClose | script | unknown | tagSelfClose | endTagClose =>
        simpa [hkind] using hsite.symm
      | _ => simp [hkind, TokenKind.isSilent] at hsilent
    · have hreads := (reads_of_scan h).1
      rw [hnamed.finalState h, hblank] at hreads
      have hstate : t.state = .endTag := hreads.of_endTag_parts (by simp [endTagParts])
      simp [hblank, CompletionSite.ofBlank?, hstate] at hsite
  · exact hsite
  · rw [hclose] at hsilent
    simp [TokenKind.isSilent] at hsilent

theorem site_name (hsite : CompletionSite.ofTokens text cursor [] [] ts = .afterStartTag offset tag) :
    t.kind = .tagClose ∧ ∃ mid, StartTagHas before mid ∧
      (mid.filter (·.kind = .tagName)).map Placed.lexeme = [tag] := by
  obtain ⟨_, front, -, hts, hdecided | hnothing | ⟨-, hlater⟩⟩ := site_at hchain hscan h hlt hle
  · rw [hsite] at hdecided
    have hreads := (reads_of_scan h).1
    obtain ⟨hclose, rfl, hne⟩ := CompletionSite.ofToken?_isAt hdecided hreads
    rw [hclose] at hreads
    obtain ⟨outer, q, mid, rfl, hopen, hmid, rfl, -⟩ :=
      exists_startTag_found hchain hscan h hlt hle (hreads.isInTag_of_endsTag rfl)
    refine ⟨hclose, mid, ⟨outer, q, rfl, hopen, hmid⟩, ?_⟩
    have hfront : (q :: mid) ++ t :: back = front ++ t :: back := hts
    obtain rfl := List.append_cancel_right hfront
    have htag : tokens text = outer ++ q :: (mid ++ t :: back) := by simpa using h
    obtain ⟨tail, hinside⟩ := scan_tagOpen htag hopen
    have hparts : ∀ m ∈ mid, m.kind ≠ .tagOpen := fun m hm hm' => by
      have := hmid m hm
      rw [hm'] at this
      simp [startTagParts] at this
    rw [lastLexeme_cons, hopen] at hne ⊢
    rw [filter_tagName_eq hinside hparts]
    revert hne
    simp only [lastLexeme]
    cases lastOf? .tagName mid with
    | none => exact fun hne => absurd rfl hne
    | some x => exact fun _ => rfl
  · cases hsite.symm.trans hnothing
  · rcases hlater with hlater | hlater <;> cases hsite.symm.trans hlater

/-- The only items for character entities are offered in content, at a reference that it holds. -/
theorem reference_fits (hsite : CompletionSite.ofTokens text cursor [] [] ts = .content)
    {c : Completion} (htext : c.text = text) (hcursor : c.cursor = cursor) (hitem : item ∈ c.entities) :
    t.kind = .content ∧ (text.upTo cursor).size = cursor ∧
      (text.upTo cursor).EndsWithReference t.offset := by
  obtain ⟨hsize, href⟩ := c.of_mem_entities hitem
  rw [htext, hcursor] at hsize href
  have hmem : t ∈ tokens text := by rw [h]; simp
  obtain ⟨_, front, -, -, hdecided | hnothing | ⟨hclose, -⟩⟩ := site_at hchain hscan h hlt hle
  · rw [hsite] at hdecided
    have hkind : t.kind = .content := CompletionSite.ofToken?_isAt hdecided (reads_of_scan h).1
    obtain ⟨more, hmore⟩ := text.upTo_isPrefix (Nat.le_of_lt hlt)
    have hbefore : text.upTo t.offset = [] ∨ (text.upTo t.offset).getLast? = some '>' := by
      refine (getLast?_before_content h hkind).imp_left ?_
      rintro rfl
      exact upTo_offset h
    have hoffset : (text.upTo t.offset).size = t.offset := by
      rw [upTo_offset h, ← offset_eq_size h]
    rw [← hmore] at href ⊢
    have hinside := href.not_before hbefore
    rw [hoffset] at hinside
    exact ⟨hkind, hmore ▸ hsize, hinside⟩
  · cases hsite.symm.trans hnothing
  · obtain ⟨front, hfront, -⟩ := upTo_of_tagClose hmem hclose hlt hle
    refine absurd ?_ href.getLast?_ne
    rw [hfront, List.getLast?_concat]

theorem site_isAt (hcontent : CompletionSite.ofTokens text cursor [] [] ts ≠ .content) :
    ∃ tag, (CompletionSite.ofTokens text cursor [] [] ts).IsAt tag t := by
  obtain ⟨_, front, -, -, hsite | hsite | ⟨-, hsite | hsite⟩⟩ := site_at hchain hscan h hlt hle
  · exact ⟨_, CompletionSite.ofToken?_isAt hsite (reads_of_scan h).1⟩
  · exact ⟨[], hsite ▸ trivial⟩
  · exact absurd hsite hcontent
  · exact ⟨[], hsite ▸ trivial⟩

theorem offered_fits (hoffered : Completion.items ⟨Document.parse text, s, options, cursor, e, above⟩
    (CompletionSite.ofTokens text cursor [] [] ts) = .ok items) (hitem : item ∈ items) :
    item.Fits text cursor before t := by
  have hat := site_isAt hchain hscan h hlt hle
  have hoffers := Completion.offers_of_mem hoffered hitem
  generalize hsite : CompletionSite.ofTokens text cursor [] [] ts = site at hat hoffered hoffers
  cases hoffers with
  | firstTag | startTag => exact .of_tag rfl fun _ _ => by simp [Completion.startTag]
  | outerEndTag | openEndTag =>
    exact .of_tag (Completion.closing_kind ..) fun tag hlabel => by
      rw [Completion.closing_label] at hlabel
      exact absurd hlabel (slash_ne_bracket _ _)
  | endTag => exact .of_tag rfl fun tag hlabel => absurd hlabel (slash_ne_bracket _ _)
  | wholeEndTag hvoid =>
    obtain ⟨hclose, mid, hmid, hname⟩ := site_name hchain hscan h hlt hle hsite
    refine ⟨fun hkind => ?_, fun hkind => ?_, fun hkind => ?_, fun tag _ hlabel _ => ?_⟩
    · cases hkind
    · cases hkind
    · cases hkind
    · obtain rfl : String.ofList _ = tag := by
        simpa [Completion.wholeEndTag, String.append_left_inj, String.append_right_inj] using hlabel
      exact ⟨hclose, hvoid, mid, hmid, by rw [hname, String.toList_ofList]⟩
  | attributeName =>
    obtain ⟨_, hat⟩ := hat (by simp)
    refine ⟨fun hkind => ?_, fun _ => ?_, fun hkind => ?_, fun tag hkind => ?_⟩
    · cases hkind
    · exact hat.imp_right fun ⟨hblank, hstate⟩ => ⟨hblank, exists_part_before h hblank hstate⟩
    · cases hkind
    · cases hkind
  | value =>
    obtain ⟨_, hat⟩ := hat (by simp)
    refine ⟨fun hkind => ?_, fun hkind => ?_, fun _ => ?_, fun tag hkind => ?_⟩
    · cases hkind
    · cases hkind
    · refine hat.imp_right fun hat => hat.imp_right fun ⟨hblank, hstate⟩ => ⟨hblank, ?_⟩
      exact exists_opener h hblank hstate (by simp)
    · cases hkind
  | reference =>
    cases pure_eq_ok.mp hoffered
    refine ⟨fun _ => ?_, fun hkind => ?_, fun hkind => ?_, fun tag hkind => ?_⟩
    · exact reference_fits hchain hscan h hlt hle hsite rfl rfl hitem
    · cases hkind
    · cases hkind
    · cases hkind

end

/-- Wherever the cursor is in a text, completion answers, and the token that ends at the cursor or
holds it tells what can be among the items. There are none in comments and scripts, at what is
malformed, after `/>`, and where an end tag has its name. -/
theorem completions_fit {text : Text} {before back : List Placed} {t : Placed} {cursor : Nat}
    (h : tokens text = before ++ t :: back) (hlt : t.offset < cursor) (hle : cursor ≤ t.stop)
    (s : Schema) (options : CompletionOptions) :
    ∃ items, (Document.parse text).completions s options cursor = .ok items ∧
      (t.kind.isSilent = true ∨ t.kind = .blank ∧ EndTagNamed before → items = []) ∧
      ∀ item ∈ items, item.Fits text cursor before t := by
  have hsize : cursor ≤ text.size :=
    Nat.le_trans hle (stop_le_of_mem_tokens (by rw [h]; simp))
  obtain ⟨items, hitems⟩ := completions_ok hsize s options
  refine ⟨items, hitems, ?_⟩
  rcases Document.of_completions hitems with ⟨-, rfl⟩ | ⟨e, above, ts, hchain, hscan, hoffered⟩
  · exact ⟨fun _ => rfl, List.forall_mem_nil _⟩
  · refine ⟨fun hsilent => ?_, fun item => offered_fits hchain hscan h hlt hle hoffered⟩
    rw [show CompletionSite.ofTokens (Document.parse text).text cursor [] [] ts = .nothing from
      site_eq_nothing hchain hscan h hlt hle hsilent] at hoffered
    exact (pure_eq_ok.mp hoffered).symm

def referencePage : Text :=
  "<view>é&l".toList

theorem completions_fit_referencePage :
    ∃ items item, (Document.parse referencePage).completions Schema.bundled {} 10 = .ok items ∧
      item ∈ items ∧ item.kind = .entity ∧ (referencePage.upTo 10).EndsWithReference 6 := by
  have htokens : tokens referencePage = (tokens referencePage).take 3 ++
      [⟨⟨.content, ['é', '&', 'l'], none⟩, 6, .content⟩] := by decide +kernel
  obtain ⟨items, hitems, -, hfits⟩ := completions_fit htokens (show 6 < 10 by decide) (by decide) Schema.bundled {}
  have hany : ((Document.parse referencePage).completions Schema.bundled {} 10).toOption.any
      (·.any (·.kind = .entity)) = true := by decide +kernel
  rw [hitems] at hany
  obtain ⟨item, hitem, hkind⟩ := List.any_eq_true.mp hany
  have hentity : item.kind = .entity := of_decide_eq_true hkind
  exact ⟨items, item, hitems, hitem, hentity, ((hfits item hitem).entity hentity).2.2⟩

def strayAssignment : Text :=
  "<view = >".toList

/-- After it, attributes are offered as if it were not there. -/
theorem strayAssignment_offers_names :
    (tokens strayAssignment).any (fun t => t.kind = .blank ∧ t.offset = 7 ∧ t.stop = 8) = true ∧
      (strayAssignment.upTo 7).getLast? = some '=' ∧
      ((Document.parse strayAssignment).completions Schema.bundled {} 8).toOption.any
        (·.any (·.kind = .attributeName)) = true := by
  decide +kernel

end PageMarkup
