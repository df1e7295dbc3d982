import PageMarkup.Proofs.Lexemes
import PageMarkup.Proofs.PresentAttributes

/-!
# Attributes as they are read

An edit that writes a name into a start tag leaves the tokens before it as they are and moves those
after it. The tokens before give the same attributes; those after give the last of them the same value
and add the same others, whatever its name is (`StartTag.foldl_read_last`).
-/

namespace PageMarkup

open ScanState (Reads)

/-- What is written of an attribute, apart from where it is. -/
def Attribute.content (a : Attribute) : String × Option String :=
  (a.name, a.value)

-- ---------------------------------------------------------------------------
-- Reading a start tag
-- ---------------------------------------------------------------------------

theorem content_setLastValue {as as' : List Attribute} (h : as.map Attribute.content = as'.map Attribute.content)
    (value : String) :
    (setLastValue value as).map Attribute.content = (setLastValue value as').map Attribute.content := by
  rcases List.eq_nil_or_concat as with rfl | ⟨front, a, rfl⟩
  · obtain rfl : as' = [] := List.map_eq_nil_iff.mp h.symm
    rfl
  · rcases List.eq_nil_or_concat as' with rfl | ⟨front', a', rfl⟩
    · simp at h
    · simp only [List.concat_eq_append, List.map_append, List.map_singleton] at h ⊢
      obtain ⟨hfront, ha⟩ := List.append_inj' h rfl
      obtain ⟨hname, -⟩ := Prod.mk.inj (List.singleton_inj.mp ha)
      simp [setLastValue_append, hfront, Attribute.content, hname]

namespace StartTag

/-- The tokens after an attribute can only give it a value and add others. -/
theorem foldl_read_last (ts : List Placed) (value : Option String) :
    ∃ value' added, ∀ (s : StartTag) front (a : Attribute), s.attributes = front ++ [{ a with value }] →
      (ts.foldl read s).attributes = front ++ { a with value := value' } :: added := by
  induction ts generalizing value with
  | nil => exact ⟨value, [], fun s front a h => h⟩
  | cons p ts ih =>
    cases hkind : p.kind with
    | attributeName =>
      obtain ⟨value', added, hlater⟩ := ih none
      refine ⟨value, { name := String.ofList p.lexeme, offset := p.offset, value := value' } :: added, ?_⟩
      intro s front a h
      rw [List.foldl_cons, hlater (s.read p) (front ++ [{ a with value }])
        { name := String.ofList p.lexeme, offset := p.offset } (by simp [read, hkind, h])]
      simp
    | attributeValue =>
      obtain ⟨value', added, hlater⟩ := ih (some (String.ofList (unquote p.lexeme)))
      refine ⟨value', added, fun s front a h => ?_⟩
      rw [List.foldl_cons]
      exact hlater _ front a (by simp [read, hkind, h, setLastValue_append])
    | _ =>
      obtain ⟨value', added, hlater⟩ := ih value
      refine ⟨value', added, fun s front a h => ?_⟩
      rw [List.foldl_cons]
      exact hlater _ front a (by simpa [read, hkind] using h)

theorem foldl_read_name (ts : List Placed) :
    ∃ value added, ∀ (s : StartTag) (n : Placed), n.kind = .attributeName →
      (ts.foldl read (s.read n)).attributes =
        s.attributes ++ { name := String.ofList n.lexeme, offset := n.offset, value } :: added := by
  obtain ⟨value, added, hlast⟩ := foldl_read_last ts none
  refine ⟨value, added, fun s n hn => ?_⟩
  exact hlast (s.read n) s.attributes { name := String.ofList n.lexeme, offset := n.offset }
    (by simp [read, hn])

theorem foldl_read_of_scan {ts : List Placed} (h : scan state offset cs = ts)
    (hstate : state.isAtAttribute = false) :
    ∃ added, ∀ s : StartTag,
      ((ts.takeWhile (·.kind ≠ .tagOpen)).foldl read s).attributes = s.attributes ++ added := by
  induction ts generalizing state offset cs with
  | nil => exact ⟨[], fun s => by simp⟩
  | cons p ts ih =>
    obtain ⟨hreads, -, tail, htail⟩ := scan_step h
    cases hkind : p.kind with
    | tagOpen => exact ⟨[], fun s => by simp [hkind]⟩
    | attributeName =>
      obtain ⟨value, added, hname⟩ := foldl_read_name (ts.takeWhile (·.kind ≠ .tagOpen))
      refine ⟨{ name := String.ofList p.lexeme, offset := p.offset, value } :: added, fun s => ?_⟩
      rw [List.takeWhile_cons_of_pos (by simp [hkind]), List.foldl_cons, hname s p hkind]
    | attributeValue =>
      rw [hkind] at hreads
      generalize p.state = after at hreads
      cases hreads with
      | nameless hin | tag hin | valueless hin | missingValue _ hin => cases hin
      | value => cases hstate
    | _ =>
      obtain ⟨added, hlater⟩ := ih htail (hreads.isAtAttribute_eq_false hstate (by simp [hkind]))
      refine ⟨added, fun s => ?_⟩
      rw [List.takeWhile_cons_of_pos (by simp [hkind]), List.foldl_cons, hlater]
      simp [read, hkind]

theorem read_blank (s : StartTag) {p : Placed} (h : p.kind = .blank) : s.read p = s := by
  simp [read, h]

theorem foldl_read_blanks (s : StartTag) {ts : List Placed} (h : ∀ p ∈ ts, p.kind = .blank) :
    ts.foldl read s = s := by
  induction ts with
  | nil => rfl
  | cons p ts ih =>
    obtain ⟨hp, hts⟩ := List.forall_mem_cons.mp h
    rw [List.foldl_cons, read_blank s hp, ih hts]

theorem content_foldl_read {ts ts' : List Placed} {s s' : StartTag}
    (h : ts.map Placed.token = ts'.map Placed.token)
    (hs : s.attributes.map Attribute.content = s'.attributes.map Attribute.content) :
    (ts.foldl read s).attributes.map Attribute.content =
      (ts'.foldl read s').attributes.map Attribute.content := by
  induction ts generalizing ts' s s' with
  | nil =>
    obtain rfl : ts' = [] := List.map_eq_nil_iff.mp h.symm
    exact hs
  | cons p ts ih =>
    obtain ⟨q, ts', rfl, htoken, hts⟩ := List.map_eq_cons_iff.mp h.symm
    rw [List.foldl_cons, List.foldl_cons]
    refine ih hts.symm ?_
    simp only [read, Placed.kind, Placed.lexeme, htoken]
    cases p.token.kind with
    | attributeName => simp [hs, Attribute.content]
    | attributeValue => exact content_setLastValue hs _
    | _ => exact hs

end StartTag

-- ---------------------------------------------------------------------------
-- Reading a name
-- ---------------------------------------------------------------------------

theorem Text.exists_cons_of_not_stops {p : Char → Bool} {cs : Text} (h : ¬ cs.Stops p) :
    ∃ d more, cs = d :: more ∧ p d = true := by
  cases cs with
  | nil => exact absurd (by simp [Text.Stops]) h
  | cons d more => exact ⟨d, more, rfl, by simpa [Text.Stops] using h⟩

theorem Text.stops_dropWhile (p : Char → Bool) (cs : Text) : Text.Stops p (cs.dropWhile p) := by
  intro c hc
  have hhead := List.head?_dropWhile_not p cs
  rw [Option.mem_def.mp hc] at hhead
  simpa using hhead

namespace Token

theorem exists_afterPart_of_attributeName (h : (next state c cs).token.kind = .attributeName) :
    ∃ raw, AfterPart raw true state := by
  have hreads := next_reads state c cs
  rw [h] at hreads
  generalize (next state c cs).state = after at hreads
  cases hreads with
  | @tag context _ _ hin =>
    obtain ⟨raw, blank⟩ := context
    cases hin with
    | attributeName hblank =>
      obtain rfl : blank = true := hblank
      exact ⟨raw, .tag⟩
  | @valueless context _ _ hin =>
    obtain ⟨raw, blank⟩ := context
    cases hin with
    | attributeName hblank =>
      obtain rfl : blank = true := hblank
      exact ⟨raw, .attributeName⟩
  | nameless hin | missingValue _ hin =>
    cases hin with
    | attributeName hblank => cases hblank

/-- After a blank, an unexpected character stays one unless the end of the tag comes after it. -/
theorem AfterPart.next_unknown (h : AfterPart raw true state) (hkind : (next state c cs).token.kind = .unknown)
    (hcs : c = '/' → cs'.head? = some '>' → cs.head? = some '>') :
    isBlank c = false ∧
      next state c cs' = ⟨⟨.unknown, [c], some .unexpectedInTag⟩, .tag ⟨raw, true⟩, cs'⟩ := by
  have hin (hkind : (nextInTag ⟨raw, true⟩ c cs).token.kind = .unknown) : isBlank c = false ∧
      nextInTag ⟨raw, true⟩ c cs' = ⟨⟨.unknown, [c], some .unexpectedInTag⟩, .tag ⟨raw, true⟩, cs'⟩ := by
    simp only [nextInTag] at hkind ⊢
    split at hkind
    · cases hkind
    · next hblank =>
      split at hkind
      · cases hkind
      · next hname =>
        refine ⟨Bool.of_not_eq_true hblank, ?_⟩
        rw [if_neg hblank, if_neg hname]
        split
        · obtain ⟨tail, rfl⟩ := List.head?_eq_some_iff.mp (hcs rfl rfl)
          cases hkind
        · cases hkind
        · rfl
  cases h with
  | tag => exact hin hkind
  | attributeName =>
    simp only [next, nextAfterAttributeName] at hkind ⊢
    split at hkind
    · cases hkind
    · split at hkind
      · cases hkind
      · next hblank hassign =>
        rw [if_neg hblank, if_neg hassign]
        exact hin hkind

theorem exists_afterPart_of_blank
    (hstate : (∃ context, state = .tag context) ∨ ∃ context, state = .afterAttributeName context)
    (hb : isBlank b = true) :
    ∃ raw after, AfterPart raw true after ∧ ∀ cs, next state b cs = Step.run .blank isBlank b cs after := by
  rcases hstate with ⟨⟨raw, blank⟩, rfl⟩ | ⟨⟨raw, blank⟩, rfl⟩
  · refine ⟨raw, _, .tag, fun cs => ?_⟩
    simp only [next, nextInTag, hb, ↓reduceIte]
  · refine ⟨raw, _, .attributeName, fun cs => ?_⟩
    simp only [next, nextAfterAttributeName, hb, ↓reduceIte]

end Token

theorem Token.AfterPart.next_name (h : AfterPart raw true state) (hc : isAttributeNameChar c = true) (cs : Text) :
    next state c cs =
      ⟨⟨.attributeName, c :: cs.takeWhile isAttributeNameChar, none⟩, .afterAttributeName ⟨raw, false⟩,
        cs.dropWhile isAttributeNameChar⟩ := by
  have hassign : c ≠ '=' := by
    rintro rfl
    cases hc
  have hrun : ∀ d ∈ cs.takeWhile isAttributeNameChar, isAttributeNameChar d = true :=
    List.all_eq_true.mp List.all_takeWhile
  have hnext := h.next_attributeName hc hassign hrun (Text.stops_dropWhile isAttributeNameChar cs)
  rwa [List.takeWhile_append_dropWhile] at hnext

theorem Token.not_afterPart_bodyState (raw : RawText) : ¬ AfterPart raw' blank (bodyState raw) := by
  cases raw <;> rintro ⟨⟩

theorem Token.AfterPart.of_next (h : AfterPart raw true (next state c cs).state) :
    (next state c cs).token.kind = .blank ∧
        ((∃ context, state = .tag context) ∨ ∃ context, state = .afterAttributeName context) ∨
      (∃ raw, AfterPart raw true state) ∧ (next state c cs).token.kind = .unknown := by
  by_cases hblank : (next state c cs).token.kind = .blank
  · refine .inl ⟨hblank, state_of_next_blank hblank ?_⟩
    generalize (next state c cs).state = after at h ⊢
    cases h with
    | tag => exact .inl ⟨_, rfl⟩
    | attributeName => exact .inr ⟨_, rfl⟩
  by_cases hname : (next state c cs).token.kind = .tagName
  · rw [(next_tagName hname).2] at h
    cases h
  have hreads := next_reads state c cs
  generalize (next state c cs).token.kind = kind at hblank hname hreads ⊢
  generalize (next state c cs).state = after at h hreads
  refine .inr ?_
  cases hreads with
  | tagName => exact absurd rfl hname
  | blankAfterName => exact absurd rfl hblank
  | nameless hin | missingValue _ hin =>
    cases hin with
    | blank => exact absurd rfl hblank
    | close => exact absurd h (not_afterPart_bodyState _)
    | _ => cases h
  | tag hin =>
    cases hin with
    | blank => exact absurd rfl hblank
    | close => exact absurd h (not_afterPart_bodyState _)
    | unexpected => exact ⟨⟨raw, h⟩, rfl⟩
    | _ => cases h
  | valueless hin =>
    cases hin with
    | blank => exact absurd rfl hblank
    | close => exact absurd h (not_afterPart_bodyState _)
    | unexpected =>
      cases h
      exact ⟨⟨raw, .attributeName⟩, rfl⟩
    | _ => cases h
  | _ => cases h

section
variable {text : Text} {before back : List Placed} {t : Placed} (h : tokens text = before ++ t :: back)
  (hkind : t.kind = .attributeName)
include h hkind

theorem exists_afterPart_around_name : ∃ raw, Token.AfterPart raw true (finalState .content before) ∧
    t.state = .afterAttributeName ⟨raw, false⟩ ∧
    (text.onward t.stop).Stops Token.isAttributeNameChar := by
  obtain ⟨c, cs, htoken, hstate, honward, -⟩ := exists_next_onward h
  have hname : (Token.next (finalState .content before) c cs).token.kind = .attributeName := by
    rw [← htoken]
    exact hkind
  obtain ⟨raw, hpart⟩ := Token.exists_afterPart_of_attributeName hname
  have hwrites := (Token.next_shaped (finalState .content before) c cs).writes
  rw [hname] at hwrites
  have hc : Token.isAttributeNameChar c = true :=
    hwrites c (List.mem_of_mem_head? (Token.next_lexeme_head? (finalState .content before) c cs))
  rw [hpart.next_name hc] at hstate honward
  refine ⟨raw, hpart, hstate, ?_⟩
  rw [honward]
  exact Text.stops_dropWhile Token.isAttributeNameChar cs

/-- The name of an attribute follows on blanks, with only unexpected characters between. -/
theorem exists_blank_before_name :
    ∃ front b us, before = front ++ b :: us ∧ (∀ u ∈ us, u.kind = .unknown) ∧ b.kind = .blank ∧
      ((∃ context, finalState .content front = .tag context) ∨
        ∃ context, finalState .content front = .afterAttributeName context) := by
  obtain ⟨front, b, us, hbefore, hb, hus⟩ := exists_entry (fun state => ∃ raw, Token.AfterPart raw true state)
    (fun state b => b.kind = .blank ∧
      ((∃ context, state = .tag context) ∨ ∃ context, state = .afterAttributeName context))
    (fun u => u.kind = .unknown) (by rintro state c cs ⟨raw, hpart⟩; exact hpart.of_next)
    (by rintro ⟨raw, ⟨⟩⟩) h (by obtain ⟨raw, hpart, -⟩ := exists_afterPart_around_name h hkind; exact ⟨raw, hpart⟩)
  exact ⟨front, b, us, hbefore, hus, hb⟩

end

theorem scan_unknown {state : ScanState} {us rest : List Placed} {v : Text}
    (hstate : Token.AfterPart raw true state) (h : scan state offset (us.flatMap Placed.lexeme ++ v) = us ++ rest)
    (hus : ∀ u ∈ us, u.kind = .unknown) {w : Text} (hw : ¬ w.Stops Token.isAttributeNameChar) :
    Text.Stops isBlank (us.flatMap Placed.lexeme ++ w) ∧
      scan state offset (us.flatMap Placed.lexeme ++ w) =
        us ++ scan (finalState state us) (offset + Text.size (us.flatMap Placed.lexeme)) w := by
  obtain ⟨d, more, rfl, hd⟩ := Text.exists_cons_of_not_stops hw
  induction us generalizing state offset with
  | nil => exact ⟨Text.stops_cons (isBlank_of_isAttributeNameChar hd), rfl⟩
  | cons u us ih =>
    obtain ⟨hu, hlater⟩ := List.forall_mem_cons.mp hus
    obtain ⟨c, tail, htext, hstep, hrest⟩ := scan_eq_cons h
    have hkind : (Token.next state c tail).token.kind = .unknown := by
      rw [hstep] at hu
      exact hu
    obtain ⟨hblank, hnext⟩ := hstate.next_unknown hkind (fun _ hclose => hclose)
    rw [hnext] at hstep hrest
    have hlexeme : u.lexeme = [c] := by rw [hstep]; rfl
    have hafter : u.state = .tag ⟨raw, true⟩ := by rw [hstep]
    rw [List.flatMap_cons, hlexeme, List.append_assoc] at htext
    obtain rfl : us.flatMap Placed.lexeme ++ v = tail := (List.cons.inj htext).2
    rw [hafter] at hrest
    obtain ⟨-, hscan⟩ := ih .tag hrest.symm hlater
    have hnew : c = '/' → (us.flatMap Placed.lexeme ++ d :: more).head? = some '>' →
        (us.flatMap Placed.lexeme ++ v).head? = some '>' := by
      intro _ hclose
      cases hchars : us.flatMap Placed.lexeme with
      | nil =>
        rw [hchars] at hclose
        cases hclose
        cases hd
      | cons x xs =>
        rw [hchars] at hclose
        exact hclose
    have hsize : offset + Text.size ((u :: us).flatMap Placed.lexeme) =
        u.stop + Text.size (us.flatMap Placed.lexeme) := by
      rw [List.flatMap_cons, Text.size_append, ← Nat.add_assoc, hstep]
      rfl
    rw [hsize, finalState_cons, hafter, List.flatMap_cons, hlexeme, List.append_assoc, List.singleton_append,
      scan_cons, (hstate.next_unknown hkind hnew).2, List.cons_append, ← hscan, hstep]
    exact ⟨Text.stops_cons hblank, rfl⟩

/-- Blanks in a start tag can be made shorter or longer, and something else may follow. The tokens before
them stay as they are. -/
theorem tokens_replace_blank {text : Text} {front rest : List Placed} {b : Placed}
    (h : tokens text = front ++ b :: rest) (hb : b.kind = .blank)
    (hstate : (∃ context, finalState .content front = .tag context) ∨
      ∃ context, finalState .content front = .afterAttributeName context) :
    ∃ raw q blanks, Token.AfterPart raw true b.state ∧ b.token = ⟨.blank, q :: blanks, none⟩ ∧
      (∀ x ∈ blanks, isBlank x = true) ∧
      ∀ xs w, (∀ x ∈ xs, isBlank x = true) → w.Stops isBlank →
        tokens (front.flatMap Placed.lexeme ++ q :: xs ++ w) =
          front ++ ⟨⟨.blank, q :: xs, none⟩, b.offset, b.state⟩ ::
            scan b.state (b.offset + Text.size (q :: xs)) w := by
  obtain ⟨tail, htext, hscan⟩ := exists_scan_onward h
  obtain ⟨q, tl, rfl, hstep, -⟩ := scan_eq_cons hscan.symm
  have hq : isBlank q = true := by
    have hwrites := writes_of_mem_scan (show b ∈ tokens text by rw [h]; simp)
    rw [hb, hstep] at hwrites
    exact hwrites q (List.mem_of_mem_head? (Token.next_lexeme_head? (finalState .content front) q tl))
  obtain ⟨raw, after, hafter, hnext⟩ := Token.exists_afterPart_of_blank hstate hq
  rw [hnext] at hstep
  have hbstate : b.state = after := by rw [hstep]; rfl
  refine ⟨raw, q, tl.takeWhile isBlank, hbstate ▸ hafter, by rw [hstep]; rfl,
    List.all_eq_true.mp List.all_takeWhile, fun xs w hxs hw => ?_⟩
  rw [htext] at h
  have hnew := scan_delimiter (show isDelimiter q = true by simp [isDelimiter, hq]) h rfl (xs ++ w)
  rw [scan_cons, hnext, Token.stepRun_append hxs hw, Nat.zero_add, ← offset_eq_size h] at hnew
  rw [List.append_assoc, hbstate]
  exact hnew

theorem tokens_replace_name (h : tokens text = before ++ t :: back) (hkind : t.kind = .attributeName)
    {w : Text} (hw : ¬ w.Stops Token.isAttributeNameChar) :
    tokens (before.flatMap Placed.lexeme ++ w) = before ++ scan (finalState .content before) t.offset w := by
  obtain ⟨front, b, us, rfl, hus, hb, hstate⟩ := exists_blank_before_name h hkind
  have hfront : tokens text = front ++ b :: (us ++ t :: back) := by simpa using h
  obtain ⟨raw, q, blanks, hafter, htoken, hblanks, hnew⟩ := tokens_replace_blank hfront hb hstate
  obtain ⟨-, -, -, -, -, hrest⟩ := exists_next_onward hfront
  obtain ⟨v, hv, -⟩ := exists_scan_onward hrest.symm
  rw [hv] at hrest
  obtain ⟨hstops, hscan⟩ := scan_unknown hafter hrest.symm hus hw
  have hb : (⟨⟨.blank, q :: blanks, none⟩, b.offset, b.state⟩ : Placed) = b := by rw [← htoken]
  have hstop : b.offset + Text.size (q :: blanks) = b.stop := by rw [Placed.stop, Token.size, htoken]
  have hoffset : t.offset = b.stop + Text.size (us.flatMap Placed.lexeme) := by
    rw [offset_eq_size h, stop_eq_size hfront]
    simp [Text.size_append, Nat.add_assoc]
  have hcut : (front ++ b :: us).flatMap Placed.lexeme ++ w =
      front.flatMap Placed.lexeme ++ q :: blanks ++ (us.flatMap Placed.lexeme ++ w) := by
    simp [Placed.lexeme, htoken]
  rw [hcut, hnew blanks _ hblanks hstops, hb, hstop, hscan, ← hoffset,
    finalState_append _ _ (List.cons_ne_nil _ _), finalState_cons]
  simp

end PageMarkup
