import PageMarkup.Proofs.TokenGrammar

/-!
# Scanning in chunks

A text that is cut after one of its tokens can be scanned in two goes, the second one in the state
which the first one left. Reading a token looks ahead of it only to find out where it ends, so what
is cut off does not matter (`next_append`). The exceptions are comments and raw bodies, which end
before something that has to be there in full, and the `</` that ends a raw body.
-/

namespace PageMarkup

namespace Text

theorem takeWhile_append_of_length_le {p : Char → Bool} {cs b : Text}
    (h : ((cs ++ b).takeWhile p).length ≤ cs.length) :
    (cs ++ b).takeWhile p = cs.takeWhile p ∧ (cs ++ b).dropWhile p = cs.dropWhile p ++ b := by
  induction cs with
  | nil =>
    have hnone : b.takeWhile p = [] := List.length_eq_zero_iff.mp (Nat.le_zero.mp h)
    have hcut := List.takeWhile_append_dropWhile (p := p) (l := b)
    rw [hnone, List.nil_append] at hcut
    exact ⟨hnone, hcut⟩
  | cons c cs ih =>
    by_cases hc : p c = true
    · simp only [List.cons_append, List.takeWhile_cons_of_pos hc, List.length_cons,
        Nat.add_le_add_iff_right] at h
      simp [hc, ih h]
    · simp [hc]

theorem length_le_of_startsWithFolded {word cs : Text} (h : startsWithFolded word cs = true) :
    word.length ≤ cs.length := by
  have hlength := congrArg List.length (of_decide_eq_true h)
  simp only [fold, List.length_map, List.length_take] at hlength
  omega

theorem startsWithFolded_append {word cs : Text} (h : word.length ≤ cs.length) (b : Text) :
    startsWithFolded word (cs ++ b) = startsWithFolded word cs := by
  rw [startsWithFolded, startsWithFolded, List.take_append_of_le_length h]

theorem startsWithFolded_append_of {word cs : Text} (h : startsWithFolded word cs = true) (b : Text) :
    startsWithFolded word (cs ++ b) = true := by
  rw [startsWithFolded_append (length_le_of_startsWithFolded h), h]

end Text

namespace Token

def Step.append (s : Step) (b : Text) : Step :=
  { s with rest := s.rest ++ b }

def Step.FitsIn (s : Step) (c : Char) (cs : Text) : Prop :=
  s.token.lexeme.length ≤ (c :: cs).length

variable {c : Char} {cs b : Text}

theorem Step.run_append {kind : TokenKind} {p : Char → Bool} {state : ScanState} {fault : Option Fault}
    (h : (Step.run kind p c (cs ++ b) state fault).FitsIn c cs) :
    Step.run kind p c (cs ++ b) state fault = (Step.run kind p c cs state fault).append b := by
  obtain ⟨htake, hdrop⟩ := Text.takeWhile_append_of_length_le (Nat.le_of_succ_le_succ h)
  simp [Step.run, Step.append, htake, hdrop]

theorem Step.ite_append [Decidable P] {x y x' y' : Step} (h : (if P then x else y).FitsIn c cs)
    (hx : x.FitsIn c cs → x = x'.append b) (hy : y.FitsIn c cs → y = y'.append b) :
    (if P then x else y) = (if P then x' else y').append b := by
  split at h
  · next hP => rw [if_pos hP, if_pos hP, hx h]
  · next hP => rw [if_neg hP, if_neg hP, hy h]

theorem nextBracket_eq_ite (hcomment : ∀ tail, cs ≠ '!' :: '-' :: '-' :: tail)
    (hend : ∀ tail, cs ≠ '/' :: tail) :
    nextBracket cs =
      if Text.startsWithFolded "!doctype".toList cs then
        ⟨⟨.unknown, '<' :: cs.take 8, none⟩, .doctype, cs.drop 8⟩
      else ⟨⟨.tagOpen, ['<'], none⟩, .afterTagOpen, cs⟩ := by
  unfold nextBracket
  split
  · exact absurd rfl (hcomment _)
  · exact absurd rfl (hend _)
  · rfl

theorem nextBracket_append (h : (nextBracket (cs ++ b)).FitsIn '<' cs) :
    nextBracket (cs ++ b) = (nextBracket cs).append b := by
  by_cases hcomment : ∃ tail, cs ++ b = '!' :: '-' :: '-' :: tail
  · obtain ⟨tail, heq⟩ := hcomment
    rw [heq] at h
    rcases cs with _ | ⟨x, _ | ⟨y, _ | ⟨z, cs⟩⟩⟩
    · simp [nextBracket, Step.FitsIn] at h
    · simp [nextBracket, Step.FitsIn] at h
    · simp [nextBracket, Step.FitsIn] at h
    · obtain ⟨rfl, rfl, rfl, rfl⟩ := by simpa using heq
      rfl
  by_cases hend : ∃ tail, cs ++ b = '/' :: tail
  · obtain ⟨tail, heq⟩ := hend
    rw [heq] at h
    cases cs with
    | nil => simp [nextBracket, Step.FitsIn] at h
    | cons x cs =>
      obtain ⟨rfl, rfl⟩ := by simpa using heq
      rfl
  have hwhole := nextBracket_eq_ite (fun tail heq => hcomment ⟨tail, heq⟩) fun tail heq => hend ⟨tail, heq⟩
  have hchunk : nextBracket cs = _ := nextBracket_eq_ite
    (fun tail heq => hcomment ⟨tail ++ b, by rw [heq]; rfl⟩)
    fun tail heq => hend ⟨tail ++ b, by rw [heq]; rfl⟩
  rw [hwhole] at h
  rw [hwhole, hchunk]
  by_cases hdoctype : Text.startsWithFolded "!doctype".toList (cs ++ b) = true
  · have hlength : 8 ≤ cs.length := by
      have hword : 8 ≤ (cs ++ b).length := Text.length_le_of_startsWithFolded hdoctype
      simp only [hdoctype, ↓reduceIte, Step.FitsIn, List.length_cons, List.length_take] at h
      omega
    have hword : "!doctype".toList.length ≤ cs.length := hlength
    have hsame : Text.startsWithFolded "!doctype".toList cs = true :=
      (Text.startsWithFolded_append hword b).symm.trans hdoctype
    rw [if_pos hdoctype, if_pos hsame, List.take_append_of_le_length hlength,
      List.drop_append_of_le_length hlength]
    rfl
  · have hsame : ¬ Text.startsWithFolded "!doctype".toList cs = true := fun hstarts =>
      hdoctype (Text.startsWithFolded_append_of hstarts b)
    rw [if_neg hdoctype, if_neg hsame]
    rfl

theorem nextContent_append (h : (nextContent c (cs ++ b)).FitsIn c cs) :
    nextContent c (cs ++ b) = (nextContent c cs).append b := by
  unfold nextContent at h ⊢
  by_cases hc : c = '<'
  · subst hc
    exact Step.ite_append h nextBracket_append Step.run_append
  · rw [if_neg hc] at h
    rw [if_neg hc, if_neg hc]
    exact Step.run_append h

theorem nextDoctype_append (h : (nextDoctype c (cs ++ b)).FitsIn c cs) :
    nextDoctype c (cs ++ b) = (nextDoctype c cs).append b :=
  Step.ite_append h (fun _ => rfl) Step.run_append

theorem nextEndTag_append (h : (nextEndTag c (cs ++ b)).FitsIn c cs) :
    nextEndTag c (cs ++ b) = (nextEndTag c cs).append b := by
  refine Step.ite_append h Step.run_append fun h => ?_
  exact Step.ite_append h (fun _ => rfl) fun _ => rfl

theorem nextEndTagName_append (h : (nextEndTagName c (cs ++ b)).FitsIn c cs) :
    nextEndTagName c (cs ++ b) = (nextEndTagName c cs).append b := by
  refine Step.ite_append h Step.run_append fun h => ?_
  refine Step.ite_append h Step.run_append fun h => ?_
  exact Step.ite_append h nextEndTag_append Step.run_append

theorem nextInTag_append {context : TagContext} (h : (nextInTag context c (cs ++ b)).FitsIn c cs) :
    nextInTag context c (cs ++ b) = (nextInTag context c cs).append b := by
  refine Step.ite_append h Step.run_append fun h => ?_
  refine Step.ite_append h Step.run_append fun hfits => ?_
  clear h
  revert hfits
  split
  · next tail heq =>
    match cs, heq with
    | x :: cs, heq =>
      obtain ⟨rfl, rfl⟩ := by simpa using heq
      exact fun _ => rfl
    | [], _ => simp [Step.FitsIn]
  · exact fun _ => rfl
  · next hclose hself =>
    intro _
    split
    · exact (hself _ rfl rfl).elim
    · exact (hclose rfl).elim
    · rfl

theorem nextTagName_append (h : (nextTagName c (cs ++ b)).FitsIn c cs) :
    nextTagName c (cs ++ b) = (nextTagName c cs).append b := by
  refine Step.ite_append h (fun h => ?_) fun h => ?_
  · have hname := (Text.takeWhile_append_of_length_le (Nat.le_of_succ_le_succ h)).1
    rw [hname] at h ⊢
    exact Step.run_append h
  · exact Step.ite_append h Step.run_append nextInTag_append

theorem nextAfterAttributeName_append {context : TagContext}
    (h : (nextAfterAttributeName context c (cs ++ b)).FitsIn c cs) :
    nextAfterAttributeName context c (cs ++ b) = (nextAfterAttributeName context c cs).append b := by
  refine Step.ite_append h Step.run_append fun h => ?_
  exact Step.ite_append h (fun _ => rfl) nextInTag_append

theorem nextQuoted_append {context : TagContext} (h : (nextQuoted context c (cs ++ b)).FitsIn c cs) :
    nextQuoted context c (cs ++ b) = (nextQuoted context c cs).append b := by
  have hlong := h
  unfold nextQuoted at hlong
  split at hlong
  · have hb : b = [] := by
      simp only [Step.FitsIn, List.length_cons, List.length_append] at hlong
      exact List.length_eq_zero_iff.mp (by omega)
    simp [hb, Step.append]
  · next close tail heq =>
    simp only [Step.FitsIn, List.cons_append, List.length_cons, List.length_append,
      List.length_nil] at hlong
    have hlength : ((cs ++ b).takeWhile (· ≠ c)).length ≤ cs.length := by omega
    obtain ⟨htake, hdrop⟩ := Text.takeWhile_append_of_length_le hlength
    rw [htake] at hlong
    match hcs : cs.dropWhile (· ≠ c) with
    | [] =>
      have hall := List.takeWhile_append_dropWhile (p := (· ≠ c)) (l := cs)
      rw [hcs, List.append_nil] at hall
      rw [hall] at hlong
      omega
    | close' :: tail' =>
      rw [nextQuoted, nextQuoted, hdrop, htake, hcs]
      rfl

theorem nextValue_append {context : TagContext} (h : (nextValue context c (cs ++ b)).FitsIn c cs) :
    nextValue context c (cs ++ b) = (nextValue context c cs).append b := by
  refine Step.ite_append h Step.run_append fun h => ?_
  refine Step.ite_append h Step.run_append fun h => ?_
  exact Step.ite_append h nextQuoted_append nextInTag_append

-- ---------------------------------------------------------------------------
-- Comments and raw bodies
-- ---------------------------------------------------------------------------

theorem breakAt_append {p : Text → Bool} {a body : Text} (hp : ∀ d : Text, p d = true → p (d ++ b) = true)
    (h : Text.breakAt p (cs ++ b) = (body, a ++ b)) (ha : a = [] ∨ p a = true) :
    Text.breakAt p cs = (body, a) := by
  induction cs generalizing body with
  | nil =>
    have hcut := Text.breakAt_append p ([] ++ b)
    rw [h, List.nil_append, ← List.append_assoc] at hcut
    obtain ⟨rfl, rfl⟩ := List.append_eq_nil_iff.mp (List.append_left_eq_self.mp hcut)
    rfl
  | cons c cs ih =>
    rw [List.cons_append, Text.breakAt] at h
    rw [Text.breakAt]
    split at h
    · obtain ⟨rfl, hrest⟩ := Prod.ext_iff.mp h
      obtain rfl : c :: cs = a := List.append_cancel_right hrest
      rw [if_pos (ha.resolve_left (List.cons_ne_nil c cs))]
    · next hnot =>
      obtain ⟨rfl, hrest⟩ := Prod.ext_iff.mp h
      rw [if_neg fun hstarts => hnot (hp _ hstarts), ih (Prod.ext rfl hrest)]

theorem isPrefixOf_append {word : Text} (h : word.isPrefixOf cs = true) :
    word.isPrefixOf (cs ++ b) = true := by
  rw [List.isPrefixOf_iff_prefix] at h ⊢
  exact h.trans (List.prefix_append cs b)

theorem nextComment_eq (h : ∀ tail, c = '-' → cs ≠ '-' :: '>' :: tail) :
    nextComment c cs =
      ⟨⟨.comment, c :: (Text.breakAt (['-', '-', '>'].isPrefixOf ·) cs).1, none⟩, .comment,
        (Text.breakAt (['-', '-', '>'].isPrefixOf ·) cs).2⟩ := by
  unfold nextComment
  split
  · exact absurd rfl (h _ rfl)
  · rfl

theorem nextComment_append {a : Text} (h : (nextComment c (cs ++ b)).FitsIn c cs)
    (hrest : (nextComment c (cs ++ b)).rest = a ++ b)
    (ha : (nextComment c (cs ++ b)).token.kind = .comment →
      a = [] ∨ ['-', '-', '>'].isPrefixOf a = true) :
    nextComment c (cs ++ b) = (nextComment c cs).append b := by
  by_cases hclose : c = '-' ∧ ∃ tail, cs ++ b = '-' :: '>' :: tail
  · obtain ⟨rfl, tail, heq⟩ := hclose
    rw [heq] at h
    match cs, h with
    | x :: y :: cs, _ =>
      obtain ⟨rfl, rfl, rfl⟩ := by simpa using heq
      rfl
    | [], h | [_], h => simp [nextComment, Step.FitsIn] at h
  · have hwhole := nextComment_eq fun tail hc heq => hclose ⟨hc, tail, heq⟩
    have hchunk : nextComment c cs = _ :=
      nextComment_eq fun tail hc heq => hclose ⟨hc, tail ++ b, by rw [heq]; rfl⟩
    rw [hwhole] at hrest ha ⊢
    rw [hchunk, breakAt_append (fun _ => isPrefixOf_append) (Prod.ext rfl hrest) (ha rfl)]
    exact congrArg (Step.mk _ _) hrest

theorem startsEndTag_append_of (h : startsEndTag name cs = true) : startsEndTag name (cs ++ b) = true :=
  Text.startsWithFolded_append_of h b

theorem ne_nil_of_startsEndTag (h : startsEndTag name cs = true) : cs ≠ [] := by
  obtain ⟨tail, rfl⟩ := startsEndTag_eq h
  exact List.cons_ne_nil _ _

theorem nextRaw_eq {kind : TokenKind} (h : ¬ startsEndTag name (c :: cs) = true) :
    nextRaw name kind state c cs =
      ⟨⟨kind, c :: (Text.breakAt (startsEndTag name) cs).1, none⟩,
        if (Text.breakAt (startsEndTag name) cs).2 = [] then state else .content,
        (Text.breakAt (startsEndTag name) cs).2⟩ := by
  rw [nextRaw, if_neg h]
  split
  · next heq => simp [heq]
  · next hne heq => simp [heq, show _ ≠ [] from hne]

end Token

-- ---------------------------------------------------------------------------
-- One token
-- ---------------------------------------------------------------------------

/-- The step `t` does on a chunk what `s` does on the text that goes on with `b`. At the end of the
chunk it may leave another state, in which `b` gives the same tokens. -/
structure Token.Step.Chunk (s t : Token.Step) (b : Text) : Prop where
  token : s.token = t.token
  rest : s.rest = t.rest ++ b
  state : s.state = t.state ∨ t.rest = [] ∧ ∀ offset, scan s.state offset b = scan t.state offset b

theorem Token.Step.Chunk.of_append {s t : Token.Step} (h : s = t.append b) : s.Chunk t b := by
  subst h
  exact ⟨rfl, rfl, .inl rfl⟩

section
variable {state : ScanState} {offset : Nat} {c : Char} {a b cs name : Text} {kind : TokenKind}
  {before rest : List Placed} {p : Placed}

theorem scan_raw_of_startsEndTag
    (hraw : ∀ c cs, Token.next state c cs = Token.nextRaw name kind state c cs)
    (h : Token.startsEndTag name cs = true) (offset : Nat) :
    scan state offset cs = scan .content offset cs := by
  obtain ⟨tail, rfl⟩ := Token.startsEndTag_eq h
  rw [scan_cons, scan_cons, hraw, Token.nextRaw, if_pos h]
  rfl

theorem nextRaw_chunk (hraw : ∀ c cs, Token.next state c cs = Token.nextRaw name kind state c cs)
    (hfits : (Token.nextRaw name kind state c (cs ++ b)).FitsIn c cs)
    (hrest : (Token.nextRaw name kind state c (cs ++ b)).rest = a ++ b)
    (hends : Token.startsEndTag name (c :: (cs ++ b)) = true → Token.startsEndTag name (c :: cs) = true)
    (ha : (Token.nextRaw name kind state c (cs ++ b)).state = .content →
      Token.startsEndTag name (a ++ b) = true → a = [] ∨ Token.startsEndTag name a = true) :
    (Token.nextRaw name kind state c (cs ++ b)).Chunk (Token.nextRaw name kind state c cs) b := by
  by_cases hstarts : Token.startsEndTag name (c :: (cs ++ b)) = true
  · refine .of_append ?_
    rw [Token.nextRaw, if_pos hstarts] at hfits ⊢
    rw [Token.nextRaw, if_pos (hends hstarts)]
    exact Token.nextContent_append hfits
  · have hsame : ¬ Token.startsEndTag name (c :: cs) = true := fun hchunk =>
      hstarts (Token.startsEndTag_append_of (b := b) hchunk)
    rw [Token.nextRaw_eq hstarts] at hrest ha ⊢
    simp only at hrest ha
    have hafter := Text.breakAt_snd (Token.startsEndTag name) (cs ++ b)
    rw [hrest] at hafter ha
    have ha : a = [] ∨ Token.startsEndTag name a = true := by
      rcases hafter with hnil | hstart
      · exact .inl (List.append_eq_nil_iff.mp hnil).1
      · exact ha (if_neg (Token.ne_nil_of_startsEndTag hstart)) hstart
    have hbreak := Token.breakAt_append (fun _ => Token.startsEndTag_append_of) (Prod.ext rfl hrest) ha
    rw [Token.nextRaw_eq hsame, hbreak]
    refine ⟨rfl, hrest, ?_⟩
    simp only [hrest]
    cases a with
    | nil =>
      rcases hafter with hnil | hstart
      · rw [if_pos hnil]
        exact .inl rfl
      · rw [if_neg (Token.ne_nil_of_startsEndTag hstart)]
        exact .inr ⟨rfl, fun offset => (scan_raw_of_startsEndTag hraw hstart offset).symm⟩
    | cons d a => exact .inl rfl

/-- A comment that is not over at the end of a chunk is closed inside it or after it. -/
theorem comment_closed (h : scan .comment offset (a ++ b) = before ++ rest)
    (hcut : before.flatMap Placed.lexeme = a) (hclose : ['-', '-', '>'].isPrefixOf (a ++ b) = true) :
    a = [] ∨ ['-', '-', '>'].isPrefixOf a = true := by
  cases before with
  | nil => exact .inl hcut.symm
  | cons p before =>
    obtain ⟨tail, htail⟩ := List.isPrefixOf_iff_prefix.mp hclose
    obtain ⟨c, cs, hcs, hp, -⟩ := scan_eq_cons h
    rw [← htail] at hcs
    obtain ⟨rfl, rfl⟩ := List.cons.inj hcs
    have hlexeme : p.lexeme = ['-', '-', '>'] := by
      rw [hp]
      rfl
    rw [List.flatMap_cons, hlexeme] at hcut
    exact .inr (List.isPrefixOf_iff_prefix.mpr ⟨_, hcut⟩)

theorem rawEndTag_named (hd : Token.isNameStart d = true) (hds : ∀ x ∈ ds, Token.isNameChar x = true)
    (h : scan .content offset (a ++ b) = before ++ rest) (hcut : before.flatMap Placed.lexeme = a)
    (hlast : ∀ q ∈ before.getLast?, q.kind ≠ .endTagOpen)
    (hstart : Token.startsEndTag (d :: ds) (a ++ b) = true) :
    a = [] ∨ Token.startsEndTag (d :: ds) a = true := by
  obtain ⟨q, r, tail, hscan, hq, -, hr⟩ := Token.scan_rawEndTag offset hd hds hstart
  match before with
  | [] => exact .inl hcut.symm
  | [p] =>
    obtain ⟨rfl, -⟩ := List.cons.inj (h.symm.trans hscan)
    exact absurd hq (hlast p rfl)
  | p :: p' :: before =>
    obtain ⟨rfl, hrest⟩ := List.cons.inj (h.symm.trans hscan)
    obtain ⟨rfl, -⟩ := List.cons.inj hrest
    have hlexeme : p.lexeme = ['<', '/'] := by
      have hmem : p ∈ scan .content offset (a ++ b) := by
        rw [h]
        simp
      have hwrites := writes_of_mem_scan hmem
      rw [hq] at hwrites
      exact hwrites
    have hcut : '<' :: '/' :: (p'.lexeme ++ before.flatMap Placed.lexeme) = a := by
      simpa [hlexeme] using hcut
    have hname := Text.startsWithFolded_append_of hr (before.flatMap Placed.lexeme)
    refine .inr ?_
    rw [← hcut]
    simpa [Token.startsEndTag, Text.startsWithFolded, Text.fold] using hname

theorem forall_mem_getLast?_tail {P : Placed → Prop} (h : ∀ q ∈ (p :: before).getLast?, P q) :
    ∀ q ∈ before.getLast?, P q := by
  intro q hq
  refine h q ?_
  rw [List.getLast?_cons, Option.mem_def.mp hq]
  rfl

theorem nextRaw_chunk_of_scan (hd : Token.isNameStart d = true) (hds : ∀ x ∈ ds, Token.isNameChar x = true)
    (hraw : ∀ c cs, Token.next state c cs = Token.nextRaw (d :: ds) kind state c cs)
    (h : scan state offset (c :: (cs ++ b)) = p :: (before ++ rest))
    (hcut : (p :: before).flatMap Placed.lexeme = c :: cs)
    (hlast : ∀ q ∈ (p :: before).getLast?, q.kind ≠ .endTagOpen)
    (hlater : ∀ q ∈ before.getLast?, q.kind ≠ .endTagOpen)
    (hfits : (Token.next state c (cs ++ b)).FitsIn c cs)
    (hrest : (Token.next state c (cs ++ b)).rest = before.flatMap Placed.lexeme ++ b) :
    (Token.next state c (cs ++ b)).Chunk (Token.next state c cs) b := by
  have htail := h
  rw [scan_cons, hrest] at htail
  obtain ⟨-, hbefore⟩ := List.cons.inj htail
  rw [hraw] at hfits hrest hbefore
  rw [hraw, hraw]
  refine nextRaw_chunk hraw hfits hrest (fun hstarts => ?_) fun hstate hstarts => ?_
  · have hscan := scan_raw_of_startsEndTag hraw hstarts offset
    have hwhole : scan .content offset (c :: cs ++ b) = p :: before ++ rest := hscan.symm.trans h
    exact (rawEndTag_named hd hds hwhole hcut hlast hstarts).resolve_left (List.cons_ne_nil c cs)
  · rw [hstate] at hbefore
    exact rawEndTag_named hd hds hbefore rfl hlater hstarts

section
variable (h : scan state offset (c :: (cs ++ b)) = p :: (before ++ rest))
  (hcut : (p :: before).flatMap Placed.lexeme = c :: cs)
include h hcut

theorem next_fitsIn : (Token.next state c (cs ++ b)).FitsIn c cs ∧
    (Token.next state c (cs ++ b)).rest = before.flatMap Placed.lexeme ++ b := by
  rw [scan_cons] at h
  obtain ⟨hp, -⟩ := List.cons.inj h
  have hlexeme : (Token.next state c (cs ++ b)).token.lexeme ++ before.flatMap Placed.lexeme = c :: cs := by
    rw [← hcut, List.flatMap_cons, ← hp]
    rfl
  refine ⟨?_, ?_⟩
  · rw [Token.Step.FitsIn, ← hlexeme, List.length_append]
    exact Nat.le_add_right _ _
  · have hall := Token.next_lexeme_append_rest state c (cs ++ b)
    rw [← List.cons_append, ← hlexeme, List.append_assoc] at hall
    exact List.append_cancel_left hall

/-- Outside of raw bodies, a token of a text is also the first one of any chunk that ends after a
whole number of tokens. -/
theorem next_append (hscript : state ≠ .scriptBody) (hstyle : state ≠ .styleBody) :
    Token.next state c (cs ++ b) = (Token.next state c cs).append b := by
  obtain ⟨hfits, hrest⟩ := next_fitsIn h hcut
  cases state with
  | scriptBody => exact absurd rfl hscript
  | styleBody => exact absurd rfl hstyle
  | content => exact Token.nextContent_append hfits
  | afterTagOpen => exact Token.nextTagName_append hfits
  | afterEndTagOpen => exact Token.nextEndTagName_append hfits
  | doctype => exact Token.nextDoctype_append hfits
  | tag context => exact Token.nextInTag_append hfits
  | endTag => exact Token.nextEndTag_append hfits
  | comment =>
    refine Token.nextComment_append hfits hrest fun hkind => ?_
    have hstate : (Token.next .comment c (cs ++ b)).state = .comment := by
      have hreads := Token.next_reads .comment c (cs ++ b)
      rw [show (Token.next .comment c (cs ++ b)).token.kind = .comment from hkind] at hreads
      generalize (Token.next .comment c (cs ++ b)).state = after at hreads
      cases hreads
      rfl
    rw [scan_cons] at h
    obtain ⟨-, hbefore⟩ := List.cons.inj h
    rw [hstate, hrest] at hbefore
    rcases Token.nextComment_rest hkind with hnil | ⟨tail, htail⟩
    · exact .inl (List.append_eq_nil_iff.mp (hrest.symm.trans hnil)).1
    · refine comment_closed hbefore rfl ?_
      rw [← hrest]
      exact List.isPrefixOf_iff_prefix.mpr ⟨tail, htail.symm⟩
  | afterAttributeName context => exact Token.nextAfterAttributeName_append hfits
  | beforeAttributeValue context => exact Token.nextValue_append hfits

/-- In all states, unless the chunk ends right after a `</`. -/
theorem next_chunk (hlast : ∀ q ∈ (p :: before).getLast?, q.kind ≠ .endTagOpen) :
    (Token.next state c (cs ++ b)).Chunk (Token.next state c cs) b := by
  obtain ⟨hfits, hrest⟩ := next_fitsIn h hcut
  cases state with
  | scriptBody | styleBody =>
    exact nextRaw_chunk_of_scan rfl (List.all_eq_true.mp rfl) (fun _ _ => rfl) h hcut hlast
      (forall_mem_getLast?_tail hlast) hfits hrest
  | _ => exact .of_append (next_append h hcut (by simp) (by simp))

end

end

-- ---------------------------------------------------------------------------
-- Whole scans
-- ---------------------------------------------------------------------------

/-- A token and where it is, whatever state it leaves. -/
def Placed.place (p : Placed) : Token × Nat :=
  (p.token, p.offset)

def Placed.shift (n : Nat) (p : Placed) : Placed :=
  { p with offset := n + p.offset }

theorem scan_shift (n : Nat) (state : ScanState) (offset : Nat) (cs : Text) :
    scan state (n + offset) cs = (scan state offset cs).map (Placed.shift n) := by
  fun_induction scan state offset cs with
  | case1 => rw [scan, List.map_nil]
  | case2 state offset c cs step ih =>
    rw [scan_cons, List.map_cons, ← ih, Nat.add_assoc]
    rfl

section
variable {state : ScanState} {offset : Nat} {a b : Text} {before rest : List Placed}

theorem exists_cons_of_scan {p : Placed} (h : scan state offset (a ++ b) = p :: before ++ rest)
    (hcut : (p :: before).flatMap Placed.lexeme = a) : ∃ c cs, a = c :: cs := by
  obtain ⟨c, cs, -, hp, -⟩ := scan_eq_cons h
  have hne : p.lexeme ≠ [] := by
    rw [hp]
    exact Token.next_lexeme_ne_nil state c cs
  refine List.exists_cons_of_ne_nil fun hnil => hne ?_
  rw [hnil, List.flatMap_cons] at hcut
  exact (List.append_eq_nil_iff.mp hcut).1

theorem places_append (h : scan state offset (a ++ b) = before ++ rest)
    (hcut : before.flatMap Placed.lexeme = a)
    (hlast : ∀ q ∈ before.getLast?, q.kind ≠ .endTagOpen) :
    (scan state offset (a ++ b)).map Placed.place =
      (scan state offset a).map Placed.place ++
        (scan (finalState state (scan state offset a)) (offset + a.size) b).map Placed.place := by
  induction before generalizing state offset a with
  | nil =>
    obtain rfl : [] = a := hcut
    rw [scan]
    rfl
  | cons p before ih =>
    obtain ⟨c, cs, rfl⟩ := exists_cons_of_scan h hcut
    obtain ⟨htoken, hrest, hstate⟩ := next_chunk h hcut hlast
    have hwhole := h
    rw [List.cons_append, scan_cons] at hwhole
    obtain ⟨rfl, hbefore⟩ := List.cons.inj hwhole
    rw [List.cons_append, scan_cons, scan_cons state offset c cs, List.map_cons, List.map_cons,
      finalState_cons, List.cons_append]
    have hcutRest : before.flatMap Placed.lexeme = (Token.next state c cs).rest := by
      have hparts := hcut.trans (Token.next_lexeme_append_rest state c cs).symm
      rw [← htoken] at hparts
      exact List.append_cancel_left hparts
    have hsize := Token.size_next_add_size_rest state c cs
    rw [hrest] at hbefore
    have hih := ih hbefore hcutRest (forall_mem_getLast?_tail hlast)
    rw [← hrest] at hih
    rw [hih, ← hsize, ← htoken, ← Nat.add_assoc]
    refine congrArg (((Token.next state c (cs ++ b)).token, offset) :: ·) ?_
    rcases hstate with hsame | ⟨hnil, hscan⟩
    · rw [hsame]
    · rw [hnil, scan, scan]
      exact congrArg (List.map Placed.place) (hscan _)

end

theorem Text.eq_of_append_of_size {a a' b b' : Text} (h : a ++ b = a' ++ b') (hsize : a.size = a'.size) :
    a = a' := by
  have hrest := Text.suffixAt?_size_append a b
  rw [h, hsize, Text.suffixAt?_size_append] at hrest
  obtain rfl := Option.some.inj hrest
  exact List.append_cancel_right h

/-- Scanning a text in two chunks gives the tokens of the text. -/
theorem scan_in_chunks (state : ScanState) (a b : Text)
    (h : ∃ t ∈ scan state 0 (a ++ b), t.stop = a.size ∧ t.kind ≠ .endTagOpen) :
    (scan state 0 (a ++ b)).map Placed.place =
      (scan state 0 a).map Placed.place ++
        ((scan (finalState state (scan state 0 a)) 0 b).map (Placed.shift a.size)).map Placed.place := by
  obtain ⟨t, hmem, hstop, hkind⟩ := h
  obtain ⟨before, rest, hsplit⟩ := List.append_of_mem hmem
  have hscan : scan state 0 (a ++ b) = (before ++ [t]) ++ rest := by simpa using hsplit
  obtain ⟨tail, hcut, hoffset⟩ := lexemes_of_scan hscan
  rw [finalOffset_concat, hstop, Nat.zero_add] at hoffset
  have ha := Text.eq_of_append_of_size hcut hoffset
  have hlast : ∀ q ∈ (before ++ [t]).getLast?, q.kind ≠ .endTagOpen := by simpa using hkind
  rw [places_append hscan ha.symm hlast, Nat.zero_add, ← scan_shift, Nat.add_zero]

def openScript : Text :=
  ['<', 'W', 'x', 's', '>', 'é']

def scriptEnd : Text :=
  ['<', '/', 'w', 'X', 's', '>']

/-- The first chunk ends in a state that the whole text is not in at that place. -/
theorem scan_in_chunks_openScript :
    (∃ t ∈ scan .content 0 (openScript ++ scriptEnd),
      t.stop = openScript.size ∧ t.kind ≠ .endTagOpen ∧ t.state = .content) ∧
    finalState .content (scan .content 0 openScript) = .scriptBody ∧
    (scan .content 0 (openScript ++ scriptEnd)).map Placed.place =
      (scan .content 0 openScript).map Placed.place ++
        ((scan .scriptBody 0 scriptEnd).map (Placed.shift openScript.size)).map Placed.place := by
  have hcut : ∃ t ∈ scan .content 0 (openScript ++ scriptEnd),
      t.stop = openScript.size ∧ t.kind ≠ .endTagOpen ∧ t.state = .content := by decide +kernel
  have hstate : finalState .content (scan .content 0 openScript) = .scriptBody := by decide +kernel
  have hchunks := scan_in_chunks .content openScript scriptEnd
    (hcut.imp fun t ht => ⟨ht.1, ht.2.1, ht.2.2.1⟩)
  rw [hstate] at hchunks
  exact ⟨hcut, hstate, hchunks⟩

end PageMarkup
