import PageMarkup.Proofs.Continuations

/-!
# Going on with a tag

A scan that ends outside of tags, comments and raw bodies has come to a place where a tag may begin.
If the text is made longer by a `<` and what follows it, the tokens before it stay as they are
(`scan_append_bracket`): those that leave something to read are decided, and the last one is a run of
content that stops at the `<`, or ends with a `>` of its own.
-/

namespace PageMarkup

namespace Text

variable {cs : Text} {p : Char → Bool}

theorem takeWhile_append_of_rest (h : cs.dropWhile p ≠ []) (b : Text) :
    (cs ++ b).takeWhile p = cs.takeWhile p ∧ (cs ++ b).dropWhile p = cs.dropWhile p ++ b := by
  refine takeWhile_append_of_length_le ?_
  have hcut := congrArg List.length (List.takeWhile_append_dropWhile (p := p) (l := cs))
  have hrest := List.length_pos_iff.mpr h
  rw [List.length_append] at hcut
  rw [List.takeWhile_append, if_neg (by omega)]
  omega

/-- The test `q` is for a word of `n` characters at the beginning of a text. -/
structure IsWordTest (q : Text → Bool) (n : Nat) : Prop where
  length_le : ∀ d, q d = true → n ≤ d.length
  append : ∀ d b, n ≤ d.length → q (d ++ b) = q d

theorem isWordTest_isPrefixOf (word : Text) : IsWordTest word.isPrefixOf word.length where
  length_le _ h := (List.isPrefixOf_iff_prefix.mp h).length_le
  append d b h := by
    rw [Bool.eq_iff_iff, List.isPrefixOf_iff_prefix, List.isPrefixOf_iff_prefix]
    refine ⟨fun hword => List.prefix_of_prefix_length_le hword (List.prefix_append d b) h, fun hword => ?_⟩
    exact hword.trans (List.prefix_append d b)

theorem isWordTest_startsEndTag (name : Text) :
    IsWordTest (Token.startsEndTag name) ('<' :: '/' :: name).length where
  length_le _ := length_le_of_startsWithFolded
  append _ b h := startsWithFolded_append h b

theorem breakAt_append_of_rest {q : Text → Bool} (hq : IsWordTest q n) (h : (breakAt q cs).2 ≠ []) (b : Text) :
    n ≤ cs.length ∧ breakAt q (cs ++ b) = ((breakAt q cs).1, (breakAt q cs).2 ++ b) := by
  induction cs with
  | nil => exact absurd rfl h
  | cons c cs ih =>
    rw [breakAt] at h ⊢
    by_cases hc : q (c :: cs) = true
    · have hle := hq.length_le _ hc
      have hlonger : q (c :: (cs ++ b)) = true := (hq.append (c :: cs) b hle).trans hc
      rw [if_pos hc, List.cons_append, breakAt, if_pos hlonger]
      exact ⟨hle, rfl⟩
    · rw [if_neg hc] at h ⊢
      obtain ⟨hle, hbreak⟩ := ih h
      have hle : n ≤ (c :: cs).length := Nat.le_succ_of_le hle
      have hlonger : ¬ q (c :: (cs ++ b)) = true := fun hcut => hc ((hq.append (c :: cs) b hle).symm.trans hcut)
      rw [List.cons_append, breakAt, if_neg hlonger, hbreak]
      exact ⟨hle, rfl⟩

end Text

namespace Token

-- ---------------------------------------------------------------------------
-- One token
-- ---------------------------------------------------------------------------

/-- If the step `s` leaves something to read, or ends in content, then `s'` is the same step in a text
that is longer by `b`. -/
def Step.Keeps (s s' : Step) (b : Text) : Prop :=
  s.rest ≠ [] ∨ s.state = .content → s' = s.append b

variable {c : Char} {cs b v : Text}

theorem Step.mk_keeps (token : Token) (state : ScanState) :
    (Step.mk token state cs).Keeps ⟨token, state, cs ++ b⟩ b :=
  fun _ => rfl

theorem Step.Keeps.ite [Decidable P] {x x' y y' : Step} (hx : x.Keeps x' b) (hy : y.Keeps y' b) :
    (if P then x else y).Keeps (if P then x' else y') b := by
  split
  · exact hx
  · exact hy

theorem Step.run_keeps {kind : TokenKind} {p : Char → Bool} {state : ScanState} {fault : Option Fault}
    (hstate : state ≠ .content) :
    (Step.run kind p c cs state fault).Keeps (Step.run kind p c (cs ++ b) state fault) b := by
  intro h
  obtain ⟨htake, hdrop⟩ := Text.takeWhile_append_of_rest (h.resolve_right hstate) b
  rw [Step.run, Step.run, htake, hdrop]
  rfl

theorem nextBracket_lexeme (cs : Text) : ∃ w, (nextBracket cs).token.lexeme = '<' :: w ∧ '<' ∉ w := by
  unfold nextBracket
  split
  · exact ⟨_, rfl, by simp⟩
  · exact ⟨_, rfl, by simp⟩
  · split
    · next hdoctype =>
      have hdoctype : Text.fold (cs.take 8) = "!doctype".toList := of_decide_eq_true hdoctype
      refine ⟨_, rfl, fun hmem => ?_⟩
      have hlower : '<'.toLower ∈ Text.fold (cs.take 8) := List.mem_map_of_mem hmem
      rw [hdoctype] at hlower
      exact absurd hlower (by decide)
    · exact ⟨_, rfl, by simp⟩

theorem nextBracket_keeps : (nextBracket cs).Keeps (nextBracket (cs ++ '<' :: v)) ('<' :: v) := by
  intro _
  refine nextBracket_append ?_
  obtain ⟨w, hlexeme, hw⟩ := nextBracket_lexeme (cs ++ '<' :: v)
  have hcut := (nextBracket_cuts (cs ++ '<' :: v)).append
  rw [hlexeme] at hcut
  have hcut : w ++ (nextBracket (cs ++ '<' :: v)).rest = cs ++ '<' :: v := (List.cons.inj hcut).2
  rw [Step.FitsIn, hlexeme]
  rcases List.append_eq_append_iff.mp hcut with ⟨more, rfl, -⟩ | ⟨_ | ⟨x, more⟩, rfl, hrest⟩
  · simp
  · simp
  · obtain ⟨rfl, -⟩ := List.cons.inj hrest
    simp at hw

theorem nextContent_keeps : (nextContent c cs).Keeps (nextContent c (cs ++ '<' :: v)) ('<' :: v) := by
  by_cases hc : c = '<'
  · rw [nextContent, nextContent, if_pos hc, if_pos hc]
    exact nextBracket_keeps
  · rw [nextContent, nextContent, if_neg hc, if_neg hc]
    intro _
    refine Step.run_append ((Step.run_cuts ..).fitsIn fun hmem => ?_)
    rcases List.mem_cons.mp hmem with heq | hmem
    · exact hc heq.symm
    · exact absurd (List.all_eq_true.mp List.all_takeWhile '<' hmem) (by simp)

theorem nextEndTag_keeps : (nextEndTag c cs).Keeps (nextEndTag c (cs ++ b)) b :=
  .ite (Step.run_keeps (by simp)) (.ite (Step.mk_keeps _ _) (Step.mk_keeps _ _))

theorem nextInTag_keeps (context : TagContext) :
    (nextInTag context c cs).Keeps (nextInTag context c (cs ++ b)) b := by
  refine .ite (Step.run_keeps (by simp)) (.ite (Step.run_keeps (by simp)) ?_)
  split
  · exact Step.mk_keeps _ _
  · exact Step.mk_keeps _ _
  · next hclose hself =>
    intro h
    obtain ⟨d, cs, rfl⟩ := List.exists_cons_of_ne_nil (h.resolve_right (by simp))
    rw [List.cons_append]
    split
    · next heq =>
      obtain ⟨rfl, -⟩ := List.cons.inj heq
      exact (hself cs rfl rfl).elim
    · exact (hclose rfl).elim
    · rfl

theorem nextTagName_keeps : (nextTagName c cs).Keeps (nextTagName c (cs ++ b)) b := by
  unfold nextTagName
  split
  · intro h
    obtain ⟨htake, hdrop⟩ := Text.takeWhile_append_of_rest (h.resolve_right (by simp [Step.run])) b
    rw [Step.run, Step.run, htake, hdrop]
    rfl
  · exact .ite (Step.run_keeps (by simp)) (nextInTag_keeps {})

theorem nextQuoted_keeps (context : TagContext) :
    (nextQuoted context c cs).Keeps (nextQuoted context c (cs ++ b)) b := by
  rcases nextQuoted_cases context c cs with ⟨-, hstep⟩ | ⟨body, rest, rfl, hbody, hstep⟩
  · rw [hstep]
    rintro (hrest | hstate)
    · exact absurd rfl hrest
    · cases hstate
  · intro _
    rw [hstep, List.append_assoc, List.cons_append, nextQuoted_closed context hbody]
    rfl

theorem nextValue_keeps (context : TagContext) :
    (nextValue context c cs).Keeps (nextValue context c (cs ++ b)) b :=
  .ite (Step.run_keeps (by simp)) (.ite (Step.run_keeps (by simp)) (.ite (nextQuoted_keeps _) (nextInTag_keeps _)))

theorem nextComment_keeps : (nextComment c cs).Keeps (nextComment c (cs ++ b)) b := by
  by_cases hclose : c = '-' ∧ ∃ more, cs = '-' :: '>' :: more
  · obtain ⟨rfl, more, rfl⟩ := hclose
    exact Step.mk_keeps _ _
  · have hopen (tail : Text) (hc : c = '-') : cs ≠ '-' :: '>' :: tail := fun heq => hclose ⟨hc, tail, heq⟩
    rw [nextComment_eq hopen]
    intro h
    obtain ⟨hlength, hbreak⟩ :=
      Text.breakAt_append_of_rest (Text.isWordTest_isPrefixOf ['-', '-', '>']) (h.resolve_right (by simp)) b
    have hopen' (tail : Text) (hc : c = '-') : cs ++ b ≠ '-' :: '>' :: tail := by
      intro heq
      rcases cs with _ | ⟨x, _ | ⟨y, cs⟩⟩
      · simp at hlength
      · simp at hlength
      · cases heq
        exact hopen cs hc rfl
    rw [nextComment_eq hopen', hbreak]
    rfl

theorem nextRaw_keeps {name : Text} {kind : TokenKind} {state : ScanState} (hstate : state ≠ .content) :
    (nextRaw name kind state c cs).Keeps (nextRaw name kind state c (cs ++ '<' :: v)) ('<' :: v) := by
  by_cases hend : startsEndTag name (c :: cs) = true
  · have hend' : startsEndTag name (c :: (cs ++ '<' :: v)) = true := startsEndTag_append_of hend
    rw [nextRaw, nextRaw, if_pos hend, if_pos hend']
    exact nextContent_keeps
  · rw [nextRaw_eq hend]
    intro h
    have hrest : (Text.breakAt (startsEndTag name) cs).2 ≠ [] := by
      rcases h with hrest | hcontent
      · exact hrest
      · intro hrest
        rw [if_pos hrest] at hcontent
        exact hstate hcontent
    obtain ⟨hlength, hbreak⟩ :=
      Text.breakAt_append_of_rest (Text.isWordTest_startsEndTag name) hrest ('<' :: v)
    have hend' : ¬ startsEndTag name (c :: (cs ++ '<' :: v)) = true := by
      rwa [← (Text.isWordTest_startsEndTag name).append (c :: cs) ('<' :: v) (Nat.le_succ_of_le hlength)] at hend
    rw [nextRaw_eq hend', hbreak]
    simp [hrest, Step.append]

/-- A token that leaves something to read, or ends in content, is the same if a tag follows. -/
theorem next_keeps (state : ScanState) (c : Char) (cs v : Text) :
    (next state c cs).Keeps (next state c (cs ++ '<' :: v)) ('<' :: v) := by
  cases state with
  | content => exact nextContent_keeps
  | afterTagOpen => exact nextTagName_keeps
  | afterEndTagOpen =>
    exact .ite (Step.run_keeps (by simp))
      (.ite (Step.run_keeps (by simp)) (.ite nextEndTag_keeps (Step.run_keeps (by simp))))
  | doctype => exact .ite (Step.mk_keeps _ _) (Step.run_keeps (by simp))
  | tag context => exact nextInTag_keeps context
  | endTag => exact nextEndTag_keeps
  | comment => exact nextComment_keeps
  | scriptBody | styleBody => exact nextRaw_keeps (by simp)
  | afterAttributeName context =>
    exact .ite (Step.run_keeps (by simp)) (.ite (Step.mk_keeps _ _) (nextInTag_keeps context))
  | beforeAttributeValue context => exact nextValue_keeps context

end Token

-- ---------------------------------------------------------------------------
-- Whole scans
-- ---------------------------------------------------------------------------

theorem eq_nil_of_scan_eq_nil {cs : Text} (h : scan state offset cs = []) : cs = [] := by
  cases cs with
  | nil => rfl
  | cons c cs =>
    rw [scan_cons] at h
    cases h

theorem scan_append_bracket {state : ScanState} {offset : Nat} {a : Text}
    (h : finalState state (scan state offset a) = .content) (v : Text) :
    scan state offset (a ++ '<' :: v) =
      scan state offset a ++ scan .content (offset + a.size) ('<' :: v) := by
  generalize hts : scan state offset a = ts at h ⊢
  induction ts generalizing state offset a with
  | nil =>
    obtain rfl := eq_nil_of_scan_eq_nil hts
    rw [show state = .content from h]
    rfl
  | cons p ts ih =>
    obtain ⟨c, cs, rfl, hp, hrest⟩ := scan_eq_cons hts
    rw [finalState_cons] at h
    have hkeeps : (Token.next state c cs).rest ≠ [] ∨ (Token.next state c cs).state = .content := by
      refine Decidable.or_iff_not_imp_left.mpr fun hnil => ?_
      rw [Decidable.not_not.mp hnil, scan] at hrest
      rw [hrest, hp] at h
      exact h
    have hsize : offset + Text.size (c :: cs) = p.stop + Text.size (Token.next state c cs).rest := by
      rw [← Token.next_lexeme_append_rest state c cs, Text.size_append, hp, ← Nat.add_assoc]
      rfl
    rw [List.cons_append, scan_cons, Token.next_keeps state c cs v hkeeps, hsize, List.cons_append,
      ← ih hrest.symm h, hp]
    rfl

end PageMarkup
