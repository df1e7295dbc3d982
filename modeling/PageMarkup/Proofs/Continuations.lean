import PageMarkup.Proofs.Chunks

/-!
# Another text to go on with

To find the end of a token, a scan may look ahead for a word such as `-->` or `!doctype`. No such word
has a quote or a blank in it, so no scan looks past one: tokens that end before a quote or a blank are
the same whatever comes after it (`scan_delimiter`).
-/

namespace PageMarkup

def isDelimiter (c : Char) : Bool :=
  c = '"' || c = '\'' || isBlank c

theorem toLower_of_isDelimiter (h : isDelimiter q = true) : q.toLower = q := by
  simp only [isDelimiter, isBlank, Bool.or_eq_true, decide_eq_true_eq] at h
  rcases h with (rfl | rfl) | (((rfl | rfl) | rfl) | rfl) | rfl <;> rfl

theorem ne_of_isDelimiter (h : isDelimiter q = true) (hc : isDelimiter c = false) : q ≠ c := by
  rintro rfl
  exact absurd h (ne_true_of_eq_false hc)

theorem notMem_of_isDelimiter {word : Text} (h : isDelimiter q = true) (hword : word.any isDelimiter = false) :
    q ∉ word := fun hmem =>
  List.any_eq_false.mp hword q hmem h

namespace Text

variable {word d v v' : Text} {q : Char}

theorem startsWithFolded_eq_false (h : q.toLower ∉ word) (hlength : d.length < word.length) (v : Text) :
    startsWithFolded word (d ++ q :: v) = false := by
  refine decide_eq_false fun hstarts => h ?_
  obtain ⟨n, hn⟩ : ∃ n, word.length - d.length = n + 1 := ⟨word.length - d.length - 1, by omega⟩
  rw [List.take_append, hn, List.take_succ_cons] at hstarts
  rw [← hstarts]
  exact List.mem_map_of_mem (by simp)

theorem startsWithFolded_delimiter (h : q.toLower ∉ word) (v v' : Text) :
    startsWithFolded word (d ++ q :: v) = startsWithFolded word (d ++ q :: v') := by
  by_cases hlength : word.length ≤ d.length
  · rw [startsWithFolded_append hlength, startsWithFolded_append hlength]
  · rw [startsWithFolded_eq_false h (Nat.lt_of_not_le hlength),
      startsWithFolded_eq_false h (Nat.lt_of_not_le hlength)]

theorem isPrefixOf_delimiter (h : q ∉ word) (v v' : Text) :
    word.isPrefixOf (d ++ q :: v) = word.isPrefixOf (d ++ q :: v') := by
  induction word generalizing d with
  | nil => rfl
  | cons w word ih =>
    obtain ⟨hw, hword⟩ : q ≠ w ∧ q ∉ word := by simpa using h
    cases d with
    | nil =>
      have hw : (w == q) = false := beq_false_of_ne (Ne.symm hw)
      simp [List.isPrefixOf, hw]
    | cons x d => simp [List.isPrefixOf, ih hword]

theorem takeWhile_delimiter {p : Char → Bool} {cs r : Text} (h : (cs ++ q :: v).dropWhile p = r ++ q :: v)
    (v' : Text) :
    (cs ++ q :: v').takeWhile p = (cs ++ q :: v).takeWhile p ∧
      (cs ++ q :: v').dropWhile p = r ++ q :: v' := by
  induction cs with
  | nil =>
    by_cases hq : p q = true
    · have hlength := congrArg List.length h
      rw [List.nil_append, List.dropWhile_cons_of_pos hq] at hlength
      have hle := (List.dropWhile_sublist p (l := v)).length_le
      simp only [List.length_append, List.length_cons] at hlength
      omega
    · have hr : [] ++ q :: v = r ++ q :: v := by rwa [List.nil_append, List.dropWhile_cons_of_neg hq] at h
      obtain rfl := List.append_cancel_right hr
      simp [hq]
  | cons c cs ih =>
    by_cases hc : p c = true
    · rw [List.cons_append, List.dropWhile_cons_of_pos hc] at h
      simp [hc, ih h]
    · rw [List.cons_append, List.dropWhile_cons_of_neg hc, ← List.cons_append] at h
      obtain rfl := List.append_cancel_right h
      simp [hc]

theorem breakAt_delimiter {p : Text → Bool} {cs body r : Text}
    (hp : ∀ d, p (d ++ q :: v) = p (d ++ q :: v')) (h : breakAt p (cs ++ q :: v) = (body, r ++ q :: v)) :
    breakAt p (cs ++ q :: v') = (body, r ++ q :: v') := by
  induction cs generalizing body with
  | nil =>
    have hcut := breakAt_append p ([] ++ q :: v)
    rw [h, ← List.append_assoc] at hcut
    obtain ⟨rfl, rfl⟩ := List.append_eq_nil_iff.mp (List.append_cancel_right hcut)
    rw [List.nil_append, breakAt] at h ⊢
    split at h
    · next hstarts =>
      have hstarts' : p (q :: v') = true := (hp []).symm.trans hstarts
      rw [if_pos hstarts']
    · cases h
  | cons c cs ih =>
    have hsame : p (c :: (cs ++ q :: v)) = p (c :: (cs ++ q :: v')) := hp (c :: cs)
    rw [List.cons_append, breakAt] at h ⊢
    rw [← hsame]
    split at h
    · next hstarts =>
      obtain ⟨rfl, hr⟩ := Prod.ext_iff.mp h
      have hr : c :: cs ++ q :: v = r ++ q :: v := hr
      obtain rfl := List.append_cancel_right hr
      rw [if_pos hstarts]
      rfl
    · next hstarts =>
      obtain ⟨rfl, hr⟩ := Prod.ext_iff.mp h
      rw [if_neg hstarts, ih (Prod.ext rfl hr)]

theorem head_of_append_delimiter {cs : Text} (h : cs ++ q :: v = x :: tail) (hq : q ≠ x) :
    ∃ more, cs = x :: more ∧ tail = more ++ q :: v := by
  cases cs with
  | nil => exact absurd (List.cons.inj h).1 hq
  | cons y cs =>
    obtain ⟨rfl, rfl⟩ := List.cons.inj h
    exact ⟨cs, rfl, rfl⟩

end Text

namespace Token

-- ---------------------------------------------------------------------------
-- One token
-- ---------------------------------------------------------------------------

/-- If the step `s` leaves the text `b`, and maybe something before it, then `s'` does the same with
`b'`. -/
def Step.Swaps (s s' : Step) (b b' : Text) : Prop :=
  ∀ r, s.rest = r ++ b → s' = { s with rest := r ++ b' }

variable {c q : Char} {cs b b' v v' : Text}

theorem Step.mk_swaps (token : Token) (state : ScanState) :
    (Step.mk token state (cs ++ b)).Swaps ⟨token, state, cs ++ b'⟩ b b' := by
  intro r hr
  obtain rfl := List.append_cancel_right hr
  rfl

theorem Step.Swaps.ite [Decidable P] {x x' y y' : Step} (hx : x.Swaps x' b b') (hy : y.Swaps y' b b') :
    (if P then x else y).Swaps (if P then x' else y') b b' := by
  split
  · exact hx
  · exact hy

theorem Step.run_swaps (kind : TokenKind) (p : Char → Bool) (state : ScanState) (fault : Option Fault) :
    (Step.run kind p c (cs ++ q :: v) state fault).Swaps (Step.run kind p c (cs ++ q :: v') state fault)
      (q :: v) (q :: v') := by
  intro r hr
  obtain ⟨htake, hdrop⟩ := Text.takeWhile_delimiter hr v'
  rw [Step.run, Step.run, htake, hdrop]

theorem nextEndTag_swaps :
    (nextEndTag c (cs ++ q :: v)).Swaps (nextEndTag c (cs ++ q :: v')) (q :: v) (q :: v') :=
  .ite (Step.run_swaps _ _ _ _) (.ite (Step.mk_swaps _ _) (Step.mk_swaps _ _))

theorem Step.Cuts.fitsIn {s : Step} (h : s.Cuts (c :: (cs ++ q :: v))) (hq : q ∉ s.token.lexeme) :
    s.FitsIn c cs := by
  have hcut : s.token.lexeme ++ s.rest = c :: cs ++ q :: v := h.append
  rcases List.append_eq_append_iff.mp hcut with ⟨more, hmore, -⟩ | ⟨_ | ⟨x, more⟩, hmore, hrest⟩
  · rw [FitsIn, hmore, List.length_append]
    exact Nat.le_add_right _ _
  · exact Nat.le_of_eq (by rw [hmore, List.append_nil])
  · obtain ⟨rfl, -⟩ := List.cons.inj hrest
    exact absurd (hmore ▸ List.mem_append_right _ List.mem_cons_self) hq

section
variable (hq : isDelimiter q = true)
include hq

theorem notMem_nextBracket (cs : Text) : q ∉ (nextBracket cs).token.lexeme := by
  unfold nextBracket
  split
  · exact notMem_of_isDelimiter hq rfl
  · exact notMem_of_isDelimiter hq rfl
  · split
    · next hdoctype =>
      have hdoctype : Text.fold (cs.take 8) = "!doctype".toList := of_decide_eq_true hdoctype
      intro hmem
      rcases List.mem_cons.mp hmem with heq | hmem
      · exact ne_of_isDelimiter hq rfl heq
      · have hlower : q.toLower ∈ Text.fold (cs.take 8) := List.mem_map_of_mem hmem
        rw [hdoctype, toLower_of_isDelimiter hq] at hlower
        exact notMem_of_isDelimiter hq rfl hlower
    · exact notMem_of_isDelimiter hq rfl

theorem nextBracket_swaps :
    (nextBracket (cs ++ q :: v)).Swaps (nextBracket (cs ++ q :: v')) (q :: v) (q :: v') := by
  rw [nextBracket_append ((nextBracket_cuts _).fitsIn (notMem_nextBracket hq _)),
    nextBracket_append ((nextBracket_cuts _).fitsIn (notMem_nextBracket hq _))]
  exact Step.mk_swaps _ _

theorem nextContent_swaps :
    (nextContent c (cs ++ q :: v)).Swaps (nextContent c (cs ++ q :: v')) (q :: v) (q :: v') :=
  .ite (nextBracket_swaps hq) (Step.run_swaps _ _ _ _)

theorem nextInTag_swaps (context : TagContext) :
    (nextInTag context c (cs ++ q :: v)).Swaps (nextInTag context c (cs ++ q :: v')) (q :: v) (q :: v') := by
  have hne : q ≠ '>' := ne_of_isDelimiter hq rfl
  refine .ite (Step.run_swaps _ _ _ _) (.ite (Step.run_swaps _ _ _ _) ?_)
  split
  · next tail heq =>
    obtain ⟨more, rfl, rfl⟩ := Text.head_of_append_delimiter heq hne
    exact Step.mk_swaps _ _
  · exact Step.mk_swaps _ _
  · next hclose hself =>
    split
    · next tail heq =>
      obtain ⟨more, rfl, -⟩ := Text.head_of_append_delimiter heq hne
      exact (hself _ rfl rfl).elim
    · exact (hclose rfl).elim
    · exact Step.mk_swaps _ _

theorem nextTagName_swaps :
    (nextTagName c (cs ++ q :: v)).Swaps (nextTagName c (cs ++ q :: v')) (q :: v) (q :: v') := by
  unfold nextTagName
  split
  · intro r hr
    rw [(Text.takeWhile_delimiter hr v').1]
    exact Step.run_swaps _ _ _ _ r hr
  · exact .ite (Step.run_swaps _ _ _ _) (nextInTag_swaps hq {})

theorem nextAfterAttributeName_swaps (context : TagContext) :
    (nextAfterAttributeName context c (cs ++ q :: v)).Swaps
      (nextAfterAttributeName context c (cs ++ q :: v')) (q :: v) (q :: v') :=
  .ite (Step.run_swaps _ _ _ _) (.ite (Step.mk_swaps _ _) (nextInTag_swaps hq context))

theorem nextValue_swaps (context : TagContext) :
    (nextValue context c (cs ++ q :: v)).Swaps (nextValue context c (cs ++ q :: v')) (q :: v) (q :: v') := by
  refine .ite (Step.run_swaps _ _ _ _)
    (.ite (Step.run_swaps _ _ _ _) (.ite ?_ (nextInTag_swaps hq _)))
  intro r hr
  rcases nextQuoted_cases { context with afterBlank := false } c (cs ++ q :: v) with
    ⟨-, hstep⟩ | ⟨body, rest, hcut, hbody, hstep⟩
  · rw [hstep] at hr
    simp at hr
  · rw [hstep] at hr ⊢
    subst hr
    obtain rfl : cs = body ++ c :: r := List.append_cancel_right (hcut.trans (by simp))
    rw [List.append_assoc, List.cons_append, nextQuoted_closed _ hbody]

theorem nextComment_swaps :
    (nextComment c (cs ++ q :: v)).Swaps (nextComment c (cs ++ q :: v')) (q :: v) (q :: v') := by
  by_cases hclose : c = '-' ∧ ∃ more, cs = '-' :: '>' :: more
  · obtain ⟨rfl, more, rfl⟩ := hclose
    exact Step.mk_swaps _ _
  · have hopen (u tail : Text) (hc : c = '-') : cs ++ q :: u ≠ '-' :: '>' :: tail := by
      intro heq
      obtain ⟨more, rfl, htail⟩ := Text.head_of_append_delimiter heq (ne_of_isDelimiter hq rfl)
      obtain ⟨more, rfl, -⟩ := Text.head_of_append_delimiter htail.symm (ne_of_isDelimiter hq rfl)
      exact hclose ⟨hc, more, rfl⟩
    rw [nextComment_eq (hopen v), nextComment_eq (hopen v')]
    intro r hr
    have hword (d : Text) : ['-', '-', '>'].isPrefixOf (d ++ q :: v) = ['-', '-', '>'].isPrefixOf (d ++ q :: v') :=
      Text.isPrefixOf_delimiter (notMem_of_isDelimiter hq rfl) v v'
    rw [Text.breakAt_delimiter hword (Prod.ext rfl hr)]

theorem nextRaw_swaps {name : Text} (hname : name.any isDelimiter = false) (kind : TokenKind)
    (state : ScanState) :
    (nextRaw name kind state c (cs ++ q :: v)).Swaps (nextRaw name kind state c (cs ++ q :: v'))
      (q :: v) (q :: v') := by
  have hword : q.toLower ∉ '<' :: '/' :: name := by
    rw [toLower_of_isDelimiter hq]
    exact notMem_of_isDelimiter hq hname
  have hstarts (d : Text) : startsEndTag name (d ++ q :: v) = startsEndTag name (d ++ q :: v') :=
    Text.startsWithFolded_delimiter hword v v'
  by_cases hend : startsEndTag name (c :: (cs ++ q :: v)) = true
  · have hend' : startsEndTag name (c :: (cs ++ q :: v')) = true := (hstarts (c :: cs)).symm.trans hend
    rw [nextRaw, nextRaw, if_pos hend, if_pos hend']
    exact nextContent_swaps hq
  · have hend' : ¬ startsEndTag name (c :: (cs ++ q :: v')) = true := fun hend' =>
      hend ((hstarts (c :: cs)).trans hend')
    rw [nextRaw_eq hend, nextRaw_eq hend']
    intro r hr
    have hbreak := Text.breakAt_delimiter hstarts (Prod.ext rfl hr)
    have hr : (Text.breakAt (startsEndTag name) (cs ++ q :: v)).2 = r ++ q :: v := hr
    simp [hbreak, hr]

/-- A token that ends before a delimiter is the same whatever comes after it. -/
theorem next_swaps (state : ScanState) (v' : Text) :
    (next state c (cs ++ q :: v)).Swaps (next state c (cs ++ q :: v')) (q :: v) (q :: v') := by
  cases state with
  | content => exact nextContent_swaps hq
  | afterTagOpen => exact nextTagName_swaps hq
  | afterEndTagOpen =>
    exact .ite (Step.run_swaps _ _ _ _)
      (.ite (Step.run_swaps _ _ _ _) (.ite nextEndTag_swaps (Step.run_swaps _ _ _ _)))
  | doctype => exact .ite (Step.mk_swaps _ _) (Step.run_swaps _ _ _ _)
  | tag context => exact nextInTag_swaps hq context
  | endTag => exact nextEndTag_swaps
  | comment => exact nextComment_swaps hq
  | scriptBody | styleBody => exact nextRaw_swaps hq rfl _ _
  | afterAttributeName context => exact nextAfterAttributeName_swaps hq context
  | beforeAttributeValue context => exact nextValue_swaps hq context

end

end Token

-- ---------------------------------------------------------------------------
-- Whole scans
-- ---------------------------------------------------------------------------

theorem exists_scan_onward {state : ScanState} {offset : Nat} {before rest : List Placed}
    (h : scan state offset cs = before ++ rest) :
    ∃ tail, cs = before.flatMap Placed.lexeme ++ tail ∧
      rest = scan (finalState state before) (finalOffset offset before) tail := by
  obtain ⟨front, tail, hcut, hoffset, hrest⟩ := scan_eq_append h
  obtain ⟨tail', hcut', hoffset'⟩ := lexemes_of_scan h
  have hfront := Text.eq_of_append_of_size (hcut.symm.trans hcut') (by omega)
  exact ⟨tail, hfront ▸ hcut, hrest⟩

/-- Tokens that end before a delimiter tell how to go on. What comes after it has no say in them. -/
theorem scan_before_delimiter {state : ScanState} {offset : Nat} {a y v : Text} {before rest : List Placed}
    (hq : isDelimiter q = true) (h : scan state offset (a ++ (y ++ q :: v)) = before ++ rest)
    (hcut : before.flatMap Placed.lexeme = a) (v' : Text) :
    scan state offset (a ++ (y ++ q :: v')) =
      before ++ scan (finalState state before) (offset + a.size) (y ++ q :: v') := by
  induction before generalizing state offset a with
  | nil =>
    obtain rfl : [] = a := hcut
    rfl
  | cons p before ih =>
    obtain ⟨c, cs, rfl⟩ := exists_cons_of_scan h hcut
    obtain ⟨-, hrest⟩ := next_fitsIn h hcut
    rw [← List.append_assoc, ← List.append_assoc] at hrest
    have hswap := Token.next_swaps hq state v' _ hrest
    simp only [List.append_assoc] at hrest hswap
    have hsize : offset + Text.size (c :: cs) =
        offset + p.token.size + Text.size (before.flatMap Placed.lexeme) := by
      rw [← hcut, List.flatMap_cons, Text.size_append, ← Nat.add_assoc]
      rfl
    rw [List.cons_append, scan_cons, hrest] at h
    obtain ⟨rfl, hbefore⟩ := List.cons.inj h
    rw [hsize, List.cons_append, scan_cons, hswap, ih hbefore rfl, finalState_cons]
    rfl

theorem scan_delimiter {state : ScanState} {offset : Nat} {a v : Text} {before rest : List Placed}
    (hq : isDelimiter q = true) (h : scan state offset (a ++ q :: v) = before ++ rest)
    (hcut : before.flatMap Placed.lexeme = a) (v' : Text) :
    scan state offset (a ++ q :: v') =
      before ++ scan (finalState state before) (offset + a.size) (q :: v') :=
  scan_before_delimiter (y := []) hq h hcut v'

end PageMarkup
