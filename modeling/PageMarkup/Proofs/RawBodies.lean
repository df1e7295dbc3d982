import PageMarkup.Proofs.Chunks

/-!
# Raw bodies

The body of a script or style element is not read as markup. It reaches to the first place where the
end tag of the element begins, or to the end of the text, and nothing before that place is looked at:
`scan_rawBody`. That the element is one of these is known from its name, so the state has to keep it
through all that can follow the name in a start tag.
-/

namespace PageMarkup

open ScanState (Reads)

/-- The name of the elements whose bodies are read in this way, and what kind of token a body is. -/
def RawText.body? : RawText → Option (Text × TokenKind)
  | .none => .none
  | .script => some (TagName.script, .script)
  | .style => some (TagName.style, .content)

-- ---------------------------------------------------------------------------
-- The first end tag
-- ---------------------------------------------------------------------------

def Text.EndTagAt (text name : Text) (offset : Nat) : Prop :=
  ∃ w rest, text.suffixAt? offset = some (w ++ rest) ∧ w.fold = '<' :: '/' :: name

/-- From `start` on, the first end tag of the name is at `stop`, or there is none up to the end. -/
structure Text.FirstEndTag (text name : Text) (start stop : Nat) : Prop where
  le : start ≤ stop
  found : text.EndTagAt name stop ∨ stop = text.size
  first : ∀ offset, start ≤ offset → offset < stop → ¬ text.EndTagAt name offset

namespace Text

section
variable {text name front cs : Text} {offset : Nat}

theorem startsWithFolded_iff {word : Text} :
    startsWithFolded word cs = true ↔ ∃ w rest, cs = w ++ rest ∧ w.fold = word := by
  rw [startsWithFolded, decide_eq_true_eq]
  constructor
  · intro hword
    exact ⟨_, _, (List.take_append_drop _ cs).symm, hword⟩
  · rintro ⟨w, rest, rfl, rfl⟩
    simp [fold]

theorem endTagAt_iff :
    text.EndTagAt name offset ↔ ∃ cs, text.suffixAt? offset = some cs ∧ Token.startsEndTag name cs = true := by
  simp only [EndTagAt, Token.startsEndTag, startsWithFolded_iff]
  constructor
  · rintro ⟨w, rest, hsuffix, hw⟩
    exact ⟨_, hsuffix, w, rest, rfl, hw⟩
  · rintro ⟨_, hsuffix, w, rest, rfl, hw⟩
    exact ⟨w, rest, hsuffix, hw⟩

theorem breakAt_first {p : Text → Bool} {a b : Text} (h : (breakAt p cs).1 = a ++ b) (hb : b ≠ []) :
    p (b ++ (breakAt p cs).2) = false := by
  induction cs generalizing a with
  | nil => exact absurd (List.append_eq_nil_iff.mp h.symm).2 hb
  | cons c cs ih =>
    simp only [breakAt] at h ⊢
    split at h
    · exact absurd (List.append_eq_nil_iff.mp h.symm).2 hb
    · next hnot =>
      rw [if_neg hnot]
      cases a with
      | nil =>
        have hwhole := breakAt_append p cs
        simp only [List.nil_append] at h
        rw [← h, List.cons_append, hwhole]
        exact Bool.of_not_eq_true hnot
      | cons d a =>
        obtain ⟨-, htail⟩ := List.cons.inj h
        exact ih htail

theorem firstEndTag_breakAt (htext : text = front ++ cs) :
    text.FirstEndTag name front.size
      (front.size + (breakAt (Token.startsEndTag name) cs).1.size) where
  le := Nat.le_add_right _ _
  found := by
    have hcut := breakAt_append (Token.startsEndTag name) cs
    have hsplit : text = (front ++ (breakAt (Token.startsEndTag name) cs).1) ++
        (breakAt (Token.startsEndTag name) cs).2 := by rw [List.append_assoc, hcut, htext]
    rw [← size_append]
    rcases breakAt_snd (Token.startsEndTag name) cs with hnil | hstarts
    · rw [hsplit, hnil, List.append_nil]
      exact .inr rfl
    · refine .inl (endTagAt_iff.mpr ⟨_, ?_, hstarts⟩)
      rw [hsplit]
      exact suffixAt?_size_append _ _
  first := by
    intro offset hstart hstop hat
    obtain ⟨rest, hsuffix, hstarts⟩ := endTagAt_iff.mp hat
    obtain ⟨front', htext', rfl⟩ := eq_append_of_suffixAt? hsuffix
    obtain ⟨a, rfl⟩ := isPrefix_of_size_le ⟨cs, htext.symm⟩ ⟨rest, htext'.symm⟩ hstart
    rw [htext, List.append_assoc] at htext'
    have hcs := List.append_cancel_left htext'
    have hcut := breakAt_append (Token.startsEndTag name) cs
    rw [size_append] at hstop
    have hinside : a <+: cs := ⟨rest, hcs.symm⟩
    obtain ⟨b, hb⟩ := isPrefix_of_size_le hinside ⟨_, hcut⟩ (by omega)
    have hne : b ≠ [] := by
      rintro rfl
      rw [List.append_nil] at hb
      rw [← hb] at hstop
      omega
    have hnot := breakAt_first hb.symm hne
    rw [← hb, List.append_assoc] at hcut
    rw [List.append_cancel_left (hcut.trans hcs), hstarts] at hnot
    cases hnot

end

end Text

-- ---------------------------------------------------------------------------
-- Reading a raw body
-- ---------------------------------------------------------------------------

section
variable {raw : RawText} {word : Text} {kind : TokenKind}

theorem RawText.next_body (h : raw.body? = some (word, kind)) (c : Char) (cs : Text) :
    Token.next (Token.bodyState raw) c cs = Token.nextRaw word kind (Token.bodyState raw) c cs := by
  cases raw with
  | none => cases h
  | script | style =>
    cases h
    rfl

theorem RawText.isName_of_body? (h : raw.body? = some (word, kind)) :
    ∃ d ds, word = d :: ds ∧ Token.isNameStart d = true ∧ ∀ x ∈ ds, Token.isNameChar x = true := by
  cases raw with
  | none => cases h
  | script | style =>
    cases h
    exact ⟨_, _, rfl, rfl, List.all_eq_true.mp rfl⟩

/-- What is read in the state of a raw body: the body itself, if there is any, and the rest of the
text as content. -/
theorem scan_bodyState (h : raw.body? = some (word, kind)) (offset : Nat) (cs : Text) :
    scan (Token.bodyState raw) offset cs =
      (if (Text.breakAt (Token.startsEndTag word) cs).1 = [] then []
        else [⟨⟨kind, (Text.breakAt (Token.startsEndTag word) cs).1, none⟩, offset,
          if (Text.breakAt (Token.startsEndTag word) cs).2 = [] then Token.bodyState raw else .content⟩]) ++
      scan .content (offset + (Text.breakAt (Token.startsEndTag word) cs).1.size)
        (Text.breakAt (Token.startsEndTag word) cs).2 := by
  cases cs with
  | nil => simp [Text.breakAt, scan]
  | cons c cs =>
    by_cases hstarts : Token.startsEndTag word (c :: cs) = true
    · simp [Text.breakAt, hstarts, scan_raw_of_startsEndTag (RawText.next_body h) hstarts]
    · rw [scan_cons, RawText.next_body h, Token.nextRaw_eq hstarts]
      simp only [Text.breakAt, hstarts]
      by_cases hnil : (Text.breakAt (Token.startsEndTag word) cs).2 = []
      · simp [hnil, scan]
      · simp [hnil, Token.size]

theorem scan_rawEnd (h : raw.body? = some (word, kind)) (offset : Nat) {cs : Text}
    (hcs : Token.startsEndTag word cs = true) :
    ∃ o n rest, scan .content offset cs = o :: n :: rest ∧ o.kind = .endTagOpen ∧ o.offset = offset ∧
      n.kind = .endTagName ∧ n.offset = o.stop ∧ Text.fold (n.lexeme.take word.length) = word := by
  obtain ⟨d, ds, rfl, hd, hds⟩ := RawText.isName_of_body? h
  obtain ⟨o, n, rest, hscan, ho, hn, hlexeme⟩ := Token.scan_rawEndTag offset hd hds hcs
  refine ⟨o, n, rest, hscan, ho, (scan_step hscan).2.1, hn, ?_, of_decide_eq_true hlexeme⟩
  exact (reads_next (hscan.trans (List.nil_append _).symm)).2

theorem scan_bodyState_cons (h : raw.body? = some (word, kind)) {offset : Nat} {cs : Text} {p : Placed}
    {todo : List Placed} (hscan : scan (Token.bodyState raw) offset cs = p :: todo) :
    (p.kind = .endTagOpen ∧ [.endTagName] <+: todo.map Placed.kind) ∨
      p.kind = kind ∧ (p.state = Token.bodyState raw ∧ todo = [] ∨
        p.state = .content ∧ [.endTagOpen, .endTagName] <+: todo.map Placed.kind) := by
  rw [scan_bodyState h] at hscan
  have hafter := Text.breakAt_snd (Token.startsEndTag word) cs
  generalize (Text.breakAt (Token.startsEndTag word) cs).1 = before at hscan
  generalize (Text.breakAt (Token.startsEndTag word) cs).2 = after at hscan hafter
  have hends (hstarts : Token.startsEndTag word after = true) :
      [.endTagOpen, .endTagName] <+: (scan .content (offset + before.size) after).map Placed.kind := by
    obtain ⟨o, n, rest, hscan, ho, -, hn, -⟩ := scan_rawEnd h (offset + before.size) hstarts
    simp [hscan, ho, hn]
  by_cases hbefore : before = []
  · rw [if_pos hbefore, List.nil_append] at hscan
    rw [hscan, List.map_cons, List.cons_prefix_cons] at hends
    rcases hafter with rfl | hstarts
    · rw [scan] at hscan
      cases hscan
    · exact .inl ⟨(hends hstarts).1.symm, (hends hstarts).2⟩
  · rw [if_neg hbefore, List.singleton_append] at hscan
    obtain ⟨rfl, rfl⟩ := List.cons.inj hscan
    refine .inr ⟨rfl, ?_⟩
    rcases hafter with rfl | hstarts
    · exact .inl ⟨by simp, by rw [scan]⟩
    · exact .inr ⟨if_neg (Token.ne_nil_of_startsEndTag hstarts), hends hstarts⟩

/-- The tokens after a start tag that ends at `start`: nothing or a single token up to the first end
tag of the name, and then that end tag, or nothing at the end of the text. -/
structure RawBody (text word : Text) (kind : TokenKind) (start stop : Nat) (body more : List Placed) :
    Prop where
  first : text.FirstEndTag word start stop
  empty : start = stop → body = []
  whole : start < stop → ∃ t, body = [t] ∧ t.kind = kind ∧ t.token.fault = none ∧ t.offset = start ∧
    t.stop = stop
  ended : stop < text.size → ∃ o n rest, more = o :: n :: rest ∧ o.kind = .endTagOpen ∧
    o.offset = stop ∧ n.kind = .endTagName ∧ n.offset = o.stop ∧ Text.fold (n.lexeme.take word.length) = word
  cut : stop = text.size → more = []

theorem exists_rawBody (h : raw.body? = some (word, kind)) {text front cs : Text}
    (htext : text = front ++ cs) :
    ∃ stop body more, scan (Token.bodyState raw) front.size cs = body ++ more ∧
      more = scan .content stop (Text.breakAt (Token.startsEndTag word) cs).2 ∧
      RawBody text word kind front.size stop body more := by
  have hbody := scan_bodyState h front.size cs
  have hfirst : text.FirstEndTag word _ _ := Text.firstEndTag_breakAt htext
  have hafter := Text.breakAt_snd (Token.startsEndTag word) cs
  have hsize : text.size = front.size + (Text.breakAt (Token.startsEndTag word) cs).1.size +
      (Text.breakAt (Token.startsEndTag word) cs).2.size := by
    rw [htext, Nat.add_assoc, ← Text.size_append, ← Text.size_append, Text.breakAt_append]
  generalize (Text.breakAt (Token.startsEndTag word) cs).1 = before at *
  generalize (Text.breakAt (Token.startsEndTag word) cs).2 = after at *
  refine ⟨_, _, _, hbody, rfl, hfirst, ?_, ?_, ?_, ?_⟩
  · intro heq
    refine if_pos (Classical.byContradiction fun hne => ?_)
    have := Text.size_pos hne
    omega
  · intro hlt
    have hne : before ≠ [] := by
      rintro rfl
      simp at hlt
    exact ⟨_, if_neg hne, rfl, rfl, rfl, rfl⟩
  · intro hlt
    rcases hafter with rfl | hstarts
    · simp at hsize
      omega
    · exact scan_rawEnd h _ hstarts
  · intro heq
    have hnil : after = [] := Classical.byContradiction fun hne => by
      have := Text.size_pos hne
      omega
    rw [hnil, scan]

end

-- ---------------------------------------------------------------------------
-- From the name to the end of a start tag
-- ---------------------------------------------------------------------------

theorem suffix_of_last {α : Type} {P : α → Prop} {before tail front gap : List α} {q : α}
    (h : before ++ tail = front ++ q :: gap) (hq : P q) (htail : ∀ m ∈ tail, ¬ P m) : tail <:+ gap := by
  rcases List.append_eq_append_iff.mp h with ⟨mid, rfl, rfl⟩ | ⟨mid, rfl, hmid⟩
  · exact absurd hq (htail q (by simp))
  · cases mid with
    | nil =>
      rw [List.nil_append] at hmid
      exact absurd hq (htail q (by simp [← hmid]))
    | cons m mid =>
      obtain ⟨-, rfl⟩ := List.cons.inj hmid
      exact List.suffix_append mid tail

/-- No part of a start tag but its name changes how the body will be read. -/
theorem ScanState.Reads.rawText_eq {state after : ScanState} {kind : TokenKind}
    (h : Reads state kind after) (hkind : kind ∈ startTagParts.tail) : after.rawText = state.rawText := by
  cases h with
  | nameless h | tag h | valueless h | missingValue _ h =>
    cases h with
    | selfClose | close => simp [startTagParts] at hkind
    | _ => rfl
  | tagName => simp [startTagParts] at hkind
  | _ => rfl

theorem ScanState.Reads.of_tagClose {state after : ScanState} (h : Reads state .tagClose after) :
    after = Token.bodyState state.rawText := by
  cases h with
  | nameless h | tag h | valueless h | missingValue _ h =>
    cases h with
    | close => rfl

section
variable {offset : Nat} {cs : Text} {before mid rest : List Placed} {name close : Placed}

theorem rawText_finalState {state : ScanState} (h : scan state offset cs = mid ++ rest)
    (hmid : ∀ m ∈ mid, m.kind ∈ startTagParts.tail) : (finalState state mid).rawText = state.rawText := by
  induction mid generalizing state offset cs with
  | nil => rfl
  | cons m mid ih =>
    obtain ⟨hm, hmid⟩ := List.forall_mem_cons.mp hmid
    obtain ⟨hreads, -, tail, htail⟩ := scan_step h
    rw [finalState_cons, ih htail hmid]
    exact hreads.rawText_eq hm

theorem mem_startTagParts_tail (h : scan .content offset cs = before ++ name :: (mid ++ close :: rest))
    (hname : name.kind = .tagName) (hmid : ∀ m ∈ mid, m.kind ≠ .tagOpen) (hclose : close.kind = .tagClose) :
    ∀ m ∈ mid, m.kind ∈ startTagParts.tail := by
  have hnot : ∀ m ∈ name :: mid, ¬ m.kind = .tagOpen :=
    List.forall_mem_cons.mpr ⟨by simp [hname], hmid⟩
  intro m hm
  have hparts : m.kind ∈ startTagParts := by
    have hends : scan .content offset cs = (before ++ name :: mid) ++ close :: rest := by simpa using h
    have hstate := (reads_of_scan hends).1.beginning? (x := (.tagOpen, startTagParts)) (by rw [hclose]; rfl)
    obtain ⟨front, q, inner, hinner, hq, hall⟩ := exists_beginning rfl hends hstate
    exact hall m ((suffix_of_last hinner hq hnot).subset (List.mem_cons_of_mem name hm))
  refine (List.mem_cons.mp hparts).resolve_left fun hm' => ?_
  -- A second name would follow on the bracket, and only blanks can be in between.
  obtain ⟨front, back, rfl⟩ := List.append_of_mem hm
  have hagain : scan .content offset cs = (before ++ name :: front) ++ m :: (back ++ close :: rest) := by
    simpa using h
  have hstate := (reads_of_scan hagain).1.predecessor? (x := (.tagOpen, .blank)) (by rw [hm']; rfl)
  obtain ⟨_, q, gap, hgap, hq, hblank⟩ := exists_predecessor rfl hagain hstate
  have hearlier : name :: front <+: name :: (front ++ m :: back) := by simp
  have hsuffix : name :: front <:+ gap :=
    suffix_of_last hgap hq fun x hx => hnot x (hearlier.subset hx)
  cases (hblank name (hsuffix.subset List.mem_cons_self)).symm.trans hname

theorem state_of_tagName {state : ScanState} (h : scan state offset cs = before ++ name :: rest)
    (hname : name.kind = .tagName) : name.state = .tag ⟨TagName.rawText name.lexeme, false⟩ := by
  obtain ⟨c, tail, htoken, hstate, -⟩ := exists_next_of_scan h
  rw [Placed.kind, htoken] at hname
  rw [hstate, (Token.next_tagName hname).2, Placed.lexeme, htoken]

theorem state_of_tagClose (h : scan .content offset cs = before ++ name :: (mid ++ close :: rest))
    (hname : name.kind = .tagName) (hmid : ∀ m ∈ mid, m.kind ≠ .tagOpen) (hclose : close.kind = .tagClose) :
    close.state = Token.bodyState (TagName.rawText name.lexeme) := by
  obtain ⟨c, tail, -, -, hrest⟩ := exists_next_of_scan h
  have hraw := rawText_finalState hrest.symm (mem_startTagParts_tail h hname hmid hclose)
  have hreads := (reads_of_scan hrest.symm).1
  rw [hclose] at hreads
  rw [hreads.of_tagClose, hraw, state_of_tagName h hname]
  rfl

end

theorem TagName.rawText_of_fold {raw : RawText} {kind : TokenKind} {name word : Text}
    (h : raw.body? = some (word, kind)) (hname : name.fold = word) : rawText name = raw := by
  cases raw with
  | none => cases h
  | script | style =>
    cases h
    rw [rawText, hname]
    rfl

-- ---------------------------------------------------------------------------
-- Whole scans
-- ---------------------------------------------------------------------------

theorem of_scanFrom {text : Text} {offset : Nat} {state : ScanState} {ts : List Placed}
    (h : scanFrom text offset state = .ok ts) :
    ∃ front cs, text = front ++ cs ∧ front.size = offset ∧ ts = scan state offset cs := by
  unfold scanFrom at h
  split at h
  · next cs hsuffix =>
    obtain ⟨front, rfl, rfl⟩ := Text.eq_append_of_suffixAt? hsuffix
    cases h
    exact ⟨front, cs, rfl, rfl, rfl⟩
  · cases h

/-- Wherever scanning begins in content: after the start tag of an element with a raw body, the text
up to the first end tag of its name is one token, if it is not empty, and no other token reaches into
it. What follows is that end tag, with its name. -/
theorem scan_rawBody {raw : RawText} {text word : Text} {kind : TokenKind} {start : Nat}
    {before mid rest : List Placed} {name close : Placed} (hraw : raw.body? = some (word, kind))
    (hscan : scanFrom text start .content = .ok (before ++ name :: (mid ++ close :: rest)))
    (hname : name.kind = .tagName) (hword : Text.fold name.lexeme = word)
    (hmid : ∀ m ∈ mid, m.kind ≠ .tagOpen) (hclose : close.kind = .tagClose) :
    ∃ stop body more, rest = body ++ more ∧ RawBody text word kind close.stop stop body more ∧
      ∀ t ∈ before ++ name :: (mid ++ close :: more), t.stop ≤ close.stop ∨ stop ≤ t.offset := by
  obtain ⟨front, cs, rfl, rfl, hts⟩ := of_scanFrom hscan
  have hends : scan .content front.size cs = (before ++ name :: mid ++ [close]) ++ rest := by
    simpa using hts.symm
  obtain ⟨front', tail, rfl, hoffset, hrest⟩ := scan_eq_append hends
  rw [finalState_concat, state_of_tagClose hts.symm hname hmid hclose,
    TagName.rawText_of_fold hraw hword, hoffset, ← Text.size_append] at hrest
  rw [finalOffset_concat, ← Text.size_append] at hoffset
  obtain ⟨stop, body, more, hsplit, hmore, hbody⟩ :=
    exists_rawBody hraw (List.append_assoc front front' tail).symm
  refine ⟨stop, body, more, hrest.trans hsplit, hoffset ▸ hbody, fun t ht => ?_⟩
  have hlist : before ++ name :: (mid ++ close :: more) = (before ++ name :: mid ++ [close]) ++ more := by
    simp
  rw [hlist, List.mem_append, List.mem_append, List.mem_singleton] at ht
  rcases ht with (ht | rfl) | ht
  · have hsplit : scan .content front.size (front' ++ tail) = (before ++ name :: mid) ++ close :: rest := by
      simpa using hends
    have hle := stop_le_of_mem_before hsplit ht
    exact .inl (Nat.le_trans hle (Nat.le_add_right _ _))
  · exact .inl (Nat.le_refl _)
  · rw [hmore] at ht
    exact .inr (offset_le_of_mem_scan ht)

/-- A script in which other end tags seem to begin, and that a longer name ends. -/
def scriptPage : Text :=
  "é<WxS a='>'/ b>x </ y</wx</wXs2>".toList

theorem scan_rawBody_scriptPage :
    ∃ before name mid close rest,
      scanFrom scriptPage 2 .content = .ok (before ++ name :: (mid ++ close :: rest)) ∧
      name.kind = .tagName ∧ name.lexeme = ['W', 'x', 'S'] ∧ (∀ m ∈ mid, m.kind ≠ .tagOpen) ∧
      close.kind = .tagClose ∧ close.stop = 16 ∧
      ∃ stop body more, rest = body ++ more ∧ RawBody scriptPage TagName.script .script 16 stop body more := by
  let ts := scan .content 2 (scriptPage.drop 1)
  let name : Placed := ⟨⟨.tagName, ['W', 'x', 'S'], none⟩, 3, .tag ⟨.script, false⟩⟩
  let close : Placed := ⟨⟨.tagClose, ['>'], none⟩, 15, .scriptBody⟩
  have hsplit : ts = ts.take 1 ++ name :: ((ts.drop 2).take 7 ++ close :: ts.drop 10) := by
    decide +kernel
  have hscan : scanFrom scriptPage 2 .content = .ok _ := congrArg Except.ok hsplit
  have hmid : ∀ m ∈ (ts.drop 2).take 7, m.kind ≠ .tagOpen := by decide +kernel
  obtain ⟨stop, body, more, hrest, hbody, -⟩ :=
    scan_rawBody (rfl : RawText.script.body? = _) hscan rfl rfl hmid rfl
  exact ⟨_, _, _, _, _, hscan, rfl, rfl, hmid, rfl, rfl, stop, body, more, hrest, hbody⟩

end PageMarkup
