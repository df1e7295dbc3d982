import PageMarkup.Proofs.ClosingEdits
import PageMarkup.Proofs.Lexemes

/-!
# Completing the name of a start tag

The name can be completed right after the bracket, in the blanks behind it and in a name that is there
already. Each time, the edit reaches back to the bracket or to blanks after it, and on to the end of the
old name. What then follows cannot begin a name, but a hyphen or a period can continue one
(`opening_writes_name`).
-/

namespace PageMarkup

/-- The item is for a tag, and its label can be read as the name of one. The labels for end tags begin
with a slash or a bracket, so it is for a start tag. -/
def CompletionItem.OpensTag (item : CompletionItem) : Prop :=
  item.kind = .tag ∧ TokenKind.tagName.Writes item.label.toList

/-- Read as content from the offset on, the text begins with a start tag of the name, maybe with blanks
in front of it. -/
def Text.StartTagFrom (text : Text) (offset : Nat) (name : Text) : Prop :=
  ∃ first gap named more, scanFrom text offset .content = .ok (first :: (gap ++ named :: more)) ∧
    first.kind = .tagOpen ∧ gap.length ≤ 1 ∧ (∀ b ∈ gap, b.kind = .blank) ∧
    named.kind = .tagName ∧ named.lexeme = name

-- ---------------------------------------------------------------------------
-- Reading a start tag
-- ---------------------------------------------------------------------------

namespace Token

/-- A bracket begins a start tag unless a comment, a document type or an end tag follows. -/
theorem nextBracket_eq {cs : Text} (h : cs.Stops fun c => c = '!' || c = '/') :
    nextBracket cs = ⟨⟨.tagOpen, ['<'], none⟩, .afterTagOpen, cs⟩ := by
  unfold nextBracket
  split
  · cases h '!' rfl
  · cases h '/' rfl
  · have hdoctype : Text.startsWithFolded "!doctype".toList cs = false := by
      cases cs with
      | nil => rfl
      | cons c cs =>
        have hc := h c rfl
        simp only [Bool.or_eq_false_iff, decide_eq_false_iff_not] at hc
        have hlower : c.toLower ≠ '!' := fun heq => hc.1 ((toLower_eq_iff (by decide)).mp heq)
        simp [Text.startsWithFolded, Text.fold, hlower]
    rw [if_neg (ne_true_of_eq_false hdoctype)]

theorem ne_of_isNameStart (h : isNameStart c = true) : c ≠ '!' ∧ c ≠ '/' := by
  constructor
  all_goals
    rintro rfl
    cases h

theorem ne_of_isBlank (h : isBlank c = true) : c ≠ '!' ∧ c ≠ '/' ∧ isNameStart c = false := by
  simp only [isBlank, Bool.or_eq_true, decide_eq_true_eq] at h
  rcases h with (((rfl | rfl) | rfl) | rfl) | rfl <;> decide

theorem isNameChar_iff : isNameChar c = true ↔ isNameStart c = true ∨ c = '-' ∨ c = '.' := by
  simp only [isNameChar, isNameStart, Bool.or_eq_true, decide_eq_true_eq]
  grind

theorem next_tagName_eq (hd : isNameStart d = true) (hds : ∀ c ∈ ds, isNameChar c = true) (w : Text) :
    ∃ state rest, next .afterTagOpen d (ds ++ w) =
      ⟨⟨.tagName, d :: ds ++ w.takeWhile isNameChar, none⟩, state, rest⟩ := by
  rw [next, nextTagName, if_pos hd, Step.run, List.takeWhile_append_of_pos hds]
  exact ⟨_, _, rfl⟩

end Token

theorem scan_afterTagOpen {blanks name : Text} (hblanks : ∀ c ∈ blanks, isBlank c = true)
    (hname : TokenKind.tagName.Writes name) (offset : Nat) (w : Text) :
    ∃ gap named more, scan .afterTagOpen offset (blanks ++ (name ++ w)) = gap ++ named :: more ∧
      gap.length ≤ 1 ∧ (∀ b ∈ gap, b.kind = .blank) ∧ named.kind = .tagName ∧
      named.lexeme = name ++ w.takeWhile Token.isNameChar := by
  obtain ⟨d, ds, rfl, hd, hds⟩ := hname
  have hnamed (offset : Nat) : ∃ named more,
      scan .afterTagOpen offset (d :: ds ++ w) = named :: more ∧ named.kind = .tagName ∧
        named.lexeme = d :: ds ++ w.takeWhile Token.isNameChar := by
    obtain ⟨state, rest, hstep⟩ := Token.next_tagName_eq hd hds w
    rw [List.cons_append, scan_cons, hstep]
    exact ⟨_, _, rfl, rfl, rfl⟩
  cases blanks with
  | nil =>
    obtain ⟨named, more, hscan, hkind, hlexeme⟩ := hnamed offset
    exact ⟨[], named, more, hscan, Nat.zero_le 1, by simp, hkind, hlexeme⟩
  | cons b blanks =>
    obtain ⟨hb, hblanks⟩ := List.forall_mem_cons.mp hblanks
    have hrest : Text.Stops isBlank (d :: ds ++ w) := by
      refine Text.stops_cons (Bool.eq_false_iff.mpr fun hblank => ?_)
      rw [(Token.ne_of_isBlank hblank).2.2] at hd
      cases hd
    rw [List.cons_append, scan_cons, Token.next, Token.nextTagName,
      if_neg (ne_true_of_eq_false (Token.ne_of_isBlank hb).2.2), if_pos hb, Token.Step.run,
      Text.takeWhile_append hblanks hrest, Text.dropWhile_append hblanks hrest]
    obtain ⟨named, more, hscan, hkind, hlexeme⟩ := hnamed (offset + Text.size (b :: blanks))
    refine ⟨[_], named, more, congrArg _ hscan, Nat.le_refl 1, ?_, hkind, hlexeme⟩
    intro x hx
    rw [List.mem_singleton.mp hx]
    rfl

theorem Text.startTagFrom_append {blanks name : Text} (hblanks : ∀ c ∈ blanks, isBlank c = true)
    (hname : TokenKind.tagName.Writes name) (front w : Text) :
    (front ++ '<' :: (blanks ++ (name ++ w))).StartTagFrom front.size
      (name ++ w.takeWhile Token.isNameChar) := by
  have hbracket : Text.Stops (fun c => c = '!' || c = '/') (blanks ++ (name ++ w)) := by
    cases blanks with
    | nil =>
      obtain ⟨d, ds, rfl, hd, -⟩ := hname
      exact Text.stops_cons (by simpa using Token.ne_of_isNameStart hd)
    | cons b blanks =>
      have hb := Token.ne_of_isBlank (hblanks b List.mem_cons_self)
      exact Text.stops_cons (by simpa using ⟨hb.1, hb.2.1⟩)
  obtain ⟨gap, named, more, hscan, hgap⟩ := scan_afterTagOpen hblanks hname (front.size + 1) w
  refine ⟨⟨⟨.tagOpen, ['<'], none⟩, front.size, .afterTagOpen⟩, gap, named, more, ?_, rfl, hgap⟩
  rw [scanFrom, Text.suffixAt?_size_append, ← hscan]
  simp only [scan_cons, Token.next, Token.nextContent, ↓reduceIte, Token.nextBracket_eq hbracket]
  rfl

-- ---------------------------------------------------------------------------
-- Where start tags are completed
-- ---------------------------------------------------------------------------

theorem ScanState.Reads.of_blankBeforeName (h : Reads state .blank .afterTagOpen) : state = .afterTagOpen := by
  cases h with
  | nameless h | tag h | valueless h | missingValue _ h => cases h
  | blankBeforeName => rfl

/-- The name of a start tag can be written between the offsets: the bracket is in front of it, maybe with
blanks in between, and what follows does not begin a name. -/
structure Text.TakesName (text : Text) (start stop : Nat) : Prop where
  exists_bracket : ∃ front blanks, text.upTo start = front ++ '<' :: blanks ∧
    ∀ c ∈ blanks, isBlank c = true
  ends : (text.onward stop).Stops Token.isNameStart

theorem Token.next_tagName_rest (h : (next state c cs).token.kind = .tagName) :
    (next state c cs).rest.Stops isNameStart := by
  obtain ⟨rfl, -⟩ := next_tagName h
  rw [next, nextTagName] at h ⊢
  split
  · intro d hd
    have hend := List.head?_dropWhile_not isNameChar cs
    rw [Step.run, Option.mem_def] at hd
    rw [hd] at hend
    exact Bool.eq_false_iff.mpr fun hname => by simp [isNameChar_iff.mpr (.inl hname)] at hend
  · next hc =>
    rw [if_neg hc] at h
    split at h
    · cases h
    · have hin := nextInTag_reads {} c cs
      rw [h] at hin
      cases hin

section
variable {text : Text} {before back : List Placed} {t : Placed} (h : tokens text = before ++ t :: back)
include h

theorem stops_of_tagName (hkind : t.kind = .tagName) : (text.onward t.stop).Stops Token.isNameStart := by
  obtain ⟨c, cs, htoken, -, honward, -⟩ := exists_next_onward h
  rw [honward]
  exact Token.next_tagName_rest (htoken ▸ hkind)

theorem stops_extend (hstate : t.state = .afterTagOpen) :
    (text.onward (CompletionSite.extend t back t.stop .tagName)).Stops Token.isNameStart := by
  obtain ⟨-, -, -, -, -, hback⟩ := exists_next_onward h
  cases back with
  | nil =>
    cases hrest : text.onward t.stop with
    | nil =>
      rw [CompletionSite.extend, hrest]
      simp [Text.Stops]
    | cons c cs =>
      rw [hrest, scan_cons] at hback
      cases hback
  | cons q back =>
    have hq : tokens text = (before ++ [t]) ++ q :: back := by simpa using h
    rw [CompletionSite.extend]
    split
    · next hname => exact stops_of_tagName hq hname.2
    · next hname =>
      intro c hc
      obtain ⟨cs, hcs⟩ := List.head?_eq_some_iff.mp hc
      rw [hcs, hstate, scan_cons] at hback
      obtain ⟨rfl, -⟩ := List.cons.inj hback
      refine Bool.eq_false_iff.mpr fun hstart => hname ⟨rfl, ?_⟩
      simp [Placed.kind, Token.next, Token.nextTagName, hstart, Token.Step.run]

theorem upTo_afterTagOpen (hstate : finalState .content before = .afterTagOpen) :
    ∃ front blanks, text.upTo t.offset = front ++ '<' :: blanks ∧ ∀ c ∈ blanks, isBlank c = true := by
  have hopener : (finalState .content before).predecessor? = some (.tagOpen, .blank) := by rw [hstate]; rfl
  obtain ⟨front, x, gap, rfl, hx, hgap⟩ := exists_predecessor_filler rfl h hopener
  have hlexeme : x.lexeme = ['<'] := lexeme_of_mem_tokens (by rw [h]; simp) (by rw [hx]; rfl)
  refine ⟨front.flatMap Placed.lexeme, gap.flatMap Placed.lexeme, ?_, ?_⟩
  · rw [upTo_offset h]
    simp [hlexeme]
  · rcases hgap with rfl | ⟨y, rfl, hy⟩
    · simp
    · have hwrites := writes_of_mem_scan (show y ∈ tokens text by rw [h]; simp)
      rw [hy] at hwrites
      intro c hc
      exact hwrites c (by simpa using hc)

theorem stops_in_blank (hkind : t.kind = .blank) (hle : t.offset ≤ cursor) (hlt : cursor < t.stop) :
    (text.onward cursor).Stops Token.isNameStart := by
  have hmem : t ∈ tokens text := by rw [h]; simp
  obtain ⟨front, rest, htext, hoffset⟩ := exists_append_of_mem_tokens hmem
  have hstop : t.stop = Text.size (front ++ t.lexeme) := by
    rw [Text.size_append, hoffset]
    rfl
  obtain ⟨x, y, hlexeme, hx, hy⟩ := Text.exists_cut (Nat.le_trans (Nat.le_of_eq hoffset) hle)
    (Nat.le_trans (Nat.le_of_lt hlt) (Nat.le_of_eq hstop)) rest
  have hbefore := Text.size_upTo_le text cursor
  rw [htext, hx] at hbefore
  rw [htext, hy]
  have hwrites := writes_of_mem_scan hmem
  rw [hkind] at hwrites
  cases y with
  | nil =>
    rw [List.append_nil] at hlexeme
    rw [hstop, hlexeme] at hlt
    omega
  | cons b y =>
    exact Text.stops_cons (Token.ne_of_isBlank (hwrites b (by simp [hlexeme]))).2.2

/-- The token at the cursor leads back to the bracket and on to the end of the name. -/
theorem ofToken?_takesName (hlt : t.offset < cursor) (hle : cursor ≤ t.stop)
    (hsite : CompletionSite.ofToken? text cursor tag name t back = some site)
    (hopening : site = .afterBracket start stop ∨ site = .tagName start stop) :
    start ≤ cursor ∧ text.TakesName start stop := by
  have hmem : t ∈ tokens text := by rw [h]; simp
  rw [CompletionSite.ofToken?] at hsite
  cases hkind : t.kind with
  | tagOpen =>
    simp only [hkind, Option.ite_none_right_eq_some, Option.some.injEq] at hsite
    obtain ⟨rfl, hsite⟩ := hsite
    obtain ⟨rfl, rfl⟩ : t.stop = start ∧ _ = stop := by simpa [← hsite] using hopening
    have hlexeme : t.lexeme = ['<'] := lexeme_of_mem_tokens hmem (by rw [hkind]; rfl)
    have hreads := (reads_of_scan h).1
    rw [hkind] at hreads
    refine ⟨Nat.le_refl _, ⟨before.flatMap Placed.lexeme, [], ?_, by simp⟩, stops_extend h hreads.of_tagOpen⟩
    rw [upTo_stop h, hlexeme]
  | tagName =>
    simp only [hkind, Option.some.injEq] at hsite
    obtain ⟨rfl, rfl⟩ : t.offset = start ∧ t.stop = stop := by simpa [← hsite] using hopening
    have hreads := (reads_of_scan h).1
    rw [hkind] at hreads
    exact ⟨Nat.le_of_lt hlt, upTo_afterTagOpen h hreads.of_tagName, stops_of_tagName h hkind⟩
  | blank =>
    simp only [hkind, CompletionSite.ofBlank?] at hsite
    cases hstate : t.state with
    | afterTagOpen =>
      simp only [hstate, Option.some.injEq] at hsite
      obtain ⟨rfl, rfl⟩ : t.offset = start ∧ _ = stop := by simpa [← hsite] using hopening
      have hreads := (reads_of_scan h).1
      rw [hkind, hstate] at hreads
      refine ⟨Nat.le_of_lt hlt, upTo_afterTagOpen h hreads.of_blankBeforeName, ?_⟩
      rcases Nat.lt_or_eq_of_le hle with hinside | rfl
      · rw [CompletionSite.extend_of_ne (Nat.ne_of_gt hinside)]
        exact stops_in_blank h hkind (Nat.le_of_lt hlt) hinside
      · exact stops_extend h hstate
    | tag | afterAttributeName | beforeAttributeValue | afterEndTagOpen | content =>
      simp only [hstate, Option.some.injEq] at hsite
      subst hsite
      simp at hopening
    | _ => simp [hstate] at hsite
  | endTagName =>
    simp only [hkind] at hsite
    obtain ⟨slash, -, rfl⟩ := Option.map_eq_some_iff.mp hsite
    simp at hopening
  | assign =>
    simp only [hkind, Option.ite_none_right_eq_some, Option.some.injEq] at hsite
    obtain ⟨-, rfl⟩ := hsite
    simp at hopening
  | tagClose =>
    simp only [hkind, Option.ite_none_left_eq_some, Option.some.injEq] at hsite
    obtain ⟨-, rfl⟩ := hsite
    simp at hopening
  | _ =>
    simp only [hkind, Option.some.injEq] at hsite
    subst hsite
    simp at hopening

end

-- ---------------------------------------------------------------------------
-- Items for start tags
-- ---------------------------------------------------------------------------

theorem Completion.of_opensTag {c : Completion} {offered : List CompletionItem} {item : CompletionItem}
    (h : c.items site = .ok offered) (hitem : item ∈ offered) (hopens : item.OpensTag) :
    ∃ start stop component, (site = .afterBracket start stop ∨ site = .tagName start stop) ∧
      item = c.startTag start stop component := by
  obtain ⟨hkind, d, ds, hlabel, hd, -⟩ := hopens
  have hhead : ∀ b ∈ item.label.toList.head?, Token.isNameStart b = true := by
    rw [hlabel]
    rintro b ⟨⟩
    exact hd
  cases offers_of_mem h hitem with
  | firstTag => exact ⟨_, _, _, .inl rfl, rfl⟩
  | startTag => exact ⟨_, _, _, .inr rfl, rfl⟩
  | outerEndTag | openEndTag => cases hhead '/' (by simp)
  | endTag => cases hhead '/' (by simp [Completion.endTag])
  | wholeEndTag => cases hhead '<' (by simp [Completion.wholeEndTag])
  | attributeName | value | reference => cases hkind

/-- Between the bracket and what cannot begin a name, the label becomes the name of a start tag. -/
theorem Text.TakesName.startTagFrom {text : Text} (h : text.TakesName start stop)
    (hname : TokenKind.tagName.Writes label.toList) :
    ∃ front blanks name, text.upTo start = front ++ '<' :: blanks ∧ (∀ c ∈ blanks, isBlank c = true) ∧
      (Edit.apply ⟨start, stop, label⟩ text).StartTagFrom front.size name ∧ label.toList <+: name ∧
      ((text.onward stop).head? ≠ some '-' → (text.onward stop).head? ≠ some '.' → name = label.toList) := by
  obtain ⟨⟨front, blanks, hfront, hblanks⟩, hends⟩ := h
  have hread := Text.startTagFrom_append hblanks hname front (text.onward stop)
  refine ⟨front, blanks, label.toList ++ (text.onward stop).takeWhile Token.isNameChar, hfront, hblanks, ?_,
    List.prefix_append _ _, fun hhyphen hperiod => ?_⟩
  · rw [Edit.apply, hfront]
    simpa using hread
  · cases hrest : text.onward stop with
    | nil => simp
    | cons c cs =>
      rw [hrest] at hends hhyphen hperiod
      have hc : Token.isNameChar c = false := by
        refine Bool.eq_false_iff.mpr fun hc => ?_
        rcases Token.isNameChar_iff.mp hc with hstart | rfl | rfl
        · rw [hends c rfl] at hstart
          cases hstart
        · exact hhyphen rfl
        · exact hperiod rfl
      simp [hc]

/-- Accepting the item for a start tag writes a tag whose name is the label. A hyphen or a period right
after the edit is read as more of the name. -/
theorem opening_writes_name {text : Text} {cursor : Nat} (hle : cursor ≤ text.size) (s : Schema)
    (options : CompletionOptions) :
    ∃ items, (Document.parse text).completions s options cursor = .ok items ∧
      ∀ item ∈ items, item.OpensTag →
        ∃ front blanks name, text.upTo item.edit.start = front ++ '<' :: blanks ∧
          (∀ c ∈ blanks, isBlank c = true) ∧ (item.edit.apply text).StartTagFrom front.size name ∧
          item.label.toList <+: name ∧
          ((text.onward item.edit.stop).head? ≠ some '-' → (text.onward item.edit.stop).head? ≠ some '.' →
            name = item.label.toList) := by
  obtain ⟨items, hitems⟩ := completions_ok hle s options
  refine ⟨items, hitems, fun item hitem hopens => ?_⟩
  rcases Document.of_completions hitems with ⟨-, rfl⟩ | ⟨e, above, ts, hchain, hscan, hoffered⟩
  · cases hitem
  obtain ⟨start, stop, component, hsite, rfl⟩ := Completion.of_opensTag hoffered hitem hopens
  have hsite : CompletionSite.ofTokens text cursor [] [] ts = .afterBracket start stop ∨
      CompletionSite.ofTokens text cursor [] [] ts = .tagName start stop := hsite
  rcases site_cases hchain hscan with
    (hnone | hnone | ⟨slash, hnone⟩) | ⟨before, t, back, tag, name, htokens, hlt, hreach, hdecided⟩
  · simp [hnone] at hsite
  · simp [hnone] at hsite
  · simp [hnone] at hsite
  obtain ⟨hstart, htakes⟩ := ofToken?_takesName htokens hlt hreach hdecided hsite
  have hedit : (Completion.startTag ⟨Document.parse text, s, options, cursor, e, above⟩ start stop component).edit =
      ⟨start, stop, component.name⟩ := by
    simp [Completion.startTag, Completion.edit, Nat.min_eq_left hstart]
  rw [hedit]
  exact htakes.startTagFrom hopens.2

def spacedPage : Text :=
  "<view>é< im-g<".toList

theorem opening_writes_name_spacedPage :
    ∃ items item front blanks, (Document.parse spacedPage).completions Schema.bundled {} 12 = .ok items ∧
      item ∈ items ∧ item.label = "image" ∧ spacedPage.upTo item.edit.start = front ++ '<' :: blanks ∧
      String.ofList (item.edit.apply spacedPage) = "<view>é< image<" ∧
      (item.edit.apply spacedPage).StartTagFrom front.size "image".toList := by
  obtain ⟨items, hitems, hwritten⟩ :=
    opening_writes_name (show 12 ≤ spacedPage.size by decide) Schema.bundled {}
  have hany : ((Document.parse spacedPage).completions Schema.bundled {} 12).toOption.any
      (·.any fun item => item.kind = .tag ∧ item.label = "image" ∧
        (spacedPage.onward item.edit.stop).head? = some '<' ∧
        String.ofList (item.edit.apply spacedPage) = "<view>é< image<") = true := by decide +kernel
  rw [hitems] at hany
  obtain ⟨item, hitem, hholds⟩ := List.any_eq_true.mp hany
  obtain ⟨hkind, hlabel, hnext, happly⟩ := of_decide_eq_true hholds
  have hopens : item.OpensTag := by
    refine ⟨hkind, ?_⟩
    rw [hlabel]
    exact ⟨'i', ['m', 'a', 'g', 'e'], rfl, rfl, List.all_eq_true.mp rfl⟩
  obtain ⟨front, blanks, name, hfront, -, hstarts, -, hexact⟩ := hwritten item hitem hopens
  obtain rfl := hexact (by simp [hnext]) (by simp [hnext])
  rw [hlabel] at hstarts
  exact ⟨items, item, front, blanks, hitems, hitem, hlabel, hfront, happly, hstarts⟩

end PageMarkup
