import PageMarkup.Proofs.CaseFolding
import PageMarkup.Proofs.ValueEdits

/-!
# Completing an end tag

The item for an end tag replaces what there is of the tag from the slash on, or from the indent of its
line on, and adds the closing bracket if it is missing. `closing_writes_iff` says when this gives the
end tag: the edit that changes the indent stops at the cursor, so it fails if the name goes on after
the cursor and the bracket is there; and after a start tag without a name the bracket of the end tag is
looked for in the wrong place.
-/

namespace PageMarkup

/-- The item is for the end tag with the name, from its slash on. -/
def CompletionItem.ClosesTag (tag : String) (item : CompletionItem) : Prop :=
  item.kind = .tag ∧ item.label = "/" ++ tag ∧ item.filter ≠ none

/-- Read as content from the offset on, the text begins with an end tag of the name. -/
def Text.EndTagFrom (text : Text) (offset : Nat) (tag : String) : Prop :=
  (scanFrom text offset .content).toOption.map (fun ts => (ts.take 2).map fun t => (t.kind, t.lexeme)) =
    some [(.endTagOpen, ['<', '/']), (.endTagName, tag.toList)]

instance (tag : String) (item : CompletionItem) : Decidable (item.ClosesTag tag) :=
  inferInstanceAs (Decidable (_ ∧ _))

instance (text : Text) (offset : Nat) (tag : String) : Decidable (text.EndTagFrom offset tag) :=
  inferInstanceAs (Decidable (_ = _))

namespace Edit

/-- Where the bracket of a completed end tag is: in front of its slash, in the new text or right before
it. -/
def bracket (e : Edit) : Nat :=
  e.start + Text.size (e.text.toList.takeWhile (· ≠ '/')) - 1

def Reindents (e : Edit) : Prop :=
  e.text.toList.head? ≠ some '/'

/-- The new text is not closed, and what follows is read as part of its last name. -/
def RunsOn (e : Edit) (text : Text) : Prop :=
  e.text.toList.getLast? ≠ some '>' ∧ (text.onward e.stop).head?.any Token.isNameChar = true

instance (e : Edit) : Decidable e.Reindents :=
  inferInstanceAs (Decidable (_ ≠ _))

instance (e : Edit) (text : Text) : Decidable (e.RunsOn text) :=
  inferInstanceAs (Decidable (_ ∧ _))

end Edit

-- ---------------------------------------------------------------------------
-- Reading an end tag
-- ---------------------------------------------------------------------------

theorem takeWhile_append_eq_left {p : Char → Bool} {ds w : Text} :
    (ds ++ w).takeWhile p = ds ↔ (∀ d ∈ ds, p d = true) ∧ ∀ c ∈ w.head?, p c = false := by
  induction ds with
  | nil => cases w <;> simp [List.takeWhile_cons]
  | cons d ds ih =>
    by_cases hd : p d = true
    · simp [hd, ih]
    · simp [hd]

theorem Token.nextEndTagName_kind (hc : isNameStart c = false) :
    (nextEndTagName c cs).token.kind ≠ .endTagName := by
  unfold nextEndTagName nextEndTag
  rw [if_neg (ne_true_of_eq_false hc)]
  repeat' split
  all_goals simp [Step.run]

theorem writes_endTagName_cons :
    TokenKind.endTagName.Writes (d :: ds) ↔
      Token.isNameStart d = true ∧ ∀ c ∈ ds, Token.isNameChar c = true := by
  constructor
  · rintro ⟨c, cs, heq, hc, hcs⟩
    obtain ⟨rfl, rfl⟩ := List.cons.inj heq
    exact ⟨hc, hcs⟩
  · rintro ⟨hd, hds⟩
    exact ⟨d, ds, rfl, hd, hds⟩

theorem Text.endTagFrom_append (front rest : Text) (tag : String) :
    Text.EndTagFrom (front ++ rest) front.size tag ↔
      ((scan .content front.size rest).take 2).map (fun t => (t.kind, t.lexeme)) =
        [(.endTagOpen, ['<', '/']), (.endTagName, tag.toList)] := by
  rw [EndTagFrom, scanFrom, Text.suffixAt?_size_append]
  exact Option.some_inj

theorem Text.endTagFrom_iff (front w : Text) (tag : String) :
    Text.EndTagFrom (front ++ '<' :: '/' :: (tag.toList ++ w)) front.size tag ↔
      TokenKind.endTagName.Writes tag.toList ∧ ∀ c ∈ w.head?, Token.isNameChar c = false := by
  rw [endTagFrom_append]
  generalize tag.toList = name
  have hopen : Token.next .content '<' ('/' :: (name ++ w)) =
      ⟨⟨.endTagOpen, ['<', '/'], none⟩, .afterEndTagOpen, name ++ w⟩ := rfl
  simp only [scan_cons, hopen, List.take_succ_cons, List.map_cons, Placed.kind, Placed.lexeme,
    List.cons.injEq, true_and]
  cases name with
  | nil =>
    refine iff_of_false (fun hscan => ?_) ?_
    · cases w with
      | nil => simp [scan] at hscan
      | cons c w =>
        rw [List.nil_append, scan_cons] at hscan
        simp [Token.next_lexeme_ne_nil] at hscan
    · rintro ⟨⟨c, cs, hnil, -⟩, -⟩
      cases hnil
  | cons d ds =>
    rw [List.cons_append, scan_cons, writes_endTagName_cons, Token.next]
    cases hd : Token.isNameStart d with
    | false => simp [Token.nextEndTagName_kind hd]
    | true => simp [Token.nextEndTagName, hd, Token.Step.run, takeWhile_append_eq_left]

-- ---------------------------------------------------------------------------
-- Writing an end tag
-- ---------------------------------------------------------------------------

/-- The indent of a line consists of the blanks right before the offset. -/
theorem of_lineIndent? (h : lineIndent? text offset = some indent) :
    (∃ front, text.upTo offset = front ++ indent) ∧ ∀ c ∈ indent, isBlank c = true := by
  have hparts (p : Char → Bool) : text.upTo offset =
      ((text.upTo offset).reverse.dropWhile p).reverse ++ ((text.upTo offset).reverse.takeWhile p).reverse := by
    rw [← List.reverse_append, List.takeWhile_append_dropWhile, List.reverse_reverse]
  have hblank : ∀ c ∈ ((text.upTo offset).reverse.takeWhile
      fun c => isBlank c && c ≠ '\n' && c ≠ '\r').reverse, isBlank c = true := by
    intro c hc
    have hc := List.all_eq_true.mp List.all_takeWhile c (List.mem_reverse.mp hc)
    simp only [Bool.and_eq_true] at hc
    exact hc.1.1
  rw [lineIndent?] at h
  split at h
  all_goals cases h
  all_goals exact ⟨⟨_, hparts _⟩, hblank⟩

theorem lineIndent?_eq_none (h : (text.upTo offset).getLast? = some '>') : lineIndent? text offset = none := by
  obtain ⟨front, hfront⟩ := List.getLast?_eq_some_iff.mp h
  rw [lineIndent?, hfront]
  simp [isBlank]

theorem Text.onward_of_suffixAt? (h : suffixAt? text offset = some rest) : text.onward offset = rest := by
  obtain ⟨front, rfl, rfl⟩ := eq_append_of_suffixAt? h
  exact onward_size_append front rest

theorem isNameChar_of_isBlank (h : isBlank c = true) : Token.isNameChar c = false := by
  simp only [isBlank, Bool.or_eq_true, decide_eq_true_eq] at h
  rcases h with (((rfl | rfl) | rfl) | rfl) | rfl <;> rfl

theorem head?_of_isFollowedBy (h : isFollowedBy text offset .endTag .endTagClose = .ok true) :
    ∀ c ∈ (text.onward offset).head?, Token.isNameChar c = false := by
  simp only [isFollowedBy, bind_eq_ok, pure_eq_ok] at h
  obtain ⟨ts, hts, hclose⟩ := h
  rw [scanFrom] at hts
  split at hts
  · next rest hrest =>
    cases hts
    rw [Text.onward_of_suffixAt? hrest]
    cases rest with
    | nil => simp
    | cons d tail =>
      rintro c ⟨⟩
      rw [scan_cons, Token.next, Token.nextEndTag] at hclose
      split at hclose
      · next hblank => exact isNameChar_of_isBlank hblank
      · split at hclose
        · next hd =>
          rw [hd]
          rfl
        · simp [Placed.kind] at hclose
  · cases hts

/-- The edited text has `</` with the name at the bracket, and the edit tells whether the name ends
there. -/
def Edit.Puts (e : Edit) (text : Text) (tag : String) : Prop :=
  ∃ front w, e.apply text = front ++ '<' :: '/' :: (tag.toList ++ w) ∧ e.bracket = front.size ∧
    (TokenKind.endTagName.Writes tag.toList →
      ((∀ c ∈ w.head?, Token.isNameChar c = false) ↔ ¬ (e.Reindents ∧ e.RunsOn text)))

theorem Edit.Puts.endTagFrom_iff {e : Edit} {text : Text} (h : e.Puts text tag) :
    (e.apply text).EndTagFrom e.bracket tag ↔
      TokenKind.endTagName.Writes tag.toList ∧ ¬ (e.Reindents ∧ e.RunsOn text) := by
  obtain ⟨front, w, happly, hbracket, hends⟩ := h
  rw [happly, hbracket, Text.endTagFrom_iff]
  exact and_congr_right hends

namespace Completion

variable {c : Completion} {front tail : Text} {start stop : Nat} {close : String}

/-- The name ends before the bracket. Without one it ends unless more of a name follows. -/
theorem ends_iff_of_closer {name w : Text} (hcloser : c.Closer stop close)
    (hname : TokenKind.endTagName.Writes name) (front : Text) :
    (∀ d ∈ (close.toList ++ w).head?, Token.isNameChar d = false) ↔
      ¬ ((front ++ name ++ close.toList).getLast? ≠ some '>' ∧
        w.head?.any Token.isNameChar = true) := by
  obtain ⟨followed, -, rfl⟩ := hcloser
  cases followed with
  | false => simp [Token.isNameChar, Char.isAlphanum]
  | true =>
    have hlast : (front ++ name).getLast? ≠ some '>' := by
      obtain ⟨d, ds, rfl, hd, hds⟩ := hname
      intro hlast
      rcases List.mem_cons.mp (Text.mem_of_getLast?_append (List.cons_ne_nil _ _) hlast) with rfl | hmem
      · cases hd
      · cases hds _ hmem
    rw [show String.toList (if true = true then "" else ">") = [] from rfl, List.nil_append,
      List.append_nil, and_iff_right hlast]
    cases w <;> simp

theorem edit_puts (htext : c.text = front ++ '<' :: tail) (hle : front.size + 1 ≤ c.cursor)
    (hcloser : c.Closer stop close) (tag : String) :
    (c.edit (front.size + 1) stop ("/" ++ tag ++ close)).Puts c.text tag := by
  have hfront : c.text.upTo (front.size + 1) = front ++ ['<'] := by
    have hcut : c.text = front ++ ['<'] ++ tail := by simp [htext]
    rw [hcut, show front.size + 1 = Text.size (front ++ ['<']) by rw [Text.size_append]; rfl,
      Text.upTo_size_append]
  refine ⟨front, close.toList ++ c.text.onward stop, ?_, ?_, fun _ => iff_of_true ?_ ?_⟩
  · rw [edit_apply hle, hfront]
    simp
  · simp [edit, Edit.bracket, Nat.min_eq_left hle]
  · obtain ⟨followed, hfollowed, rfl⟩ := hcloser
    cases followed with
    | true => exact head?_of_isFollowedBy hfollowed
    | false => simp [Token.isNameChar, Char.isAlphanum]
  · rintro ⟨hindent, -⟩
    exact hindent (by simp [edit])

theorem edit_indent_puts (htext : c.text = front ++ '<' :: tail) (hle : front.size + 1 ≤ c.cursor)
    (hcloser : c.Closer stop close) (tag : String) (hwanted : ∀ d ∈ wanted, isBlank d = true)
    (hwritten : lineIndent? c.text front.size = some written) :
    (c.edit (front.size - Text.size written) c.cursor
      (String.ofList wanted ++ "</" ++ tag ++ close)).Puts c.text tag := by
  obtain ⟨⟨line, hline⟩, -⟩ := of_lineIndent? hwritten
  rw [htext, Text.upTo_size_append] at hline
  subst hline
  have hstart : Text.size (line ++ written) - Text.size written = line.size := by
    rw [Text.size_append, Nat.add_sub_cancel]
  have hbefore : line.size ≤ c.cursor := by
    rw [Text.size_append] at hle
    omega
  have hline : c.text.upTo line.size = line := by
    rw [htext, List.append_assoc, Text.upTo_size_append]
  have hnew : (String.ofList wanted ++ "</" ++ tag ++ close).toList =
      wanted ++ ['<'] ++ '/' :: (tag.toList ++ close.toList) := by simp
  have hindent : ∀ d ∈ wanted ++ ['<'], d ≠ '/' := by
    intro d hd
    rcases List.mem_append.mp hd with hd | hd
    · rintro rfl
      exact absurd (hwanted _ hd) (by decide)
    · rw [List.mem_singleton.mp hd]
      decide
  rw [hstart]
  refine ⟨line ++ wanted, close.toList ++ c.text.onward c.cursor, ?_, ?_, fun hname => ?_⟩
  · rw [edit_apply hbefore, hline, hnew]
    simp
  · have hslash : (wanted ++ ['<'] ++ '/' :: (tag.toList ++ close.toList)).takeWhile (· ≠ '/') =
        wanted ++ ['<'] := takeWhile_append_eq_left.mpr ⟨by simpa using hindent, by simp⟩
    rw [edit, Edit.bracket, hnew, hslash, Nat.min_eq_left hbefore, ← Text.size_append,
      ← List.append_assoc, Text.size_append]
    rfl
  · have hreindents : (c.edit line.size c.cursor
        (String.ofList wanted ++ "</" ++ tag ++ close)).Reindents := by
      obtain ⟨d, more, hd⟩ := List.exists_cons_of_ne_nil (show wanted ++ ['<'] ≠ [] by simp)
      rw [Edit.Reindents, edit, hnew, hd]
      exact fun hslash => hindent d (by simp [hd]) (Option.some.inj hslash)
    rw [ends_iff_of_closer hcloser hname (wanted ++ ['<', '/']), and_iff_right hreindents, Edit.RunsOn,
      edit, hnew]
    simp

end Completion

-- ---------------------------------------------------------------------------
-- Where end tags are completed
-- ---------------------------------------------------------------------------

def TokenKind.beforeClosing : List TokenKind :=
  [.tagOpen, .endTagOpen, .endTagName, .blank]

theorem utf8Size_of_isNameStart {c : Char} (h : Token.isNameStart c = true) : c.utf8Size = 1 := by
  simp only [Token.isNameStart, Char.isAlphanum, Bool.or_eq_true, decide_eq_true_eq] at h
  rcases h with (rfl | rfl) | halpha | hdigit
  · rfl
  · rfl
  · exact utf8Size_of_isAlpha halpha
  · unfold Char.isDigit at hdigit
    have hrange : 48 ≤ c.val.toNat ∧ c.val.toNat ≤ 57 := by
      simpa [UInt32.le_iff_toNat_le] using hdigit
    rw [Char.utf8Size_eq_one_iff, UInt32.le_iff_toNat_le]
    show c.val.toNat ≤ 127
    omega

theorem exists_cons_of_beforeClosing (h : t ∈ tokens text) (hkind : t.kind ∈ TokenKind.beforeClosing) :
    ∃ d ds, t.lexeme = d :: ds ∧ d.utf8Size = 1 ∧ '>' ∉ t.lexeme := by
  have hwrites := writes_of_mem_scan h
  have hne : t.lexeme ≠ [] := fun hnil =>
    Nat.ne_of_gt (size_pos_of_mem_tokens h) (congrArg Text.size hnil)
  simp only [TokenKind.beforeClosing, List.mem_cons, List.not_mem_nil, or_false] at hkind
  rcases hkind with hkind | hkind | hkind | hkind
  all_goals rw [hkind] at hwrites
  · exact ⟨'<', [], hwrites, rfl, by rw [hwrites]; decide⟩
  · exact ⟨'<', ['/'], hwrites, rfl, by rw [hwrites]; decide⟩
  · obtain ⟨d, ds, hlexeme, hd, hds⟩ := hwrites
    refine ⟨d, ds, hlexeme, utf8Size_of_isNameStart hd, ?_⟩
    rw [hlexeme]
    intro hmem
    rcases List.mem_cons.mp hmem with rfl | hmem
    · cases hd
    · cases hds _ hmem
  · obtain ⟨d, ds, hlexeme⟩ := List.exists_cons_of_ne_nil hne
    refine ⟨d, ds, hlexeme, utf8Size_of_isBlank (hwrites d (by simp [hlexeme])), fun hmem => ?_⟩
    cases hwrites _ hmem

section
variable {text : Text} {before back : List Placed} {t : Placed} (h : tokens text = before ++ t :: back)
  (hlt : t.offset < cursor)
include h hlt

theorem ofBlank?_bracket (hkind : t.kind = .blank)
    (hsite : CompletionSite.ofBlank? cursor tag name t back = some site)
    (hclosing : site = .afterBracket start stop ∨ site = .endTag start stop) :
    ∃ x ∈ tokens text, x.kind.beginsTag = true ∧ start = x.offset + 1 ∧ x.offset < cursor := by
  rw [CompletionSite.ofBlank?] at hsite
  cases hstate : t.state with
  | afterTagOpen =>
    simp only [hstate, Option.some.injEq] at hsite
    obtain ⟨rfl, -⟩ : t.offset = start ∧ _ = stop := by simpa [← hsite] using hclosing
    obtain ⟨x, hx, hopener, hoffset⟩ := blank_follows_opener h hkind (by rw [hstate]; rfl) (by simp)
    have hstop : x.stop = x.offset + 1 := stop_of_bracket (w := ['<']) hx (by rw [hopener]; rfl)
    exact ⟨x, hx, by rw [hopener]; rfl, hoffset.trans hstop, by omega⟩
  | afterEndTagOpen =>
    simp only [hstate, Option.some.injEq] at hsite
    obtain ⟨rfl, -⟩ : t.offset - 1 = start ∧ _ = stop := by simpa [← hsite] using hclosing
    obtain ⟨x, hx, hopener, hoffset⟩ := blank_follows_opener h hkind (by rw [hstate]; rfl) (by simp)
    have hstop : x.stop = x.offset + 2 := stop_of_bracket (w := ['<', '/']) hx (by rw [hopener]; rfl)
    exact ⟨x, hx, by rw [hopener]; rfl, by omega, by omega⟩
  | tag | afterAttributeName | beforeAttributeValue | content =>
    simp only [hstate, Option.some.injEq] at hsite
    subst hsite
    simp at hclosing
  | _ => simp [hstate] at hsite

/-- The token at the cursor leads back to the bracket of its tag. -/
theorem ofToken?_bracket (hsite : CompletionSite.ofToken? text cursor tag name t back = some site)
    (hclosing : site = .afterBracket start stop ∨ site = .endTag start stop) :
    t.kind ∈ TokenKind.beforeClosing ∧
      ∃ x ∈ tokens text, x.kind.beginsTag = true ∧ start = x.offset + 1 ∧ x.offset < cursor := by
  have hmem : t ∈ tokens text := by rw [h]; simp
  rw [CompletionSite.ofToken?] at hsite
  cases hkind : t.kind with
  | tagOpen =>
    simp only [hkind, Option.ite_none_right_eq_some, Option.some.injEq] at hsite
    obtain ⟨hstop, hsite⟩ := hsite
    obtain ⟨rfl, -⟩ : cursor = start ∧ _ = stop := by simpa [← hsite] using hclosing
    have hend : t.stop = t.offset + 1 := stop_of_bracket (w := ['<']) hmem (by rw [hkind]; rfl)
    exact ⟨by simp [TokenKind.beforeClosing], t, hmem, by rw [hkind]; rfl, hstop.symm.trans hend, hlt⟩
  | endTagOpen =>
    simp only [hkind, Option.some.injEq] at hsite
    obtain ⟨rfl, -⟩ : t.offset + 1 = start ∧ _ = stop := by simpa [← hsite] using hclosing
    exact ⟨by simp [TokenKind.beforeClosing], t, hmem, by rw [hkind]; rfl, rfl, hlt⟩
  | endTagName =>
    obtain ⟨x, hx, hopener, hbefore, hslash⟩ := CompletionSite.slashBefore?_eq h hkind
    simp only [hkind, hslash, Option.map_some, Option.some.injEq] at hsite
    obtain ⟨rfl, -⟩ : x.offset + 1 = start ∧ _ = stop := by simpa [← hsite] using hclosing
    have hpos := size_pos_of_mem_tokens hx
    rw [Placed.stop] at hbefore
    exact ⟨by simp [TokenKind.beforeClosing], x, hx, by rw [hopener]; rfl, rfl, by omega⟩
  | blank =>
    simp only [hkind] at hsite
    exact ⟨by simp [TokenKind.beforeClosing], ofBlank?_bracket h hlt hkind hsite hclosing⟩
  | assign =>
    simp only [hkind, Option.ite_none_right_eq_some, Option.some.injEq] at hsite
    obtain ⟨-, rfl⟩ := hsite
    simp at hclosing
  | tagClose =>
    simp only [hkind, Option.ite_none_left_eq_some, Option.some.injEq] at hsite
    obtain ⟨-, rfl⟩ := hsite
    simp at hclosing
  | _ =>
    simp only [hkind, Option.some.injEq] at hsite
    subst hsite
    simp at hclosing

theorem getLast?_upTo_ne (hle : cursor ≤ t.stop) (hkind : t.kind ∈ TokenKind.beforeClosing) :
    (text.upTo cursor).getLast? ≠ some '>' := by
  have hmem : t ∈ tokens text := by rw [h]; simp
  obtain ⟨d, ds, hlexeme, hd, hplain⟩ := exists_cons_of_beforeClosing hmem hkind
  obtain ⟨front, rest, htext, hoffset⟩ := exists_append_of_mem_tokens hmem
  have hsize : Text.size (front ++ [d]) = t.offset + 1 := by
    rw [Text.size_append, hoffset, Text.size_cons, hd]
    rfl
  have hstop : t.stop = Text.size (front ++ [d] ++ ds) := by
    rw [← List.append_cons, ← hlexeme, Text.size_append, hoffset]
    rfl
  have htext : text = front ++ [d] ++ ds ++ rest := by rw [htext, hlexeme]; simp
  obtain ⟨x, y, hds, hx, -⟩ := Text.exists_cut (Nat.le_trans (Nat.le_of_eq hsize) hlt)
    (Nat.le_trans hle (Nat.le_of_eq hstop)) rest
  rw [← htext] at hx
  rw [hx, ← List.append_cons]
  intro hlast
  have hin : '>' ∈ d :: x := Text.mem_of_getLast?_append (List.cons_ne_nil d x) hlast
  refine hplain ?_
  rw [hlexeme, hds]
  exact List.mem_append_left y hin

end

-- ---------------------------------------------------------------------------
-- Items for end tags
-- ---------------------------------------------------------------------------

theorem writes_of_mem_elements {text : Text} (he : e ∈ (Document.parse text).elements)
    (htag : e.tag = some tag) : TokenKind.endTagName.Writes tag.toList := by
  have hmem : e.startTag ∈ startTags 0 (tokens text) := by
    rw [← elements_map_startTag]
    exact List.mem_map_of_mem he
  obtain ⟨before, p, rest, htokens, -, hread⟩ := exists_of_mem_startTags hmem
  have hname := StartTag.foldl_read_tag
    { id := 0 + before.countP (·.kind = .tagOpen) + 1, start := p.offset } (rest.takeWhile (·.kind ≠ .tagOpen))
  rw [← hread, Option.or_none] at hname
  have hname : (lastOf? .tagName (rest.takeWhile (·.kind ≠ .tagOpen))).map
      (fun p => String.ofList p.lexeme) = some tag := hname.symm.trans htag
  obtain ⟨x, hlast, rfl⟩ := Option.map_eq_some_iff.mp hname
  obtain ⟨hx, hkind⟩ := List.mem_filter.mp (List.mem_of_getLast? hlast)
  have hmem : x ∈ tokens text := by
    rw [htokens]
    exact List.mem_append_right _ (List.mem_cons_of_mem _ ((List.takeWhile_sublist _).mem hx))
  have hwrites := writes_of_mem_scan hmem
  rw [of_decide_eq_true hkind] at hwrites
  rw [String.toList_ofList]
  exact hwrites

def Completion.Makes (c : Completion) (tag : String) (start stop : Nat) (close : String)
    (item : CompletionItem) : Prop :=
  (∃ e ∈ c.element :: c.above, e.tag = some tag ∧ item = c.closing e tag start stop close) ∨
    ∃ component ∈ c.schema.components, component.name = tag ∧ item = c.endTag start stop close component

theorem Completion.of_closesTag {c : Completion} {offered : List CompletionItem}
    (h : c.items site = .ok offered) (hitem : item ∈ offered) (hcloses : item.ClosesTag tag) :
    ∃ start stop close, (site = .afterBracket start stop ∨ site = .endTag start stop) ∧
      c.Closer stop close ∧ c.Makes tag start stop close item := by
  obtain ⟨hkind, hlabel, hfilter⟩ := hcloses
  have hoffers := offers_of_mem h hitem
  cases site with
  | afterBracket start stop =>
    simp only [items, tags, bind_eq_ok, pure_eq_ok] at h
    obtain ⟨found, hfound, rfl⟩ := h
    rcases List.mem_append.mp hitem with hitem | hitem
    · obtain ⟨component, -, rfl⟩ := List.mem_map.mp hitem
      exact absurd rfl hfilter
    · obtain rfl := Option.mem_toList.mp hitem
      rcases closingTag?_cases hfound with hnone | ⟨e, he, tag', close, htag, -, hcloser, hclosing⟩
      · cases hnone
      · obtain rfl := Option.some.inj hclosing
        rw [closing_label, String.append_right_inj] at hlabel
        subst hlabel
        exact ⟨start, stop, close, .inl rfl, hcloser,
          .inl ⟨e, List.mem_cons_of_mem _ he, htag, rfl⟩⟩
  | endTag start stop =>
    simp only [items, closingTags, bind_eq_ok] at h
    obtain ⟨found, hfound, h⟩ := h
    rcases closingTag?_cases hfound with rfl | ⟨e, he, tag', close, htag, -, hcloser, rfl⟩
    · obtain ⟨close, hcloser, rfl⟩ := anyClosingTag_eq h
      obtain ⟨component, hcomponent, rfl⟩ := List.mem_map.mp hitem
      exact ⟨start, stop, close, .inr rfl, hcloser,
        .inr ⟨component, hcomponent, (String.append_right_inj _).mp hlabel, rfl⟩⟩
    · obtain rfl := pure_eq_ok.mp h
      obtain rfl := List.mem_singleton.mp hitem
      rw [closing_label, String.append_right_inj] at hlabel
      subst hlabel
      exact ⟨start, stop, close, .inr rfl, hcloser, .inl ⟨e, he, htag, rfl⟩⟩
  | afterStartTag offset name =>
    cases hoffers
    exact absurd hlabel.symm (slash_ne_bracket _ _)
  | tagName =>
    cases hoffers
    exact absurd rfl hfilter
  | nothing => cases hoffers
  | attributeName | attributeValue | content =>
    cases hoffers
    cases hkind

namespace Completion

variable {c : Completion} {item : CompletionItem} {stop : Nat} {tag close : String} {front tail : Text}

/-- Only the schema has names that no element can have. -/
theorem Makes.writes_iff {text : Text} (h : c.Makes tag start stop close item)
    (helements : ∀ e ∈ c.element :: c.above, e ∈ (Document.parse text).elements) :
    (tag ∈ c.schema.components.map Component.name → TokenKind.endTagName.Writes tag.toList) ↔
      TokenKind.endTagName.Writes tag.toList := by
  rcases h with ⟨e, he, htag, -⟩ | ⟨component, hcomponent, rfl, -⟩
  · have hwrites := writes_of_mem_elements (helements e he) htag
    exact iff_of_true (fun _ => hwrites) hwrites
  · exact imp_iff_right (List.mem_map_of_mem hcomponent)

theorem Makes.puts (h : c.Makes tag (front.size + 1) stop close item) (htext : c.text = front ++ '<' :: tail)
    (hle : front.size + 1 ≤ c.cursor) (hcloser : c.Closer stop close) : item.edit.Puts c.text tag := by
  rcases h with ⟨e, -, -, rfl⟩ | ⟨component, -, rfl, rfl⟩
  · rcases c.closing_edit e tag (front.size + 1) stop close with
      hedit | ⟨wanted, written, hwanted, hwritten, hedit⟩
    · rw [hedit]
      exact edit_puts htext hle hcloser tag
    · rw [hedit]
      exact edit_indent_puts htext hle hcloser tag (of_lineIndent? hwanted).2 hwritten
  · exact edit_puts htext hle hcloser component.name

theorem Makes.edit_eq (h : c.Makes tag (c.cursor + 1) stop close item)
    (hlast : (c.text.upTo c.cursor).getLast? = some '>') :
    item.edit = c.edit (c.cursor + 1) stop ("/" ++ tag ++ close) := by
  rcases h with ⟨e, -, -, rfl⟩ | ⟨component, -, rfl, rfl⟩
  · refine (c.closing_edit e tag (c.cursor + 1) stop close).resolve_right ?_
    rintro ⟨wanted, written, -, hwritten, -⟩
    rw [Nat.add_sub_cancel, lineIndent?_eq_none hlast] at hwritten
    cases hwritten
  · rfl

/-- There the new text follows the wrong bracket. -/
theorem edit_misses (hfront : c.text.upTo c.cursor = front ++ ['>'])
    (hcursor : Text.size (front ++ ['>']) = c.cursor) :
    ¬ ((c.edit (c.cursor + 1) c.cursor ("/" ++ tag ++ close)).apply c.text).EndTagFrom
      (c.edit (c.cursor + 1) c.cursor ("/" ++ tag ++ close)).bracket tag := by
  have hnew : ("/" ++ tag ++ close).toList = '/' :: (tag.toList ++ close.toList) := by simp
  have happly : (c.edit (c.cursor + 1) c.cursor ("/" ++ tag ++ close)).apply c.text =
      front ++ '>' :: '/' :: (tag.toList ++ close.toList ++ c.text.onward c.cursor) := by
    rw [edit, Edit.apply, Nat.min_eq_right (Nat.le_succ _), hfront, hnew]
    simp
  have hbracket : (c.edit (c.cursor + 1) c.cursor ("/" ++ tag ++ close)).bracket = front.size := by
    rw [edit, Edit.bracket, Nat.min_eq_right (Nat.le_succ _), hnew, ← hcursor, Text.size_append]
    rfl
  rw [happly, hbracket, Text.endTagFrom_append, scan_cons]
  simp [Token.next, Token.nextContent, Token.Step.run, Placed.kind]

end Completion

theorem exists_bracket (h : x ∈ tokens text) (hkind : x.kind.beginsTag = true) :
    ∃ front tail, text = front ++ '<' :: tail ∧ Text.size front = x.offset := by
  obtain ⟨front, rest, htext, hoffset⟩ := exists_append_of_mem_tokens h
  have hwrites := writes_of_mem_scan h
  have hlexeme : ∃ w, x.lexeme = '<' :: w := by
    cases hx : x.kind with
    | tagOpen | endTagOpen =>
      rw [hx] at hwrites
      exact ⟨_, hwrites⟩
    | _ =>
      rw [hx] at hkind
      cases hkind
  obtain ⟨w, hw⟩ := hlexeme
  exact ⟨front, w ++ rest, by rw [htext, hw]; simp, hoffset⟩

/-- Accepting the item for an end tag writes that tag, with three exceptions: the name, which may come
from the schema, cannot be read as one; the cursor is right after the end of a start tag; the edit also
changes the indent of the line, and more of a name follows the cursor with a bracket after it. -/
theorem closing_writes_iff {text : Text} {cursor : Nat} (hle : cursor ≤ text.size) (s : Schema)
    (options : CompletionOptions) :
    ∃ items, (Document.parse text).completions s options cursor = .ok items ∧
      ∀ item ∈ items, ∀ tag, item.ClosesTag tag →
        ((item.edit.apply text).EndTagFrom item.edit.bracket tag ↔
          (tag ∈ s.components.map Component.name → TokenKind.endTagName.Writes tag.toList) ∧
          (text.upTo cursor).getLast? ≠ some '>' ∧
          ¬ (item.edit.Reindents ∧ item.edit.RunsOn text)) := by
  obtain ⟨items, hitems⟩ := completions_ok hle s options
  refine ⟨items, hitems, fun item hitem tag hcloses => ?_⟩
  rcases Document.of_completions hitems with ⟨-, rfl⟩ | ⟨e, above, ts, hchain, hscan, hoffered⟩
  · cases hitem
  obtain ⟨start, stop, close, hsite, hcloser, hmade⟩ := Completion.of_closesTag hoffered hitem hcloses
  have hsite : CompletionSite.ofTokens text cursor [] [] ts = .afterBracket start stop ∨
      CompletionSite.ofTokens text cursor [] [] ts = .endTag start stop := hsite
  have hnames := hmade.writes_iff fun e he => mem_elements_of_chainBefore hchain he
  rcases exists_token_at hchain hscan with hnothing | ⟨before, t, back, htokens, hlt, hreach⟩
  · simp [hnothing] at hsite
  obtain ⟨_, _, -, -, hdecided | hnothing | ⟨hclose, hlater⟩⟩ := site_at hchain hscan htokens hlt hreach
  · obtain ⟨hkind, x, hx, hbegins, rfl, hbefore⟩ := ofToken?_bracket htokens hlt hdecided hsite
    obtain ⟨front, tail, htext, hoffset⟩ := exists_bracket hx hbegins
    rw [← hoffset] at hbefore hmade
    have hputs : item.edit.Puts text tag := hmade.puts htext hbefore hcloser
    have hlast := getLast?_upTo_ne htokens hlt hreach hkind
    rw [hputs.endTagFrom_iff, hnames, and_iff_right hlast]
  · simp [hnothing] at hsite
  · obtain ⟨front, hfront, hcursor⟩ :=
      upTo_of_tagClose (show t ∈ tokens text by rw [htokens]; simp) hclose hlt hreach
    have hlast : (text.upTo cursor).getLast? = some '>' := by rw [hfront, List.getLast?_concat]
    refine iff_of_false ?_ fun hwritten => hwritten.2.1 hlast
    obtain ⟨hstart, hstop⟩ : cursor + 1 = start ∧ cursor = stop := by
      rcases hlater with hlater | hlater
      · simp [hlater] at hsite
      · simpa [hlater] using hsite
    rw [← hstart, ← hstop] at hmade
    rw [hmade.edit_eq hlast]
    exact Completion.edit_misses hfront hcursor

def outdentedPage : Text :=
  "  <view>é\n</vi>".toList

theorem closing_writes_iff_outdentedPage :
    ∃ items item, (Document.parse outdentedPage).completions Schema.bundled {} 15 = .ok items ∧
      item ∈ items ∧ item.ClosesTag "view" ∧ item.edit.Reindents ∧
      (item.edit.apply outdentedPage).EndTagFrom item.edit.bracket "view" := by
  obtain ⟨items, hitems, hwritten⟩ :=
    closing_writes_iff (show 15 ≤ outdentedPage.size by decide) Schema.bundled {}
  have hany : ((Document.parse outdentedPage).completions Schema.bundled {} 15).toOption.any
      (·.any fun item => item.ClosesTag "view" ∧ item.edit.Reindents ∧ ¬ item.edit.RunsOn outdentedPage) =
        true := by decide +kernel
  rw [hitems] at hany
  obtain ⟨item, hitem, hholds⟩ := List.any_eq_true.mp hany
  obtain ⟨hcloses, hindent, hends⟩ := of_decide_eq_true hholds
  refine ⟨items, item, hitems, hitem, hcloses, hindent, (hwritten item hitem "view" hcloses).mpr ?_⟩
  refine ⟨fun _ => ⟨'v', ['i', 'e', 'w'], rfl, rfl, List.all_eq_true.mp rfl⟩, by decide, fun hruns => ?_⟩
  exact hends hruns.2

def indentedPage : Text :=
  "<view>\n  </vi>".toList

/-- What is left of the name after the cursor becomes part of the new one. -/
theorem indentedPage_writes_other :
    ((Document.parse indentedPage).completions Schema.bundled {} 12).toOption.any (·.any fun item =>
      item.ClosesTag "view" ∧ String.ofList (item.edit.apply indentedPage) = "<view>\n</viewi>" ∧
      ¬ (item.edit.apply indentedPage).EndTagFrom item.edit.bracket "view") = true := by
  decide +kernel

end PageMarkup
