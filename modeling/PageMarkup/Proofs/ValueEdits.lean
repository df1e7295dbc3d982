import PageMarkup.Proofs.CompletionKinds
import PageMarkup.Proofs.Continuations

/-!
# Completing a value

A value in quotes is completed inside them: the word at the cursor is replaced, and what is between it
and the quotes stays. But where the cursor is right after the closing quote, the edit takes that quote
for a part of the word and removes it, so the value goes on to the next quote in the text, or to the
end of the text (`value_keepsQuotes_iff`).
-/

namespace PageMarkup

-- ---------------------------------------------------------------------------
-- Edits of a text
-- ---------------------------------------------------------------------------

namespace Text

theorem onward_size_append (front rest : Text) : onward (front ++ rest) (size front) = rest := by
  have hcut := upTo_append_onward (front ++ rest) (size front)
  rw [upTo_size_append] at hcut
  exact List.append_cancel_left hcut

theorem exists_cut {u v : Text} (hle : size u ≤ n) (hlt : n ≤ size (u ++ v)) (w : Text) :
    ∃ x y, v = x ++ y ∧ upTo (u ++ v ++ w) n = u ++ x ∧ onward (u ++ v ++ w) n = y ++ w := by
  have hfirst := upTo_isPrefix (u ++ v ++ w) hle
  have hlast := upTo_isPrefix (u ++ v ++ w) hlt
  rw [List.append_assoc, upTo_size_append, ← List.append_assoc] at hfirst
  rw [upTo_size_append] at hlast
  obtain ⟨x, hx⟩ := hfirst
  rw [← hx] at hlast
  obtain ⟨y, rfl⟩ := (List.prefix_append_right_inj u).mp hlast
  refine ⟨x, y, rfl, hx.symm, ?_⟩
  have hcut := upTo_append_onward (u ++ (x ++ y) ++ w) n
  rw [← hx] at hcut
  exact List.append_cancel_left (hcut.trans (by simp))

variable {p : Char → Bool} {cs : Text} {offset limit : Nat}

theorem le_runStart (h : limit ≤ offset) : limit ≤ cs.runStart p offset limit :=
  Nat.le_min.mpr ⟨h, Nat.le_max_left _ _⟩

theorem runStart_le : cs.runStart p offset limit ≤ offset :=
  Nat.min_le_left _ _

theorem le_runStop : offset ≤ cs.runStop p offset limit :=
  Nat.le_max_left _ _

theorem runStop_le (h : offset ≤ limit) : cs.runStop p offset limit ≤ limit :=
  Nat.max_le.mpr ⟨h, Nat.min_le_left _ _⟩

theorem runStop_eq (h : limit ≤ offset) : cs.runStop p offset limit = offset :=
  Nat.max_eq_left (Nat.le_trans (Nat.min_le_left _ _) h)

theorem runStart_le_size {front : Text} (hc : p c = true) (hlimit : limit ≤ size front) (rest : Text) :
    runStart p (front ++ [c] ++ rest) (size (front ++ [c])) limit ≤ size front := by
  have hrun : size front + c.utf8Size - size ((c :: front.reverse).takeWhile p) ≤ size front := by
    rw [List.takeWhile_cons_of_pos hc, size_cons]
    omega
  refine Nat.le_trans (Nat.min_le_right _ _) (Nat.max_le.mpr ⟨hlimit, ?_⟩)
  rw [upTo_size_append, List.reverse_append, size_append]
  exact hrun

end Text

-- ---------------------------------------------------------------------------
-- Values in quotes
-- ---------------------------------------------------------------------------

def Placed.IsQuoted (q : Char) (t : Placed) : Prop :=
  t.kind = .attributeValue ∧ (q = '"' ∨ q = '\'') ∧ t.lexeme.head? = some q

def Placed.IsClosed (q : Char) (t : Placed) : Prop :=
  1 < t.lexeme.length ∧ t.lexeme.getLast? = some q

instance (q : Char) (t : Placed) : Decidable (t.IsQuoted q) :=
  inferInstanceAs (Decidable (_ ∧ _))

instance (q : Char) (t : Placed) : Decidable (t.IsClosed q) :=
  inferInstanceAs (Decidable (_ ∧ _))

/-- The token is what a value with the quote `q` before the text `cs` comes to. -/
def Placed.Quotes (q : Char) (cs : Text) (t : Placed) : Prop :=
  t.kind = .attributeValue ∧
    (q ∉ cs ∧ t.lexeme = q :: cs ∨
      ∃ body rest, cs = body ++ q :: rest ∧ q ∉ body ∧ t.lexeme = q :: body ++ [q])

namespace Placed.Quotes

variable {q : Char} {cs : Text} {t : Placed}

theorem isQuoted (h : t.Quotes q cs) (hq : q = '"' ∨ q = '\'') : t.IsQuoted q := by
  obtain ⟨hkind, ⟨-, hlexeme⟩ | ⟨body, rest, -, -, hlexeme⟩⟩ := h
  · exact ⟨hkind, hq, by rw [hlexeme]; rfl⟩
  · exact ⟨hkind, hq, by rw [hlexeme]; rfl⟩

theorem isClosed_iff (h : t.Quotes q cs) : t.IsClosed q ↔ q ∈ cs := by
  obtain ⟨-, ⟨hnone, hlexeme⟩ | ⟨body, rest, rfl, -, hlexeme⟩⟩ := h
  · rw [IsClosed, hlexeme]
    refine iff_of_false (fun ⟨hlength, hlast⟩ => hnone ?_) hnone
    obtain ⟨d, cs, rfl⟩ := List.exists_cons_of_ne_nil (List.ne_nil_of_length_pos (Nat.lt_of_succ_lt_succ hlength))
    rw [List.getLast?_cons_cons] at hlast
    exact List.mem_of_getLast? hlast
  · rw [IsClosed, hlexeme]
    exact iff_of_true ⟨by simp, List.getLast?_concat⟩ (by simp)

theorem isInfix {x label y : Text} (h : t.Quotes q (x ++ label ++ y)) (hx : q ∉ x ++ label) :
    label <:+: t.lexeme := by
  obtain ⟨-, ⟨-, hlexeme⟩ | ⟨body, rest, hcut, -, hlexeme⟩⟩ := h
  · exact ⟨q :: x, y, by rw [hlexeme]; simp⟩
  · obtain ⟨more, rfl, -⟩ | ⟨_ | ⟨d, more⟩, hmore, hrest⟩ := List.append_eq_append_iff.mp hcut
    · exact ⟨q :: x, more ++ [q], by rw [hlexeme]; simp⟩
    · exact ⟨q :: x, [q], by rw [hlexeme, ← List.append_nil body, ← hmore]; simp⟩
    · obtain ⟨rfl, -⟩ := List.cons.inj hrest
      exact absurd (hmore ▸ List.mem_append_right _ List.mem_cons_self) hx

end Placed.Quotes

theorem Token.next_quote (hq : q = '"' ∨ q = '\'') (context : TagContext) (cs : Text) :
    next (.beforeAttributeValue context) q cs = nextQuoted { context with afterBlank := false } q cs := by
  rcases hq with rfl | rfl <;> rfl

theorem size_append_quote (hq : q = '"' ∨ q = '\'') (front : Text) :
    Text.size (front ++ [q]) = front.size + 1 := by
  rw [Text.size_append]
  rcases hq with rfl | rfl <;> rfl

theorem isDelimiter_of_quote (hq : q = '"' ∨ q = '\'') : isDelimiter q = true := by
  rcases hq with rfl | rfl <;> rfl

theorem exists_scan_quote (hq : q = '"' ∨ q = '\'') (context : TagContext) (offset : Nat) (cs : Text) :
    ∃ t back, scan (.beforeAttributeValue context) offset (q :: cs) = t :: back ∧ t.offset = offset ∧
      t.Quotes q cs := by
  rw [scan_cons, Token.next_quote hq]
  refine ⟨_, _, rfl, rfl, ?_⟩
  rcases Token.nextQuoted_cases { context with afterBlank := false } q cs with
    ⟨hnone, hstep⟩ | ⟨body, rest, hcut, hbody, hstep⟩
  · rw [hstep]
    exact ⟨rfl, .inl ⟨hnone, rfl⟩⟩
  · rw [hstep]
    exact ⟨rfl, .inr ⟨body, rest, hcut, hbody, rfl⟩⟩

theorem eq_of_offset_eq (h : tokens text = before ++ t :: back) (hp : p ∈ tokens text)
    (hoffset : p.offset = t.offset) : p = t := by
  have hpos : 0 < p.token.size := size_pos_of_mem_tokens hp
  have hpos' : 0 < t.token.size := size_pos_of_mem_tokens (by rw [h]; simp)
  rw [h] at hp
  rcases List.mem_append.mp hp with hp | hp
  · have hle := stop_le_of_mem_before h hp
    rw [Placed.stop] at hle
    omega
  · rcases List.mem_cons.mp hp with rfl | hp
    · rfl
    · have hle := stop_le_offset h hp
      rw [Placed.stop] at hle
      omega

theorem exists_cons_of_offset_eq (h : tokens text = before ++ t :: back) (hp : p ∈ tokens text)
    (hoffset : p.offset = t.stop) : ∃ rest, back = p :: rest := by
  cases back with
  | nil =>
    have hend : t.stop = text.size := by
      have hfinal := finalOffset_scan .content 0 text
      rw [← tokens, h, finalOffset_concat, Nat.zero_add] at hfinal
      exact hfinal
    have hpos : 0 < p.token.size := size_pos_of_mem_tokens hp
    have hle := stop_le_of_mem_tokens hp
    rw [Placed.stop] at hle
    omega
  | cons q rest =>
    have hq : tokens text = (before ++ [t]) ++ q :: rest := by simpa using h
    obtain rfl := eq_of_offset_eq hq hp (hoffset.trans (reads_next h).2.symm)
    exact ⟨rest, rfl⟩

theorem stop_eq_size (h : tokens text = before ++ t :: back) :
    t.stop = Text.size (before.flatMap Placed.lexeme ++ t.lexeme) := by
  rw [Placed.stop, offset_eq_size h, Text.size_append]
  rfl

theorem exists_next_onward (h : tokens text = before ++ t :: back) :
    ∃ c cs, t.token = (Token.next (finalState .content before) c cs).token ∧
      t.state = (Token.next (finalState .content before) c cs).state ∧
      text.onward t.stop = (Token.next (finalState .content before) c cs).rest ∧
      back = scan t.state t.stop (text.onward t.stop) := by
  obtain ⟨tail, htext, hscan⟩ := exists_scan_onward h
  obtain ⟨c, cs, rfl, ht, hback⟩ := scan_eq_cons hscan.symm
  have htoken : t.token = (Token.next (finalState .content before) c cs).token := by rw [ht]
  have honward : text.onward t.stop = (Token.next (finalState .content before) c cs).rest := by
    rw [htext, ← Token.next_lexeme_append_rest (finalState .content before) c cs, ← htoken,
      ← List.append_assoc, stop_eq_size h]
    exact Text.onward_size_append _ _
  exact ⟨c, cs, htoken, by rw [ht], honward, honward ▸ hback⟩

theorem upTo_stop (h : tokens text = before ++ t :: back) :
    text.upTo t.stop = before.flatMap Placed.lexeme ++ t.lexeme := by
  obtain ⟨tail, htext, -⟩ := exists_scan_onward (show scan .content 0 text = (before ++ [t]) ++ back by
    simpa [tokens] using h)
  rw [stop_eq_size h, htext, List.flatMap_append, List.flatMap_singleton]
  exact Text.upTo_size_append _ tail

section
variable {text : Text} {before back : List Placed} {t : Placed} {q : Char}
  (htokens : tokens text = before ++ t :: back) (hquoted : t.IsQuoted q)
include htokens hquoted

theorem Placed.IsQuoted.exists_text :
    ∃ context cs, finalState .content before = .beforeAttributeValue context ∧
      text = before.flatMap Placed.lexeme ++ q :: cs ∧ t.Quotes q cs := by
  obtain ⟨hkind, hq, hhead⟩ := hquoted
  obtain ⟨tail, hcut, hscan⟩ := exists_scan_onward htokens
  obtain ⟨c, cs, rfl, ht, -⟩ := scan_eq_cons hscan.symm
  rw [ht] at hkind hhead
  obtain ⟨context, hstate, -⟩ := Token.next_value hkind
  have hc := Token.next_lexeme_append_rest (finalState .content before) c cs
  obtain ⟨w, hw⟩ := List.head?_eq_some_iff.mp hhead
  rw [show (Token.next (finalState .content before) c cs).token.lexeme = q :: w from hw] at hc
  obtain ⟨rfl, -⟩ := List.cons.inj hc
  refine ⟨context, cs, hstate, hcut, ?_⟩
  obtain ⟨t', back', hscan', -, hquotes⟩ := exists_scan_quote hq context (finalOffset 0 before) cs
  rw [hstate, hscan'] at hscan
  obtain ⟨rfl, -⟩ := List.cons.inj hscan
  exact hquotes

/-- A text that differs only after the quote has a value at the same place. -/
theorem Placed.IsQuoted.exists_rewritten (new : Text) :
    ∃ t' back', tokens (before.flatMap Placed.lexeme ++ q :: new) = before ++ t' :: back' ∧
      t'.offset = t.offset ∧ t'.Quotes q new := by
  obtain ⟨context, cs, hstate, rfl, -⟩ := hquoted.exists_text htokens
  have hscan := scan_delimiter (isDelimiter_of_quote hquoted.2.1) htokens rfl new
  obtain ⟨t', back', hscan', hoffset, hquotes⟩ :=
    exists_scan_quote hquoted.2.1 context (0 + Text.size (before.flatMap Placed.lexeme)) new
  rw [hstate, hscan'] at hscan
  refine ⟨t', back', hscan, ?_, hquotes⟩
  rw [hoffset, offset_eq_size htokens, Nat.zero_add]

end

/-- In the edited text, a value in the same quotes stands at the place of `t` and has the label in it.
It is closed if `t` is. -/
def CompletionItem.KeepsQuotes (text : Text) (q : Char) (t : Placed) (item : CompletionItem) : Prop :=
  ∃ t' ∈ tokens (item.edit.apply text), t'.offset = t.offset ∧ t'.IsQuoted q ∧
    (t.IsClosed q → t'.IsClosed q) ∧ item.label.toList <:+: t'.lexeme

instance (text : Text) (q : Char) (t : Placed) (item : CompletionItem) :
    Decidable (item.KeepsQuotes text q t) :=
  inferInstanceAs (Decidable (∃ t' ∈ tokens (item.edit.apply text), _))

theorem CompletionItem.keepsQuotes_iff {item : CompletionItem} {text x y cs : Text} {q : Char}
    {before back : List Placed} {t : Placed}
    (htokens : tokens text = before ++ t :: back) (hquoted : t.IsQuoted q) (hquotes : t.Quotes q cs)
    (hedit : item.edit.apply text = before.flatMap Placed.lexeme ++ q :: (x ++ item.label.toList ++ y))
    (hx : q ∉ x ++ item.label.toList) :
    item.KeepsQuotes text q t ↔ (q ∈ cs → q ∈ y) := by
  obtain ⟨t', back', htokens', hoffset, hquotes'⟩ :=
    hquoted.exists_rewritten htokens (x ++ item.label.toList ++ y)
  have hclosed : t'.IsClosed q ↔ q ∈ y := by
    rw [hquotes'.isClosed_iff, List.mem_append]
    exact or_iff_right hx
  rw [KeepsQuotes, hedit, hquotes.isClosed_iff]
  constructor
  · rintro ⟨p, hp, hp', -, hkept, -⟩ hmem
    obtain rfl := eq_of_offset_eq htokens' hp (hp'.trans hoffset.symm)
    exact hclosed.mp (hkept hmem)
  · intro hkept
    have hmem : t' ∈ tokens (before.flatMap Placed.lexeme ++ q :: (x ++ item.label.toList ++ y)) := by
      rw [htokens']
      simp
    exact ⟨t', hmem, hoffset, hquotes'.isQuoted hquoted.2.1, fun h => hclosed.mpr (hkept h),
      hquotes'.isInfix hx⟩

-- ---------------------------------------------------------------------------
-- Items for values
-- ---------------------------------------------------------------------------

namespace Completion

variable {c : Completion} {q : Char} {front body cs rest : Text}

theorem edit_apply (h : start ≤ c.cursor) (stop : Nat) (new : String) (text : Text) :
    (c.edit start stop new).apply text = text.upTo start ++ new.toList ++ text.onward stop := by
  rw [edit, Edit.apply, Nat.min_eq_left h]

theorem valueEdit_apply (htext : c.text = front ++ q :: cs) (hq : q = '"' ∨ q = '\'')
    (hlt : front.size < c.cursor) (hle : c.cursor ≤ stop) (value : String) :
    (c.valueEdit front.size stop value).apply c.text =
      c.text.upTo (c.text.runStart (!isBlank ·) c.cursor (Text.size (front ++ [q]))) ++ value.toList ++
        c.text.onward (c.text.runStop (!isBlank ·) c.cursor
          (if (c.text.upTo stop).getLast? = some q then stop - 1 else stop)) := by
  have hhead : (c.text.onward front.size).head? = some q := by
    rw [htext, Text.onward_size_append]
    rfl
  simp only [valueEdit]
  rw [if_pos ⟨hlt, hle⟩, hhead]
  simp only [if_pos hq]
  rw [edit_apply Text.runStart_le, size_append_quote hq]

theorem valueEdit_unclosed (htext : c.text = front ++ q :: cs) (hq : q = '"' ∨ q = '\'')
    (hlt : front.size < c.cursor) (hle : c.cursor ≤ Text.size (front ++ q :: cs)) (value : String) :
    ∃ x y, (c.valueEdit front.size (Text.size (front ++ q :: cs)) value).apply c.text =
      front ++ q :: (x ++ value.toList ++ y) ∧ x <+: cs := by
  have hfirst : Text.size (front ++ [q]) ≤ c.cursor := Nat.le_trans (Nat.le_of_eq (size_append_quote hq _)) hlt
  have hcut : c.text = front ++ [q] ++ cs ++ [] := by simp [htext]
  have hend : c.text.runStart (!isBlank ·) c.cursor (Text.size (front ++ [q])) ≤
      Text.size (front ++ [q] ++ cs) := by
    rw [← List.append_cons]
    exact Nat.le_trans Text.runStart_le hle
  obtain ⟨x, more, hcs, hx, -⟩ := Text.exists_cut (Text.le_runStart hfirst) hend []
  rw [← hcut] at hx
  rw [valueEdit_apply htext hq hlt hle, hx]
  have hparts (y : Text) : front ++ [q] ++ x ++ value.toList ++ y = front ++ q :: (x ++ value.toList ++ y) := by
    simp
  exact ⟨x, _, hparts _, more, hcs.symm⟩

/-- In a value with both quotes, the edit also leaves the closing one alone, unless the cursor is
after it. -/
theorem valueEdit_closed (htext : c.text = front ++ q :: (body ++ q :: rest)) (hq : q = '"' ∨ q = '\'')
    (hlt : front.size < c.cursor) (hle : c.cursor ≤ Text.size (front ++ [q] ++ body ++ [q]))
    (value : String) :
    ∃ x y, (c.valueEdit front.size (Text.size (front ++ [q] ++ body ++ [q])) value).apply c.text =
        front ++ q :: (x ++ value.toList ++ y) ∧
      x <+: body ∧ if c.cursor = Text.size (front ++ [q] ++ body ++ [q]) then y = rest else q ∈ y := by
  have hfirst : Text.size (front ++ [q]) ≤ c.cursor := Nat.le_trans (Nat.le_of_eq (size_append_quote hq _)) hlt
  have hstop : Text.size (front ++ [q] ++ body ++ [q]) = Text.size (front ++ [q] ++ body) + 1 :=
    size_append_quote hq _
  have hcut : c.text = front ++ [q] ++ body ++ q :: rest := by simp [htext]
  have hcut' : c.text = front ++ [q] ++ body ++ [q] ++ rest := by simp [htext]
  have hlast : (c.text.upTo (Text.size (front ++ [q] ++ body ++ [q]))).getLast? = some q := by
    rw [hcut', Text.upTo_size_append, List.getLast?_concat]
  rw [valueEdit_apply htext hq hlt hle, if_pos hlast, hstop, Nat.add_sub_cancel]
  rw [hstop] at hle
  have hinside : c.text.runStart (!isBlank ·) c.cursor (Text.size (front ++ [q])) ≤
      Text.size (front ++ [q] ++ body) := by
    by_cases hcursor : c.cursor = Text.size (front ++ [q] ++ body ++ [q])
    · have hblank : (!isBlank q) = true := by rcases hq with rfl | rfl <;> rfl
      rw [hcursor, hcut']
      exact Text.runStart_le_size hblank (by simp [Text.size_append]) rest
    · exact Nat.le_trans Text.runStart_le (by omega)
  obtain ⟨x, more, hbody, hx, -⟩ := Text.exists_cut (Text.le_runStart hfirst) hinside (q :: rest)
  rw [← hcut] at hx
  rw [hx]
  split
  · next hcursor =>
    rw [Text.runStop_eq (by omega), hcursor, ← hstop, hcut', Text.onward_size_append]
    exact ⟨x, rest, by simp, ⟨more, hbody.symm⟩, rfl⟩
  · next hcursor =>
    have hle : c.cursor ≤ Text.size (front ++ [q] ++ body) := by omega
    obtain ⟨_, y, -, -, hy⟩ := Text.exists_cut (Nat.le_trans hfirst Text.le_runStop)
      (Text.runStop_le hle) (q :: rest)
    rw [← hcut] at hy
    rw [hy]
    exact ⟨x, y ++ q :: rest, by simp, ⟨more, hbody.symm⟩, by simp⟩

theorem valueEdit_quoted {t : Placed} (htext : c.text = front ++ q :: cs) (hoffset : t.offset = front.size)
    (hquotes : t.Quotes q cs) (hq : q = '"' ∨ q = '\'') (hlt : t.offset < c.cursor)
    (hle : c.cursor ≤ t.stop) (value : String) :
    ∃ x y, (c.valueEdit t.offset t.stop value).apply c.text = front ++ q :: (x ++ value.toList ++ y) ∧
      q ∉ x ∧ ((q ∈ cs → q ∈ y) ↔ (q ∈ cs → c.cursor = t.stop → q ∈ c.text.onward t.stop)) := by
  obtain ⟨-, ⟨hnone, hlexeme⟩ | ⟨body, rest, rfl, hbody, hlexeme⟩⟩ := hquotes
  · have hstop : t.stop = Text.size (front ++ q :: cs) := by
      rw [Text.size_append, ← hoffset, ← hlexeme]
      rfl
    rw [hstop] at hle ⊢
    rw [hoffset] at hlt ⊢
    obtain ⟨x, y, hedit, hx⟩ := valueEdit_unclosed htext hq hlt hle value
    refine ⟨x, y, hedit, fun hmem => hnone (hx.subset hmem), ?_⟩
    exact iff_of_true (fun hmem => absurd hmem hnone) fun hmem => absurd hmem hnone
  · have hstop : t.stop = Text.size (front ++ [q] ++ body ++ [q]) := by
      rw [List.append_assoc, List.append_assoc, Text.size_append, ← hoffset]
      exact congrArg (t.offset + Text.size ·) hlexeme
    have hrest : c.text.onward (Text.size (front ++ [q] ++ body ++ [q])) = rest := by
      rw [htext, show front ++ q :: (body ++ q :: rest) = front ++ [q] ++ body ++ [q] ++ rest by simp,
        Text.onward_size_append]
    rw [hstop] at hle ⊢
    rw [hoffset] at hlt ⊢
    obtain ⟨x, y, hedit, hx, hy⟩ := valueEdit_closed htext hq hlt hle value
    refine ⟨x, y, hedit, fun hmem => hbody (hx.subset hmem), forall_congr' fun _ => ?_⟩
    split at hy
    · next hcursor =>
      rw [hrest, hy]
      exact ⟨fun hmem _ => hmem, fun hmem => hmem hcursor⟩
    · next hcursor => exact iff_of_true hy fun heq => absurd heq hcursor

end Completion

theorem value_item_at {text : Text} {before back : List Placed} {t : Placed} {items : List CompletionItem}
    {item : CompletionItem} (htokens : tokens text = before ++ t :: back) (ht : t.kind = .attributeValue)
    (hlt : t.offset < cursor) (hle : cursor ≤ t.stop)
    (hitems : (Document.parse text).completions s options cursor = .ok items) (hitem : item ∈ items) :
    ∃ c : Completion, c.text = text ∧ c.cursor = cursor ∧
      item.edit = c.valueEdit t.offset t.stop item.label := by
  rcases Document.of_completions hitems with ⟨-, rfl⟩ | ⟨e, above, ts, hchain, hscan, hoffered⟩
  · cases hitem
  have hoffers := Completion.offers_of_mem hoffered hitem
  rw [show (Document.parse text).text = text from rfl] at hoffers
  obtain ⟨_, front, -, -, hsite | hsite | ⟨hclose, -⟩⟩ := site_at hchain hscan htokens hlt hle
  · simp only [CompletionSite.ofToken?, ht, Option.some.injEq] at hsite
    rw [← hsite] at hoffers
    cases hoffers with
    | value => exact ⟨⟨Document.parse text, s, options, cursor, e, above⟩, rfl, rfl, rfl⟩
  · rw [hsite] at hoffers
    cases hoffers
  · rw [ht] at hclose
    cases hclose

/-- Completing a value inside quotes keeps them, and the value has the label in it. There is one
exception: at the end of a closed value its closing quote is lost, and another one further on in the
text, if there is any, closes the value. -/
theorem value_keepsQuotes_iff {text : Text} {t : Placed} {q : Char} {cursor : Nat}
    (hmem : t ∈ tokens text) (hquoted : t.IsQuoted q) (hlt : t.offset < cursor) (hle : cursor ≤ t.stop)
    (s : Schema) (options : CompletionOptions) :
    ∃ items, (Document.parse text).completions s options cursor = .ok items ∧
      ∀ item ∈ items, q ∉ item.label.toList →
        (item.KeepsQuotes text q t ↔ (t.IsClosed q → cursor = t.stop → q ∈ text.onward t.stop)) := by
  obtain ⟨items, hitems⟩ := completions_ok (Nat.le_trans hle (stop_le_of_mem_tokens hmem)) s options
  refine ⟨items, hitems, fun item hitem hlabel => ?_⟩
  obtain ⟨before, back, htokens⟩ := List.append_of_mem hmem
  obtain ⟨c, rfl, rfl, hvalue⟩ := value_item_at htokens hquoted.1 hlt hle hitems hitem
  obtain ⟨_, cs, -, htext, hquotes⟩ := hquoted.exists_text htokens
  obtain ⟨x, y, hedit, hx, hkept⟩ := Completion.valueEdit_quoted htext (offset_eq_size htokens) hquotes
    hquoted.2.1 hlt hle item.label
  rw [← hvalue] at hedit
  have hnew : q ∉ x ++ item.label.toList := fun hmem => (List.mem_append.mp hmem).elim hx hlabel
  rw [CompletionItem.keepsQuotes_iff htokens hquoted hquotes hedit hnew, hquotes.isClosed_iff]
  exact hkept

def sizePage : Text :=
  "<button size=\"é mi\">".toList

theorem value_keepsQuotes_iff_sizePage :
    ∃ t ∈ tokens sizePage, t.IsQuoted '"' ∧ t.IsClosed '"' ∧ t.offset < 18 ∧ 18 ≤ t.stop ∧
      ∃ items item, (Document.parse sizePage).completions Schema.bundled {} 18 = .ok items ∧
        item ∈ items ∧ item.label = "default" ∧ item.KeepsQuotes sizePage '"' t := by
  obtain ⟨t, hmem, hquoted, hclosed, hlt, hle, hstop⟩ : ∃ t ∈ tokens sizePage, t.IsQuoted '"' ∧
      t.IsClosed '"' ∧ t.offset < 18 ∧ 18 ≤ t.stop ∧ t.stop = 20 := by decide +kernel
  obtain ⟨items, hitems, hkept⟩ := value_keepsQuotes_iff hmem hquoted hlt hle Schema.bundled {}
  have hany : ((Document.parse sizePage).completions Schema.bundled {} 18).toOption.any
      (·.any (·.label = "default")) = true := by decide +kernel
  rw [hitems] at hany
  obtain ⟨item, hitem, hlabel⟩ := List.any_eq_true.mp hany
  have hlabel : item.label = "default" := of_decide_eq_true hlabel
  have hquote : '"' ∉ item.label.toList := by
    rw [hlabel]
    decide
  refine ⟨t, hmem, hquoted, hclosed, hlt, hle, items, item, hitems, hitem, hlabel, ?_⟩
  refine (hkept item hitem hquote).mpr fun _ hcursor => ?_
  rw [hstop] at hcursor
  exact absurd hcursor (by decide)

def miniPage : Text :=
  "<button size=\"mini\">".toList

/-- With the cursor after it, the value is not closed any more. -/
theorem miniPage_loses_quote :
    ∃ t ∈ tokens miniPage, t.IsQuoted '"' ∧ t.offset < 19 ∧ t.stop = 19 ∧
      ((Document.parse miniPage).completions Schema.bundled {} 19).toOption.any (·.any fun item =>
        item.kind = .value ∧ '"' ∉ item.label.toList ∧ ¬ item.KeepsQuotes miniPage '"' t) = true := by
  decide +kernel

end PageMarkup
