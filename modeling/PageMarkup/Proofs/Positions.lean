import PageMarkup.Proofs.Boundaries
import PageMarkup.Text.Position

/-!
# Positions and offsets

Positions are ordered by line, then by column. `offsetOf?_positionAt` says that the position of any
offset leads back to it, or to the start of the character it is in; `positionAt_mono`, that the
order of offsets is kept. So two offsets in order always make a range that an editor can use.
-/

namespace PageMarkup

namespace Position

instance : LE Position where
  le p q := p.line < q.line ∨ p.line = q.line ∧ p.character ≤ q.character

theorem le_def {p q : Position} :
    p ≤ q ↔ p.line < q.line ∨ p.line = q.line ∧ p.character ≤ q.character :=
  Iff.rfl

theorem le_refl (p : Position) : p ≤ p :=
  .inr ⟨rfl, Nat.le_refl _⟩

theorem le_trans {p q r : Position} (hpq : p ≤ q) (hqr : q ≤ r) : p ≤ r := by
  simp only [le_def] at *
  omega

instance : LT Position where
  lt p q := p.line < q.line ∨ p.line = q.line ∧ p.character < q.character

theorem lt_def {p q : Position} :
    p < q ↔ p.line < q.line ∨ p.line = q.line ∧ p.character < q.character :=
  Iff.rfl

theorem lt_of_lt_of_le {p q r : Position} (hpq : p < q) (hqr : q ≤ r) : p < r := by
  simp only [le_def, lt_def] at *
  omega

theorem le_advance (p : Position) (c : Char) : p ≤ p.advance c := by
  rw [advance]
  split
  · exact .inl (Nat.lt_succ_self _)
  · exact .inr ⟨rfl, Nat.le_add_right _ _⟩

theorem le_foldl_advance (p : Position) (cs : Text) : p ≤ cs.foldl advance p := by
  induction cs generalizing p with
  | nil => exact le_refl p
  | cons c cs ih => exact le_trans (le_advance p c) (ih _)

end Position

theorem utf16Size_pos (c : Char) : 0 < utf16Size c := by
  rw [utf16Size]
  split <;> decide

theorem utf16Size_le_utf8Size (c : Char) : utf16Size c ≤ c.utf8Size := by
  rw [utf16Size]
  split
  · exact c.utf8Size_pos
  · next h =>
    have hne : c.utf8Size ≠ 1 := by
      intro hone
      have hval : c.val ≤ 127 := Char.utf8Size_eq_one_iff.mp hone
      exact h (Nat.lt_of_le_of_lt hval (by decide))
    have := c.utf8Size_pos
    omega

theorem Position.advance_le (p : Position) (c : Char) :
    (p.advance c).line ≤ p.line + c.utf8Size ∧
      (p.advance c).character ≤ p.character + c.utf8Size := by
  rw [advance]
  split
  · exact ⟨Nat.add_le_add_left c.utf8Size_pos _, Nat.zero_le _⟩
  · exact ⟨Nat.le_add_right _ _, Nat.add_le_add_left (utf16Size_le_utf8Size c) _⟩

-- ---------------------------------------------------------------------------
-- Lines and columns
-- ---------------------------------------------------------------------------

def utf16Length : Text → Nat
  | [] => 0
  | c :: cs => utf16Size c + utf16Length cs

theorem utf16Length_cons (c : Char) (cs : Text) : utf16Length (c :: cs) = utf16Size c + utf16Length cs :=
  rfl

/-- Whole lines: nothing, or a text that ends with a line break. -/
def Text.IsLines (cs : Text) : Prop :=
  cs = [] ∨ cs.getLast? = some '\n'

theorem Text.isLines_cons {c : Char} {cs : Text} :
    IsLines (c :: cs) ↔ cs.IsLines ∧ (cs = [] → c = '\n') := by
  cases cs <;> simp [IsLines]

theorem Text.IsLines.count_pos {cs : Text} (h : cs.IsLines) (hcs : cs ≠ []) : 0 < cs.count '\n' :=
  List.count_pos_iff.mpr (List.mem_of_getLast? (h.resolve_left hcs))

/-- Every text is made of whole lines and a beginning of the next one. -/
theorem exists_lines (cs : Text) : ∃ lines column, cs = lines ++ column ∧ lines.IsLines ∧ '\n' ∉ column := by
  induction cs with
  | nil => exact ⟨[], [], rfl, .inl rfl, List.not_mem_nil⟩
  | cons c cs ih =>
    obtain ⟨lines, column, rfl, hlines, hcolumn⟩ := ih
    by_cases h : lines = [] ∧ c ≠ '\n'
    · obtain ⟨rfl, hc⟩ := h
      exact ⟨[], c :: column, rfl, .inl rfl, by simp [hcolumn, Ne.symm hc]⟩
    · have hc : lines = [] → c = '\n' := fun hnil => Classical.byContradiction fun hc => h ⟨hnil, hc⟩
      exact ⟨c :: lines, column, rfl, Text.isLines_cons.mpr ⟨hlines, hc⟩, hcolumn⟩

namespace Position

theorem foldl_advance_line (p : Position) (cs : Text) :
    (cs.foldl advance p).line = p.line + cs.count '\n' := by
  induction cs generalizing p with
  | nil => rfl
  | cons c cs ih =>
    rw [List.foldl_cons, ih, List.count_cons, advance]
    by_cases hc : c = '\n'
    · simp [hc]
      omega
    · simp [hc]

theorem foldl_advance_column (p : Position) {column : Text} (h : '\n' ∉ column) :
    column.foldl advance p = ⟨p.line, p.character + utf16Length column⟩ := by
  induction column generalizing p with
  | nil => rfl
  | cons c column ih =>
    have hc : c ≠ '\n' := Ne.symm (List.ne_of_not_mem_cons h)
    rw [List.foldl_cons, ih _ (List.not_mem_of_not_mem_cons h), advance, if_neg hc, utf16Length_cons,
      Nat.add_assoc]

theorem foldl_advance_lines {lines : Text} (h : lines.IsLines) :
    lines.foldl advance ⟨0, 0⟩ = ⟨lines.count '\n', 0⟩ := by
  rcases h with rfl | hlast
  · rfl
  · obtain ⟨front, rfl⟩ := List.getLast?_eq_some_iff.mp hlast
    rw [List.foldl_append, List.foldl_cons, List.foldl_nil, advance, if_pos rfl, foldl_advance_line]
    simp

theorem foldl_advance_lines_column {lines column : Text} (hlines : lines.IsLines)
    (hcolumn : '\n' ∉ column) :
    (lines ++ column).foldl advance ⟨0, 0⟩ = ⟨lines.count '\n', utf16Length column⟩ := by
  rw [List.foldl_append, foldl_advance_lines hlines, foldl_advance_column _ hcolumn, Nat.zero_add]

end Position

namespace Text

-- ---------------------------------------------------------------------------
-- From a position back to its offset
-- ---------------------------------------------------------------------------

theorem columnOffset?_zero (cs : Text) : columnOffset? cs 0 = some 0 := by
  cases cs <;> rfl

theorem columnOffset?_cons (hc : c ≠ '\n') (cs : Text) (column : Nat) :
    columnOffset? (c :: cs) (utf16Size c + column) = (columnOffset? cs column).map (c.utf8Size + ·) := by
  obtain ⟨n, hn⟩ := Nat.exists_eq_add_one.mpr (Nat.add_pos_left (utf16Size_pos c) column)
  rw [hn, columnOffset?, if_neg hc, ← hn, if_pos (Nat.le_add_right _ _), Nat.add_sub_cancel_left]

theorem offsetOf?_cons (c : Char) (cs : Text) (line column : Nat) :
    offsetOf? (c :: cs) ⟨line + 1, column⟩ =
      (offsetOf? cs ⟨if c = '\n' then line else line + 1, column⟩).map (c.utf8Size + ·) :=
  rfl

theorem columnOffset?_append {column : Text} (h : '\n' ∉ column) (back : Text) (n : Nat) :
    columnOffset? (column ++ back) (utf16Length column + n) =
      (columnOffset? back n).map (column.size + ·) := by
  induction column with
  | nil => simp [utf16Length]
  | cons c column ih =>
    have hc : c ≠ '\n' := Ne.symm (List.ne_of_not_mem_cons h)
    rw [List.cons_append, utf16Length_cons, Nat.add_assoc, columnOffset?_cons hc,
      ih (List.not_mem_of_not_mem_cons h), Option.map_map, size_cons]
    simp [Function.comp_def, Nat.add_assoc]

theorem offsetOf?_append {lines : Text} (h : lines.IsLines) (back : Text) (column : Nat) :
    offsetOf? (lines ++ back) ⟨lines.count '\n', column⟩ =
      (columnOffset? back column).map (lines.size + ·) := by
  induction lines with
  | nil => simp [offsetOf?]
  | cons c lines ih =>
    obtain ⟨hlines, hnil⟩ := isLines_cons.mp h
    have hstep : offsetOf? (c :: (lines ++ back)) ⟨(c :: lines).count '\n', column⟩ =
        (offsetOf? (lines ++ back) ⟨lines.count '\n', column⟩).map (c.utf8Size + ·) := by
      by_cases hc : c = '\n'
      · rw [hc, List.count_cons_self, offsetOf?_cons, if_pos rfl]
      · obtain ⟨line, hline⟩ := Nat.exists_eq_add_one.mpr (hlines.count_pos fun hlines => hc (hnil hlines))
        rw [List.count_cons_of_ne hc, hline, offsetOf?_cons, if_neg hc]
    rw [List.cons_append, hstep, ih hlines, Option.map_map, size_cons]
    simp [Function.comp_def, Nat.add_assoc]

theorem offsetOf?_positionAt (cs : Text) (offset : Nat) :
    offsetOf? cs (cs.positionAt offset) = some (cs.upTo offset).size := by
  obtain ⟨lines, column, hcut, hlines, hcolumn⟩ := exists_lines (cs.upTo offset)
  have hcs : lines ++ (column ++ cs.onward offset) = cs := by
    rw [← List.append_assoc, ← hcut, upTo_append_onward]
  have hoffset := offsetOf?_append hlines (column ++ cs.onward offset) (utf16Length column)
  have hend := columnOffset?_append hcolumn (cs.onward offset) 0
  rw [Nat.add_zero, columnOffset?_zero] at hend
  rw [hcs, hend] at hoffset
  rw [positionAt, hcut, Position.foldl_advance_lines_column hlines hcolumn, hoffset, size_append]
  rfl

-- ---------------------------------------------------------------------------
-- Order and size
-- ---------------------------------------------------------------------------

theorem upTo_isPrefix (cs : Text) (h : a ≤ b) : cs.upTo a <+: cs.upTo b := by
  induction cs generalizing a b with
  | nil => exact List.prefix_refl _
  | cons c cs ih =>
    simp only [upTo]
    by_cases ha : c.utf8Size ≤ a
    · rw [if_pos ha, if_pos (Nat.le_trans ha h)]
      exact (List.prefix_cons_inj c).mpr (ih (Nat.sub_le_sub_right h _))
    · rw [if_neg ha]
      exact List.nil_prefix

theorem positionAt_mono (cs : Text) (h : a ≤ b) : cs.positionAt a ≤ cs.positionAt b := by
  obtain ⟨more, hmore⟩ := cs.upTo_isPrefix h
  rw [positionAt, positionAt, ← hmore, List.foldl_append]
  exact Position.le_foldl_advance _ more

theorem foldl_advance_le (p : Position) (cs : Text) :
    (cs.foldl Position.advance p).line ≤ p.line + cs.size ∧
      (cs.foldl Position.advance p).character ≤ p.character + cs.size := by
  induction cs generalizing p with
  | nil => simp
  | cons c cs ih =>
    obtain ⟨hline, hcharacter⟩ := ih (p.advance c)
    obtain ⟨hline', hcharacter'⟩ := p.advance_le c
    simp only [List.foldl_cons, size_cons]
    omega

theorem positionAt_le (cs : Text) (offset : Nat) :
    (cs.positionAt offset).line ≤ cs.size ∧ (cs.positionAt offset).character ≤ cs.size := by
  have hsize := congrArg size (cs.upTo_append_onward offset)
  rw [size_append] at hsize
  have hle := foldl_advance_le ⟨0, 0⟩ (cs.upTo offset)
  simp only [positionAt, Nat.zero_add] at hle ⊢
  omega

theorem offsetAt_positionAt (cs : Text) (offset : Nat) :
    cs.offsetAt (cs.positionAt offset) = .ok (cs.upTo offset).size := by
  rw [offsetAt, offsetOf?_positionAt]

end Text

/-- Numbers that the protocol can carry. -/
def Position.Fits (p : Position) : Prop :=
  p.line < 0x100000000 ∧ p.character < 0x100000000

/-- A range that an editor can find in the text. -/
structure Range.WellFormed (text : Text) (r : Range) : Prop where
  ordered : r.start ≤ r.stop
  start_found : ∃ offset, text.offsetAt r.start = .ok offset
  stop_found : ∃ offset, text.offsetAt r.stop = .ok offset
  fits : r.start.Fits ∧ r.stop.Fits

theorem Text.positionAt_fits {text : Text} (hsize : text.size < 0x100000000) (offset : Nat) :
    (text.positionAt offset).Fits := by
  obtain ⟨hline, hcharacter⟩ := text.positionAt_le offset
  exact ⟨Nat.lt_of_le_of_lt hline hsize, Nat.lt_of_le_of_lt hcharacter hsize⟩

theorem Text.range_wellFormed {text : Text} (hsize : text.size < 0x100000000) (h : start ≤ stop) :
    (text.range start stop).WellFormed text where
  ordered := text.positionAt_mono h
  start_found := ⟨_, text.offsetAt_positionAt start⟩
  stop_found := ⟨_, text.offsetAt_positionAt stop⟩
  fits := ⟨positionAt_fits hsize start, positionAt_fits hsize stop⟩

end PageMarkup
