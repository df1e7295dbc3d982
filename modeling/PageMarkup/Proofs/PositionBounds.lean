import Mathlib.Order.Bounds.Basic
import PageMarkup.Proofs.PositionOrder

/-!
# The positions of a text

A position is in the text if its line is one of the text's lines and its column is at most the length
of that line. `offsetAt_eq_iff` says that these are the positions that lead to an offset, which offset
it is, and what every other position is answered with.
-/

namespace PageMarkup

namespace Text

def line? (cs : Text) (n : Nat) : Option Text :=
  (cs.splitOn '\n')[n]?

/-- The position is on a line of the text, at its end or before it. -/
def HasPosition (cs : Text) (p : Position) : Prop :=
  p.line < cs.lineCount ∧ ∀ line ∈ cs.line? p.line, p.character ≤ utf16Length line

/-- The offset is on the line of the position, at its column or before it. -/
def OnLine (cs : Text) (p : Position) (offset : Nat) : Prop :=
  ∃ lines column, LineCut cs lines column offset ∧ lines.count '\n' = p.line ∧
    utf16Length column ≤ p.character

-- ---------------------------------------------------------------------------
-- The lines of a text
-- ---------------------------------------------------------------------------

variable {cs lines : Text} {n : Nat}

theorem length_splitOn_eq_lineCount (cs : Text) : (cs.splitOn '\n').length = cs.lineCount := by
  induction cs with
  | nil => rfl
  | cons c cs ih =>
    rw [List.splitOn_cons_eq_if_modifyHead, lineCount]
    by_cases hc : c = '\n'
    · simp [hc, ih, lineCount]
    · simp [hc, ih, lineCount]

theorem line?_zero (cs : Text) : cs.line? 0 = some (cs.takeWhile (· ≠ '\n')) := by
  induction cs with
  | nil => rfl
  | cons c cs ih =>
    rw [line?, List.splitOn_cons_eq_if_modifyHead]
    by_cases hc : c = '\n'
    · simp [hc]
    · rw [line?] at ih
      simp [hc, ih]

theorem line?_append (h : lines.IsLines) (back : Text) :
    (lines ++ back).line? (lines.count '\n') = some (back.takeWhile (· ≠ '\n')) := by
  rcases h with rfl | hlast
  · exact back.line?_zero
  · obtain ⟨front, rfl⟩ := List.getLast?_eq_some_iff.mp hlast
    have hcount : (front ++ ['\n']).count '\n' = (front.splitOn '\n').length := by
      rw [length_splitOn_eq_lineCount, List.count_append, lineCount]
      rfl
    rw [List.append_assoc, List.singleton_append, line?, List.splitOn_append_cons_self, hcount,
      List.getElem?_append_right (Nat.le_refl _), Nat.sub_self]
    exact back.line?_zero

theorem exists_lines_of_lt (h : n < cs.lineCount) :
    ∃ lines back, cs = lines ++ back ∧ lines.IsLines ∧ lines.count '\n' = n := by
  induction cs generalizing n with
  | nil => exact ⟨[], [], rfl, .inl rfl, (Nat.lt_one_iff.mp h).symm⟩
  | cons c cs ih =>
    cases n with
    | zero => exact ⟨[], c :: cs, rfl, .inl rfl, rfl⟩
    | succ n =>
      by_cases hc : c = '\n'
      · obtain ⟨lines, back, rfl, hlines, hcount⟩ := ih (n := n) (by simpa [lineCount, hc] using h)
        exact ⟨c :: lines, back, rfl, isLines_cons.mpr ⟨hlines, fun _ => hc⟩, by simp [hc, hcount]⟩
      · obtain ⟨lines, back, rfl, hlines, hcount⟩ := ih (n := n + 1) (by simpa [lineCount, hc] using h)
        refine ⟨c :: lines, back, rfl, isLines_cons.mpr ⟨hlines, ?_⟩, by simp [hc, hcount]⟩
        rintro rfl
        cases hcount

-- ---------------------------------------------------------------------------
-- Which positions lead to an offset
-- ---------------------------------------------------------------------------

theorem isSome_columnOffset? (cs : Text) (n : Nat) :
    (columnOffset? cs n).isSome ↔ n ≤ utf16Length (cs.takeWhile (· ≠ '\n')) := by
  induction cs generalizing n with
  | nil => cases n <;> simp [columnOffset?, utf16Length]
  | cons c cs ih =>
    cases n with
    | zero => simp [columnOffset?]
    | succ n =>
      rw [columnOffset?]
      by_cases hc : c = '\n'
      · simp [hc, utf16Length]
      · rw [if_neg hc, List.takeWhile_cons_of_pos (by simpa using hc), utf16Length_cons]
        split
        · rw [Option.isSome_map, ih]
          omega
        · simp
          omega

theorem isSome_offsetOf? (cs : Text) (p : Position) : (cs.offsetOf? p).isSome ↔ cs.HasPosition p := by
  by_cases hline : p.line < cs.lineCount
  · obtain ⟨lines, back, rfl, hlines, hcount⟩ := exists_lines_of_lt hline
    have hoffset := offsetOf?_append hlines back p.character
    have hfound := line?_append hlines back
    rw [hcount] at hoffset hfound
    rw [HasPosition, hoffset, hfound, Option.isSome_map, isSome_columnOffset?]
    simp [hline]
  · constructor
    · intro hsome
      obtain ⟨offset, hoffset⟩ := Option.isSome_iff_exists.mp hsome
      obtain ⟨lines, back, -, rfl, -, hcount, -⟩ := exists_of_offsetOf? hoffset
      refine absurd ?_ hline
      rw [← hcount, lineCount, List.count_append]
      omega
    · rintro ⟨hlt, -⟩
      exact absurd hlt hline

theorem offsetAt_eq_ok_iff {p : Position} {offset : Nat} :
    cs.offsetAt p = .ok offset ↔ cs.offsetOf? p = some offset := by
  cases hoffset : cs.offsetOf? p with
  | some offset' => simp [offsetAt, hoffset]
  | none => simp [offsetAt, hoffset]

theorem offsetAt_eq_error_iff {p : Position} {e : PositionError} :
    cs.offsetAt p = .error e ↔ cs.offsetOf? p = none ∧ e = ⟨p, cs.lineCount⟩ := by
  cases hoffset : cs.offsetOf? p with
  | some offset => simp [offsetAt, hoffset]
  | none => simp [offsetAt, hoffset, eq_comm]

end Text

-- ---------------------------------------------------------------------------
-- Which offset it is
-- ---------------------------------------------------------------------------

theorem LineCut.isBoundary {text lines column : Text} {offset : Nat}
    (h : LineCut text lines column offset) : text.IsBoundary offset := by
  obtain ⟨⟨rest, hrest⟩, hsize, -, -⟩ := h
  exact Text.isBoundary_iff.mpr ⟨lines ++ column, rest, hrest.symm, hsize⟩

section
variable {text : Text} {p : Position} {offset : Nat}

theorem Text.OnLine.positionAt (h : text.OnLine p offset) :
    (text.positionAt offset).line = p.line ∧ (text.positionAt offset).character ≤ p.character := by
  obtain ⟨lines, column, hcut, hline, hcolumn⟩ := h
  rw [hcut.positionAt]
  exact ⟨hline, hcolumn⟩

/-- The offset of a position is at its column, or one unit before it. -/
theorem exists_lineCut_of_offsetAt (h : text.offsetAt p = .ok offset) :
    ∃ lines column, LineCut text lines column offset ∧ lines.count '\n' = p.line ∧
      utf16Length column ≤ p.character ∧ p.character ≤ utf16Length column + 1 := by
  obtain ⟨lines, column, hcut, rfl | ⟨lines', column', offset', c, hcut', hnext, hc, rfl⟩⟩ :=
    exists_of_offsetAt h
  · exact ⟨lines, column, hcut, rfl, Nat.le_refl _, Nat.le_succ _⟩
  · cases (hcut'.offsetAt_splits hnext hc).symm.trans h
    exact ⟨lines', column', hcut', rfl, Nat.le_succ _, Nat.le_refl _⟩

theorem isGreatest_of_offsetAt (h : text.offsetAt p = .ok offset) :
    IsGreatest {o | text.IsBoundary o ∧ text.OnLine p o} offset := by
  obtain ⟨lines, column, hcut, hline, hle, hge⟩ := exists_lineCut_of_offsetAt h
  refine ⟨⟨hcut.isBoundary, lines, column, hcut, hline, hle⟩, ?_⟩
  rintro o ⟨hboundary, honLine⟩
  refine Nat.le_of_not_lt fun hlt => ?_
  have hposition := Text.positionAt_lt hcut.isBoundary hboundary hlt
  obtain ⟨holine, hocolumn⟩ := honLine.positionAt
  rw [hcut.positionAt, Position.lt_def, holine, hline] at hposition
  -- Only the position itself is left between the two, and it leads to `offset`.
  have hcharacter : (text.positionAt o).character = p.character := by
    simp only at hposition
    omega
  have hp : text.positionAt o = p := congrArg₂ Position.mk holine hcharacter
  have hback := text.offsetAt_positionAt o
  rw [hp, h, hboundary.size_upTo] at hback
  cases hback
  exact Nat.lt_irrefl _ hlt

/-- A position leads to an offset if and only if the text has it, and then to the last boundary of its
line that is not after its column. Every other position is answered with an error that names it and
the number of lines. -/
theorem offsetAt_eq_iff (text : Text) (p : Position) :
    (∀ offset, text.offsetAt p = .ok offset ↔
      text.HasPosition p ∧ IsGreatest {o | text.IsBoundary o ∧ text.OnLine p o} offset) ∧
    ∀ e, text.offsetAt p = .error e ↔ ¬ text.HasPosition p ∧ e = ⟨p, text.lineCount⟩ := by
  constructor
  · intro offset
    constructor
    · intro h
      have hsome := Option.isSome_of_eq_some (Text.offsetAt_eq_ok_iff.mp h)
      exact ⟨(text.isSome_offsetOf? p).mp hsome, isGreatest_of_offsetAt h⟩
    · rintro ⟨hhas, hgreatest⟩
      obtain ⟨offset', hoffset'⟩ := Option.isSome_iff_exists.mp ((text.isSome_offsetOf? p).mpr hhas)
      have hok := Text.offsetAt_eq_ok_iff.mpr hoffset'
      rw [hok, (isGreatest_of_offsetAt hok).unique hgreatest]
  · intro e
    rw [Text.offsetAt_eq_error_iff, ← text.isSome_offsetOf? p, Option.not_isSome_iff_eq_none]

example : emojiText.line? 0 = some "a😀".toList ∧ emojiText.offsetAt ⟨0, 3⟩ = .ok 5 ∧
    emojiText.offsetAt ⟨0, 4⟩ = .error ⟨⟨0, 4⟩, 4⟩ ∧ emojiText.offsetAt ⟨4, 0⟩ = .error ⟨⟨4, 0⟩, 4⟩ := by
  decide

end

end PageMarkup
