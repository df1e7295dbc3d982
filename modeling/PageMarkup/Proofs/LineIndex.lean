import Mathlib.Data.List.TakeWhile
import PageMarkup.Proofs.PositionBounds

/-!
# Positions from an index of lines

An index holds the offsets at which the lines of a text begin. A position is then found by halving the
index and counting units on one line only, and an offset by walking along one line. `position?_ofText`
and `offset?_ofText` say that an index never leads out of its text, and that both directions give what
counting from the beginning of the text gives.
-/

namespace PageMarkup

-- ---------------------------------------------------------------------------
-- Halving
-- ---------------------------------------------------------------------------

section
variable {α : Type} (p : α → Bool)

/-- How many items at the front of the list satisfy the condition, if none does after them. -/
def partitionPoint (items : List α) : Nat :=
  search 0 items.length
where
  search (low high : Nat) : Nat :=
    if low < high then
      match items[(low + high) / 2]? with
      | some item => if p item then search ((low + high) / 2 + 1) high else search low ((low + high) / 2)
      | none => low
    else low
  termination_by high - low

theorem partitionPoint_search {front back : List α} (hfront : ∀ a ∈ front, p a = true)
    (hback : ∀ a ∈ back, p a = false) {low high : Nat} (hlow : low ≤ front.length)
    (hhigh : front.length ≤ high) (hlength : high ≤ (front ++ back).length) :
    partitionPoint.search p (front ++ back) low high = front.length := by
  induction hsize : high - low using Nat.strongRecOn generalizing low high with
  | ind size ih =>
    rw [partitionPoint.search]
    by_cases hlt : low < high
    · have hmid : (low + high) / 2 < (front ++ back).length := by omega
      rw [if_pos hlt, List.getElem?_eq_getElem hmid]
      by_cases hside : (low + high) / 2 < front.length
      · have hitem : p (front ++ back)[(low + high) / 2] = true := by
          rw [List.getElem_append_left hside]
          exact hfront _ (List.getElem_mem hside)
        simp only [hitem, if_true]
        exact ih _ (by omega) hside hhigh hlength rfl
      · have hitem : p (front ++ back)[(low + high) / 2] = false := by
          rw [List.getElem_append_right (Nat.le_of_not_lt hside)]
          exact hback _ (List.getElem_mem _)
        simp only [hitem, Bool.false_eq_true, if_false]
        exact ih _ (by omega) hlow (by omega) (by omega) rfl
    · rw [if_neg hlt]
      omega

theorem partitionPoint_append {front back : List α} (hfront : ∀ a ∈ front, p a = true)
    (hback : ∀ a ∈ back, p a = false) : partitionPoint p (front ++ back) = front.length :=
  partitionPoint_search p hfront hback (Nat.zero_le _) (by simp) (Nat.le_refl _)

end

-- ---------------------------------------------------------------------------
-- The index
-- ---------------------------------------------------------------------------

/-- Where lines begin in a text that is at `offset`, but for the first one. -/
def Text.laterLines (offset : Nat) : Text → List Nat
  | [] => []
  | c :: cs =>
    if c = '\n' then (offset + c.utf8Size) :: laterLines (offset + c.utf8Size) cs
    else laterLines (offset + c.utf8Size) cs

/-- Goes along a line until a column is used up; what is left of it, and the offset reached. -/
def Text.walk : Text → (column offset : Nat) → Nat × Nat
  | [], column, offset => (column, offset)
  | c :: cs, column, offset =>
    if column = 0 then (0, offset)
    else if column < utf16Size c then (0, offset)
    else walk cs (column - utf16Size c) (offset + c.utf8Size)

structure LineIndex where
  text : Text
  lineStarts : List Nat

namespace LineIndex

def ofText (text : Text) : LineIndex :=
  ⟨text, 0 :: text.laterLines 0⟩

def lineCount (index : LineIndex) : Nat :=
  index.lineStarts.length

def position? (index : LineIndex) (offset : Nat) : Option Position :=
  let offset := index.text.clamp offset
  let line := partitionPoint (· ≤ offset) index.lineStarts - 1
  (index.lineStarts[line]?).bind fun start =>
    (index.text.slice? start offset).map fun column => ⟨line, utf16Length column⟩

def outside (index : LineIndex) (p : Position) : Except PositionError Nat :=
  .error ⟨p, index.lineCount⟩

def offset? (index : LineIndex) (p : Position) : Option (Except PositionError Nat) :=
  match index.lineStarts[p.line]? with
  | none => some (index.outside p)
  | some start =>
    let stop := (index.lineStarts[p.line + 1]?).elim index.text.size (· - 1)
    (index.text.slice? start stop).map fun line =>
      let reached := line.walk p.character start
      if 0 < reached.1 then index.outside p else .ok reached.2

end LineIndex

-- ---------------------------------------------------------------------------
-- Where lines begin
-- ---------------------------------------------------------------------------

namespace Text

theorem laterLines_append (offset : Nat) (a b : Text) :
    laterLines offset (a ++ b) = laterLines offset a ++ laterLines (offset + a.size) b := by
  induction a generalizing offset with
  | nil => simp [laterLines]
  | cons c a ih =>
    rw [List.cons_append, laterLines, laterLines, ih, size_cons, Nat.add_assoc]
    split <;> rfl

theorem laterLines_eq_nil {column : Text} (h : '\n' ∉ column) (offset : Nat) :
    laterLines offset column = [] := by
  induction column generalizing offset with
  | nil => rfl
  | cons c column ih =>
    have hc : c ≠ '\n' := Ne.symm (List.ne_of_not_mem_cons h)
    rw [laterLines, if_neg hc, ih (List.not_mem_of_not_mem_cons h)]

theorem length_laterLines (offset : Nat) (cs : Text) : (laterLines offset cs).length = cs.count '\n' := by
  induction cs generalizing offset with
  | nil => rfl
  | cons c cs ih =>
    rw [laterLines]
    by_cases hc : c = '\n'
    · simp [hc, ih]
    · simp [hc, ih]

theorem bounds_of_mem_laterLines {cs : Text} {start offset : Nat} (h : start ∈ laterLines offset cs) :
    offset < start ∧ start ≤ offset + cs.size := by
  induction cs generalizing offset with
  | nil => cases h
  | cons c cs ih =>
    have hpos := c.utf8Size_pos
    rw [size_cons]
    rw [laterLines] at h
    split at h
    · rcases List.mem_cons.mp h with rfl | h
      · omega
      · have := ih h
        omega
    · have := ih h
      omega

end Text

theorem LineIndex.lineCount_ofText (text : Text) : (ofText text).lineCount = text.lineCount := by
  rw [lineCount, ofText, List.length_cons, Text.length_laterLines]
  rfl

section
variable {lines : Text} (h : lines.IsLines)
include h

/-- After whole lines another one begins, and the index has as many entries before it as there are
lines. -/
theorem Text.IsLines.lineStarts (back : Text) :
    ∃ earlier, (LineIndex.ofText (lines ++ back)).lineStarts =
        earlier ++ lines.size :: laterLines lines.size back ∧
      earlier.length = lines.count '\n' ∧ ∀ start ∈ earlier, start ≤ lines.size := by
  rw [LineIndex.ofText, laterLines_append, Nat.zero_add]
  rcases h with rfl | hlast
  · exact ⟨[], rfl, rfl, List.forall_mem_nil _⟩
  · obtain ⟨front, rfl⟩ := List.getLast?_eq_some_iff.mp hlast
    refine ⟨0 :: laterLines 0 front, ?_, ?_, ?_⟩
    · simp [laterLines_append, laterLines]
    · simp [length_laterLines]
    · intro start hstart
      rcases List.mem_cons.mp hstart with rfl | hstart
      · exact Nat.zero_le _
      · have hle := (bounds_of_mem_laterLines hstart).2
        rw [size_append]
        omega

theorem Text.IsLines.lineStart (back : Text) :
    (LineIndex.ofText (lines ++ back)).lineStarts[lines.count '\n']? = some lines.size := by
  obtain ⟨earlier, hstarts, hlength, -⟩ := h.lineStarts back
  rw [hstarts, ← hlength, List.getElem?_append_right (Nat.le_refl _), Nat.sub_self]
  rfl

theorem Text.IsLines.nextLineStart (back : Text) :
    (LineIndex.ofText (lines ++ back)).lineStarts[lines.count '\n' + 1]? =
      (laterLines lines.size back).head? := by
  obtain ⟨earlier, hstarts, hlength, -⟩ := h.lineStarts back
  rw [hstarts, ← hlength, List.getElem?_append_right (Nat.le_add_right _ 1), Nat.add_sub_cancel_left,
    List.getElem?_cons_succ, List.head?_eq_getElem?]

theorem Text.IsLines.partitionPoint {column : Text} (hcolumn : '\n' ∉ column) (rest : Text) :
    partitionPoint (· ≤ size (lines ++ column)) (LineIndex.ofText (lines ++ (column ++ rest))).lineStarts =
      lines.count '\n' + 1 := by
  obtain ⟨earlier, hstarts, hlength, hbefore⟩ := h.lineStarts (column ++ rest)
  rw [hstarts, laterLines_append, laterLines_eq_nil hcolumn, List.nil_append, ← size_append,
    List.append_cons, partitionPoint_append, List.length_append, hlength]
  · rfl
  · intro start hstart
    have hle : start ≤ lines.size := by
      rcases List.mem_append.mp hstart with hstart | hstart
      · exact hbefore start hstart
      · exact Nat.le_of_eq (List.mem_singleton.mp hstart)
    rw [size_append]
    exact decide_eq_true (Nat.le_add_right_of_le hle)
  · intro start hstart
    exact decide_eq_false (Nat.not_le.mpr (bounds_of_mem_laterLines hstart).1)

end

-- ---------------------------------------------------------------------------
-- Both directions
-- ---------------------------------------------------------------------------

theorem LineIndex.position?_ofText (text : Text) (offset : Nat) :
    (ofText text).position? offset = some (text.positionAt offset) := by
  obtain ⟨lines, column, hcut⟩ := exists_lineCut text offset
  have hposition := hcut.positionAt
  rw [Text.positionAt_clamp] at hposition
  obtain ⟨⟨rest, rfl⟩, hsize, hlines, hcolumn⟩ := hcut
  have hslice := Text.slice?_append lines column rest
  rw [← Text.size_append] at hslice
  have hpoint := hlines.partitionPoint hcolumn rest
  have hstart := hlines.lineStart (column ++ rest)
  rw [← List.append_assoc] at hpoint hstart
  have htext : (ofText (lines ++ column ++ rest)).text = lines ++ column ++ rest := rfl
  simp only [position?, htext, ← hsize, hpoint, Nat.add_sub_cancel, hstart, Option.bind_some, hslice,
    Option.map_some, hposition]

theorem Text.walk_append {line : Text} (hline : '\n' ∉ line) {tail : Text}
    (htail : ∀ c ∈ tail.head?, c = '\n') (column offset : Nat) :
    (columnOffset? (line ++ tail) column).map (offset + ·) =
      if 0 < (line.walk column offset).1 then none else some (line.walk column offset).2 := by
  induction line generalizing column offset with
  | nil =>
    cases column with
    | zero => simp [columnOffset?_zero, walk]
    | succ n =>
      cases tail with
      | nil => simp [columnOffset?, walk]
      | cons c tail => simp [columnOffset?, walk, htail c rfl]
  | cons c line ih =>
    have hc : c ≠ '\n' := Ne.symm (List.ne_of_not_mem_cons hline)
    rw [List.cons_append, walk]
    cases column with
    | zero => simp [columnOffset?_zero]
    | succ n =>
      rw [columnOffset?, if_neg hc, if_neg (Nat.succ_ne_zero n)]
      by_cases hfits : utf16Size c ≤ n + 1
      · rw [if_pos hfits, if_neg (Nat.not_lt.mpr hfits), ← ih (List.not_mem_of_not_mem_cons hline),
          Option.map_map]
        simp [Function.comp_def, Nat.add_assoc]
      · rw [if_neg hfits, if_pos (Nat.lt_of_not_le hfits)]
        simp

theorem Text.head?_laterLines {line tail : Text} (hline : '\n' ∉ line) (htail : ∀ c ∈ tail.head?, c = '\n')
    (offset : Nat) :
    (laterLines offset (line ++ tail)).head?.elim (offset + size (line ++ tail)) (· - 1) =
      offset + line.size := by
  rw [laterLines_append, laterLines_eq_nil hline, List.nil_append]
  cases tail with
  | nil => simp [laterLines]
  | cons c tail =>
    obtain rfl := htail c rfl
    have hbreak : ('\n').utf8Size = 1 := rfl
    simp [laterLines, hbreak]

theorem Text.exists_line (back : Text) :
    ∃ line tail, back = line ++ tail ∧ '\n' ∉ line ∧ ∀ c ∈ tail.head?, c = '\n' := by
  refine ⟨back.takeWhile (· ≠ '\n'), back.dropWhile (· ≠ '\n'),
    List.takeWhile_append_dropWhile.symm, fun h => ?_, fun c hc => ?_⟩
  · simpa using List.mem_takeWhile_imp h
  · have hhead := List.head?_dropWhile_not (· ≠ '\n') back
    rw [hc] at hhead
    simpa using hhead

theorem LineIndex.offset?_ofText (text : Text) (p : Position) :
    (ofText text).offset? p = some (text.offsetAt p) := by
  have houtside : (ofText text).outside p = .error ⟨p, text.lineCount⟩ := by
    rw [outside, lineCount_ofText]
  by_cases hline : p.line < text.lineCount
  · obtain ⟨lines, back, rfl, hlines, hcount⟩ := Text.exists_lines_of_lt hline
    obtain ⟨line, tail, rfl, hnone, htail⟩ := back.exists_line
    have hstart := hlines.lineStart (line ++ tail)
    have hnext := hlines.nextLineStart (line ++ tail)
    rw [hcount] at hstart hnext
    have hstop := Text.head?_laterLines hnone htail lines.size
    rw [← Text.size_append] at hstop
    have hslice := Text.slice?_append lines line tail
    rw [List.append_assoc] at hslice
    have hoffset := Text.offsetOf?_append hlines (line ++ tail) p.character
    rw [hcount, Text.walk_append hnone htail] at hoffset
    rw [Text.offsetAt, hoffset, ← houtside]
    simp only [offset?, hstart, hnext]
    simp only [ofText, hstop, hslice, Option.map_some]
    split <;> rfl
  · have hnone : (ofText text).lineStarts[p.line]? = none := by
      refine List.getElem?_eq_none ?_
      rw [← lineCount, lineCount_ofText]
      exact Nat.le_of_not_lt hline
    have hoffset : text.offsetOf? p = none :=
      Option.not_isSome_iff_eq_none.mp fun h => hline ((text.isSome_offsetOf? p).mp h).1
    rw [Text.offsetAt_eq_error_iff.mpr ⟨hoffset, rfl⟩, ← houtside, offset?, hnone]

end PageMarkup
