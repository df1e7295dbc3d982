import PageMarkup.Proofs.Positions

/-!
# Positions in the order of offsets

A position counts the line breaks before an offset and the UTF-16 units since the last of them.
`positionAt_orderIso` says that this is a second way to write the boundaries of a text: it keeps their
order, and whatever offset a position leads to has that position, unless the position was between the
two units of one character.
-/

namespace PageMarkup

-- ---------------------------------------------------------------------------
-- Boundaries at or before an offset
-- ---------------------------------------------------------------------------

namespace Text

def floorBoundary (cs : Text) : Nat → Nat
  | 0 => 0
  | n + 1 => if cs.IsBoundary (n + 1) then n + 1 else floorBoundary cs n

/-- The boundary that counts for an offset: after the end it is the end, inside a character its
start. -/
def clamp (cs : Text) (offset : Nat) : Nat :=
  cs.floorBoundary (min offset cs.size)

variable {cs : Text}

theorem floorBoundary_eq {boundary n : Nat} (h : cs.IsBoundary boundary) (hle : boundary ≤ n)
    (hlast : ∀ m, cs.IsBoundary m → m ≤ n → m ≤ boundary) : cs.floorBoundary n = boundary := by
  induction n with
  | zero => exact (Nat.le_zero.mp hle).symm
  | succ n ih =>
    rw [floorBoundary]
    split
    · next hn => exact Nat.le_antisymm (hlast _ hn (Nat.le_refl _)) hle
    · next hn =>
      have hne : boundary ≠ n + 1 := fun heq => hn (heq ▸ h)
      exact ih (by omega) fun m hm hmn => hlast m hm (Nat.le_succ_of_le hmn)

theorem isBoundary_upTo (cs : Text) (offset : Nat) : cs.IsBoundary (cs.upTo offset).size :=
  isBoundary_iff.mpr ⟨_, _, (cs.upTo_append_onward offset).symm, rfl⟩

theorem IsBoundary.size_upTo {boundary : Nat} (h : cs.IsBoundary boundary) :
    (cs.upTo boundary).size = boundary := by
  obtain ⟨front, rest, rfl, rfl⟩ := isBoundary_iff.mp h
  rw [upTo_size_append]

theorem size_upTo (cs : Text) (offset : Nat) : (cs.upTo offset).size = cs.clamp offset := by
  have hboundary := cs.isBoundary_upTo offset
  refine (floorBoundary_eq hboundary (Nat.le_min.mpr ⟨cs.size_upTo_le offset, hboundary.le_size⟩) ?_).symm
  intro m hm hle
  obtain ⟨more, hmore⟩ := cs.upTo_isPrefix (Nat.le_trans hle (Nat.min_le_left _ _))
  rw [← hmore, size_append, hm.size_upTo]
  exact Nat.le_add_right _ _

theorem positionAt_clamp (cs : Text) (offset : Nat) :
    cs.positionAt (cs.clamp offset) = cs.positionAt offset := by
  have h := upTo_size_append (cs.upTo offset) (cs.onward offset)
  rw [upTo_append_onward, size_upTo] at h
  rw [positionAt, h]
  rfl

end Text

-- ---------------------------------------------------------------------------
-- Lines and columns
-- ---------------------------------------------------------------------------

/-- The text up to `offset` is made of whole lines and a beginning of the next one. -/
structure LineCut (text lines column : Text) (offset : Nat) : Prop where
  isPrefix : lines ++ column <+: text
  size : Text.size (lines ++ column) = offset
  lines : lines.IsLines
  column : '\n' ∉ column

/-- The position is between the two units of a character. -/
def SplitsPair (text : Text) (p : Position) : Prop :=
  ∃ lines column offset c, LineCut text lines column offset ∧ lines ++ column ++ [c] <+: text ∧
    utf16Size c = 2 ∧ p = ⟨lines.count '\n', utf16Length column + 1⟩

section
variable {text lines column : Text} {offset : Nat}

theorem LineCut.positionAt (h : LineCut text lines column offset) :
    text.positionAt offset = ⟨lines.count '\n', utf16Length column⟩ := by
  obtain ⟨⟨rest, rfl⟩, rfl, hlines, hcolumn⟩ := h
  rw [Text.positionAt, Text.upTo_size_append, Position.foldl_advance_lines_column hlines hcolumn]

theorem LineCut.count (h : LineCut text lines column offset) :
    (lines ++ column).count '\n' = lines.count '\n' := by
  rw [List.count_append, List.count_eq_zero.mpr h.column, Nat.add_zero]

theorem exists_lineCut (text : Text) (offset : Nat) :
    ∃ lines column, LineCut text lines column (text.clamp offset) := by
  obtain ⟨lines, column, hcut, hlines, hcolumn⟩ := exists_lines (text.upTo offset)
  refine ⟨lines, column, ⟨text.onward offset, ?_⟩, ?_, hlines, hcolumn⟩
  · rw [← hcut, text.upTo_append_onward]
  · rw [← hcut, text.size_upTo]

end

-- ---------------------------------------------------------------------------
-- Where a position leads
-- ---------------------------------------------------------------------------

namespace Text

variable {cs : Text} {n offset : Nat} {p : Position}

theorem exists_of_columnOffset? (h : columnOffset? cs n = some offset) :
    ∃ column rest, cs = column ++ rest ∧ column.size = offset ∧ '\n' ∉ column ∧
      (n = utf16Length column ∨
        n = utf16Length column + 1 ∧ ∃ c tail, rest = c :: tail ∧ utf16Size c = 2) := by
  induction cs generalizing n offset with
  | nil =>
    cases n with
    | zero =>
      cases h
      exact ⟨[], [], rfl, rfl, List.not_mem_nil, .inl rfl⟩
    | succ n => cases h
  | cons c cs ih =>
    cases n with
    | zero =>
      cases h
      exact ⟨[], c :: cs, rfl, rfl, List.not_mem_nil, .inl rfl⟩
    | succ n =>
      rw [columnOffset?] at h
      split at h
      · cases h
      · next hc =>
        split at h
        · next hle =>
          obtain ⟨offset', hoffset, rfl⟩ := Option.map_eq_some_iff.mp h
          obtain ⟨column, rest, rfl, rfl, hcolumn, hn⟩ := ih hoffset
          refine ⟨c :: column, rest, rfl, rfl, by simp [hcolumn, Ne.symm hc], ?_⟩
          rw [utf16Length_cons]
          exact hn.imp (by omega) (And.imp_left (by omega))
        · next hlt =>
          cases h
          have hsize : utf16Size c = 2 ∧ n = 0 := by
            revert hlt
            rw [utf16Size]
            split <;> omega
          obtain ⟨hsize, rfl⟩ := hsize
          exact ⟨[], c :: cs, rfl, rfl, List.not_mem_nil, .inr ⟨rfl, c, cs, rfl, hsize⟩⟩

theorem exists_of_offsetOf? (h : offsetOf? cs p = some offset) :
    ∃ lines back column, cs = lines ++ back ∧ lines.IsLines ∧ lines.count '\n' = p.line ∧
      columnOffset? back p.character = some column ∧ offset = lines.size + column := by
  fun_induction offsetOf? cs p generalizing offset with
  | case1 cs column => exact ⟨[], cs, offset, rfl, .inl rfl, rfl, h, (Nat.zero_add _).symm⟩
  | case2 => cases h
  | case3 c cs line column ih =>
    obtain ⟨offset', hoffset, rfl⟩ := Option.map_eq_some_iff.mp h
    obtain ⟨lines, back, column', rfl, hlines, hcount, hcolumn, rfl⟩ := ih hoffset
    have hnil : lines = [] → c = '\n' := by
      rintro rfl
      refine Classical.byContradiction fun hc => ?_
      simp [hc] at hcount
    refine ⟨c :: lines, back, column', rfl, isLines_cons.mpr ⟨hlines, hnil⟩, ?_, hcolumn, ?_⟩
    · by_cases hc : c = '\n'
      · simpa [hc] using hcount
      · simpa [hc] using hcount
    · rw [size_cons, Nat.add_assoc]

end Text

section
variable {text lines column : Text} {offset : Nat} {p : Position}

/-- What a position further on in a line leads to. -/
theorem LineCut.offsetAt_splits {c : Char} (h : LineCut text lines column offset)
    (hnext : lines ++ column ++ [c] <+: text) (hc : utf16Size c = 2) :
    text.offsetAt ⟨lines.count '\n', utf16Length column + 1⟩ = .ok offset := by
  obtain ⟨rest, rfl⟩ := hnext
  have hnewline : c ≠ '\n' := by
    rintro rfl
    cases hc
  have hcolumn : Text.columnOffset? (c :: rest) 1 = some 0 := by
    rw [Text.columnOffset?, if_neg hnewline, hc]
    rfl
  have hlines := Text.offsetOf?_append h.lines (column ++ c :: rest) (utf16Length column + 1)
  rw [Text.columnOffset?_append h.column, hcolumn] at hlines
  have hoffset := h.size
  rw [Text.size_append] at hoffset
  rw [Text.offsetAt]
  simp only [List.append_assoc, List.singleton_append, hlines]
  exact congrArg Except.ok hoffset

/-- Where a position leads, its line and column are counted, unless it splits a pair. -/
theorem exists_of_offsetAt (h : text.offsetAt p = .ok offset) :
    ∃ lines column, LineCut text lines column offset ∧
      (p = ⟨lines.count '\n', utf16Length column⟩ ∨ SplitsPair text p) := by
  unfold Text.offsetAt at h
  split at h
  · next offset' hoffset =>
    cases h
    obtain ⟨lines, back, o, rfl, hlines, hcount, hcolumn, rfl⟩ := Text.exists_of_offsetOf? hoffset
    obtain ⟨column, rest, rfl, rfl, hmem, hcharacter⟩ := Text.exists_of_columnOffset? hcolumn
    have hcut : LineCut (lines ++ (column ++ rest)) lines column (lines.size + column.size) :=
      ⟨⟨rest, List.append_assoc _ _ _⟩, Text.size_append _ _, hlines, hmem⟩
    obtain ⟨line, character⟩ := p
    refine ⟨lines, column, hcut, ?_⟩
    rcases hcharacter with hcharacter | ⟨hcharacter, c, tail, rfl, hc⟩
    · exact .inl (by rw [hcount, ← hcharacter])
    · refine .inr ⟨lines, column, _, c, hcut, ⟨tail, by simp⟩, hc, ?_⟩
      rw [hcount, ← hcharacter]
  · cases h

theorem positionAt_eq_iff (h : text.offsetAt p = .ok offset) :
    text.positionAt offset = p ↔ ¬ SplitsPair text p := by
  constructor
  · rintro rfl ⟨lines, column, offset', c, hcut, hnext, hc, hp⟩
    rw [hp, hcut.offsetAt_splits hnext hc] at h
    cases h
    rw [hcut.positionAt] at hp
    have hcharacter := congrArg Position.character hp
    exact Nat.ne_of_lt (Nat.lt_succ_self _) hcharacter
  · intro hsplits
    obtain ⟨lines, column, hcut, hp⟩ := exists_of_offsetAt h
    rw [hcut.positionAt]
    exact (hp.resolve_right hsplits).symm

end

-- ---------------------------------------------------------------------------
-- Order
-- ---------------------------------------------------------------------------

namespace Position

theorem lt_advance (p : Position) (c : Char) : p < p.advance c := by
  rw [advance]
  split
  · exact .inl (Nat.lt_succ_self _)
  · exact .inr ⟨rfl, Nat.lt_add_of_pos_right (utf16Size_pos c)⟩

theorem lt_foldl_advance (p : Position) {cs : Text} (h : cs ≠ []) : p < cs.foldl advance p := by
  cases cs with
  | nil => exact absurd rfl h
  | cons c cs => exact lt_of_lt_of_le (p.lt_advance c) (le_foldl_advance _ cs)

end Position

namespace Text

theorem positionAt_lt {text : Text} {a b : Nat} (ha : text.IsBoundary a) (hb : text.IsBoundary b)
    (h : a < b) : text.positionAt a < text.positionAt b := by
  obtain ⟨more, hmore⟩ := text.upTo_isPrefix (Nat.le_of_lt h)
  have hne : more ≠ [] := by
    rintro rfl
    have hsize := congrArg size hmore
    rw [List.append_nil, ha.size_upTo, hb.size_upTo] at hsize
    exact Nat.ne_of_lt h hsize
  rw [positionAt, positionAt, ← hmore, List.foldl_append]
  exact Position.lt_foldl_advance _ hne

end Text

/-- In a text of which the protocol can count the bytes, the position of an offset is the number of
lines and units before it, and leads back to it. Positions are in the order of boundaries, and the
only positions in the text that no offset has are between the two units of a character. -/
theorem positionAt_orderIso {text : Text} (hsize : text.size < 0x100000000) :
    (∀ offset,
      (∃ lines column, LineCut text lines column (text.clamp offset) ∧
        text.positionAt offset = ⟨(lines ++ column).count '\n', utf16Length column⟩) ∧
      (text.positionAt offset).Fits ∧
      text.offsetAt (text.positionAt offset) = .ok (text.clamp offset)) ∧
    (∀ a b, text.IsBoundary a → text.IsBoundary b → a < b → text.positionAt a < text.positionAt b) ∧
    (∀ a b, a ≤ b → text.positionAt a ≤ text.positionAt b) ∧
    ∀ p offset, text.offsetAt p = .ok offset → (text.positionAt offset = p ↔ ¬ SplitsPair text p) := by
  refine ⟨fun offset => ⟨?_, Text.positionAt_fits hsize offset, ?_⟩, fun a b => Text.positionAt_lt,
    fun a b => text.positionAt_mono, fun p offset => positionAt_eq_iff⟩
  · obtain ⟨lines, column, hcut⟩ := exists_lineCut text offset
    refine ⟨lines, column, hcut, ?_⟩
    rw [hcut.count, ← hcut.positionAt, Text.positionAt_clamp]
  · rw [text.offsetAt_positionAt, text.size_upTo]

/-- Four lines, two of them empty, and a character of four bytes and two units. -/
def emojiText : Text :=
  "a😀\n\nb\n".toList

theorem positionAt_orderIso_emojiText :
    emojiText.size < 0x100000000 ∧ emojiText.offsetAt (emojiText.positionAt 3) = .ok 1 ∧
      emojiText.positionAt 5 < emojiText.positionAt 6 ∧
      emojiText.offsetAt ⟨0, 2⟩ = .ok 1 ∧ SplitsPair emojiText ⟨0, 2⟩ ∧
      emojiText.offsetAt ⟨3, 0⟩ = .ok 9 ∧ ¬ SplitsPair emojiText ⟨3, 0⟩ := by
  have hsize : emojiText.size < 0x100000000 := by decide
  obtain ⟨hoffsets, hlt, -, hback⟩ := positionAt_orderIso hsize
  refine ⟨hsize, (hoffsets 3).2.2, hlt 5 6 (by decide) (by decide) (by decide), rfl, ?_, rfl, ?_⟩
  · refine Classical.byContradiction fun hsplits => ?_
    exact absurd ((hback ⟨0, 2⟩ 1 rfl).mpr hsplits) (by decide)
  · exact (hback ⟨3, 0⟩ 9 rfl).mp (by decide)

end PageMarkup
