import PageMarkup.Proofs.Neighbours
import PageMarkup.Text.Position

/-!
# Offsets that do not split a character

Tokens begin and end at boundaries, and inside a token of ASCII characters every offset is one. The
offset of a position is a boundary of the text, too.
-/

namespace PageMarkup

/-- The offset is inside the text or at its end and splits no character. -/
def Text.IsBoundary (cs : Text) (offset : Nat) : Prop :=
  (cs.suffixAt? offset).isSome = true

instance (cs : Text) (offset : Nat) : Decidable (cs.IsBoundary offset) :=
  inferInstanceAs (Decidable (_ = true))

namespace Text

theorem isBoundary_iff :
    IsBoundary cs offset ↔ ∃ front rest, cs = front ++ rest ∧ size front = offset := by
  constructor
  · intro h
    obtain ⟨rest, hrest⟩ := Option.isSome_iff_exists.mp h
    obtain ⟨front, hcut, hsize⟩ := eq_append_of_suffixAt? hrest
    exact ⟨front, rest, hcut, hsize⟩
  · rintro ⟨front, rest, rfl, rfl⟩
    rw [IsBoundary, suffixAt?_size_append]
    rfl

theorem isBoundary_zero (cs : Text) : cs.IsBoundary 0 :=
  isBoundary_iff.mpr ⟨[], cs, rfl, rfl⟩

theorem IsBoundary.le_size (h : IsBoundary cs offset) : offset ≤ cs.size := by
  obtain ⟨front, rest, rfl, rfl⟩ := isBoundary_iff.mp h
  rw [size_append]
  exact Nat.le_add_right _ _

theorem IsBoundary.cons (h : IsBoundary cs offset) (c : Char) :
    IsBoundary (c :: cs) (c.utf8Size + offset) := by
  obtain ⟨front, rest, rfl, rfl⟩ := isBoundary_iff.mp h
  exact isBoundary_iff.mpr ⟨c :: front, rest, rfl, rfl⟩

theorem IsBoundary.scanFrom (h : IsBoundary text offset) (state : ScanState) :
    ∃ ts, scanFrom text offset state = .ok ts := by
  obtain ⟨rest, hrest⟩ := Option.isSome_iff_exists.mp h
  exact ⟨scan state offset rest, by rw [PageMarkup.scanFrom, hrest]⟩

theorem size_eq_length {w : Text} (h : ∀ c ∈ w, c.utf8Size = 1) : w.size = w.length := by
  induction w with
  | nil => rfl
  | cons c w ih =>
    obtain ⟨hc, hw⟩ := List.forall_mem_cons.mp h
    rw [size_cons, hc, ih hw, List.length_cons, Nat.add_comm]

theorem upTo_size_append (front rest : Text) : upTo (front ++ rest) (size front) = front := by
  induction front with
  | nil =>
    cases rest with
    | nil => rfl
    | cons c rest => exact if_neg (Nat.not_le.mpr c.utf8Size_pos)
  | cons c front ih =>
    rw [List.cons_append, size_cons, upTo, if_pos (Nat.le_add_right _ _), Nat.add_sub_cancel_left, ih]

theorem size_upTo_le (cs : Text) (n : Nat) : size (cs.upTo n) ≤ n := by
  fun_induction upTo cs n with
  | case1 n => exact Nat.zero_le n
  | case2 c cs n hle ih =>
    rw [size_cons]
    omega
  | case3 c cs n => exact Nat.zero_le n

theorem isBoundary_inside {w : Text} (front rest : Text) (hw : ∀ c ∈ w, c.utf8Size = 1)
    (hn : n ≤ w.length) : IsBoundary (front ++ w ++ rest) (size front + n) := by
  refine isBoundary_iff.mpr ⟨front ++ w.take n, w.drop n ++ rest, ?_, ?_⟩
  · rw [List.append_assoc, List.append_assoc, ← List.append_assoc (w.take n), List.take_append_drop]
  · rw [size_append, size_eq_length fun c hc => hw c (List.mem_of_mem_take hc), List.length_take,
      Nat.min_eq_left hn]

end Text

theorem utf8Size_of_isBlank {c : Char} (h : isBlank c = true) : c.utf8Size = 1 := by
  simp only [isBlank, Bool.or_eq_true, decide_eq_true_eq] at h
  rcases h with (((rfl | rfl) | rfl) | rfl) | rfl <;> rfl

-- ---------------------------------------------------------------------------
-- Tokens
-- ---------------------------------------------------------------------------

theorem exists_append_of_mem_tokens (h : p ∈ tokens text) :
    ∃ front rest, text = front ++ p.lexeme ++ rest ∧ Text.size front = p.offset := by
  obtain ⟨_, front, here, c, tail, htext, hoffset, htoken, -⟩ := exists_scan_of_mem h
  refine ⟨front, (Token.next here c tail).rest, ?_, by omega⟩
  rw [List.append_assoc, Placed.lexeme, htoken, Token.next_lexeme_append_rest]
  exact htext

theorem offset_eq_size (h : tokens text = before ++ q :: rest) :
    q.offset = Text.size (before.flatMap Placed.lexeme) := by
  obtain ⟨_, -, hoffset⟩ := lexemes_of_scan h
  rw [(reads_of_scan h).2, hoffset, Nat.zero_add]

theorem upTo_offset (h : tokens text = before ++ q :: rest) :
    text.upTo q.offset = before.flatMap Placed.lexeme := by
  obtain ⟨tail, htext, -⟩ := lexemes_of_scan h
  rw [offset_eq_size h, htext]
  exact Text.upTo_size_append _ tail

theorem isBoundary_of_mem_tokens (h : p ∈ tokens text) :
    text.IsBoundary p.offset ∧ text.IsBoundary p.stop := by
  obtain ⟨front, rest, rfl, hoffset⟩ := exists_append_of_mem_tokens h
  refine ⟨Text.isBoundary_iff.mpr ⟨front, p.lexeme ++ rest, by rw [List.append_assoc], hoffset⟩,
    Text.isBoundary_iff.mpr ⟨front ++ p.lexeme, rest, rfl, ?_⟩⟩
  rw [Text.size_append, hoffset]
  rfl

theorem TokenAt.isBoundary (h : TokenAt text kind offset) : text.IsBoundary offset := by
  obtain ⟨p, hp, -, rfl⟩ := h
  exact (isBoundary_of_mem_tokens hp).1

theorem isBoundary_in_token (h : p ∈ tokens text) (hsize : ∀ c ∈ p.lexeme, c.utf8Size = 1)
    (hstart : p.offset ≤ cursor) (hstop : cursor ≤ p.stop) : text.IsBoundary cursor := by
  obtain ⟨front, rest, rfl, hoffset⟩ := exists_append_of_mem_tokens h
  have hlength : p.stop = p.offset + p.lexeme.length :=
    congrArg (p.offset + ·) (Text.size_eq_length hsize)
  have hinside := Text.isBoundary_inside front rest hsize (n := cursor - p.offset) (by omega)
  rwa [hoffset, Nat.add_sub_of_le hstart] at hinside

theorem isBoundary_in_blank (h : p ∈ tokens text) (hkind : p.kind = .blank)
    (hstart : p.offset ≤ cursor) (hstop : cursor ≤ p.stop) : text.IsBoundary cursor := by
  have hwrites := writes_of_mem_scan h
  rw [hkind] at hwrites
  exact isBoundary_in_token h (fun c hc => utf8Size_of_isBlank (hwrites c hc)) hstart hstop

-- ---------------------------------------------------------------------------
-- Positions
-- ---------------------------------------------------------------------------

namespace Text

theorem columnOffset?_isBoundary (h : columnOffset? cs column = some offset) : cs.IsBoundary offset := by
  induction cs generalizing column offset with
  | nil =>
    cases column with
    | zero => cases h; exact isBoundary_zero []
    | succ n => cases h
  | cons c cs ih =>
    cases column with
    | zero => cases h; exact isBoundary_zero (c :: cs)
    | succ n =>
      rw [columnOffset?] at h
      split at h
      · cases h
      · split at h
        · obtain ⟨offset', hoffset, rfl⟩ := Option.map_eq_some_iff.mp h
          exact (ih hoffset).cons c
        · cases h
          exact isBoundary_zero (c :: cs)

theorem offsetOf?_isBoundary (h : offsetOf? cs position = some offset) : cs.IsBoundary offset := by
  fun_induction offsetOf? cs position generalizing offset with
  | case1 cs column => exact columnOffset?_isBoundary h
  | case2 => cases h
  | case3 c cs line column ih =>
    obtain ⟨offset', hoffset, rfl⟩ := Option.map_eq_some_iff.mp h
    exact (ih hoffset).cons c

/-- A position never leads out of the text or into a character. -/
theorem offsetAt_isBoundary {cs : Text} (h : cs.offsetAt position = .ok offset) :
    cs.IsBoundary offset := by
  rw [offsetAt] at h
  split at h
  · next hoffset =>
    cases h
    exact offsetOf?_isBoundary hoffset
  · cases h

end Text

end PageMarkup
