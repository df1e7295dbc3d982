import Mathlib.Logic.Function.Iterate
import PageMarkup.Proofs.ScanLaws
import PageMarkup.Token.Cursor

/-!
# Reading token by token loses nothing

A cursor that starts at a character boundary, in whatever state, reads the rest of the text in
tokens that lie end to end, each of at least one character, and then stands at the end of the text
for good.
-/

namespace PageMarkup

theorem Token.orSkip_next (state : ScanState) (c : Char) (cs : Text) :
    (next state c cs).orSkip c cs = next state c cs :=
  if_neg (next_lexeme_ne_nil state c cs)

namespace Cursor

def placed (c : Cursor) : Placed :=
  ⟨c.token, c.offset, c.state⟩

/-- The cursor after one more call of `next` than the number says. -/
def call (c : Cursor) (i : Nat) : Cursor :=
  next^[i + 1] c

theorem call_eq_next (c : Cursor) (i : Nat) : c.call i = (next^[i] c).next :=
  Function.iterate_succ_apply' next i c

theorem call_succ (c : Cursor) (i : Nat) : c.call (i + 1) = (c.call i).next :=
  Function.iterate_succ_apply' next (i + 1) c

-- ---------------------------------------------------------------------------
-- One call
-- ---------------------------------------------------------------------------

theorem next_offset (c : Cursor) : c.next.offset = c.stop := by
  unfold next
  split <;> rfl

theorem next_of_nil {c : Cursor} (h : c.rest = []) :
    c.next = { c with offset := c.stop, token := ⟨.endOfText, [], none⟩ } := by
  unfold next
  rw [h]

theorem next_of_cons {c : Cursor} (h : c.rest = d :: ds) :
    c.next = ⟨(Token.next c.state d ds).state, c.stop, (Token.next c.state d ds).token,
      (Token.next c.state d ds).rest⟩ := by
  unfold next
  rw [h]
  simp only [Token.orSkip_next]

theorem next_lexeme_append_rest (c : Cursor) : c.next.token.lexeme ++ c.next.rest = c.rest := by
  cases h : c.rest with
  | nil => rw [next_of_nil h, h, List.nil_append]
  | cons d ds => rw [next_of_cons h, Token.next_lexeme_append_rest]

theorem next_kind_eq_endOfText_iff (c : Cursor) : c.next.token.kind = .endOfText ↔ c.rest = [] := by
  cases h : c.rest with
  | nil => simp [next_of_nil h]
  | cons d ds => simp [next_of_cons h, (Token.next_reads c.state d ds).ne_endOfText]

-- ---------------------------------------------------------------------------
-- Any number of calls
-- ---------------------------------------------------------------------------

/-- What the cursor has not read is what the text holds after the current token. -/
def Stands (text : Text) (c : Cursor) : Prop :=
  text.suffixAt? c.stop = some c.rest

theorem Stands.next {c : Cursor} (h : c.Stands text) : c.next.Stands text := by
  obtain ⟨front, htext, hsize⟩ := Text.eq_append_of_suffixAt? h
  have hstop : c.next.stop = Text.size (front ++ c.next.token.lexeme) := by
    rw [Text.size_append, hsize, stop, next_offset, Token.size]
  rw [Stands, hstop, htext, ← next_lexeme_append_rest, ← List.append_assoc]
  exact Text.suffixAt?_size_append _ _

theorem Stands.iterate {c : Cursor} (h : c.Stands text) (i : Nat) : (Cursor.next^[i] c).Stands text := by
  induction i with
  | zero => exact h
  | succ i ih =>
    rw [Function.iterate_succ_apply']
    exact ih.next

theorem Stands.size_rest {c : Cursor} (h : c.Stands text) : c.stop + Text.size c.rest = text.size := by
  obtain ⟨front, htext, hsize⟩ := Text.eq_append_of_suffixAt? h
  rw [htext, Text.size_append, hsize]

theorem flatMap_lexeme_append_rest (c : Cursor) (n : Nat) :
    (List.range n).flatMap (fun i => (c.call i).token.lexeme) ++ (next^[n] c).rest = c.rest := by
  induction n with
  | zero => rfl
  | succ n ih =>
    rw [List.range_succ, List.flatMap_append, List.append_assoc, ← ih]
    simp [call_eq_next, Function.iterate_succ_apply', next_lexeme_append_rest]

/-- The calls up to the end of the text give the tokens of a scan, at most one for a byte. -/
theorem exists_calls (c : Cursor) :
    ∃ n ≤ Text.size c.rest, (∀ i < n, (next^[i] c).rest ≠ []) ∧ (next^[n] c).rest = [] ∧
      (List.range n).map (fun i => (c.call i).placed) = scan c.state c.stop c.rest := by
  induction hlen : c.rest.length using Nat.strongRecOn generalizing c with
  | _ len ih =>
    cases hrest : c.rest with
    | nil => exact ⟨0, Nat.le_refl _, nofun, hrest, by rw [scan]; rfl⟩
    | cons d ds =>
      have hnext := next_of_cons hrest
      have hshorter : c.next.rest.length < len := by
        rw [← hlen, hrest, hnext]
        exact Token.next_rest_length_lt c.state d ds
      obtain ⟨n, hn, hmore, hdone, hscan⟩ := ih _ hshorter c.next rfl
      refine ⟨n + 1, ?_, ?_, ?_, ?_⟩
      · have hpos := Token.size_next_pos c.state d ds
        have hsize := Token.size_next_add_size_rest c.state d ds
        have hrest : Text.size c.next.rest = Text.size (Token.next c.state d ds).rest := by rw [hnext]
        omega
      · intro i hi
        cases i with
        | zero => simp [hrest]
        | succ i => exact hmore i (by omega)
      · exact hdone
      · rw [scan_cons, List.range_succ_eq_map, List.map_cons, List.map_map]
        have hhead : (c.call 0).placed =
            ⟨(Token.next c.state d ds).token, c.stop, (Token.next c.state d ds).state⟩ := by
          simp [call, placed, hnext]
        have htail : ((fun i => (c.call i).placed) ∘ Nat.succ) = fun i => (c.next.call i).placed := rfl
        rw [hhead, htail, hscan, hnext]
        rfl

/-- Once the text is used up a call changes nothing but the token. -/
theorem call_of_rest_nil {c : Cursor} (h : (next^[n] c).rest = []) (hi : n ≤ i) :
    c.call i = ⟨(next^[n] c).state, (next^[n] c).stop, ⟨.endOfText, [], none⟩, []⟩ := by
  induction hi with
  | refl => rw [call_eq_next, next_of_nil h, h]
  | step _ ih =>
    rw [call_succ, ih, next_of_nil rfl]
    rfl

-- ---------------------------------------------------------------------------
-- From a boundary to the end of the text
-- ---------------------------------------------------------------------------

/-- From `offset` on, `n` calls read the text in `state` without a gap, and all later calls find its
end. -/
structure Covers (text : Text) (offset : Nat) (state : ScanState) (c : Cursor) (n : Nat) : Prop where
  count_le : n ≤ text.size - offset
  progress : ∀ i < n, (c.call i).token.kind ≠ .endOfText ∧ 0 < (c.call i).token.size
  /-- What a step before the end takes is never empty, so that no character has to be skipped. -/
  noSkip : ∀ i < n, ∃ d ds, (next^[i] c).rest = d :: ds ∧
    (Token.next (next^[i] c).state d ds).token.lexeme ≠ []
  first : (c.call 0).offset = offset
  adjacent : ∀ i, (c.call (i + 1)).offset = (c.call i).stop
  last : (next^[n] c).stop = text.size
  boundary : ∀ i, (text.suffixAt? (c.call i).offset).isSome ∧ (text.suffixAt? (c.call i).stop).isSome
  lexemes : text.suffixAt? offset = some ((List.range n).flatMap fun i => (c.call i).token.lexeme)
  tokens : scanFrom text offset state = .ok ((List.range n).map fun i => (c.call i).placed)
  ended : ∀ i ≥ n, (c.call i).token = ⟨.endOfText, [], none⟩ ∧ (c.call i).offset = text.size ∧
    (c.call i).stop = text.size ∧ (c.call i).state = (next^[n] c).state

theorem start_covers (text : Text) (offset : Nat) (state : ScanState)
    (h : (text.suffixAt? offset).isSome) :
    ∃ c n, start text offset state = .ok c ∧ c.Covers text offset state n := by
  obtain ⟨rest, hrest⟩ := Option.isSome_iff_exists.mp h
  let c : Cursor := ⟨state, offset, ⟨.unknown, [], none⟩, rest⟩
  have hstop : c.stop = offset := rfl
  have hstands : c.Stands text := hrest
  have hsize := hstands.size_rest
  obtain ⟨n, hn, hmore, hdone, hscan⟩ := c.exists_calls
  have hend : (next^[n] c).stop = text.size := by
    have := (hstands.iterate n).size_rest
    rwa [hdone] at this
  refine ⟨c, n, by rw [start, hrest], ?_⟩
  constructor
  case count_le => omega
  case progress =>
    intro i hi
    rw [call_eq_next]
    obtain ⟨d, ds, hds⟩ := List.exists_cons_of_ne_nil (hmore i hi)
    refine ⟨fun hkind => hmore i hi ((next_kind_eq_endOfText_iff _).mp hkind), ?_⟩
    rw [next_of_cons hds]
    exact Token.size_next_pos _ d ds
  case noSkip =>
    intro i hi
    obtain ⟨d, ds, hds⟩ := List.exists_cons_of_ne_nil (hmore i hi)
    exact ⟨d, ds, hds, Token.next_lexeme_ne_nil _ d ds⟩
  case first => exact c.next_offset
  case adjacent =>
    intro i
    rw [call_succ, next_offset]
  case last => exact hend
  case boundary =>
    intro i
    have hbefore := hstands.iterate i
    have hafter := hstands.iterate (i + 1)
    rw [Function.iterate_succ_apply'] at hafter
    rw [call_eq_next, next_offset]
    exact ⟨Option.isSome_iff_exists.mpr ⟨_, hbefore⟩, Option.isSome_iff_exists.mpr ⟨_, hafter⟩⟩
  case lexemes =>
    have := c.flatMap_lexeme_append_rest n
    rw [hdone, List.append_nil] at this
    rw [this, hrest]
  case tokens =>
    rw [scanFrom, hrest, hscan]
    rfl
  case ended =>
    intro i hi
    rw [call_of_rest_nil hdone hi, hend]
    exact ⟨rfl, rfl, by simp [stop, Token.size], rfl⟩

theorem start_covers_afterAttributeName :
    (Text.suffixAt? ['é', '=', '\'', 'ü', '>', '<'] 2).isSome ∧
      ∃ c n, start ['é', '=', '\'', 'ü', '>', '<'] 2 (.afterAttributeName ⟨.script, true⟩) = .ok c ∧
        c.Covers ['é', '=', '\'', 'ü', '>', '<'] 2 (.afterAttributeName ⟨.script, true⟩) n :=
  ⟨by decide, start_covers _ _ _ (by decide)⟩

end Cursor

end PageMarkup
