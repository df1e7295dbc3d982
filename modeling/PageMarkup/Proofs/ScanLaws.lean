import PageMarkup.Proofs.OffsetLaws
import PageMarkup.Proofs.TokenOrder

/-!
# Laws of scanning

`scan` cuts a text into tokens that lie end to end. From each of its tokens on, the rest of the list
is itself a scan, in the state that the tokens before it left (`exists_scan_of_mem`).
-/

namespace PageMarkup

theorem scan_cons (state : ScanState) (offset : Nat) (c : Char) (cs : Text) :
    scan state offset (c :: cs) =
      ⟨(Token.next state c cs).token, offset, (Token.next state c cs).state⟩ ::
        scan (Token.next state c cs).state (offset + (Token.next state c cs).token.size)
          (Token.next state c cs).rest := by
  rw [scan]

theorem Token.size_next_add_size_rest (state : ScanState) (c : Char) (cs : Text) :
    (next state c cs).token.size + Text.size (next state c cs).rest = Text.size (c :: cs) := by
  rw [Token.size, ← Text.size_append, next_lexeme_append_rest]

theorem Token.size_next_pos (state : ScanState) (c : Char) (cs : Text) :
    0 < (next state c cs).token.size :=
  Text.size_pos (next_lexeme_ne_nil state c cs)

theorem Token.next_lexeme_head? (state : ScanState) (c : Char) (cs : Text) :
    (next state c cs).token.lexeme.head? = some c := by
  have hcut := next_lexeme_append_rest state c cs
  obtain ⟨x, w, hlexeme⟩ := List.exists_cons_of_ne_nil (next_lexeme_ne_nil state c cs)
  rw [hlexeme] at hcut ⊢
  exact congrArg some (List.cons.inj hcut).1

/-- A token of a scan is where its offset says, and the scan goes on from it as one of what is left
of the text. -/
theorem exists_scan_of_mem (h : p ∈ scan state offset cs) :
    ∃ before front here c rest, cs = front ++ c :: rest ∧ p.offset = offset + Text.size front ∧
      p.token = (Token.next here c rest).token ∧
      scan state offset cs = before ++ scan here p.offset (c :: rest) ∧
      ∀ q ∈ before, q.offset < p.offset := by
  fun_induction scan state offset cs with
  | case1 => cases h
  | case2 state offset c cs step ih =>
    rcases List.mem_cons.mp h with rfl | h
    · exact ⟨[], [], state, c, cs, rfl, rfl, rfl, (scan_cons state offset c cs).symm,
        List.forall_mem_nil _⟩
    · obtain ⟨before, front, here, d, rest, hrest, hoffset, htoken, hscan, hbefore⟩ := ih h
      have hpos : 0 < step.token.size := Token.size_next_pos state c cs
      refine ⟨⟨step.token, offset, step.state⟩ :: before, step.token.lexeme ++ front, here, d, rest,
        ?_, ?_, htoken, by rw [hscan, List.cons_append], ?_⟩
      · rw [List.append_assoc, ← hrest, Token.next_lexeme_append_rest]
      · rw [hoffset, Text.size_append, Nat.add_assoc, Token.size]
      · intro q hq
        rcases List.mem_cons.mp hq with rfl | hq
        · show offset < p.offset
          omega
        · exact hbefore q hq

theorem scan_eq_cons (h : scan state offset cs = p :: todo) :
    ∃ c rest, cs = c :: rest ∧
      p = ⟨(Token.next state c rest).token, offset, (Token.next state c rest).state⟩ ∧
      todo = scan p.state p.stop (Token.next state c rest).rest := by
  cases cs with
  | nil =>
    rw [scan] at h
    cases h
  | cons c rest =>
    rw [scan_cons] at h
    obtain ⟨rfl, rfl⟩ := List.cons.inj h
    exact ⟨c, rest, rfl, rfl, rfl⟩

-- ---------------------------------------------------------------------------
-- Whole documents
-- ---------------------------------------------------------------------------

def TokenAt (text : Text) (kind : TokenKind) (offset : Nat) : Prop :=
  ∃ p ∈ tokens text, p.kind = kind ∧ p.offset = offset

theorem size_pos_of_mem_tokens (h : p ∈ tokens text) : 0 < p.token.size := by
  obtain ⟨_, _, here, c, rest, _, _, htoken, -⟩ := exists_scan_of_mem h
  rw [htoken]
  exact Token.size_next_pos here c rest

theorem stop_le_of_mem_tokens (h : p ∈ tokens text) : p.stop ≤ text.size := by
  obtain ⟨_, front, here, c, rest, htext, hoffset, htoken, -⟩ := exists_scan_of_mem h
  have := Token.size_next_add_size_rest here c rest
  rw [htext, Text.size_append, Placed.stop, hoffset, htoken]
  omega

theorem lexeme_of_mem_tokens (h : p ∈ tokens text) (hw : p.kind.bracket? = some w) :
    p.lexeme = w := by
  obtain ⟨_, _, here, c, rest, _, _, htoken, -⟩ := exists_scan_of_mem h
  rw [Placed.kind, htoken] at hw
  rw [Placed.lexeme, htoken]
  exact Token.next_bracket hw

theorem stop_of_bracket (h : p ∈ tokens text) (hw : p.kind.bracket? = some w) :
    p.stop = p.offset + Text.size w := by
  rw [Placed.stop, Token.size, ← Placed.lexeme, lexeme_of_mem_tokens h hw]

/-- A tag can be scanned again from its bracket: the text continues there with the bracket, and
scanning it as content gives the tokens that the document has from there on. -/
theorem TokenAt.rescan (h : TokenAt text kind offset) (hw : kind.bracket? = some w) :
    ∃ before rest, text.suffixAt? offset = some (w ++ rest) ∧
      tokens text = before ++ scan .content offset (w ++ rest) ∧ ∀ p ∈ before, p.offset < offset := by
  obtain ⟨p, hp, rfl, rfl⟩ := h
  obtain ⟨before, front, here, c, rest, htext, hoffset, htoken, hscan, hbefore⟩ :=
    exists_scan_of_mem hp
  have hkind : (Token.next here c rest).token.kind.bracket? = some w := by
    rw [← htoken]
    exact hw
  have hcut : w ++ (Token.next here c rest).rest = c :: rest := by
    rw [← Token.next_bracket hkind, Token.next_lexeme_append_rest]
  have hsame : scan here p.offset (c :: rest) = scan .content p.offset (c :: rest) := by
    rw [scan_cons, scan_cons, Token.next_eq_nextContent hkind]
    rfl
  refine ⟨before, (Token.next here c rest).rest, ?_, ?_, hbefore⟩
  · rw [hcut, htext, hoffset, Nat.zero_add]
    exact Text.suffixAt?_size_append front (c :: rest)
  · rw [hcut, ← hsame]
    exact hscan

end PageMarkup
