import PageMarkup.Proofs.Reading
import PageMarkup.Proofs.TokenShapes

/-!
# Tokens side by side

What the tokens of a scan have to do with one another: each begins where the one before it ends, is
of a kind that can be read in the state which that one left, and two runs of blanks are never next
to each other.
-/

namespace PageMarkup

open ScanState (Reads)

section
variable {state : ScanState} {offset : Nat} {cs : Text} {before rest : List Placed} {p q : Placed}

theorem scan_eq_append (h : scan state offset cs = before ++ rest) :
    ∃ front tail, cs = front ++ tail ∧ finalOffset offset before = offset + Text.size front ∧
      rest = scan (finalState state before) (finalOffset offset before) tail := by
  induction before generalizing state offset cs with
  | nil => exact ⟨[], cs, rfl, rfl, h.symm⟩
  | cons p before ih =>
    obtain ⟨c, tail, rfl, hp, htail⟩ := scan_eq_cons h
    obtain ⟨front, tail', hcut, hoffset, hrest⟩ := ih htail.symm
    refine ⟨p.lexeme ++ front, tail', ?_, ?_, ?_⟩
    · rw [List.append_assoc, ← hcut, Placed.lexeme, hp, Token.next_lexeme_append_rest]
    · have hstart : p.offset = offset := by rw [hp]
      rw [finalOffset_cons, hoffset, Placed.stop, hstart, Text.size_append, Nat.add_assoc]
      rfl
    · rw [finalState_cons, finalOffset_cons]
      exact hrest

theorem lexemes_of_scan (h : scan state offset cs = before ++ rest) :
    ∃ tail, cs = before.flatMap Placed.lexeme ++ tail ∧
      finalOffset offset before = offset + Text.size (before.flatMap Placed.lexeme) := by
  induction before generalizing state offset cs with
  | nil => exact ⟨cs, rfl, rfl⟩
  | cons p before ih =>
    obtain ⟨c, tail, rfl, hp, htail⟩ := scan_eq_cons h
    obtain ⟨tail', hcut, hoffset⟩ := ih htail.symm
    refine ⟨tail', ?_, ?_⟩
    · rw [List.flatMap_cons, List.append_assoc, ← hcut, Placed.lexeme, hp, Token.next_lexeme_append_rest]
    · have hstart : p.offset = offset := by rw [hp]
      rw [finalOffset_cons, hoffset, Placed.stop, hstart, List.flatMap_cons, Text.size_append,
        Nat.add_assoc]
      rfl

theorem scan_step (h : scan state offset cs = p :: rest) :
    Reads state p.kind p.state ∧ p.offset = offset ∧ ∃ tail, scan p.state p.stop tail = rest := by
  obtain ⟨c, tail, -, hp, hrest⟩ := scan_eq_cons h
  have hreads := Token.next_reads state c tail
  refine ⟨?_, by rw [hp], _, hrest.symm⟩
  rw [hp]
  exact hreads

/-- A token was read in the state and at the offset to which the tokens before it lead. -/
theorem reads_of_scan (h : scan state offset cs = before ++ p :: rest) :
    Reads (finalState state before) p.kind p.state ∧ p.offset = finalOffset offset before := by
  obtain ⟨front, tail, -, -, hrest⟩ := scan_eq_append h
  obtain ⟨hreads, hoffset, -⟩ := scan_step hrest.symm
  exact ⟨hreads, hoffset⟩

theorem finalState_concat (state : ScanState) (before : List Placed) (q : Placed) :
    finalState state (before ++ [q]) = q.state := by
  simp [finalState]

theorem finalOffset_concat (offset : Nat) (before : List Placed) (q : Placed) :
    finalOffset offset (before ++ [q]) = q.stop := by
  simp [finalOffset]

theorem reads_next (h : scan state offset cs = before ++ q :: p :: rest) :
    Reads q.state p.kind p.state ∧ p.offset = q.stop := by
  have hsplit : scan state offset cs = (before ++ [q]) ++ p :: rest := by simpa using h
  have hreads := reads_of_scan hsplit
  rwa [finalState_concat, finalOffset_concat] at hreads

theorem writes_of_mem_scan (h : p ∈ scan state offset cs) : p.kind.Writes p.lexeme := by
  obtain ⟨_, _, here, c, tail, _, _, htoken, -⟩ := exists_scan_of_mem h
  rw [Placed.kind, Placed.lexeme, htoken]
  exact (Token.next_shaped here c tail).writes

theorem size_pos_of_mem_scan (h : p ∈ scan state offset cs) : 0 < p.token.size := by
  obtain ⟨_, _, here, c, tail, _, _, htoken, -⟩ := exists_scan_of_mem h
  rw [htoken]
  exact Text.size_pos (Token.next_lexeme_ne_nil here c tail)

theorem kind_ne_blank_of_blank (h : scan state offset cs = before ++ q :: p :: rest)
    (hq : q.kind = .blank) : p.kind ≠ .blank := by
  intro hp
  obtain ⟨front, tail, -, -, hrest⟩ := scan_eq_append h
  obtain ⟨c, ds, -, hqstep, hnext⟩ := scan_eq_cons hrest.symm
  obtain ⟨d, es, hds, hpstep, -⟩ := scan_eq_cons hnext.symm
  have hshaped := Token.next_shaped (finalState state before) c ds
  have hnot : isBlank d = false := by
    refine hshaped.whole ?_ d ?_
    · rw [hqstep] at hq
      exact hq
    · rw [hds]
      rfl
  have hwrites := (Token.next_shaped q.state d es).writes
  have hcuts := Token.next_lexeme_append_rest q.state d es
  rw [hpstep] at hp
  replace hp : (Token.next q.state d es).token.kind = .blank := hp
  rw [hp] at hwrites
  obtain ⟨e, w, hw⟩ := List.exists_cons_of_ne_nil (Token.next_lexeme_ne_nil q.state d es)
  rw [hw] at hwrites hcuts
  obtain ⟨rfl, -⟩ := List.cons.inj hcuts
  rw [hwrites e List.mem_cons_self] at hnot
  cases hnot

-- ---------------------------------------------------------------------------
-- Order
-- ---------------------------------------------------------------------------

theorem offset_le_of_mem_scan (h : p ∈ scan state offset cs) : offset ≤ p.offset := by
  obtain ⟨_, front, _, _, _, _, hoffset, -⟩ := exists_scan_of_mem h
  omega

theorem scan_pairwise (state : ScanState) (offset : Nat) (cs : Text) :
    (scan state offset cs).Pairwise fun q p => q.stop ≤ p.offset := by
  fun_induction scan state offset cs with
  | case1 => exact .nil
  | case2 state offset c cs step ih => exact .cons (fun p hp => offset_le_of_mem_scan hp) ih

theorem stop_le_of_mem_before (h : scan state offset cs = before ++ p :: rest) (hq : q ∈ before) :
    q.stop ≤ p.offset := by
  have hall := scan_pairwise state offset cs
  rw [h] at hall
  exact (List.pairwise_append.mp hall).2.2 q hq p List.mem_cons_self

theorem stop_le_offset (h : scan state offset cs = before ++ q :: rest) (hp : p ∈ rest) :
    q.stop ≤ p.offset := by
  have hall := scan_pairwise state offset cs
  rw [h] at hall
  exact List.rel_of_pairwise_cons (List.pairwise_append.mp hall).2.1 hp

end

end PageMarkup
