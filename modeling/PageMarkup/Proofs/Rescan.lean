import PageMarkup.Proofs.Ranges

/-!
# Scanning again from an element

The offsets that a document records for its elements are good places to start over: from there on,
scanning content gives the tokens of the whole document. An end tag may have been met in the body of
a script or style element, but there, too, it is read as in content.
-/

namespace PageMarkup

/-- Scanning content from the offset on gives what the document has from there on, and the state at
the end of it. -/
structure Rescans (text : Text) (offset : Nat) : Prop where
  tokens : scanFrom text offset .content = .ok ((tokens text).dropWhile (·.offset < offset))
  state : finalState .content ((PageMarkup.tokens text).dropWhile (·.offset < offset)) =
    finalState .content (PageMarkup.tokens text)

theorem dropWhile_scan (state : ScanState) (offset : Nat) (cs : Text) :
    (scan state offset cs).dropWhile (·.offset < offset) = scan state offset cs := by
  cases cs with
  | nil => rw [scan, List.dropWhile_nil]
  | cons c cs =>
    rw [scan_cons]
    exact List.dropWhile_cons_of_neg (by simp)

theorem finalState_append (state : ScanState) (before : List Placed) (hne : after ≠ []) :
    finalState state (before ++ after) = finalState state after := by
  rw [finalState, finalState, List.getLast?_append, List.getLast?_eq_some_getLast hne, Option.some_or]

theorem TokenAt.rescans (h : TokenAt text kind offset) (hw : kind.bracket? = some (c :: w)) :
    Rescans text offset := by
  obtain ⟨before, rest, hsuffix, htokens, hbefore⟩ := h.rescan hw
  have htail : (PageMarkup.tokens text).dropWhile (·.offset < offset) =
      scan .content offset (c :: w ++ rest) := by
    rw [htokens, List.dropWhile_append_of_pos (fun p hp => by simpa using hbefore p hp),
      dropWhile_scan]
  refine ⟨?_, ?_⟩
  · rw [scanFrom, hsuffix, htail]
  · rw [htail, htokens]
    refine (finalState_append .content before ?_).symm
    rw [List.cons_append, scan_cons]
    exact List.cons_ne_nil _ _

theorem rescans_zero (text : Text) : Rescans text 0 := by
  have hall : (PageMarkup.tokens text).dropWhile (·.offset < 0) = PageMarkup.tokens text :=
    dropWhile_scan .content 0 text
  refine ⟨?_, by rw [hall]⟩
  rw [hall, scanFrom]
  cases text <;> rfl

theorem parse_rescans (text : Text) :
    ∀ e ∈ (Document.parse text).root.preorder,
      Rescans text e.start ∧ ∀ t, e.endTagStart = some t → Rescans text t := by
  intro e he
  rw [Element.preorder_eq] at he
  rcases List.mem_cons.mp he with rfl | he
  · cases parse_root_isOpen text with
    | root start _ endTag =>
      rw [start, endTag]
      exact ⟨rescans_zero text, nofun⟩
  · have hrange := parse_allRanged text e he
    exact ⟨hrange.opens.rescans rfl, fun t ht => (hrange.endTag_last t ht).1.rescans rfl⟩

/-- A script without a body, whose end tag is met in the state of a script's body. -/
def emptyScript : Text :=
  ['é', '<', 'w', 'x', 's', '>', '<', '/', 'w', 'x', 's', ' ', '>']

theorem parse_rescans_emptyScript :
    ∃ e ∈ (Document.parse emptyScript).root.preorder, e.start = 2 ∧ e.endTagStart = some 7 ∧
      Rescans emptyScript 2 ∧ Rescans emptyScript 7 := by
  have hany : (Document.parse emptyScript).root.preorder.any
      (fun e => e.start = 2 && e.endTagStart = some 7) = true := by decide +kernel
  obtain ⟨e, he, hplaces⟩ := List.any_eq_true.mp hany
  obtain ⟨hstart, hend⟩ : e.start = 2 ∧ e.endTagStart = some 7 := by simpa using hplaces
  obtain ⟨hfrom, hfromEnd⟩ := parse_rescans emptyScript e he
  exact ⟨e, he, hstart, hend, hstart ▸ hfrom, hfromEnd 7 hend⟩

end PageMarkup
