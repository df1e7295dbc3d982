import PageMarkup.Text.Offset

/-!
# Boundaries

An offset at which `suffixAt?` answers is the size of a beginning of the text, and the answer is
what that beginning leaves. Nothing else about the encoding is needed by later proofs.
-/

namespace PageMarkup.Text

theorem size_pos {cs : Text} (h : cs ≠ []) : 0 < size cs := by
  cases cs with
  | nil => exact absurd rfl h
  | cons c cs =>
    have := c.utf8Size_pos
    rw [size_cons]
    omega

theorem suffixAt?_size_append (front rest : Text) :
    suffixAt? (front ++ rest) (size front) = some rest := by
  induction front with
  | nil => cases rest <;> rfl
  | cons c front ih =>
    obtain ⟨n, hn⟩ := Nat.exists_eq_add_of_lt c.utf8Size_pos
    have hsize : size (c :: front) = (n + size front) + 1 := by rw [size_cons]; omega
    rw [List.cons_append, hsize, suffixAt?, if_pos (by omega)]
    have hrest : n + size front + 1 - c.utf8Size = size front := by omega
    rw [hrest, ih]

theorem eq_append_of_suffixAt? {cs rest : Text} {offset : Nat}
    (h : suffixAt? cs offset = some rest) : ∃ front, cs = front ++ rest ∧ size front = offset := by
  fun_induction suffixAt? cs offset with
  | case1 cs =>
    cases h
    exact ⟨[], rfl, rfl⟩
  | case2 => cases h
  | case3 c cs n hle ih =>
    obtain ⟨front, rfl, hsize⟩ := ih h
    refine ⟨c :: front, rfl, ?_⟩
    rw [size_cons]
    omega
  | case4 => cases h

theorem isPrefix_of_size_le {front front' cs : Text} (h : front <+: cs) (h' : front' <+: cs)
    (hle : size front ≤ size front') : front <+: front' := by
  rcases List.prefix_or_prefix_of_prefix h h' with h | ⟨rest, rfl⟩
  · exact h
  · rw [size_append] at hle
    have hrest : rest = [] := Classical.byContradiction fun hne => by
      have := size_pos hne
      omega
    simp [hrest]

theorem slice?_append (front middle rest : Text) :
    slice? (front ++ middle ++ rest) (size front) (size front + size middle) = some middle := by
  have hstart : suffixAt? (front ++ middle ++ rest) (size front) = some (middle ++ rest) := by
    rw [List.append_assoc, suffixAt?_size_append]
  have hstop := suffixAt?_size_append (front ++ middle) rest
  rw [size_append] at hstop
  rw [slice?, if_pos (Nat.le_add_right _ _), hstart, hstop]
  simp

theorem exists_of_slice? {cs middle : Text} {start stop : Nat} (h : slice? cs start stop = some middle) :
    ∃ front rest, cs = front ++ middle ++ rest ∧ size front = start ∧ size (front ++ middle) = stop := by
  unfold slice? at h
  split at h
  · next hle =>
    split at h
    · next before after hstart hstop =>
      cases h
      obtain ⟨front, rfl, rfl⟩ := eq_append_of_suffixAt? hstart
      obtain ⟨front', hcut, rfl⟩ := eq_append_of_suffixAt? hstop
      obtain ⟨middle, rfl⟩ := isPrefix_of_size_le ⟨_, rfl⟩ ⟨_, hcut.symm⟩ hle
      rw [List.append_assoc] at hcut
      obtain rfl := List.append_cancel_left hcut
      exact ⟨front, after, by simp, rfl, by simp⟩
    · cases h
  · cases h

end PageMarkup.Text
