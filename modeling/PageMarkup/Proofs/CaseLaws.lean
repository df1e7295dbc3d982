import PageMarkup.Text.Blank

/-!
# ASCII case

Lowering a letter's case gives a lower-case letter and leaves every other character alone, so a
character that is no letter can be read off a folded text.
-/

namespace PageMarkup

theorem toLower_of_not_isUpper {c : Char} (h : c.isUpper = false) : c.toLower = c := by
  unfold Char.isUpper at h
  unfold Char.toLower
  rw [dif_neg]
  simpa using h

theorem isUpper_of_isLower {c : Char} (h : c.isLower = true) : c.isUpper = false := by
  unfold Char.isLower at h
  unfold Char.isUpper
  simp only [Bool.and_eq_true, decide_eq_true_eq, decide_eq_false_iff_not, UInt32.le_iff_toNat_le,
    ge_iff_le, seval] at h ⊢
  omega

theorem isUpper_of_isDigit {c : Char} (h : c.isDigit = true) : c.isUpper = false := by
  unfold Char.isDigit at h
  unfold Char.isUpper
  simp only [Bool.and_eq_true, decide_eq_true_eq, decide_eq_false_iff_not, UInt32.le_iff_toNat_le,
    ge_iff_le, seval] at h ⊢
  omega

theorem isAlphanum_of_isLower {c : Char} (h : c.isLower = true) : c.isAlphanum = true := by
  unfold Char.isAlphanum Char.isAlpha
  simp [h]

theorem isAlphanum_of_isDigit {c : Char} (h : c.isDigit = true) : c.isAlphanum = true := by
  unfold Char.isAlphanum
  simp [h]

theorem isLower_toLower {c : Char} (h : c.isUpper = true) : c.toLower.isLower = true := by
  unfold Char.isUpper at h
  rw [decide_eq_true_eq] at h
  unfold Char.toLower Char.isLower
  rw [dif_pos h]
  simp only [UInt32.le_iff_toNat_le, ge_iff_le, seval] at h
  simp only [UInt32.le_iff_toNat_le, ge_iff_le, UInt32.toNat_add, seval, Bool.and_eq_true,
    decide_eq_true_eq]
  omega

theorem eq_of_toLower_eq {c d : Char} (h : c.toLower = d) (hd : d.isLower = false) : c = d := by
  cases hc : c.isUpper with
  | false => exact (toLower_of_not_isUpper hc).symm.trans h
  | true =>
    rw [← h, isLower_toLower hc] at hd
    cases hd

end PageMarkup
