import PageMarkup.Proofs.Utf8Laws
import PageMarkup.Uri

/-!
# Percent escapes

A path may be written with any of its characters as the escapes of their bytes. `path_read_back` says that
it is read back, and that a percent sign is left alone if it does not begin an escape. Such a sign does not
belong to what is before it either, as it is no hexadecimal digit, and what is read before and after it does
not depend on the other side: it is one byte, and ends every character that bytes before it begin.
-/

namespace PageMarkup.Uri

open Utf8

-- ---------------------------------------------------------------------------
-- Writing with escapes
-- ---------------------------------------------------------------------------

def IsDigitOf (n : Nat) (c : Char) : Prop :=
  c = n.digitChar ∨ c = n.digitChar.toUpper

inductive Escapes : List UInt8 → Text → Prop
  | nil : Escapes [] []
  | cons {b : UInt8} {bytes : List UInt8} {h l : Char} {w : Text} (high : IsDigitOf (b.toNat / 16) h)
      (low : IsDigitOf (b.toNat % 16) l) (more : Escapes bytes w) : Escapes (b :: bytes) ('%' :: h :: l :: w)

/-- The second text writes the first one, some characters as they are and some by escapes. -/
inductive Spells : Text → Text → Prop
  | nil : Spells [] []
  | plain {c : Char} {cs w : Text} (hc : c ≠ '%') (more : Spells cs w) : Spells (c :: cs) (c :: w)
  | escaped {c : Char} {cs e w : Text} (he : Escapes (String.utf8EncodeChar c) e) (more : Spells cs w) :
    Spells (c :: cs) (e ++ w)

def startsWithDigits : Text → Bool
  | h :: l :: _ => isHexDigit h && isHexDigit l
  | _ => false

-- ---------------------------------------------------------------------------
-- Bytes of an escape
-- ---------------------------------------------------------------------------

theorem encode_percent (cs : Text) : encode ('%' :: cs) = 0x25 :: encode cs := rfl

theorem ne_percent_of_mem (hc : c ≠ '%') (hb : b ∈ String.utf8EncodeChar c) : b ≠ 0x25 := by
  rintro rfl
  exact hc (of_mem_utf8EncodeChar hb (by decide)).2

theorem IsDigitOf.encode_cons (h : IsDigitOf n c) (hn : n < 16) :
    ∃ b, (∀ cs, encode (c :: cs) = b :: encode cs) ∧ hexValue? b = some (UInt8.ofNat n) := by
  refine ⟨UInt8.ofNat c.toNat, ?_⟩
  rcases h with rfl | rfl <;> interval_cases n <;> exact ⟨fun _ => rfl, rfl⟩

theorem join_digits (b : UInt8) : 16 * UInt8.ofNat (b.toNat / 16) + UInt8.ofNat (b.toNat % 16) = b := by
  have hlt : b.toNat < 256 := b.toNat_lt
  rw [← UInt8.toNat_inj, UInt8.toNat_add, UInt8.toNat_mul, UInt8.toNat_ofNat_of_lt' (show _ < 256 by omega),
    UInt8.toNat_ofNat_of_lt' (show _ < 256 by omega)]
  show (16 * (b.toNat / 16) % 256 + b.toNat % 16) % 256 = b.toNat
  omega

theorem isHexDigit_of_hexValue? (h : hexValue? b = some x) :
    b < 0x80 ∧ isHexDigit (Char.ofNat b.toNat) = true := by
  have hrange : (0x30 ≤ b.toNat ∧ b.toNat ≤ 0x39) ∨ (0x41 ≤ b.toNat ∧ b.toNat ≤ 0x46) ∨
      (0x61 ≤ b.toNat ∧ b.toNat ≤ 0x66) := by
    grind [hexValue?, UInt8.le_iff_toNat_le]
  rw [UInt8.lt_iff_toNat_lt]
  generalize b.toNat = n at hrange ⊢
  rcases hrange with ⟨_, _⟩ | ⟨_, _⟩ | ⟨_, _⟩ <;> interval_cases n <;> decide

theorem exists_of_encode_eq_cons {cs : Text} {bytes : List UInt8} (h : encode cs = b :: bytes)
    (hb : hexValue? b = some x) :
    ∃ c tail, cs = c :: tail ∧ isHexDigit c = true ∧ bytes = encode tail := by
  obtain ⟨hascii, hdigit⟩ := isHexDigit_of_hexValue? hb
  cases cs with
  | nil => cases h
  | cons c tail =>
    rw [Utf8.encode_cons] at h
    have hmem : b ∈ String.utf8EncodeChar c := by
      rcases List.append_eq_cons_iff.mp h with ⟨hnil, -⟩ | ⟨more, hc, -⟩
      · exact absurd hnil String.utf8EncodeChar_ne_nil
      · rw [hc]
        exact List.mem_cons_self
    obtain ⟨hbytes, rfl⟩ := of_mem_utf8EncodeChar hmem hascii
    rw [hbytes] at h
    exact ⟨_, tail, rfl, hdigit, (List.cons.inj h).2.symm⟩

-- ---------------------------------------------------------------------------
-- Taking escapes out
-- ---------------------------------------------------------------------------

theorem unescape_cons_of_ne (h : b ≠ 0x25) (rest : List UInt8) : unescape (b :: rest) = b :: unescape rest := by
  rw [unescape]
  intro _ _ _ hb
  exact (h hb).elim

theorem unescape_append_of_ne {bytes : List UInt8} (h : ∀ b ∈ bytes, b ≠ 0x25) (rest : List UInt8) :
    unescape (bytes ++ rest) = bytes ++ unescape rest := by
  induction bytes with
  | nil => rfl
  | cons b bytes ih =>
    obtain ⟨hb, hbytes⟩ := List.forall_mem_cons.mp h
    rw [List.cons_append, unescape_cons_of_ne hb, ih hbytes, List.cons_append]

theorem unescape_escape {h l high low : UInt8} (hh : hexValue? h = some high) (hl : hexValue? l = some low)
    (rest : List UInt8) :
    unescape (0x25 :: h :: l :: rest) = (16 * high + low) :: unescape rest := by
  rw [unescape, hh, hl]

theorem Escapes.unescape_append {bytes : List UInt8} {w : Text} (h : Escapes bytes w) (rest : List UInt8) :
    unescape (encode w ++ rest) = bytes ++ unescape rest := by
  induction h with
  | nil => rfl
  | @cons b _ _ _ _ high low _ ih =>
    obtain ⟨x, hx, hxvalue⟩ := high.encode_cons (Nat.div_lt_of_lt_mul b.toNat_lt)
    obtain ⟨y, hy, hyvalue⟩ := low.encode_cons (Nat.mod_lt _ (by decide))
    rw [encode_percent, hx, hy, List.cons_append, List.cons_append, List.cons_append,
      unescape_escape hxvalue hyvalue, join_digits, ih, List.cons_append]

theorem Spells.unescape_encode {cs w : Text} (h : Spells cs w) : unescape (encode w) = encode cs := by
  induction h with
  | nil => rfl
  | plain hc _ ih =>
    rw [Utf8.encode_cons, unescape_append_of_ne fun b hb => ne_percent_of_mem hc hb, ih, Utf8.encode_cons]
  | escaped he _ ih => rw [encode_append, he.unescape_append, ih, Utf8.encode_cons]

def BeginsWithDigits (bytes : List UInt8) : Prop :=
  ∃ h l rest, bytes = h :: l :: rest ∧ (hexValue? h).isSome ∧ (hexValue? l).isSome

theorem unescape_percent {rest : List UInt8} (h : ¬ BeginsWithDigits rest) :
    unescape (0x25 :: rest) = 0x25 :: unescape rest := by
  rcases rest with _ | ⟨x, _ | ⟨y, rest⟩⟩
  · rfl
  · rfl
  · rw [unescape]
    cases hx : hexValue? x with
    | none => rfl
    | some high =>
      cases hy : hexValue? y with
      | none => rfl
      | some low => exact absurd ⟨x, y, rest, rfl, by simp [hx], by simp [hy]⟩ h

theorem BeginsWithDigits.of_append_percent {bytes rest : List UInt8}
    (h : BeginsWithDigits (bytes ++ 0x25 :: rest)) : BeginsWithDigits bytes := by
  obtain ⟨x, y, tail, heq, hx, hy⟩ := h
  rcases bytes with _ | ⟨_, _ | ⟨_, bytes⟩⟩ <;> cases heq
  · cases hx
  · cases hy
  · exact ⟨x, y, bytes, rfl, hx, hy⟩

theorem BeginsWithDigits.of_encode {cs : Text} (h : BeginsWithDigits (encode cs)) :
    startsWithDigits cs = true := by
  obtain ⟨x, y, rest, heq, hx, hy⟩ := h
  obtain ⟨high, hx⟩ := Option.isSome_iff_exists.mp hx
  obtain ⟨low, hy⟩ := Option.isSome_iff_exists.mp hy
  obtain ⟨c, tail, rfl, hc, hbytes⟩ := exists_of_encode_eq_cons heq hx
  obtain ⟨d, tail, rfl, hd, -⟩ := exists_of_encode_eq_cons hbytes.symm hy
  simp [startsWithDigits, hc, hd]

/-- A percent sign is no digit, so it does not belong to what is before it. -/
theorem unescape_append_percent (bytes rest : List UInt8) :
    unescape (bytes ++ 0x25 :: rest) = unescape bytes ++ unescape (0x25 :: rest) := by
  induction h : bytes.length using Nat.strongRecOn generalizing bytes with
  | _ n ih =>
    cases bytes with
    | nil => rfl
    | cons b bytes =>
      have hbytes := ih bytes.length (h ▸ Nat.lt_succ_self _) bytes rfl
      by_cases hb : b = 0x25
      · subst hb
        by_cases hdigits : BeginsWithDigits bytes
        · obtain ⟨x, y, bytes, rfl, hx, hy⟩ := hdigits
          obtain ⟨high, hx⟩ := Option.isSome_iff_exists.mp hx
          obtain ⟨low, hy⟩ := Option.isSome_iff_exists.mp hy
          have hlt : bytes.length < n := by
            simp only [List.length_cons] at h
            omega
          have hafter := ih bytes.length hlt bytes rfl
          simp only [List.cons_append, unescape_escape hx hy, hafter]
        · have hdigits' : ¬ BeginsWithDigits (bytes ++ 0x25 :: rest) := fun h => hdigits h.of_append_percent
          rw [List.cons_append, unescape_percent hdigits', unescape_percent hdigits, hbytes, List.cons_append]
      · rw [List.cons_append, unescape_cons_of_ne hb, unescape_cons_of_ne hb, hbytes, List.cons_append]

-- ---------------------------------------------------------------------------
-- Paths
-- ---------------------------------------------------------------------------

theorem path?_eq (w : String) :
    path? ("file://" ++ w) = some (String.ofList (decode (unescape (encode w.toList)))) := by
  have hscheme : scheme <+: ("file://" ++ w).toList := by
    rw [String.toList_append]
    exact List.prefix_append _ _
  have hrest : ("file://" ++ w).toList.drop scheme.length = w.toList := by
    rw [String.toList_append]
    exact List.drop_left
  rw [path?, if_pos (List.isPrefixOf_iff_prefix.mpr hscheme), hrest]

theorem unescape_encode_self {cs : Text}
    (h : ∀ back, ('%' :: back) <:+ cs → startsWithDigits back = false) : unescape (encode cs) = encode cs := by
  induction cs with
  | nil => rfl
  | cons c cs ih =>
    have hcs := ih fun back hback => h back (hback.trans (List.suffix_cons c cs))
    by_cases hc : c = '%'
    · subst hc
      have hplain := h cs (List.suffix_refl _)
      rw [encode_percent, unescape_percent fun hdigits => ?_, hcs]
      cases hplain.symm.trans hdigits.of_encode
    · rw [encode_cons, unescape_append_of_ne fun b hb => ne_percent_of_mem hc hb, hcs]

/-- However a path is written with escapes, it is read back. A percent sign without two hexadecimal
digits after it is left as it is, between what is read before and after it; so a path in which every
percent sign is such a one is written by itself. -/
theorem path_read_back :
    (∀ s w : String, Spells s.toList w.toList → path? ("file://" ++ w) = some s) ∧
    (∀ front back : String, startsWithDigits back.toList = false →
      ∃ before after, path? ("file://" ++ front) = some before ∧ path? ("file://" ++ back) = some after ∧
        path? ("file://" ++ (front ++ "%" ++ back)) = some (before ++ "%" ++ after)) ∧
    ∀ s : String, (∀ back, ('%' :: back) <:+ s.toList → startsWithDigits back = false) →
      path? ("file://" ++ s) = some s := by
  refine ⟨fun s w h => ?_, fun front back h => ?_, fun s h => ?_⟩
  · rw [path?_eq, h.unescape_encode, decode_encode, String.ofList_toList]
  · refine ⟨_, _, path?_eq front, path?_eq back, ?_⟩
    have hbytes : encode (front ++ "%" ++ back).toList = encode front.toList ++ 0x25 :: encode back.toList := by
      rw [String.toList_append, String.toList_append, encode_append, encode_append, List.append_assoc]
      rfl
    have hdigits : ¬ BeginsWithDigits (encode back.toList) := fun hdigits =>
      Bool.noConfusion (h.symm.trans hdigits.of_encode)
    rw [path?_eq, hbytes, unescape_append_percent, unescape_percent hdigits, decode_append_ascii (by decide),
      String.ofList_append, String.ofList_cons, ← String.append_assoc]
    rfl
  · rw [path?_eq, unescape_encode_self h, decode_encode, String.ofList_toList]

/-- Escapes in both cases next to plain characters, a percent sign between the pieces of what would be an
escape, and one at the end. -/
theorem path_read_back_mixed :
    (Spells "/é%".toList "/%c3%A9%25".toList ∧ path? ("file://" ++ "/%c3%A9%25") = some "/é%") ∧
    (startsWithDigits "4%41".toList = false ∧
      path? ("file://" ++ ("/%4" ++ "%" ++ "4%41")) = some ("/%4" ++ "%" ++ "4A")) ∧
    path? ("file://" ++ "/50%") = some "/50%" := by
  obtain ⟨hspelled, hpercent, hplain⟩ := path_read_back
  have hspells : Spells "/é%".toList "/%c3%A9%25".toList :=
    .plain (by decide) (.escaped (e := ['%', 'c', '3', '%', 'A', '9'])
      (.cons (.inl rfl) (.inl rfl) (.cons (.inr rfl) (.inl rfl) .nil))
      (.escaped (e := ['%', '2', '5']) (.cons (.inl rfl) (.inl rfl) .nil) .nil))
  have hfront : path? ("file://" ++ "/%4") = some "/%4" := by decide +kernel
  have hback : path? ("file://" ++ "4%41") = some "4A" := by decide +kernel
  obtain ⟨before, after, hbefore, hafter, hread⟩ := hpercent "/%4" "4%41" (by decide)
  cases hfront.symm.trans hbefore
  cases hback.symm.trans hafter
  refine ⟨⟨hspells, hspelled _ _ hspells⟩, ⟨by decide, hread⟩, hplain "/50%" fun back h => ?_⟩
  have hnil : back = [] := by simpa [List.suffix_cons_iff] using h
  rw [hnil]
  rfl

end PageMarkup.Uri
