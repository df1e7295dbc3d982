import Mathlib.Tactic.IntervalCases
import PageMarkup.Text.Utf8

/-!
# Bytes read as text

The bytes of a text are read as that text, whatever follows them. A byte of ASCII stands for its own
character between whatever bytes, and no other character has it among its bytes.
-/

namespace PageMarkup.Utf8

-- ---------------------------------------------------------------------------
-- First bytes and others
-- ---------------------------------------------------------------------------

def IsContinuation (b : UInt8) : Prop :=
  0x80 ≤ b ∧ b ≤ 0xbf

theorem isContinuation_ofNat (n : Nat) : IsContinuation (UInt8.ofNat (n % 64 + 128)) := by
  have hsize : n % 64 + 128 < UInt8.size := show _ < 256 by omega
  rw [IsContinuation, UInt8.le_ofNat_iff hsize, UInt8.ofNat_le_iff hsize]
  simp only [UInt8.reduceToNat]
  omega

theorem lead?_two (h : 2 ≤ n) (h' : n < 32) :
    lead? (UInt8.ofNat (n + 192)) = some { bits := n, count := 1 } := by
  interval_cases n <;> rfl

/-- The second byte rules out what is too small for three bytes, and surrogates. -/
theorem lead?_three (h : n < 16) : lead? (UInt8.ofNat (n + 224)) =
    some { bits := n, count := 2, low := if n = 0 then 0xa0 else 0x80, high := if n = 13 then 0x9f else 0xbf } := by
  interval_cases n <;> rfl

theorem lead?_four (h : n < 5) : lead? (UInt8.ofNat (n + 240)) =
    some { bits := n, count := 3, low := if n = 0 then 0x90 else 0x80, high := if n = 4 then 0x8f else 0xbf } := by
  interval_cases n <;> rfl

theorem le_of_lead? {lead : Lead} (h : lead? b = some lead) : 0x80 ≤ b ∧ 0x80 ≤ lead.low := by
  grind [lead?]

-- ---------------------------------------------------------------------------
-- One character
-- ---------------------------------------------------------------------------

theorem continuation_append {more : List UInt8} (h : ∀ b ∈ more, IsContinuation b) (rest : List UInt8) :
    continuation more.length 0x80 0xbf (more ++ rest) = (more, rest) := by
  induction more with
  | nil => cases rest <;> rfl
  | cons b more ih =>
    obtain ⟨hb, hmore⟩ := List.forall_mem_cons.mp h
    have hb : 0x80 ≤ b ∧ b ≤ 0xbf := hb
    rw [List.length_cons, List.cons_append, continuation, if_pos hb, ih hmore]

theorem decode_ascii (h : b < 0x80) (rest : List UInt8) :
    decode (b :: rest) = Char.ofNat b.toNat :: decode rest := by
  rw [decode, if_pos h]

/-- A first byte and the bytes that it announces make one character. -/
theorem decode_lead {lead : Lead} {b x : UInt8} {more : List UInt8} (hlead : lead? b = some lead)
    (hsecond : lead.low ≤ x ∧ x ≤ lead.high) (hmore : ∀ y ∈ more, IsContinuation y)
    (hcount : lead.count = more.length + 1) (rest : List UInt8) :
    decode (b :: x :: (more ++ rest)) =
      Char.ofNat ((x :: more).foldl (fun n b => 64 * n + (b.toNat - 0x80)) lead.bits) :: decode rest := by
  have hascii : ¬ b < 0x80 := UInt8.not_lt.mpr (le_of_lead? hlead).1
  have hcut : continuation lead.count lead.low lead.high (x :: (more ++ rest)) = (x :: more, rest) := by
    rw [hcount, continuation, if_pos hsecond, continuation_append hmore]
  have hlength : (x :: more).length = lead.count := hcount.symm
  rw [decode, if_neg hascii]
  simp only [hlead, hcut, hlength, if_true]

theorem join_ofNat (v : Nat) : 64 * (v / 64) + ((UInt8.ofNat (v % 64 + 128)).toNat - 0x80) = v := by
  rw [UInt8.toNat_ofNat_of_lt' (show _ < 256 by omega)]
  omega

theorem decode_two (h : 0x7f < v) (h' : v ≤ 0x7ff) (rest : List UInt8) :
    decode (UInt8.ofNat (v / 64 + 192) :: UInt8.ofNat (v % 64 + 128) :: rest) = Char.ofNat v :: decode rest := by
  have hlead := lead?_two (show 2 ≤ v / 64 by omega) (by omega)
  have hread := decode_lead hlead (isContinuation_ofNat v) (List.forall_mem_nil _) rfl rest
  simpa only [List.foldl_cons, List.foldl_nil, List.nil_append, join_ofNat] using hread

theorem decode_three (h : 0x7ff < v) (h' : v ≤ 0xffff) (hvalid : v < 0xd800 ∨ 0xdfff < v)
    (rest : List UInt8) :
    decode (UInt8.ofNat (v / 64 / 64 + 224) :: UInt8.ofNat (v / 64 % 64 + 128) ::
      UInt8.ofNat (v % 64 + 128) :: rest) = Char.ofNat v :: decode rest := by
  have hsecond : (if v / 64 / 64 = 0 then 0xa0 else 0x80) ≤ UInt8.ofNat (v / 64 % 64 + 128) ∧
      UInt8.ofNat (v / 64 % 64 + 128) ≤ (if v / 64 / 64 = 13 then 0x9f else 0xbf) := by
    have hsize : v / 64 % 64 + 128 < UInt8.size := show _ < 256 by omega
    rw [UInt8.le_ofNat_iff hsize, UInt8.ofNat_le_iff hsize]
    constructor <;> split <;> simp only [UInt8.reduceToNat] <;> omega
  have hread := decode_lead (lead?_three (by omega)) hsecond
    (List.forall_mem_singleton.mpr (isContinuation_ofNat v)) rfl rest
  simpa only [List.foldl_cons, List.foldl_nil, List.singleton_append, join_ofNat] using hread

theorem decode_four (h : 0xffff < v) (h' : v < 0x110000) (rest : List UInt8) :
    decode (UInt8.ofNat (v / 64 / 64 / 64 + 240) :: UInt8.ofNat (v / 64 / 64 % 64 + 128) ::
      UInt8.ofNat (v / 64 % 64 + 128) :: UInt8.ofNat (v % 64 + 128) :: rest) = Char.ofNat v :: decode rest := by
  have hsecond : (if v / 64 / 64 / 64 = 0 then 0x90 else 0x80) ≤ UInt8.ofNat (v / 64 / 64 % 64 + 128) ∧
      UInt8.ofNat (v / 64 / 64 % 64 + 128) ≤ (if v / 64 / 64 / 64 = 4 then 0x8f else 0xbf) := by
    have hsize : v / 64 / 64 % 64 + 128 < UInt8.size := show _ < 256 by omega
    rw [UInt8.le_ofNat_iff hsize, UInt8.ofNat_le_iff hsize]
    constructor <;> split <;> simp only [UInt8.reduceToNat] <;> omega
  have hmore : ∀ y ∈ [UInt8.ofNat (v / 64 % 64 + 128), UInt8.ofNat (v % 64 + 128)], IsContinuation y :=
    List.forall_mem_cons.mpr ⟨isContinuation_ofNat _, List.forall_mem_singleton.mpr (isContinuation_ofNat v)⟩
  have hread := decode_lead (lead?_four (by omega)) hsecond hmore rfl rest
  simpa only [List.foldl_cons, List.foldl_nil, List.cons_append, List.nil_append, join_ofNat] using hread

theorem utf8EncodeChar_cases (c : Char) :
    (c.toNat ≤ 0x7f ∧ String.utf8EncodeChar c = [UInt8.ofNat c.toNat]) ∨
    (0x7f < c.toNat ∧ c.toNat ≤ 0x7ff ∧ String.utf8EncodeChar c =
      [UInt8.ofNat (c.toNat / 64 + 192), UInt8.ofNat (c.toNat % 64 + 128)]) ∨
    (0x7ff < c.toNat ∧ c.toNat ≤ 0xffff ∧ (c.toNat < 0xd800 ∨ 0xdfff < c.toNat) ∧ String.utf8EncodeChar c =
      [UInt8.ofNat (c.toNat / 64 / 64 + 224), UInt8.ofNat (c.toNat / 64 % 64 + 128),
        UInt8.ofNat (c.toNat % 64 + 128)]) ∨
    (0xffff < c.toNat ∧ c.toNat < 0x110000 ∧ String.utf8EncodeChar c =
      [UInt8.ofNat (c.toNat / 64 / 64 / 64 + 240), UInt8.ofNat (c.toNat / 64 / 64 % 64 + 128),
        UInt8.ofNat (c.toNat / 64 % 64 + 128), UInt8.ofNat (c.toNat % 64 + 128)]) := by
  have hvalid : c.toNat < 0xd800 ∨ 0xdfff < c.toNat ∧ c.toNat < 0x110000 := c.valid
  have hnumber : c.val.toNat = c.toNat := rfl
  unfold String.utf8EncodeChar
  rw [hnumber]
  generalize c.toNat = v at hvalid
  simp only
  split
  · next h => exact .inl ⟨h, rfl⟩
  split
  · next h h' =>
    have hfirst : v / 64 % 32 = v / 64 := by omega
    exact .inr (.inl ⟨Nat.lt_of_not_le h, h', by rw [hfirst]⟩)
  split
  · next h h' =>
    have hfirst : v / 4096 % 16 = v / 64 / 64 := by omega
    exact .inr (.inr (.inl ⟨Nat.lt_of_not_le h, h', by omega, by rw [hfirst]⟩))
  · next h =>
    have hlt : v < 0x110000 := by omega
    have hfirst : v / 262144 % 8 = v / 64 / 64 / 64 := by omega
    have hsecond : v / 4096 = v / 64 / 64 := by omega
    exact .inr (.inr (.inr ⟨Nat.lt_of_not_le h, hlt, by rw [hfirst, hsecond]⟩))

theorem decode_utf8EncodeChar_append (c : Char) (rest : List UInt8) :
    decode (String.utf8EncodeChar c ++ rest) = c :: decode rest := by
  have hc : Char.ofNat c.toNat = c := Char.ofNat_toNat c
  rcases utf8EncodeChar_cases c with ⟨h, hbytes⟩ | ⟨h, h', hbytes⟩ | ⟨h, h', hvalid, hbytes⟩ | ⟨h, h', hbytes⟩
  · have hsize : c.toNat < UInt8.size := Nat.lt_of_le_of_lt h (by decide)
    have hlt : UInt8.ofNat c.toNat < 0x80 := (UInt8.ofNat_lt_iff hsize).mpr (Nat.lt_succ_of_le h)
    rw [hbytes, List.singleton_append, decode_ascii hlt, UInt8.toNat_ofNat_of_lt' hsize, hc]
  · rw [hbytes]
    exact (decode_two h h' rest).trans (by rw [hc])
  · rw [hbytes]
    exact (decode_three h h' hvalid rest).trans (by rw [hc])
  · rw [hbytes]
    exact (decode_four h h' rest).trans (by rw [hc])

theorem of_mem_utf8EncodeChar (h : b ∈ String.utf8EncodeChar c) (hascii : b < 0x80) :
    String.utf8EncodeChar c = [b] ∧ c = Char.ofNat b.toNat := by
  have hhigh {n : Nat} (hb : b = UInt8.ofNat n) (hle : 0x80 ≤ n) (hlt : n < 256) : False := by
    rw [hb, UInt8.ofNat_lt_iff hlt] at hascii
    exact Nat.not_lt.mpr hle hascii
  rcases utf8EncodeChar_cases c with ⟨hlt, hbytes⟩ | ⟨_, _, hbytes⟩ | ⟨_, _, _, hbytes⟩ | ⟨_, _, hbytes⟩
  · rw [hbytes] at h
    obtain rfl := List.mem_singleton.mp h
    rw [hbytes, UInt8.toNat_ofNat_of_lt' (Nat.lt_of_le_of_lt hlt (by decide))]
    exact ⟨rfl, (Char.ofNat_toNat c).symm⟩
  · simp only [hbytes, List.mem_cons, List.not_mem_nil, or_false] at h
    rcases h with h | h <;> exact (hhigh h (by omega) (by omega)).elim
  · simp only [hbytes, List.mem_cons, List.not_mem_nil, or_false] at h
    rcases h with h | h | h <;> exact (hhigh h (by omega) (by omega)).elim
  · simp only [hbytes, List.mem_cons, List.not_mem_nil, or_false] at h
    rcases h with h | h | h | h <;> exact (hhigh h (by omega) (by omega)).elim

-- ---------------------------------------------------------------------------
-- Texts
-- ---------------------------------------------------------------------------

@[simp]
theorem encode_nil : encode [] = [] := rfl

@[simp]
theorem encode_cons (c : Char) (cs : Text) : encode (c :: cs) = String.utf8EncodeChar c ++ encode cs :=
  List.flatMap_cons

@[simp]
theorem encode_append (cs ds : Text) : encode (cs ++ ds) = encode cs ++ encode ds :=
  List.flatMap_append

theorem decode_encode (cs : Text) : decode (encode cs) = cs := by
  induction cs with
  | nil => rw [encode_nil, decode]
  | cons c cs ih => rw [encode_cons, decode_utf8EncodeChar_append, ih]

theorem continuation_append_ascii {b low : UInt8} (hb : b < 0x80) (hlow : 0x80 ≤ low) (count : Nat)
    (high : UInt8) (front rest : List UInt8) :
    continuation count low high (front ++ b :: rest) =
      ((continuation count low high front).1, (continuation count low high front).2 ++ b :: rest) := by
  induction front generalizing count low high with
  | nil =>
    have hout : ¬ (low ≤ b ∧ b ≤ high) := fun h =>
      UInt8.not_lt.mpr (UInt8.le_trans hlow h.1) hb
    cases count with
    | zero => rfl
    | succ count => simp [continuation, hout]
  | cons x front ih =>
    cases count with
    | zero => rfl
    | succ count =>
      rw [List.cons_append, continuation, continuation]
      split
      · rw [ih (by decide)]
      · rfl

/-- Bytes before and after a byte of ASCII are read apart from each other. -/
theorem decode_append_ascii (hb : b < 0x80) (front rest : List UInt8) :
    decode (front ++ b :: rest) = decode front ++ Char.ofNat b.toNat :: decode rest := by
  fun_induction decode front with
  | case1 => rw [List.nil_append, decode_ascii hb, List.nil_append]
  | case2 x front hx ih => rw [List.cons_append, decode_ascii hx, ih, List.cons_append]
  | case3 x front hx hlead ih =>
    rw [List.cons_append, decode, if_neg hx]
    simp only [hlead]
    rw [ih, List.cons_append]
  | case4 x front hx lead hlead cut c ih =>
    have hcut := continuation_append_ascii hb (le_of_lead? hlead).2 lead.count lead.high front rest
    rw [List.cons_append, decode, if_neg hx]
    simp only [hlead, hcut]
    rw [ih, List.cons_append]
    rfl

end PageMarkup.Utf8
