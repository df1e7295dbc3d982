import PageMarkup.Text.Offset

/-!
# Bytes as text

Bytes that are not UTF-8 are read as replacement characters, one for each longest beginning of a
character that the bytes break off.
-/

namespace PageMarkup.Utf8

def encode (cs : Text) : List UInt8 :=
  cs.flatMap String.utf8EncodeChar

structure Lead where
  /-- Its part of the code point. -/
  bits : Nat
  /-- How many bytes follow. -/
  count : Nat
  /-- The least and the greatest byte that may come second. -/
  low : UInt8 := 0x80
  high : UInt8 := 0xbf

def lead? (b : UInt8) : Option Lead :=
  if 0xc2 ≤ b ∧ b ≤ 0xdf then some { bits := b.toNat - 0xc0, count := 1 }
  else if b = 0xe0 then some { bits := 0, count := 2, low := 0xa0 }
  else if b = 0xed then some { bits := 0xd, count := 2, high := 0x9f }
  else if 0xe1 ≤ b ∧ b ≤ 0xef then some { bits := b.toNat - 0xe0, count := 2 }
  else if b = 0xf0 then some { bits := 0, count := 3, low := 0x90 }
  else if 0xf1 ≤ b ∧ b ≤ 0xf3 then some { bits := b.toNat - 0xf0, count := 3 }
  else if b = 0xf4 then some { bits := 4, count := 3, high := 0x8f }
  else none

/-- Takes at most `count` bytes that continue a character. -/
def continuation : Nat → UInt8 → UInt8 → List UInt8 → List UInt8 × List UInt8
  | count + 1, low, high, b :: rest =>
    if low ≤ b ∧ b ≤ high then
      let (more, after) := continuation count 0x80 0xbf rest
      (b :: more, after)
    else ([], b :: rest)
  | _, _, _, rest => ([], rest)

theorem length_continuation_le (count : Nat) (low high : UInt8) (bytes : List UInt8) :
    (continuation count low high bytes).2.length ≤ bytes.length := by
  fun_induction continuation count low high bytes with
  | case1 count low high b rest _ more after h ih =>
    rw [h] at ih
    exact Nat.le_succ_of_le ih
  | case2 => exact Nat.le_refl _
  | case3 => exact Nat.le_refl _

def replacement : Char := '�'

def decode : List UInt8 → Text
  | [] => []
  | b :: rest =>
    if b < 0x80 then Char.ofNat b.toNat :: decode rest
    else
      match lead? b with
      | none => replacement :: decode rest
      | some lead =>
        let cut := continuation lead.count lead.low lead.high rest
        let c := if cut.1.length = lead.count then
            Char.ofNat (cut.1.foldl (fun n b => 64 * n + (b.toNat - 0x80)) lead.bits)
          else replacement
        c :: decode cut.2
termination_by bytes => bytes.length
decreasing_by
  · simp
  · simp
  · exact Nat.lt_succ_of_le (length_continuation_le ..)

end PageMarkup.Utf8
