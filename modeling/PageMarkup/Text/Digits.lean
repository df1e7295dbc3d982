import PageMarkup.Text.Offset

/-! # Digits -/

namespace PageMarkup.Text

/-- At least one digit, and no other character. -/
def isDigits (cs : Text) : Bool :=
  !cs.isEmpty && cs.all Char.isDigit

def toNat (digits : Text) : Nat :=
  digits.foldl (fun n c => n * 10 + (c.toNat - '0'.toNat)) 0

end PageMarkup.Text
