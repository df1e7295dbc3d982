/-!
# Offsets into a text

A text is a list of characters. Offsets and lengths count the bytes of its UTF-8 form, so an offset
may also fall inside a character: `suffixAt?` answers at character boundaries only, while `upTo`
moves back to the nearest boundary.
-/

namespace PageMarkup

/-- Markup under analysis. -/
abbrev Text := List Char

namespace Text

/-- Length in UTF-8 bytes. -/
def size : Text → Nat
  | [] => 0
  | c :: cs => c.utf8Size + size cs

@[simp]
theorem size_nil : size [] = 0 := rfl

@[simp]
theorem size_cons (c : Char) (cs : Text) : size (c :: cs) = c.utf8Size + size cs := rfl

@[simp]
theorem size_append (a b : Text) : size (a ++ b) = size a + size b := by
  induction a with
  | nil => simp
  | cons c a ih => simp [ih, Nat.add_assoc]

/-- The text from a byte offset on, unless the offset is past the end or splits a character. -/
def suffixAt? : Text → Nat → Option Text
  | cs, 0 => some cs
  | [], _ + 1 => none
  | c :: cs, n + 1 => if c.utf8Size ≤ n + 1 then suffixAt? cs (n + 1 - c.utf8Size) else none

/-- The longest beginning of the text that has at most the given number of bytes. -/
def upTo : Text → Nat → Text
  | [], _ => []
  | c :: cs, n => if c.utf8Size ≤ n then c :: upTo cs (n - c.utf8Size) else []

def onward : Text → Nat → Text
  | [], _ => []
  | c :: cs, n => if c.utf8Size ≤ n then onward cs (n - c.utf8Size) else c :: cs

theorem upTo_append_onward (cs : Text) (n : Nat) : upTo cs n ++ onward cs n = cs := by
  induction cs generalizing n with
  | nil => rfl
  | cons c cs ih =>
    simp only [upTo, onward]
    split
    · simp [ih]
    · rfl

/-- The text between two byte offsets, both of which have to be boundaries in order. -/
def slice? (cs : Text) (start stop : Nat) : Option Text :=
  if start ≤ stop then
    match suffixAt? cs start, suffixAt? cs stop with
    | some rest, some after => some (rest.take (rest.length - after.length))
    | _, _ => none
  else none

end Text

inductive OffsetError where
  /-- Scanning was to begin outside the text or inside a character. -/
  | notABoundary (offset size : Nat)
  /-- A lookup was asked about an offset after the last character. -/
  | pastTheEnd (offset size : Nat)
  deriving DecidableEq, Repr

def OffsetError.message : OffsetError → String
  | .notABoundary offset size =>
    s!"scan offset {offset} is outside the text (len {size}) or splits a character"
  | .pastTheEnd offset size => s!"offset {offset} is past the end of the document (len {size})"

end PageMarkup
