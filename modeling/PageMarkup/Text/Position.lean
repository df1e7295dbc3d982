import PageMarkup.Text.Offset

/-!
# Positions

An editor counts lines, and columns in UTF-16 units. Every offset has a position; a position has an
offset if its line exists and is long enough. Inside a character both directions move to its start.
-/

namespace PageMarkup

structure Position where
  line : Nat
  character : Nat
  deriving DecidableEq, Repr

structure Range where
  start : Position
  stop : Position
  deriving DecidableEq, Repr

def utf16Size (c : Char) : Nat :=
  if c.toNat < 0x10000 then 1 else 2

def Position.advance (p : Position) (c : Char) : Position :=
  if c = '\n' then ⟨p.line + 1, 0⟩ else ⟨p.line, p.character + utf16Size c⟩

structure PositionError where
  position : Position
  lines : Nat
  deriving DecidableEq, Repr

def PositionError.message (e : PositionError) : String :=
  s!"position {e.position.line}:{e.position.character} is outside the document ({e.lines} lines)"

namespace Text

/-- An offset after the end counts as the end. -/
def positionAt (cs : Text) (offset : Nat) : Position :=
  (cs.upTo offset).foldl Position.advance ⟨0, 0⟩

def range (cs : Text) (start stop : Nat) : Range :=
  ⟨cs.positionAt start, cs.positionAt stop⟩

def lineCount (cs : Text) : Nat :=
  cs.count '\n' + 1

/-- The offset of a column of the first line. -/
def columnOffset? : Text → Nat → Option Nat
  | _, 0 => some 0
  | [], _ + 1 => none
  | c :: cs, n + 1 =>
    if c = '\n' then none
    else if utf16Size c ≤ n + 1 then
      (columnOffset? cs (n + 1 - utf16Size c)).map (c.utf8Size + ·)
    else some 0

def offsetOf? : Text → Position → Option Nat
  | cs, ⟨0, column⟩ => columnOffset? cs column
  | [], ⟨_ + 1, _⟩ => none
  | c :: cs, ⟨line + 1, column⟩ =>
    (offsetOf? cs ⟨if c = '\n' then line else line + 1, column⟩).map (c.utf8Size + ·)

def offsetAt (cs : Text) (p : Position) : Except PositionError Nat :=
  match offsetOf? cs p with
  | some offset => .ok offset
  | none => .error ⟨p, cs.lineCount⟩

end Text

end PageMarkup
