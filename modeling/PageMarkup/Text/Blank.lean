import PageMarkup.Text.Offset

/-!
# Blank characters

Two notions of blank are in use. Between the parts of a tag only five ASCII characters separate;
around a text run, and inside names and unquoted values, every character with the Unicode property
White_Space counts.
-/

namespace PageMarkup

/-- The characters that separate the parts of a tag: space, tab, line feed, return, form feed. -/
def isBlank (c : Char) : Bool :=
  c = ' ' || c = '\t' || c = '\n' || c = '\r' || c = '\x0c'

/-- The Unicode property White_Space. -/
def isWhiteSpace (c : Char) : Bool :=
  let n := c.toNat
  (0x09 ≤ n && n ≤ 0x0d) || n = 0x20 || n = 0x85 || n = 0xa0 || n = 0x1680 ||
    (0x2000 ≤ n && n ≤ 0x200a) || n = 0x2028 || n = 0x2029 || n = 0x202f || n = 0x205f ||
    n = 0x3000

/-- The control characters of both ISO 6429 sets. -/
def isControl (c : Char) : Bool :=
  c.toNat ≤ 0x1f || (0x7f ≤ c.toNat && c.toNat ≤ 0x9f)

theorem isWhiteSpace_of_isBlank {c : Char} (h : isBlank c = true) : isWhiteSpace c = true := by
  simp only [isBlank, Bool.or_eq_true, decide_eq_true_eq] at h
  rcases h with (((h | h) | h) | h) | h <;> subst h <;> decide

namespace Text

def trim (cs : Text) : Text :=
  ((cs.dropWhile isWhiteSpace).reverse.dropWhile isWhiteSpace).reverse

def fold (cs : Text) : Text :=
  cs.map Char.toLower

/-- Whether the text begins with `word`, which is in lower case, up to ASCII case. -/
def startsWithFolded (word cs : Text) : Bool :=
  fold (cs.take word.length) = word

/-- Splits before the first place where `p` holds of what follows, or at the end. -/
def breakAt (p : Text → Bool) : Text → Text × Text
  | [] => ([], [])
  | c :: cs =>
    if p (c :: cs) then ([], c :: cs)
    else
      let (before, after) := breakAt p cs
      (c :: before, after)

theorem breakAt_append (p : Text → Bool) (cs : Text) : (breakAt p cs).1 ++ (breakAt p cs).2 = cs := by
  induction cs with
  | nil => rfl
  | cons c cs ih =>
    simp only [breakAt]
    split
    · rfl
    · simp [ih]

end Text

end PageMarkup
