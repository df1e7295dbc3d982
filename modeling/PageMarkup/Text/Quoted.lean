import PageMarkup.Text.Glyphless
import PageMarkup.Text.Offset

/-!
# Quoted text

A text in double quotes on one line: quotes, backslashes and the common controls are escaped by a
backslash, all other characters without a glyph of their own by their code point.
-/

namespace PageMarkup.Quoted

def escapeCode (c : Char) : Text :=
  "\\u\x7b".toList ++ Nat.toDigits 16 c.toNat ++ ['\x7d']

def escape (c : Char) : Text :=
  match c with
  | '"' => ['\\', '"']
  | '\\' => ['\\', '\\']
  | '\n' => ['\\', 'n']
  | '\r' => ['\\', 'r']
  | '\t' => ['\\', 't']
  | '\x00' => ['\\', '0']
  | c => if isGlyphless c then escapeCode c else [c]

def write (cs : Text) : String :=
  String.ofList ('"' :: cs.flatMap escape ++ ['"'])

end PageMarkup.Quoted
