import PageMarkup.Json.Basic

/-!
# Reading JSON text

The text is cut into brackets, commas, colons and atoms; these are then put together with an
explicit stack of the containers that are still open. Object fields are kept as written, repeated
names included.
-/

namespace PageMarkup.Json

def hexDigit? (c : Char) : Option Nat :=
  if '0' ≤ c ∧ c ≤ '9' then some (c.toNat - '0'.toNat)
  else if 'a' ≤ c ∧ c ≤ 'f' then some (c.toNat - 'a'.toNat + 10)
  else if 'A' ≤ c ∧ c ≤ 'F' then some (c.toNat - 'A'.toNat + 10)
  else none

def codeUnit? (a b c d : Char) : Option Nat := do
  return (((← hexDigit? a) * 16 + (← hexDigit? b)) * 16 + (← hexDigit? c)) * 16 + (← hexDigit? d)

def isHighSurrogate (u : Nat) : Bool := 0xd800 ≤ u && u ≤ 0xdbff

def isLowSurrogate (u : Nat) : Bool := 0xdc00 ≤ u && u ≤ 0xdfff

def escaped? : Char → Option Char
  | '"' => some '"'
  | '\\' => some '\\'
  | '/' => some '/'
  | 'b' => some '\x08'
  | 'f' => some '\x0c'
  | 'n' => some '\n'
  | 'r' => some '\r'
  | 't' => some '\t'
  | _ => none

/-- A character in front of what was read, or the lack of one, which spoils it. -/
def push (c : Option Char) : Option (Option Text × Text) → Option (Option Text × Text)
  | some (s, rest) => some (List.cons <$> c <*> s, rest)
  | none => none

theorem push_eq_some {c : Option Char} {r : Option (Option Text × Text)} {s : Option Text}
    {rest : Text} (h : push c r = some (s, rest)) : ∃ s', r = some (s', rest) := by
  cases r with
  | none => cases h
  | some p => cases h; exact ⟨_, rfl⟩

/-- The characters of a string up to its closing quote, and the text after it. Escapes that stand
for half a character leave the string without characters. -/
def readString : Text → Option (Option Text × Text)
  | [] => none
  | '"' :: rest => some (some [], rest)
  | '\\' :: 'u' :: a :: b :: c :: d :: rest =>
    match codeUnit? a b c d with
    | none => none
    | some u =>
      if isHighSurrogate u then
        match rest with
        | '\\' :: 'u' :: e :: f :: g :: h :: after =>
          match codeUnit? e f g h with
          | none => none
          | some l =>
            if isLowSurrogate l then
              push (Char.ofNat (0x10000 + (u - 0xd800) * 0x400 + (l - 0xdc00))) (readString after)
            else push none (readString ('\\' :: 'u' :: e :: f :: g :: h :: after))
        | rest => push none (readString rest)
      else if isLowSurrogate u then push none (readString rest)
      else push (Char.ofNat u) (readString rest)
  | '\\' :: e :: rest =>
    match escaped? e with
    | none => none
    | some c => push c (readString rest)
  | c :: rest =>
    if c.toNat < 0x20 then none else push c (readString rest)

theorem readString_length {cs rest : Text} {s : Option Text}
    (h : readString cs = some (s, rest)) : rest.length < cs.length := by
  fun_induction readString cs generalizing s rest
  case case1 => cases h
  all_goals
    simp only [List.length_cons]
    grind [push_eq_some]

def ofDecimal (negative : Bool) (whole fraction : Text) (exponent : Int) : Json :=
  match Decimal.read? negative whole fraction exponent with
  | some d => .decimal d
  | none => .unreadable

def ofDigits (negative : Bool) (digits : Text) : Json :=
  let n := digits.toNat
  if negative then
    if 0 < n ∧ n ≤ Nat.pow 2 63 then .integer (-n) else ofDecimal true digits [] 0
  else if n < Nat.pow 2 64 then .integer n
  else ofDecimal false digits [] 0

def exponentOf : Text → Int
  | '-' :: digits => -Text.toNat digits
  | '+' :: digits => Text.toNat digits
  | digits => Text.toNat digits

def splitDigits (cs : Text) : Text × Text :=
  (cs.takeWhile Char.isDigit, cs.dropWhile Char.isDigit)

/-- The digits before the point: no zero in front of others. -/
def splitWhole : Text → Text × Text
  | '0' :: rest => (['0'], rest)
  | cs => splitDigits cs

/-- A part such as `.5` or `e-3` of a number: a mark, perhaps a sign, and digits. -/
def readPart (marks signs : List Char) (cs : Text) : Option (Text × Text) :=
  match cs with
  | [] => some ([], [])
  | m :: rest =>
    if marks.contains m then
      let (sign, rest) := match rest with
        | s :: after => if signs.contains s then ([s], after) else ([], rest)
        | [] => ([], [])
      match splitDigits rest with
      | ([], _) => none
      | (digits, after) => some (m :: sign ++ digits, after)
    else some ([], m :: rest)

theorem splitWhole_append (cs : Text) : (splitWhole cs).1 ++ (splitWhole cs).2 = cs := by
  unfold splitWhole
  split
  · rfl
  · exact List.takeWhile_append_dropWhile

theorem readPart_length {marks signs : List Char} {cs part rest : Text}
    (h : readPart marks signs cs = some (part, rest)) : rest.length ≤ cs.length := by
  have drops (cs : Text) := (List.dropWhile_suffix Char.isDigit (l := cs)).length_le
  unfold readPart splitDigits at h
  grind

def readUnsigned (negative : Bool) (cs : Text) : Option (Json × Text) :=
  match splitWhole cs with
  | ([], _) => none
  | (whole, rest) =>
    match readPart ['.'] [] rest with
    | none => none
    | some (fraction, rest) =>
      match readPart ['e', 'E'] ['+', '-'] rest with
      | none => none
      | some ([], rest) =>
        if fraction.isEmpty then some (ofDigits negative whole, rest)
        else some (ofDecimal negative whole fraction.tail 0, rest)
      | some (exponent, rest) =>
        some (ofDecimal negative whole fraction.tail (exponentOf exponent.tail), rest)

theorem readUnsigned_length {negative : Bool} {cs rest : Text} {n : Json}
    (h : readUnsigned negative cs = some (n, rest)) : rest.length < cs.length := by
  have cut := congrArg List.length (splitWhole_append cs)
  rw [List.length_append] at cut
  unfold readUnsigned at h
  split at h
  · cases h
  · next whole after hne heq =>
    rw [heq] at cut
    have hpos : 0 < whole.length := List.length_pos_iff.mpr hne
    split at h
    · cases h
    · next fraction mid hf =>
      have hmid := readPart_length hf
      split at h
      · cases h
      · next last he =>
        have hlast := readPart_length he
        split at h <;> (cases h; simp only at cut; omega)
      · next exponent last _ he =>
        have hlast := readPart_length he
        cases h
        simp only at cut
        omega

def readNumber : Text → Option (Json × Text)
  | '-' :: rest => readUnsigned true rest
  | cs => readUnsigned false cs

theorem readNumber_length {cs rest : Text} {n : Json} (h : readNumber cs = some (n, rest)) :
    rest.length < cs.length := by
  unfold readNumber at h
  split at h
  · have := readUnsigned_length h
    simp only [List.length_cons]
    omega
  · exact readUnsigned_length h

inductive Lexeme where
  | openArray
  | closeArray
  | openObject
  | closeObject
  | comma
  | colon
  | atom (value : Json)
  /-- A string with half a character. -/
  | garbled

def isJsonBlank (c : Char) : Bool :=
  c = ' ' || c = '\t' || c = '\n' || c = '\r'

def Lexeme.ofString : Option Text → Lexeme
  | some s => .atom (.string (String.ofList s))
  | none => .garbled

def readLexeme (cs : Text) : Option (Lexeme × Text) :=
  match cs with
  | '[' :: rest => some (.openArray, rest)
  | ']' :: rest => some (.closeArray, rest)
  | '\x7b' :: rest => some (.openObject, rest)
  | '\x7d' :: rest => some (.closeObject, rest)
  | ',' :: rest => some (.comma, rest)
  | ':' :: rest => some (.colon, rest)
  | '"' :: rest => (readString rest).map fun (s, after) => (.ofString s, after)
  | 'n' :: 'u' :: 'l' :: 'l' :: rest => some (.atom .null, rest)
  | 't' :: 'r' :: 'u' :: 'e' :: rest => some (.atom (.bool true), rest)
  | 'f' :: 'a' :: 'l' :: 's' :: 'e' :: rest => some (.atom (.bool false), rest)
  | cs => (readNumber cs).map fun (n, after) => (.atom n, after)

theorem readLexeme_length {cs rest : Text} {l : Lexeme} (h : readLexeme cs = some (l, rest)) :
    rest.length < cs.length := by
  unfold readLexeme at h
  split at h
  case h_7 =>
    obtain ⟨⟨s, after⟩, hs, heq⟩ := Option.map_eq_some_iff.mp h
    cases heq
    have := readString_length hs
    simp only [List.length_cons]
    omega
  case h_11 =>
    obtain ⟨⟨n, after⟩, hn, heq⟩ := Option.map_eq_some_iff.mp h
    cases heq
    exact readNumber_length hn
  all_goals
    cases h
    simp only [List.length_cons]
    omega

def lexemes : Text → Option (List Lexeme)
  | [] => some []
  | c :: cs =>
    if isJsonBlank c then lexemes cs
    else
      match _hread : readLexeme (c :: cs) with
      | none => none
      | some (l, rest) => (lexemes rest).map (l :: ·)
termination_by cs => cs.length
decreasing_by
  · simp
  · exact readLexeme_length _hread

/-- A container that is still open. Names may be garbled. -/
inductive Frame where
  | array (items : List Json)
  | object (fields : List (Option String × Json))
  | member (fields : List (Option String × Json)) (key : Option String)

inductive Expect where
  | value
  | firstItem
  | firstKey
  | key
  | colon (key : Option String)
  | after (value : Json)

def begin? (stack : List Frame) : Lexeme → Option (Expect × List Frame)
  | .atom v => some (.after v, stack)
  | .garbled => some (.after .unreadable, stack)
  | .openArray => some (.firstItem, .array [] :: stack)
  | .openObject => some (.firstKey, .object [] :: stack)
  | _ => none

def key? (stack : List Frame) : Lexeme → Option (Expect × List Frame)
  | .atom (.string key) => some (.colon (some key), stack)
  | .garbled => some (.colon none, stack)
  | _ => none

def ofMembers (fields : List (Option String × Json)) : Json :=
  match fields.mapM fun (key, value) => key.map (·, value) with
  | some fields => .object fields
  | none => .unreadable

/-- One lexeme, with containers innermost first and their contents last first. -/
def step? : Expect → List Frame → Lexeme → Option (Expect × List Frame)
  | .value, stack, l => begin? stack l
  | .firstItem, .array [] :: stack, .closeArray => some (.after (.array []), stack)
  | .firstItem, stack, l => begin? stack l
  | .firstKey, .object [] :: stack, .closeObject => some (.after (.object []), stack)
  | .firstKey, stack, l => key? stack l
  | .key, stack, l => key? stack l
  | .colon key, .object fields :: stack, .colon => some (.value, .member fields key :: stack)
  | .after v, .array items :: stack, .comma => some (.value, .array (v :: items) :: stack)
  | .after v, .array items :: stack, .closeArray =>
    some (.after (.array (v :: items).reverse), stack)
  | .after v, .member fields key :: stack, .comma => some (.key, .object ((key, v) :: fields) :: stack)
  | .after v, .member fields key :: stack, .closeObject =>
    some (.after (ofMembers ((key, v) :: fields).reverse), stack)
  | _, _, _ => none

def assemble : Expect → List Frame → List Lexeme → Option Json
  | .after v, [], [] => some v
  | _, _, [] => none
  | expect, stack, l :: ls =>
    match step? expect stack l with
    | none => none
    | some (expect, stack) => assemble expect stack ls

def parse? (text : String) : Option Json :=
  (lexemes text.toList).bind (assemble .value [])

end PageMarkup.Json
