import PageMarkup.Json.Decimal

/-!
# JSON values

Values keep the order of their object fields. Integers that fit a signed or unsigned 64-bit word
are numbers of their own; any other number is a decimal.
-/

namespace PageMarkup

inductive Json where
  | null
  | bool (value : Bool)
  | integer (value : Int)
  | decimal (value : Decimal)
  | string (value : String)
  | array (items : List Json)
  | object (fields : List (String × Json))
  /-- Well-formed, so that it may be passed over, but without meaning: a string with half a
  character, an object with such a field name, or a number out of range. -/
  | unreadable
  deriving Inhabited

namespace Json

def ofNat (n : Nat) : Json := .integer n

def ofOption (f : α → Json) : Option α → Json
  | none => .null
  | some a => f a

def strings (values : List String) : Json :=
  .array (values.map .string)

def ofFields (fields : List (String × Option Json)) : Json :=
  .object (fields.filterMap fun (name, value) => value.map (name, ·))

/-- Of equal names the last counts. -/
def get? : Json → String → Option Json
  | .object fields, key => fields.reverse.lookup key
  | _, _ => none

/-- Quotes, backslashes and control characters are escaped, all else stands for itself. -/
def escapeChar (c : Char) : Text :=
  match c with
  | '"' => ['\\', '"']
  | '\\' => ['\\', '\\']
  | '\n' => ['\\', 'n']
  | '\r' => ['\\', 'r']
  | '\t' => ['\\', 't']
  | '\x08' => ['\\', 'b']
  | '\x0c' => ['\\', 'f']
  | c =>
    if c.toNat < 0x20 then
      ['\\', 'u', '0', '0', Nat.digitChar (c.toNat / 16), Nat.digitChar (c.toNat % 16)]
    else [c]

def quote (s : String) : String :=
  String.ofList ('"' :: s.toList.flatMap escapeChar ++ ['"'])

mutual
def compact : Json → String
  | .null => "null"
  | .bool true => "true"
  | .bool false => "false"
  | .integer n => toString n
  | .decimal d => d.toText
  | .string s => quote s
  | .unreadable => "null"
  | .array items => "[" ++ ",".intercalate (compactItems items) ++ "]"
  | .object fields => "\x7b" ++ ",".intercalate (compactFields fields) ++ "\x7d"
def compactItems : List Json → List String
  | [] => []
  | item :: items => compact item :: compactItems items
def compactFields : List (String × Json) → List String
  | [] => []
  | field :: fields => compactField field :: compactFields fields
def compactField : String × Json → String
  | (name, value) => quote name ++ ":" ++ compact value
end

def block (depth : Nat) (opening closing : String) (lines : List String) : String :=
  let indent := String.ofList (List.replicate (2 * depth) ' ')
  match lines with
  | [] => opening ++ closing
  | lines =>
    opening ++ "\n" ++ ",\n".intercalate (lines.map (indent ++ "  " ++ ·)) ++ "\n" ++ indent ++ closing

mutual
def pretty (depth : Nat) : Json → String
  | .array items => block depth "[" "]" (prettyItems (depth + 1) items)
  | .object fields => block depth "\x7b" "\x7d" (prettyFields (depth + 1) fields)
  | .null => compact .null
  | .bool b => compact (.bool b)
  | .integer n => compact (.integer n)
  | .decimal d => compact (.decimal d)
  | .string s => compact (.string s)
  | .unreadable => compact .unreadable
def prettyItems (depth : Nat) : List Json → List String
  | [] => []
  | item :: items => pretty depth item :: prettyItems depth items
def prettyFields (depth : Nat) : List (String × Json) → List String
  | [] => []
  | field :: fields => prettyField depth field :: prettyFields depth fields
def prettyField (depth : Nat) : String × Json → String
  | (name, value) => quote name ++ ": " ++ pretty depth value
end

mutual
/-- Whether the whole value has a meaning and is nested at most `room` deep. -/
def isReadable (room : Nat) : Json → Bool
  | .array items => 0 < room && areReadable (room - 1) items
  | .object fields => 0 < room && areFieldsReadable (room - 1) fields
  | .unreadable => false
  | .null | .bool _ | .integer _ | .decimal _ | .string _ => true
def areReadable (room : Nat) : List Json → Bool
  | [] => true
  | item :: items => isReadable room item && areReadable room items
def areFieldsReadable (room : Nat) : List (String × Json) → Bool
  | [] => true
  | field :: fields => isFieldReadable room field && areFieldsReadable room fields
def isFieldReadable (room : Nat) : String × Json → Bool
  | (_, value) => isReadable room value
end

end Json

end PageMarkup
