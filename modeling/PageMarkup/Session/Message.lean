import PageMarkup.Json.Record
import PageMarkup.Text.Quoted

/-!
# Messages from an editor

A request carries an id and is answered; a notification is not. The server asks nothing, so that
the content of a response does not matter.
-/

namespace PageMarkup

inductive RequestId where
  | number (value : Int)
  | text (value : String)
  deriving DecidableEq, Repr

inductive Message where
  | request (id : RequestId) (method : String) (params : Json)
  | notification (method : String) (params : Json)
  | response

namespace RequestId

def toJson : RequestId → Json
  | .number n => .integer n
  | .text s => .string s

def ofJson? : Json → Option RequestId
  | .string s => some (.text s)
  | j => j.signed32?.map .number

def describe : RequestId → String
  | .number n => s!"RequestId(I32({n}))"
  | .text s => s!"RequestId(String({Quoted.write s.toList}))"

end RequestId

namespace Json

/-- Field names in order; of equal names the last counts. -/
def insertField (field : String × String) : List (String × String) → List (String × String)
  | [] => [field]
  | other :: rest =>
    if field.1 < other.1 then field :: other :: rest
    else if field.1 = other.1 then field :: rest
    else other :: insertField field rest

mutual
def describe : Json → String
  | .null | .unreadable => "Null"
  | .bool b => s!"Bool({b})"
  | .integer n => s!"Number({n})"
  | .decimal d => s!"Number({d.toText})"
  | .string s => s!"String({Quoted.write s.toList})"
  | .array items => "Array [" ++ ", ".intercalate (describeItems items) ++ "]"
  | .object fields =>
    let sorted := (describeFields fields).foldl (fun done field => insertField field done) []
    "Object \x7b" ++ ", ".intercalate (sorted.map fun (name, value) =>
      Quoted.write name.toList ++ ": " ++ value) ++ "\x7d"
def describeItems : List Json → List String
  | [] => []
  | item :: rest => describe item :: describeItems rest
def describeFields : List (String × Json) → List (String × String)
  | [] => []
  | field :: rest => describeField field :: describeFields rest
def describeField : String × Json → String × String
  | (name, value) => (name, describe value)
end

end Json

namespace Message

/-- A request has an id and a method, a response only the one, a notification only the other. -/
def ofJson? (j : Json) : Option Message :=
  match (j.get? "id").bind RequestId.ofJson?, (j.get? "method").bind Json.string? with
  | some id, some method => some (.request id method ((j.get? "params").getD .null))
  | some _, none => some .response
  | none, some method => some (.notification method ((j.get? "params").getD .null))
  | none, none => none

def describeRequest (id : RequestId) (method : String) (params : Json) : String :=
  "Request \x7b id: " ++ id.describe ++ ", method: " ++ Quoted.write method.toList ++ ", params: " ++
    params.describe ++ " \x7d"

def isLast : Message → Bool
  | .notification "exit" _ => true
  | _ => false

end Message

end PageMarkup
