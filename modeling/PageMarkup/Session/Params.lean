import PageMarkup.Session.Capabilities
import PageMarkup.Text.Position

/-!
# Parameters of messages

What messages have to carry. A reader gives nothing if a required part is missing or a part that is
there has the wrong type. Where a name is repeated in an object, its last value is the one that counts.
-/

namespace PageMarkup

inductive Notification where
  | opened (uri : String) (version : Int) (content : String)
  /-- Each change gives the whole content. -/
  | changed (uri : String) (version : Int) (contents : List String)
  | closed (uri : String)
  | configured (settings : Json)
  | other

inductive Request where
  | completion (uri : String) (position : Position)
  | hover (uri : String) (position : Position)
  | shutdown
  | other

structure Client where
  options : Option Json
  snippetSupport : Bool

namespace Params

def uri? (j : Json) : Option String :=
  j.string?.filter Uri.isReference

def identifier? (j : Json) : Option String :=
  match j.record? ["uri"] with
  | some [some uri] => uri? uri
  | _ => none

def position? (j : Json) : Option Position :=
  match j.record? ["line", "character"] with
  | some [some line, some character] => do
    return ⟨← line.unsigned32?, ← character.unsigned32?⟩
  | _ => none

def token : Shape :=
  .either .signed .text

def position : Shape :=
  .record [.required "line" .unsigned, .required "character" .unsigned]

/-! ## Notifications -/

def opened? (params : Json) : Option Notification :=
  match params.record? ["textDocument"] with
  | some [some item] =>
    match item.record? ["uri", "languageId", "version", "text"] with
    | some [some uri, some language, some version, some content] => do
      let uri ← uri? uri
      let _ ← language.string?
      return .opened uri (← version.signed32?) (← content.string?)
    | _ => none
  | _ => none

def change : Shape :=
  .record [
    .optional "range" (.record [.required "start" position, .required "end" position]),
    .optional "rangeLength" .unsigned,
    .required "text" .text]

def change? (j : Json) : Option String :=
  if change.admits j then (change.find? ["text"] j).bind Json.string? else none

def changed? (params : Json) : Option Notification :=
  match params.record? ["textDocument", "contentChanges"] with
  | some [some document, some changes] =>
    match document.record? ["uri", "version"] with
    | some [some uri, some version] => do
      let uri ← uri? uri
      let version ← version.signed32?
      return .changed uri version (← (← changes.array?).mapM change?)
    | _ => none
  | _ => none

def closed? (params : Json) : Option Notification :=
  match params.record? ["textDocument"] with
  | some [some document] => (identifier? document).map .closed
  | _ => none

def configured? (params : Json) : Option Notification :=
  match params.record? ["settings"] with
  | some [some settings] => some (.configured settings)
  | _ => none

def notification? (method : String) (params : Json) : Option Notification :=
  let params := params.settled
  match method with
  | "textDocument/didOpen" => opened? params
  | "textDocument/didChange" => changed? params
  | "textDocument/didClose" => closed? params
  | "workspace/didChangeConfiguration" => configured? params
  | _ => some .other

/-! ## Requests -/

def place : List ShapeField :=
  [.required "textDocument" (.record [.required "uri" .uri]), .required "position" position,
    .optional "workDoneToken" token]

def completion : Shape :=
  .record (place ++ [
    .optional "partialResultToken" token,
    .optional "context"
      (.record [.required "triggerKind" .signed, .optional "triggerCharacter" .text])])

def hover : Shape :=
  .record place

/-- The place in parameters of a shape, which are always an object. -/
def place? (shape : Shape) (params : Json) : Option (String × Position) :=
  if params.isObject && shape.admits params then do
    let uri ← identifier? (← params.get? "textDocument")
    return (uri, ← position? (← params.get? "position"))
  else none

def request? (method : String) (params : Json) : Option Request :=
  let params := params.settled
  match method with
  | "textDocument/completion" => do
    let (uri, position) ← place? completion params
    return .completion uri position
  | "textDocument/hover" => do
    let (uri, position) ← place? hover params
    return .hover uri position
  | "shutdown" => some .shutdown
  | _ => some .other

/-! ## The first message -/

def introduction : Shape :=
  .record [
    .optional "processId" .unsigned,
    .optional "rootPath" .text,
    .optional "rootUri" .uri,
    .optional "initializationOptions" .anything,
    .required "capabilities" Capabilities.shape,
    .optional "trace" (.oneOf ["off", "messages", "verbose"]),
    .optional "workspaceFolders" (.list (.record [.required "uri" .uri, .required "name" .text])),
    .optional "clientInfo" (.record [.required "name" .text, .optional "version" .text]),
    .optional "locale" .text,
    .optional "workDoneToken" token]

def client? (params : Json) : Option Client :=
  let params := params.settled
  if params.isObject && introduction.admits params then
    some {
      options := params.get? "initializationOptions"
      snippetSupport := (params.get? "capabilities").any Capabilities.snippetSupport }
  else none

end Params

end PageMarkup
