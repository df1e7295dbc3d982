import PageMarkup.Completion.Suggest
import PageMarkup.Diagnostic.Check
import PageMarkup.Session.Message
import PageMarkup.Session.Params
import PageMarkup.Session.Wire
import PageMarkup.Settings
import PageMarkup.Workspace

/-!
# Serving an editor

The server is a state machine: one message in, a few messages out. An editor introduces itself,
works on documents, and says goodbye in two steps. Parameters that cannot be read end the session,
and so does a message out of turn at its beginning or its end.

The machine never looks at files. What it sends still depends on them where a page includes another
one or documentation may be found in a directory; `Outgoing.toJson` settles that.
-/

namespace PageMarkup

inductive RequestError where
  | notReady (request : String)
  | unknownMethod (method : String)
  | position (error : PositionError)
  deriving DecidableEq, Repr

namespace RequestError

def code : RequestError → Int
  | .notReady _ => -32002
  | .unknownMethod _ => -32601
  | .position _ => -32602

def message : RequestError → String
  | .notReady request => s!"expected initialize request, got {request}"
  | .unknownMethod method => s!"method not found: {method}"
  | .position error => error.message

end RequestError

inductive Outgoing where
  | capabilities (id : RequestId)
  /-- An answer without content. -/
  | done (id : RequestId)
  | failure (id : RequestId) (error : RequestError)
  | completions (id : RequestId) (text : Text) (items : List CompletionItem)
  | hover (id : RequestId) (text : Text) (topic : Topic) (docs : Option String)
  /-- All suspicions about a document, whichever files are there. -/
  | diagnostics (uri : String) (text : Text) (suspicions : List Diagnostic)

namespace Outgoing

def capabilitiesJson : Json :=
  .object [("capabilities", .object [
    ("textDocumentSync", .object [("openClose", .bool true), ("change", .ofNat 1)]),
    ("hoverProvider", .bool true),
    ("completionProvider", .object [
      ("triggerCharacters", .strings ["<", "\"", "&", "/", " "]),
      ("resolveProvider", .bool false)])])]

def envelope (fields : List (String × Json)) : Json :=
  .object (("jsonrpc", .string "2.0") :: fields)

def result (id : RequestId) (value : Json) : Json :=
  envelope [("id", id.toJson), ("result", value)]

def toJson (files : Files) : Outgoing → Json
  | .capabilities id => result id capabilitiesJson
  | .done id => result id .null
  | .failure id error =>
    envelope [("id", id.toJson),
      ("error", .object [("code", .integer error.code), ("message", .string error.message)])]
  | .completions id text items => result id (CompletionItem.listJson text items)
  | .hover id text topic docs => result id (topic.toJson text (topic.text docs files.read))
  | .diagnostics uri text suspicions =>
    let found := suspicions.filter (·.stands files.has)
    envelope [("method", .string "textDocument/publishDiagnostics"),
      ("params", .object [("uri", .string uri),
        ("diagnostics", .array (found.map (·.toJson text)))])]

def namedFiles : Outgoing → List Path
  | .diagnostics _ _ suspicions => suspicions.filterMap Diagnostic.file?
  | _ => []

def page? : Outgoing → Option String
  | .hover _ _ topic docs => docs.bind topic.file?
  | _ => none

end Outgoing

structure Session where
  schema : Schema
  snippetSupport : Bool
  settings : Settings := {}
  workspace : Workspace := {}

namespace Session

/-- Settings that cannot be read are ignored. -/
def start (schema : Schema) (client : Client) : Session where
  schema
  snippetSupport := client.snippetSupport
  settings := (client.options.bind Settings.decode?).getD {}

def complete (s : Session) (id : RequestId) (uri : String) (position : Position) :
    Except OffsetError Outgoing := do
  match s.workspace.get? uri with
  | none => return .done id
  | some d =>
    match d.text.offsetAt position with
    | .error e => return .failure id (.position e)
    | .ok offset =>
      let options := s.settings.options s.snippetSupport
      return .completions id d.text (← d.document.completions s.schema options offset)

def hover (s : Session) (id : RequestId) (uri : String) (position : Position) :
    Except OffsetError Outgoing := do
  match s.workspace.get? uri with
  | none => return .done id
  | some d =>
    match d.text.offsetAt position with
    | .error e => return .failure id (.position e)
    | .ok offset =>
      match ← d.document.topic? s.schema offset with
      | none => return .done id
      | some topic => return .hover id d.text topic s.settings.docs

def publish (s : Session) (uri : String) : List Outgoing :=
  match s.workspace.get? uri with
  | none => []
  | some d => [.diagnostics uri d.text (d.document.suspicions s.schema (d.path.map .ofString))]

/-- Of several changes the last one counts. -/
def notify (s : Session) : Notification → Session × List Outgoing
  | .opened uri version content =>
    let s := { s with workspace := s.workspace.put uri version content }
    (s, s.publish uri)
  | .changed uri version contents =>
    match contents.getLast?.bind (s.workspace.change? uri version) with
    | none => (s, [])
    | some workspace =>
      let s := { s with workspace }
      (s, s.publish uri)
  | .closed uri => ({ s with workspace := s.workspace.close uri }, [.diagnostics uri [] []])
  | .configured settings =>
    ({ s with settings := (Settings.decode? settings).getD s.settings }, [])
  | .other => (s, [])

end Session

inductive Ending where
  | finished
  | unreadable
  | outOfTurn
  /-- A document was asked about a place that it does not have. -/
  | broken (error : OffsetError)
  deriving DecidableEq, Repr

inductive Server where
  | waiting
  /-- Answered the first message, with these parameters, and waits for the editor to go on. -/
  | greeted (params : Json)
  | serving (session : Session)
  | stopping
  | ended (ending : Ending)

namespace Server

def request (s : Session) (id : RequestId) (method : String) :
    Request → Server × List Outgoing
  | .shutdown => (.stopping, [.done id])
  | .other => (.serving s, [.failure id (.unknownMethod method)])
  | .completion uri position => reply (s.complete id uri position)
  | .hover uri position => reply (s.hover id uri position)
where
  reply : Except OffsetError Outgoing → Server × List Outgoing
    | .ok outgoing => (.serving s, [outgoing])
    | .error e => (.ended (.broken e), [])

def serve (s : Session) : Message → Server × List Outgoing
  | .response => (.serving s, [])
  | .request id method params =>
    match Params.request? method params with
    | none => (.ended .unreadable, [])
    | some r => request s id method r
  | .notification method params =>
    match Params.notification? method params with
    | none => (.ended .unreadable, [])
    | some n =>
      let (s, outgoing) := s.notify n
      (.serving s, outgoing)

def step (schema : Schema) : Server → Message → Server × List Outgoing
  | .waiting, .request id "initialize" params => (.greeted params, [.capabilities id])
  | .waiting, .request id method params =>
    (.waiting, [.failure id (.notReady (Message.describeRequest id method params))])
  | .waiting, .notification "exit" _ => (.ended .outOfTurn, [])
  | .waiting, .notification _ _ => (.waiting, [])
  | .waiting, .response => (.ended .outOfTurn, [])
  | .greeted params, .notification "initialized" _ =>
    match Params.client? params with
    | some client => (.serving (.start schema client), [])
    | none => (.ended .unreadable, [])
  | .greeted _, _ => (.ended .outOfTurn, [])
  | .serving s, message => serve s message
  | .stopping, .notification "exit" _ => (.ended .finished, [])
  | .stopping, _ => (.ended .outOfTurn, [])
  | .ended ending, _ => (.ended ending, [])

def run (schema : Schema) : Server → List Message → Server × List Outgoing
  | server, [] => (server, [])
  | server, message :: rest =>
    let (server, first) := server.step schema message
    let (server, later) := run schema server rest
    (server, first ++ later)

/-- The ending if no more messages come. While it serves, the server may be left without a word. -/
def disconnect : Server → Ending
  | .serving _ => .finished
  | .ended ending => ending
  | _ => .outOfTurn

/-- Talks to an editor over a channel that carries messages as JSON. Nothing is read after the
editor has said that it exits; what is no message ends the conversation. -/
def converse (schema : Schema) (payloads : List Json) : Ending × List Outgoing :=
  go .waiting payloads
where
  go (server : Server) : List Json → Ending × List Outgoing
    | [] => (server.disconnect, [])
    | payload :: rest =>
      match Message.ofJson? payload with
      | none => (.unreadable, [])
      | some message =>
        let (server, first) := server.step schema message
        if message.isLast then (server.disconnect, first)
        else
          let (ending, later) := go server rest
          (ending, first ++ later)

end Server

end PageMarkup
