import PageMarkup.CommandLine.Run
import PageMarkup.Json.Reader
import PageMarkup.Session.Server

/-!
# The program

Reads arguments, files and the standard input, and prints what the commands answer. As the commands
do not look at files themselves, the files that they name are looked up first.
-/

namespace PageMarkup.Program

open CommandLine

def fileError : IO.Error → FileError
  | .noFileOrDirectory .. => .notFound
  | .inappropriateType _ 20 _ => .notADirectory
  | .inappropriateType _ 21 _ => .isADirectory
  | e => .other (toString e)

def attempt (action : IO α) : IO (Except FileError α) := do
  try return .ok (← action)
  catch e => return .error (fileError e)

def readText (path : String) : IO (Except FileError String) := do
  match ← attempt (IO.FS.readBinFile path) with
  | .ok bytes => return FileError.decode bytes
  | .error e => return .error e

def isThere (path : Path) : IO Bool := do
  if path.isEmpty then return false
  match ← attempt (IO.FS.Handle.mk path.toText .read) with
  | .ok _ => return true
  | .error .notFound | .error .notADirectory => return false
  | .error _ => return true

def present (paths : List Path) : IO (Path → Bool) := do
  let found ← paths.filterM fun path => isThere path
  return fun path => found.contains path

def emit (outcome : Outcome) : IO UInt32 := do
  IO.print outcome.stdout
  IO.eprint outcome.stderr
  return outcome.status.toUInt32

partial def readAll (input : IO.FS.Stream) (done : ByteArray) : IO ByteArray := do
  let more ← input.read 65536
  if more.isEmpty then return done else readAll input (done ++ more)

def execute (inv : Invocation) : IO UInt32 := do
  let contents ← inv.sources.mapM fun file => do
    if isStdin file then return (file, .error .notFound) else return (file, ← readText file)
  let stdin ← if inv.sources.any isStdin then readAll (← IO.getStdin) .empty else pure .empty
  let read := fun file => (contents.lookup file).getD (.error .notFound)
  let sources := readSources ⟨fun _ => false, read⟩ (FileError.decode stdin) inv.sources
  let named := match sources with
    | .ok sources => (sources.flatMap Invocation.suspicions).filterMap Diagnostic.file?
    | .error _ => []
  emit (inv.run ⟨← present named, read⟩ (FileError.decode stdin))

/-! ## Serving -/

def contentLength? (line : String) : Option Nat :=
  let cs := line.toList
  let name := cs.takeWhile (· ≠ ':')
  if Text.fold name = "content-length".toList then
    (String.ofList (Text.trim (cs.drop (name.length + 1)))).toNat?
  else none

/-- Reads headers up to an empty line; nothing at the end of the input. -/
partial def readHeaders (input : IO.FS.Stream) (length : Option Nat) : IO (Option Nat) := do
  let line ← input.getLine
  if line.isEmpty then return none
  if (Text.trim line.toList).isEmpty then return length
  readHeaders input ((contentLength? line).or length)

partial def readExactly (input : IO.FS.Stream) (count : Nat) (done : ByteArray) : IO ByteArray := do
  if count ≤ done.size then return done
  let more ← input.read (count - done.size).toUSize
  if more.isEmpty then return done else readExactly input count (done ++ more)

def send (output : IO.FS.Stream) (outgoing : Outgoing) : IO Unit := do
  let has ← present outgoing.namedFiles
  let page ← outgoing.page?.mapM fun file => return (file, ← readText file)
  let files : Files := ⟨has, fun file => (page.toList.lookup file).getD (.error .notFound)⟩
  let body := (outgoing.toJson files).compact
  output.putStr s!"Content-Length: {body.utf8ByteSize}\r\n\r\n"
  output.putStr body
  output.flush

partial def serve (input output : IO.FS.Stream) (server : Server) : IO Ending := do
  if let .ended ending := server then return ending
  match ← readHeaders input none with
  | none => return server.disconnect
  | some length =>
    let payload := String.fromUTF8? (← readExactly input length .empty)
    let value := (payload.bind Json.parse?).filter (·.isReadable Schema.nesting)
    match value.bind Message.ofJson? with
    | none => return .unreadable
    | some message =>
      let (server, outgoing) := server.step Schema.bundled message
      outgoing.forM (send output)
      if message.isLast then return server.disconnect else serve input output server

def startServer : IO UInt32 := do
  match ← serve (← IO.getStdin) (← IO.getStdout) .waiting with
  | .finished => return 0
  | .unreadable => IO.eprintln "LSP server error: unreadable message"; return 1
  | .outOfTurn => IO.eprintln "LSP server error: message out of turn"; return 1
  | .broken e => IO.eprintln s!"LSP server error: {e.message}"; return 1

def start (inv : Invocation) : IO UInt32 := do
  if let some log := inv.logFile then
    if let .error e ← attempt (IO.FS.Handle.mk log .append) then return ← emit (inv.logFailure e)
  match inv.command with
  | .serve => startServer
  | _ => execute inv

end PageMarkup.Program

open PageMarkup CommandLine in
def main (args : List String) : IO UInt32 :=
  match Intent.ofArguments args with
  | .run inv => Program.start inv
  | .help => Program.emit help
  | .version => Program.emit version
  | .usage => do
    IO.eprintln "Usage: wxml [OPTIONS] <COMMAND>"
    return 2
