import PageMarkup.CommandLine.Arguments
import PageMarkup.CommandLine.Report
import PageMarkup.Diagnostic.Check
import PageMarkup.Document.Draft
import PageMarkup.Path.Tree
import PageMarkup.Schema.Bundled

/-!
# Commands

A command reads all its sources before it prints anything. The source `-` is the standard input,
which is empty when it is read again. The status is 1 if a source cannot be read or an error was
found.
-/

namespace PageMarkup.CommandLine

structure Outcome where
  status : Nat := 0
  stdout : String := ""
  stderr : String := ""
  deriving DecidableEq, Repr

def version : Outcome where
  stdout := "wxml 0.1.0\n"

def help : Outcome where
  stdout := Report.lines [
    "WXML language server and checker",
    "",
    "Usage: wxml [OPTIONS] <COMMAND>",
    "",
    "Commands:",
    "  lsp     Start the Language Server Protocol server over stdio",
    "  check   Report diagnostics for .wxml files",
    "  parse   Print the element tree and parse errors of a .wxml file",
    "  tokens  Print the token stream of a .wxml file",
    "  help    Print this message or the help of the given subcommand(s)",
    "",
    "Options:",
    "      --output <OUTPUT>      Output format (text or json) [default: text] [possible values: text, json]",
    "      --quiet                Suppress non-essential output",
    "      --debug                Log at debug level",
    "      --log-file <LOG_FILE>  Append logs to this file instead of stderr",
    "  -h, --help                 Print help",
    "  -V, --version              Print version"]

structure Source where
  file : String
  text : Text

def isStdin (file : String) : Bool :=
  Path.ofString file = [.name "-"]

/-- Reads sources in order up to the first that cannot be read. -/
def readSources (files : Files) (stdin : Except FileError String) :
    List String → Except (String × FileError) (List Source)
  | [] => .ok []
  | file :: rest =>
    let (content, stdin) :=
      if isStdin file then (stdin, .ok "") else (files.read file, stdin)
    match content with
    | .error e => .error (file, e)
    | .ok text =>
      match readSources files stdin rest with
      | .error e => .error e
      | .ok sources => .ok (⟨file, text.toList⟩ :: sources)

namespace Invocation

def fail (inv : Invocation) (message : String) : Outcome :=
  if inv.quiet then { status := 1 }
  else
    match inv.format with
    | .text => { status := 1, stderr := message ++ "\n" }
    | .json =>
      { status := 1, stderr := (Json.object [("error", .string message)]).compact ++ "\n" }

def logFailure (inv : Invocation) (e : FileError) : Outcome :=
  inv.fail s!"cannot open log file: {e.message}"

def print (inv : Invocation) (lines : List String) (value : Json) : String :=
  match inv.format with
  | .text => Report.lines lines
  | .json => value.pretty 0 ++ "\n"

def suspicions (source : Source) : List Diagnostic :=
  (Document.parse source.text).suspicions Schema.bundled (some (Path.ofString source.file))

def check (inv : Invocation) (has : Path → Bool) (sources : List Source) : Outcome :=
  let found := sources.map fun source => (source, (suspicions source).filter (·.stands has))
  let all := found.flatMap (·.2)
  let errors := all.countP (·.severity = .error)
  let lines := found.flatMap fun (source, ds) => ds.map (Report.diagnosticLine source.file source.text)
  let summary :=
    s!"{sources.length} file(s) checked: {errors} error(s), {all.length - errors} warning(s)"
  let value := Json.array (found.map fun (source, ds) =>
    .object [("diagnostics", .array (ds.map (Report.diagnosticJson source.text))),
      ("file", .string source.file)])
  { status := if errors = 0 then 0 else 1
    stdout := inv.print (if inv.quiet then lines else lines ++ [summary]) value }

def parse (inv : Invocation) (text : Text) : Outcome :=
  let d := Document.parse text
  { stdout := inv.print (Report.documentLines d) (Report.documentJson d) }

def listTokens (inv : Invocation) (text : Text) : Outcome :=
  let ps := PageMarkup.tokens text
  { stdout := inv.print (ps.map Report.tokenLine) (.array (ps.map Report.tokenJson)) }

def sources (inv : Invocation) : List String :=
  match inv.command with
  | .serve => []
  | .check files => files
  | .parse file | .tokens file => [file]

def perform (inv : Invocation) (has : Path → Bool) (sources : List Source) : Outcome :=
  match inv.command, sources with
  | .check _, sources => inv.check has sources
  | .parse _, [source] => inv.parse source.text
  | .tokens _, [source] => inv.listTokens source.text
  | _, _ => {}

def run (inv : Invocation) (files : Files) (stdin : Except FileError String) : Outcome :=
  match readSources files stdin inv.sources with
  | .error (file, e) => inv.fail s!"error reading '{file}': {e.message}"
  | .ok sources => inv.perform files.has sources

/-- Opens the log file, which happens before anything is read. -/
def openLog (inv : Invocation) (tree : FileTree) : Except Outcome FileTree :=
  match inv.logFile with
  | none => .ok tree
  | some log =>
    match tree.create log with
    | .error e => .error (inv.logFailure e)
    | .ok tree => .ok tree

def runIn (inv : Invocation) (tree : FileTree) (stdin : ByteArray) : Outcome :=
  match inv.openLog tree with
  | .error outcome => outcome
  | .ok tree => inv.run tree.asFiles (FileError.decode stdin)

end Invocation

end PageMarkup.CommandLine
