/-!
# Arguments

Options may stand before and after the name of a command; after it they take precedence. An option
may be given once on either side. After `--` no argument is an option.
-/

namespace PageMarkup.CommandLine

inductive OutputFormat where
  | text
  | json
  deriving DecidableEq, Repr

inductive Command where
  | serve
  | check (files : List String)
  | parse (file : String)
  | tokens (file : String)
  deriving DecidableEq, Repr

structure Invocation where
  format : OutputFormat := .text
  quiet : Bool := false
  debug : Bool := false
  logFile : Option String := none
  command : Command
  deriving DecidableEq, Repr

inductive Intent where
  | run (invocation : Invocation)
  | help
  | version
  /-- The arguments make no sense. -/
  | usage
  deriving DecidableEq, Repr

structure Flags where
  format : Option OutputFormat := none
  logFile : Option String := none
  quiet : Bool := false
  debug : Bool := false
  stdio : Bool := false
  deriving DecidableEq, Repr

inductive CommandName where
  | serve
  | check
  | parse
  | tokens
  | help
  deriving DecidableEq, Repr

def CommandName.ofString? : String → Option CommandName
  | "lsp" => some .serve
  | "check" => some .check
  | "parse" => some .parse
  | "tokens" => some .tokens
  | "help" => some .help
  | _ => none

inductive Valued where
  | output
  | logFile
  deriving DecidableEq, Repr

structure Reading where
  command : Option CommandName := none
  /-- Options before the command. -/
  outer : Flags := {}
  /-- Options on the present side of it. -/
  flags : Flags := {}
  operands : List String := []
  /-- An option that waits for its value. -/
  pending : Option Valued := none
  /-- Whether `--` has been read. -/
  literal : Bool := false
  deriving DecidableEq, Repr

namespace Reading

def setFlags (r : Reading) (flags : Flags) : Reading :=
  { r with flags, pending := none }

def setValue (r : Reading) : Valued → String → Except Intent Reading
  | .output, value =>
    match r.flags.format, value with
    | none, "text" => return r.setFlags { r.flags with format := some .text }
    | none, "json" => return r.setFlags { r.flags with format := some .json }
    | _, _ => throw .usage
  | .logFile, value =>
    if r.flags.logFile.isSome || value.isEmpty then throw .usage
    else return r.setFlags { r.flags with logFile := some value }

def longOption (r : Reading) (name : String) (value : Option String) : Except Intent Reading :=
  match name, value with
  | "output", none => return { r with pending := some .output }
  | "output", some value => r.setValue .output value
  | "log-file", none => return { r with pending := some .logFile }
  | "log-file", some value => r.setValue .logFile value
  | "quiet", none =>
    if r.flags.quiet then throw .usage else return r.setFlags { r.flags with quiet := true }
  | "debug", none =>
    if r.flags.debug then throw .usage else return r.setFlags { r.flags with debug := true }
  | "stdio", none =>
    if r.flags.stdio || r.command ≠ some .serve then throw .usage
    else return r.setFlags { r.flags with stdio := true }
  | "help", none => throw .help
  | "version", none => if r.command.isNone then throw .version else throw .usage
  | _, _ => throw .usage

def shortOption (r : Reading) (name : Char) : Except Intent Reading :=
  if name = 'h' then throw .help
  else if name = 'V' ∧ r.command.isNone then throw .version
  else throw .usage

def addOperand (r : Reading) (limit : Option Nat) (value : String) : Except Intent Reading :=
  if value.isEmpty || limit.any (· ≤ r.operands.length) then throw .usage
  else return { r with operands := r.operands ++ [value] }

/-- An argument that is no option: a command, or an operand of it. -/
def word (r : Reading) (value : String) : Except Intent Reading :=
  match r.command with
  | none =>
    match CommandName.ofString? value with
    | some name =>
      if r.literal then throw .usage
      else return { r with command := some name, outer := r.flags, flags := {} }
    | none => throw .usage
  | some .serve => throw .usage
  | some .check => r.addOperand none value
  | some .parse | some .tokens => r.addOperand (some 1) value
  | some .help =>
    if (CommandName.ofString? value).isSome then r.addOperand (some 1) value else throw .usage

def isOption (arg : String) : Bool :=
  arg.toList.head? = some '-' && arg ≠ "-"

def option (r : Reading) (arg : String) : Except Intent Reading :=
  match arg.toList with
  | ['-', '-'] => return { r with literal := true }
  | '-' :: '-' :: rest =>
    let value := match rest.dropWhile (· ≠ '=') with
      | [] => none
      | _ :: value => some (String.ofList value)
    r.longOption (String.ofList (rest.takeWhile (· ≠ '='))) value
  | '-' :: name :: _ => r.shortOption name
  | _ => throw .usage

def step (r : Reading) (arg : String) : Except Intent Reading :=
  match r.pending with
  | some valued => if isOption arg then throw .usage else r.setValue valued arg
  | none =>
    if !r.literal && r.command ≠ some .help && isOption arg then r.option arg else r.word arg

def command? (r : Reading) : Option Command :=
  match r.command, r.operands with
  | some .serve, _ => some .serve
  | some .check, file :: files => some (.check (file :: files))
  | some .parse, [file] => some (.parse file)
  | some .tokens, [file] => some (.tokens file)
  | _, _ => none

def finish (r : Reading) : Intent :=
  if r.pending.isSome then .usage
  else if r.command = some .help then .help
  else
    match r.command? with
    | none => .usage
    | some command => .run {
        format := (r.flags.format.or r.outer.format).getD .text
        quiet := r.flags.quiet || r.outer.quiet
        debug := r.flags.debug || r.outer.debug
        logFile := r.flags.logFile.or r.outer.logFile
        command }

end Reading

def Intent.ofArguments (args : List String) : Intent :=
  match args.foldlM Reading.step {} with
  | .ok r => r.finish
  | .error intent => intent

end PageMarkup.CommandLine
