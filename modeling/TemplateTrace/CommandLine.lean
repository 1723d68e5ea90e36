import TemplateTrace.CommandLine.Options
import TemplateTrace.Session

/-!
The words of the command line: options for every command, the name of a command, and what the
command takes.
-/

namespace TemplateTrace

structure Invocation where
  config : Option String
  verbose : Bool
  command : Command
  deriving DecidableEq

namespace CommandLine

inductive CommandName
  | forwardtrace
  | stats
  | dump
  | init
  deriving DecidableEq

namespace CommandName

def ofText? : String → Option CommandName
  | "forwardtrace" | "ft" => some forwardtrace
  | "stats" => some stats
  | "dump" => some dump
  | "init" => some init
  | _ => none

end CommandName

def helpOption : Choice := { long := "help", short := some 'h', kind := .help }

/-- The options of every command that reads a trace. -/
def traceOptions : List Choice :=
  [{ long := "full", kind := .flag }, { long := "strict", kind := .flag },
    { long := "root-name", kind := .text }, { long := "result", kind := .text }, helpOption]

def traceArgument : Choice := { long := "TRACE", kind := .path }

def grammar : CommandName → Grammar
  | .forwardtrace => {
    options := { long := "width", short := some 'w', kind := .number } :: traceOptions
    argument := some traceArgument }
  | .stats => {
    options := { long := "json", kind := .flag } :: traceOptions
    argument := some traceArgument }
  | .dump => { options := traceOptions, argument := some traceArgument }
  | .init => {
    options := [{ long := "path", short := some 'p', kind := .path },
      { long := "force", kind := .flag }, helpOption] }

/-- The name of a command does not count as one once options have ended. -/
def stray (ended : Bool) (text : String) : Refusal :=
  if ended && ((CommandName.ofText? text).isSome || text = "help") then .unknownArgument
  else .unknownCommand

/-- The words before the name of the command. -/
def mainGrammar : Grammar where
  options := [{ long := "config", short := some 'c', kind := .path },
    { long := "verbose", short := some 'v', kind := .flag }, helpOption,
    { long := "version", short := some 'V', kind := .version }]
  stray := stray

def request (path : String) (o : Options) : Request where
  path
  full := o.has "full"
  strict := o.has "strict"
  rootName := o.value? "root-name"
  result := o.value? "result"

/-- The command that the options of the name describe. -/
def command (name : CommandName) (o : Options) : Except Refusal Command :=
  match name, o.value? traceArgument.long with
  | .init, _ => .ok (.init (o.value? "path") (o.has "force"))
  | _, none => .error .missingArgument
  | .forwardtrace, some path =>
    .ok (.draw (request path o) ((o.value? "width").bind number?))
  | .stats, some path => .ok (.summarize (request path o) (o.has "json"))
  | .dump, some path => .ok (.dump (request path o))

/-- Help on a command, or on all of them. -/
def help : List String → Refusal
  | [] => .help
  | [name] => if (CommandName.ofText? name).isSome || name = "help" then .help else .unknownCommand
  | _ => .unknownCommand

/-- Reads the options before the command, then the command. What is wrong with the command is found
before the last value in front of it is looked at. -/
def readFrom (o : Options) : List String → Except Refusal Invocation
  | [] => do
    let o ← o.settle
    .error (if o.found.isEmpty then .nothingGiven else .missingCommand)
  | text :: rest =>
    if o.ended || o.awaits then do readFrom (← o.step mainGrammar text) rest
    else if text = "help" then .error (help rest)
    else match CommandName.ofText? text with
      | some name => do
        let command ← command name (← Options.read (grammar name) {} rest)
        let o ← o.settle
        return { config := o.value? "config", verbose := o.has "verbose", command }
      | none => do readFrom (← o.step mainGrammar text) rest

/-- What a command line asks for. -/
def read (arguments : List String) : Except Refusal Invocation := readFrom {} arguments

end CommandLine

end TemplateTrace
