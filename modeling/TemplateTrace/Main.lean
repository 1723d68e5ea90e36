import TemplateTrace.CommandLine

/-!
The program: the arguments of the process are read, the files are those of the operating system, and
what comes out is printed.
-/

namespace TemplateTrace

namespace FileError

/-- The cause of a failure that the operating system reports. -/
def ofSystem : IO.Error → FileError
  | .noFileOrDirectory .. => .notFound
  | .alreadyExists .. => .alreadyExists
  | .inappropriateType _ _ details =>
    if details.toLower = "is a directory" then .isDirectory else .notDirectory
  | e => .other (toString e)

end FileError

namespace Main

def attempt {α : Type} (act : IO α) : IO (Except FileError α) := do
  try return .ok (← act)
  catch e => return .error (.ofSystem e)

/-- A path that cannot be opened for another reason than that nothing is there does lead
somewhere. -/
def isPresent (path : String) : IO Bool := do
  match ← attempt (IO.FS.Handle.mk path .read) with
  | .error .notFound | .error .notDirectory => return false
  | _ => return true

instance : Storage IO where
  isPresent := isPresent
  read path := attempt (IO.FS.readBinFile path)
  makeDirectory path := attempt (IO.FS.createDir path)
  write path text := attempt (IO.FS.writeFile path text)

def version : String := "metatrace 0.1.0"

def usage : String :=
  "Usage: metatrace [-c PATH] [-v] COMMAND\n\n" ++
  "Commands:\n" ++
  "  forwardtrace, ft TRACE  Print the instantiation call graph as a tree [-w N]\n" ++
  "  stats TRACE             Summarize the instantiations in a trace [--json]\n" ++
  "  dump TRACE              Dump the reconstructed metaprogram as JSON\n" ++
  "  init                    Write a default configuration file [-p DIR] [--force]\n" ++
  "  help [COMMAND]          Print this text\n\n" ++
  "Options of the commands that read a trace:\n" ++
  "  --full                  Keep every instantiation\n" ++
  "  --strict                Fail on compressed names and unnamed file ids\n" ++
  "  --root-name S           Label of the root node\n" ++
  "  --result S              Type the evaluated expression produced\n\n" ++
  "Options:\n" ++
  "  -c, --config PATH       Path to configuration file\n" ++
  "  -v, --verbose           Enable verbose logging\n" ++
  "  -h, --help              Print this text\n" ++
  "  -V, --version           Print version"

def complaint : Refusal → String
  | .unknownCommand => "error: there is no such command"
  | .missingCommand => "error: a command is required"
  | .missingArgument => "error: the trace file is required"
  | .unknownArgument => "error: unexpected argument"
  | .missingValue => "error: a value is required"
  | .badValue => "error: the value is not valid"
  | .repeated => "error: an option is given twice"
  | .surplusValue => "error: the option takes no value"
  | _ => usage

/-- Prints why nothing is done. -/
def refuse : Refusal → IO Unit
  | .help => IO.println usage
  | .version => IO.println version
  | r => IO.eprintln (complaint r)

/-- Prints what went wrong, from the outermost attempt to the cause. -/
def report (t : Trouble) : IO Unit := do
  let attempts := match t with
    | .failed attempts _ => attempts
    | _ => []
  match attempts ++ [t.message] with
  | [] => return
  | first :: causes =>
    IO.eprintln s!"Error: {first}"
    unless causes.isEmpty do IO.eprintln "\nCaused by:"
    causes.forM fun cause => IO.eprintln s!"    {cause}"

def run (i : Invocation) : IO UInt32 := do
  match ← (Session.run i.config i.command : IO (Except Trouble (List String))) with
  | .ok lines =>
    lines.forM IO.println
    return 0
  | .error t =>
    report t
    return 1

end Main

end TemplateTrace

open TemplateTrace in
def main (arguments : List String) : IO UInt32 := do
  match CommandLine.read arguments with
  | .ok i => Main.run i
  | .error r =>
    Main.refuse r
    return r.exitCode.toUInt32
