import TemplateTrace.Drawing
import TemplateTrace.Evaluation.Text
import TemplateTrace.Settings
import TemplateTrace.Summary

/-!
What the program does on request: draw, sum up or dump the evaluation of a trace file, or write a
settings file. A request leaves to the settings what it does not say.
-/

namespace TemplateTrace

/-- Why a request was not met, with what was attempted, the outermost attempt first. -/
inductive Trouble
  | failed (attempts : List String) (cause : Failure)
  /-- A directory could not be made. -/
  | noDirectory (cause : FileError)
  /-- The settings file is there already. -/
  | present (path : String)
  deriving DecidableEq

namespace Trouble

def message : Trouble → String
  | failed _ cause => cause.message
  | noDirectory cause => cause.message
  | present path => s!"{path} already exists (use --force to overwrite)"

end Trouble

/-- Which trace to load and how. -/
structure Request where
  path : String
  full : Bool := false
  strict : Bool := false
  rootName : Option String := none
  result : Option String := none
  deriving DecidableEq

inductive Command
  | draw (request : Request) (width : Option Nat)
  | summarize (request : Request) (json : Bool)
  | dump (request : Request)
  | init (path : Option String) (force : Bool)
  deriving DecidableEq

namespace Request

def view (r : Request) (s : Settings) : View where
  strict := r.strict || s.strict
  full := r.full || s.full
  rootName := r.rootName.getD s.rootName
  result := r.result.getD s.result

end Request

namespace Session

variable {m : Type → Type} [Monad m] [Storage m]

def load (s : Settings) (r : Request) : m (Except Trouble Evaluation) := do
  match ← Storage.readText r.path with
  | .error e => return .error (.failed [s!"Can't open trace file {r.path}"] (.file e))
  | .ok text =>
    match Evaluation.ofText (r.view s) text with
    | .ok e => return .ok e
    | .error failure =>
      return .error (.failed [s!"Failed to build metaprogram from {r.path}"] failure)

def draw (s : Settings) (r : Request) (width : Option Nat) :
    m (Except Trouble (List String)) := do
  return (← load s r).map (·.drawing (width.getD s.width))

def summarize (s : Settings) (r : Request) (json : Bool) : m (Except Trouble String) := do
  return (← load s r).map fun e => if json then e.summary.toJson.pretty else e.report

def dump (s : Settings) (r : Request) : m (Except Trouble String) := do
  return (← load s r).map (·.dump)

/-- Writes the usual settings into the directory, and tells where. A file that is there already is
only written over by force. -/
def init (path : Option String) (force : Bool) : m (Except Trouble String) := do
  let directory := path.getD "."
  let target := Path.inside directory "metatrace.toml"
  if (← Storage.isPresent target) && !force then return .error (.present target)
  match ← Storage.makeDirectories directory with
  | .error e => return .error (.noDirectory e)
  | .ok () =>
    match ← Settings.save {} target with
    | .error failure => return .error (.failed [] failure)
    | .ok () => return .ok target

/-- Meets a request, and gives the lines to print. -/
def execute (s : Settings) : Command → m (Except Trouble (List String))
  | .draw r width => draw s r width
  | .summarize r json => do return (← summarize s r json).map ([·])
  | .dump r => do return (← dump s r).map ([·])
  | .init path force => do return (← init path force).map fun _ => []

/-- Finds the settings and meets a request. -/
def run (config : Option String) (c : Command) : m (Except Trouble (List String)) := do
  match ← Settings.find config with
  | .error failure => return .error (.failed [] failure)
  | .ok s => execute s c

end Session

end TemplateTrace
