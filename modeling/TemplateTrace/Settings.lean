import TemplateTrace.Failure
import TemplateTrace.Storage
import TemplateTrace.Toml.Reader
import TemplateTrace.Toml.Writer

/-!
The settings, the text of the file that keeps them, and finding, reading and writing that file. Reading
asks for every setting and takes no notice of others; writing refuses a width that TOML has no integer
for.
-/

namespace TemplateTrace

structure Settings where
  /-- The width that drawings are cut to. -/
  width : Nat := 80
  full : Bool := false
  strict : Bool := false
  rootName : String := "<root>"
  result : String := ""
  deriving DecidableEq

namespace Settings

/-- A member of a structure whose members are named in order, from a table or from an array of
values in that order. -/
def member? (names : List String) (name : String) : Toml → Option Toml
  | .table ms => ms.lookup name
  | .array items => if items.length < names.length then none else (names.zip items).lookup name
  | _ => none

def bool? : Toml → Option Bool
  | .boolean b => some b
  | _ => none

def string? : Toml → Option String
  | .string s => some s
  | _ => none

def nat? : Toml → Option Nat
  | .integer n => if 0 ≤ n then some n.toNat else none
  | _ => none

def ofToml? (v : Toml) : Option Settings := do
  let display ← member? ["display", "trace"] "display" v
  let trace ← member? ["display", "trace"] "trace" v
  let shown := fun name => member? ["width", "full_mode"] name display
  let read := fun name => member? ["strict", "root_name", "evaluation_result"] name trace
  return {
    width := ← (shown "width").bind nat?
    full := ← (shown "full_mode").bind bool?
    strict := ← (read "strict").bind bool?
    rootName := ← (read "root_name").bind string?
    result := ← (read "evaluation_result").bind string? }

def ofText (text : String) : Except Failure Settings :=
  match (Toml.ofText? text).bind ofToml? with
  | some s => .ok s
  | none => .error (.settings "the text does not hold every setting")

def line (name : String) (value : List Char) : List Char :=
  name.toList ++ [' ', '=', ' '] ++ value ++ ['\n']

def toChars (s : Settings) : List Char :=
  "[display]\n".toList ++ line "width" (toString s.width).toList ++
    line "full_mode" (toString s.full).toList ++ "\n[trace]\n".toList ++
    line "strict" (toString s.strict).toList ++ line "root_name" (Toml.quote s.rootName.toList) ++
    line "evaluation_result" (Toml.quote s.result.toList)

def toText (s : Settings) : Except Failure String :=
  if Toml.isInteger s.width then .ok (String.ofList s.toChars)
  else .error (.settings "the width is too large to be written")

/-! ### The file -/

variable {m : Type → Type} [Monad m] [Storage m]

def load (path : String) : m (Except Failure Settings) := do
  match ← Storage.readText path with
  | .error e => return .error (.file e)
  | .ok text => return ofText text

/-- Writes the settings to a file. Settings that cannot be written leave the file alone. -/
def save (s : Settings) (path : String) : m (Except Failure Unit) := do
  match s.toText with
  | .error failure => return .error failure
  | .ok text =>
    match ← Storage.write path text with
    | .error e => return .error (.file e)
    | .ok () => return .ok ()

/-- Loads the first of the files that is there; without any, the settings are the usual ones. -/
def loadFirst : List String → m (Except Failure Settings)
  | [] => return .ok {}
  | path :: rest => do
    if ← Storage.isPresent path then load path else loadFirst rest

def usualNames : List String := ["Metatrace.toml", "metatrace.toml", ".metatrace.toml"]

def find : Option String → m (Except Failure Settings)
  | some path => loadFirst [path]
  | none => loadFirst usualNames

end Settings

end TemplateTrace
