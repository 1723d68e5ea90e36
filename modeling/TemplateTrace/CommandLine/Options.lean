import TemplateTrace.Digits

/-!
Reading options from a list of arguments, from left to right. A value that stands apart from its
option, and an argument that is no option, are not looked at before the next option or argument of
that sort comes or the list ends; what is looked at first decides which refusal is given.
-/

namespace TemplateTrace

/-- Why a command line is not carried out. Showing help or the version is such a reason. -/
inductive Refusal
  | help
  | version
  | nothingGiven
  | missingCommand
  | unknownCommand
  | missingArgument
  | unknownArgument
  | missingValue
  | badValue
  | repeated
  | surplusValue
  deriving DecidableEq

namespace Refusal

def exitCode : Refusal → Nat
  | help | version => 0
  | _ => 2

end Refusal

inductive OptionKind
  | flag
  | path
  | text
  | number
  | help
  | version
  deriving DecidableEq

structure Choice where
  long : String
  short : Option Char := none
  kind : OptionKind
  deriving DecidableEq

namespace Choice

def takesValue (c : Choice) : Bool := c.kind = .path || c.kind = .text || c.kind = .number

end Choice

/-- The words that may stand in a list of arguments. -/
structure Grammar where
  options : List Choice
  /-- The one argument that is no option, if there may be one. -/
  argument : Option Choice := none
  /-- What is said to an argument that has no place; the flag tells that options have ended. -/
  stray : Bool → String → Refusal := fun _ _ => .unknownArgument

def maxNumber : Nat := UInt64.size - 1

def number? (text : String) : Option Nat :=
  let digits := match text.toList with
    | '+' :: rest => rest
    | cs => cs
  if digits.isEmpty || !digits.all (·.isDigit) then none
  else
    let n := Digits.number 10 digits
    if n ≤ maxNumber then some n else none

/-- What has been read: the options and the argument with their values, the latest first. -/
structure Options where
  found : List (String × String) := []
  /-- Waits for its value, or for its value to be looked at. -/
  pending : Option (Choice × Option String) := none
  /-- Whatever follows is no option. -/
  ended : Bool := false
  deriving DecidableEq

namespace Options

def has (o : Options) (name : String) : Bool := (o.found.lookup name).isSome

def value? (o : Options) (name : String) : Option String := o.found.lookup name

/-- The next argument may be a value. -/
def awaits (o : Options) : Bool :=
  match o.pending with
  | some (_, none) => true
  | _ => false

def check : OptionKind → String → Option Refusal
  | .path, text => if text.isEmpty then some .missingValue else none
  | .number, text => if (number? text).isNone then some .badValue else none
  | _, _ => none

def add (o : Options) (c : Choice) (value : String) : Except Refusal Options :=
  if o.has c.long then .error .repeated
  else match check c.kind value with
    | some refusal => .error refusal
    | none => .ok { o with found := (c.long, value) :: o.found }

def settle (o : Options) : Except Refusal Options :=
  match o.pending with
  | none => .ok o
  | some (_, none) => .error .missingValue
  | some (c, some value) => add { o with pending := none } c value

def flag (o : Options) (c : Choice) : Except Refusal Options := do
  let o ← o.settle
  match c.kind with
  | .help => .error .help
  | .version => .error .version
  | _ => o.add c ""

/-- An option that takes a value, which may be attached. -/
def valued (o : Options) (c : Choice) : Option String → Except Refusal Options
  | some value => do (← o.settle).add c value
  | none => do return { ← o.settle with pending := some (c, none) }

def splitValue (text : List Char) : String × Option String :=
  let name := String.ofList (text.takeWhile (· ≠ '='))
  match text.dropWhile (· ≠ '=') with
  | [] => (name, none)
  | _ :: value => (name, some (String.ofList value))

/-- An option by its long name, without the hyphens before it. -/
def long (g : Grammar) (o : Options) (text : List Char) : Except Refusal Options :=
  let (name, value) := splitValue text
  match g.options.find? (·.long = name) with
  | none => .error .unknownArgument
  | some c =>
    if c.takesValue then o.valued c value
    else if value.isSome then .error .surplusValue
    else o.flag c

/-- Options by their short names; the text after one that takes a value is its value. -/
def short (g : Grammar) (o : Options) : List Char → Except Refusal Options
  | [] => .ok o
  | c :: rest =>
    match g.options.find? (·.short = some c) with
    | none => .error .unknownArgument
    | some choice =>
      if choice.takesValue then
        match rest with
        | [] => o.valued choice none
        | '=' :: value => o.valued choice (some (String.ofList value))
        | value => o.valued choice (some (String.ofList value))
      else do short g (← o.flag choice) rest

def plain (g : Grammar) (o : Options) (text : String) : Except Refusal Options :=
  match g.argument with
  | none => .error (g.stray o.ended text)
  | some c =>
    let taken := o.has c.long || o.pending.any (·.1 = c)
    if taken then .error (g.stray o.ended text)
    else do return { ← o.settle with pending := some (c, some text) }

def step (g : Grammar) (o : Options) (text : String) : Except Refusal Options :=
  if o.ended then o.plain g text
  else match text.toList with
    | ['-', '-'] => .ok { o with ended := true }
    | '-' :: '-' :: name => o.long g name
    | '-' :: c :: names => o.short g (c :: names)
    | _ =>
      match o.pending with
      | some (c, none) => .ok { o with pending := some (c, some text) }
      | _ => o.plain g text

def read (g : Grammar) (o : Options) : List String → Except Refusal Options
  | [] => o.settle
  | text :: rest => do read g (← o.step g text) rest

end Options

end TemplateTrace
