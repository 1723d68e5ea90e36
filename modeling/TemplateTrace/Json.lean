import TemplateTrace.Digits

/-!
JSON documents, and how they are written. Objects keep their members in order and may repeat a key. A
number written as a plain integer has a value; every other number is kept as it is written. A document
is written without any blanks, or with one item to a line and two blanks to a level, and strings are
written as they are but for quotes, backslashes and control characters.
-/

namespace TemplateTrace

namespace Json

/-- The text of a string literal. There is none if the literal escapes half of a surrogate pair
without the other half, which stands for no character. -/
abbrev Text := Option String

inductive Number
  | integer (value : Int)
  | written (text : String)
  deriving DecidableEq

end Json

inductive Json
  | null
  | bool (value : Bool)
  | number (value : Json.Number)
  | text (value : Json.Text)
  | array (items : List Json)
  | object (members : List (Json.Text × Json))

namespace Json

def string (s : String) : Json := .text (some s)

def nat (n : Nat) : Json := .number (.integer n)

/-- An object whose keys are given as texts. -/
def record (members : List (String × Json)) : Json :=
  .object (members.map fun m => (some m.1, m.2))

/-! ### Writing -/

/-- A control character below the blank has a short escape or its code in hexadecimal. -/
def escapeChar (c : Char) : List Char :=
  match c with
  | '"' => ['\\', '"']
  | '\\' => ['\\', '\\']
  | '\x08' => ['\\', 'b']
  | '\t' => ['\\', 't']
  | '\n' => ['\\', 'n']
  | '\x0c' => ['\\', 'f']
  | '\r' => ['\\', 'r']
  | _ =>
    if c < ' ' then ['\\', 'u', '0', '0', Digits.lower (c.toNat / 16), Digits.lower (c.toNat % 16)]
    else [c]

/-- A text that is none is written as half of a surrogate pair. -/
def quote : Text → List Char
  | some s => '"' :: (s.toList.flatMap escapeChar ++ ['"'])
  | none => '"' :: ("\\ud800".toList ++ ['"'])

def Number.write : Number → List Char
  | .integer value => (toString value).toList
  | .written s => s.toList

/-- On one line, or spread over lines that are indented for the level. -/
inductive Layout
  | compact
  | spread (level : Nat)
  deriving DecidableEq

namespace Layout

def deeper : Layout → Layout
  | compact => compact
  | spread level => spread (level + 1)

/-- What stands before each item and before the closing bracket. -/
def newline : Layout → List Char
  | compact => []
  | spread level => '\n' :: List.replicate (2 * level) ' '

def colon : Layout → List Char
  | compact => [':']
  | spread _ => [':', ' ']

end Layout

mutual

def write (l : Layout) : Json → List Char
  | .null => ['n', 'u', 'l', 'l']
  | .bool true => ['t', 'r', 'u', 'e']
  | .bool false => ['f', 'a', 'l', 's', 'e']
  | .number n => n.write
  | .text t => quote t
  | .array [] => ['[', ']']
  | .array (v :: vs) =>
    '[' :: (l.deeper.newline ++ write l.deeper v ++ writeItems l.deeper vs ++ l.newline ++ [']'])
  | .object [] => ['\x7b', '\x7d']
  | .object (m :: ms) =>
    '\x7b' :: (l.deeper.newline ++ writeMember l.deeper m ++ writeMembers l.deeper ms ++
      l.newline ++ ['\x7d'])

/-- The items after the first. -/
def writeItems (l : Layout) : List Json → List Char
  | [] => []
  | v :: vs => ',' :: (l.newline ++ write l v ++ writeItems l vs)

def writeMember (l : Layout) : Text × Json → List Char
  | (key, v) => quote key ++ l.colon ++ write l v

/-- The members after the first. -/
def writeMembers (l : Layout) : List (Text × Json) → List Char
  | [] => []
  | m :: ms => ',' :: (l.newline ++ writeMember l m ++ writeMembers l ms)

end

def compact (v : Json) : String := String.ofList (write .compact v)

def pretty (v : Json) : String := String.ofList (write (.spread 0) v)

end Json

end TemplateTrace
