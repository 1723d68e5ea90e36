import TemplateTrace.Json

/-!
The tokens of a JSON text, found in one pass over its characters. A number ends at the first
character that cannot go on with it; a string collects characters and escaped code units, and the
code units are put together when it ends.
-/

namespace TemplateTrace

namespace Json

inductive Token
  | beginArray
  | endArray
  | beginObject
  | endObject
  | colon
  | comma
  | text (value : Text)
  /-- A literal name or a number. -/
  | value (value : Json)

/-- A piece of a string literal: a character as it stands, or an escaped code unit. -/
inductive Piece
  | char (c : Char)
  | unit (code : Nat)
  deriving DecidableEq

namespace Piece

def isHigh (u : Nat) : Bool := 0xd800 ≤ u && u < 0xdc00

def isLow (u : Nat) : Bool := 0xdc00 ≤ u && u < 0xe000

/-- The character that a high and a low unit stand for. -/
def pair (high low : Nat) : Char :=
  Char.ofNat (0x10000 + (high - 0xd800) * 0x400 + (low - 0xdc00))

/-- The text of the pieces, after characters that are already found, the latest first. -/
def join (found : List Char) : List Piece → Text
  | [] => some (String.ofList found.reverse)
  | .char c :: ps => join (c :: found) ps
  | .unit u :: ps =>
    if isLow u then none
    else if isHigh u then
      match ps with
      | .unit v :: ps => if isLow v then join (pair u v :: found) ps else none
      | _ => none
    else join (Char.ofNat u :: found) ps

end Piece

/-- How far a number has been read. -/
inductive Stage
  | minus
  | zero
  | whole
  | point
  | fraction
  | exponent
  | sign
  | power
  deriving DecidableEq

namespace Stage

def next : Stage → Char → Option Stage
  | minus, c => if c = '0' then some zero else if c.isDigit then some whole else none
  | zero, c => afterInteger c
  | whole, c => if c.isDigit then some whole else afterInteger c
  | point, c => if c.isDigit then some fraction else none
  | fraction, c => if c.isDigit then some fraction else afterFraction c
  | exponent, c =>
    if c.isDigit then some power else if c = '+' || c = '-' then some sign else none
  | sign, c => if c.isDigit then some power else none
  | power, c => if c.isDigit then some power else none
where
  afterFraction (c : Char) : Option Stage :=
    if c = 'e' || c = 'E' then some exponent else none
  afterInteger (c : Char) : Option Stage :=
    if c = '.' then some point else afterFraction c

/-- A number may end here. -/
def complete : Stage → Bool
  | zero | whole | fraction | power => true
  | _ => false

end Stage

/-- The number that the characters write. Negative zero has no value among the integers. -/
def Number.ofWritten (stage : Stage) (written : List Char) : Number :=
  if stage = .zero || stage = .whole then
    match written with
    | ['-', '0'] => .written "-0"
    | '-' :: digits => .integer (-(Digits.number 10 digits : Int))
    | digits => .integer (Digits.number 10 digits)
  else .written (String.ofList written)

/-- What the scan is in the middle of. -/
inductive Scanning
  | between
  | word (rest : List Char) (meaning : Json)
  /-- The characters so far, the latest first. -/
  | number (stage : Stage) (written : List Char)
  | text (pieces : List Piece)
  | escape (pieces : List Piece)
  /-- So many hexadecimal digits are missing from the code unit. -/
  | unit (pieces : List Piece) (missing : Nat) (code : Nat)

/-- The tokens found so far, the latest first, and what the scan is in the middle of. -/
structure Scan where
  tokens : List Token
  scanning : Scanning

namespace Scan

def emit (tokens : List Token) (t : Token) : Scan := ⟨t :: tokens, .between⟩

/-- The character is the first after a token. -/
def start (tokens : List Token) (c : Char) : Option Scan :=
  match c with
  | ' ' | '\t' | '\n' | '\r' => some ⟨tokens, .between⟩
  | '[' => some (emit tokens .beginArray)
  | ']' => some (emit tokens .endArray)
  | '\x7b' => some (emit tokens .beginObject)
  | '\x7d' => some (emit tokens .endObject)
  | ':' => some (emit tokens .colon)
  | ',' => some (emit tokens .comma)
  | '"' => some ⟨tokens, .text []⟩
  | 'n' => some ⟨tokens, .word ['u', 'l', 'l'] .null⟩
  | 't' => some ⟨tokens, .word ['r', 'u', 'e'] (.bool true)⟩
  | 'f' => some ⟨tokens, .word ['a', 'l', 's', 'e'] (.bool false)⟩
  | '-' => some ⟨tokens, .number .minus ['-']⟩
  | '0' => some ⟨tokens, .number .zero ['0']⟩
  | _ => if c.isDigit then some ⟨tokens, .number .whole [c]⟩ else none

def number (stage : Stage) (written : List Char) : Token :=
  .value (.number (.ofWritten stage written.reverse))

def escaped : Char → Option Char
  | '"' => some '"'
  | '\\' => some '\\'
  | '/' => some '/'
  | 'b' => some '\x08'
  | 'f' => some '\x0c'
  | 'n' => some '\n'
  | 'r' => some '\r'
  | 't' => some '\t'
  | _ => none

def step (s : Scan) (c : Char) : Option Scan :=
  match s.scanning with
  | .between => start s.tokens c
  | .word [] _ => none
  | .word [e] meaning => if c = e then some (emit s.tokens (.value meaning)) else none
  | .word (e :: rest) meaning =>
    if c = e then some ⟨s.tokens, .word rest meaning⟩ else none
  | .number stage written =>
    match stage.next c with
    | some stage => some ⟨s.tokens, .number stage (c :: written)⟩
    | none => if stage.complete then start (number stage written :: s.tokens) c else none
  | .text pieces =>
    if c = '"' then some (emit s.tokens (.text (Piece.join [] pieces.reverse)))
    else if c = '\\' then some ⟨s.tokens, .escape pieces⟩
    else if c < ' ' then none
    else some ⟨s.tokens, .text (.char c :: pieces)⟩
  | .escape pieces =>
    if c = 'u' then some ⟨s.tokens, .unit pieces 4 0⟩
    else (escaped c).map fun e => ⟨s.tokens, .text (.char e :: pieces)⟩
  | .unit pieces missing code =>
    (Digits.value? c).map fun d =>
      if missing ≤ 1 then ⟨s.tokens, .text (.unit (16 * code + d) :: pieces)⟩
      else ⟨s.tokens, .unit pieces (missing - 1) (16 * code + d)⟩

/-- The tokens, if the text may end here. -/
def finish (s : Scan) : Option (List Token) :=
  match s.scanning with
  | .between => some s.tokens.reverse
  | .number stage written =>
    if stage.complete then some (number stage written :: s.tokens).reverse else none
  | _ => none

def run (s : Scan) (text : List Char) : Option Scan := text.foldlM step s

@[simp] theorem run_nil (s : Scan) : run s [] = some s := rfl

@[simp] theorem run_cons (s : Scan) (c : Char) (text : List Char) :
    run s (c :: text) = (step s c).bind fun s => run s text := rfl

theorem run_append (s : Scan) (u v : List Char) :
    run s (u ++ v) = (run s u).bind fun s => run s v := by
  simp [run, List.foldlM_append]

end Scan

/-- The tokens of a text, if the text consists of tokens and blanks. -/
def tokens? (text : List Char) : Option (List Token) :=
  (Scan.run ⟨[], .between⟩ text).bind Scan.finish

end Json

end TemplateTrace
