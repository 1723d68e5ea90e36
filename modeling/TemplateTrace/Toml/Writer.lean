import TemplateTrace.Digits
import TemplateTrace.Toml

/-!
Writing strings in TOML. The plainest way to quote is taken in which the string can stand as it is;
only a string that no way of quoting can hold as it is gets escapes.
-/

namespace TemplateTrace

namespace Toml

/-- The longest run of a character in a text, where the text goes on from a run of `run`. -/
def longestRun (c : Char) (run : Nat) : List Char → Nat
  | [] => run
  | d :: text => if d = c then longestRun c (run + 1) text else max run (longestRun c 0 text)

/-- A control character that no way of quoting can hold as it is. -/
def isControl (c : Char) : Bool := !isPlain c && c ≠ '\n'

/-- The ways to quote a string: with double or single quotes, on one line or on several. -/
inductive Quoting
  | basic
  | literal
  | basicLines
  | literalLines
  deriving DecidableEq

namespace Quoting

def choose (text : List Char) : Quoting :=
  let control := text.any isControl
  let newline := text.contains '\n'
  let backslash := text.contains '\\'
  let double := longestRun '"' 0 text
  let single := longestRun '\'' 0 text
  if !control && !newline && !backslash && double = 0 then basic
  else if !control && !newline && single = 0 then literal
  else if !control && !backslash && double ≤ 2 then basicLines
  else if !control && single ≤ 2 then literalLines
  else if newline then basicLines
  else basic

def quotes : Quoting → List Char
  | basic => ['"']
  | literal => ['\'']
  | basicLines => ['"', '"', '"']
  | literalLines => ['\'', '\'', '\'']

end Quoting

/-- A character between double quotes, after `run` quotes; the first `free` need no escape. -/
def escapeChar (lines : Bool) (free run : Nat) (c : Char) : List Char :=
  match c with
  | '"' => if run < free then ['"'] else ['\\', '"']
  | '\\' => ['\\', '\\']
  | '\n' => if lines then ['\n'] else ['\\', 'n']
  | '\x08' => ['\\', 'b']
  | '\t' => ['\\', 't']
  | '\x0c' => ['\\', 'f']
  | '\r' => ['\\', 'r']
  | _ =>
    if isPlain c then [c]
    else ['\\', 'u', '0', '0', Digits.upper (c.toNat / 16), Digits.upper (c.toNat % 16)]

def escapeText (lines : Bool) (free run : Nat) : List Char → List Char
  | [] => []
  | c :: text =>
    let run' := if c = '"' then if run < free then run + 1 else 0 else 0
    escapeChar lines free run c ++ escapeText lines free run' text

def quote (text : List Char) : List Char :=
  let quoting := Quoting.choose text
  let inner := match quoting with
    | .basic => escapeText false 0 0 text
    | .basicLines => escapeText true 2 0 text
    | .literal | .literalLines => text
  let first := if quoting = .basicLines || quoting = .literalLines then
      if text.contains '\n' then ['\n'] else []
    else []
  quoting.quotes ++ first ++ inner ++ quoting.quotes

end Toml

end TemplateTrace
