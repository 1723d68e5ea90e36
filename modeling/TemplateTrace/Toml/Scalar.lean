import TemplateTrace.Digits
import TemplateTrace.Toml

/-!
Values that are written without quotes or brackets: booleans, integers, floating point numbers,
dates and times. Each is decided by all the characters up to the next blank, comma or closing
bracket.
-/

namespace TemplateTrace

namespace Toml

/-- Digits that are grouped by single underscores, with the underscores taken out. -/
def ungroup (base : Nat) : List Char → Option (List Char)
  | [] => none
  | [c] => if Digits.isDigit base c then some [c] else none
  | c :: '_' :: cs => if Digits.isDigit base c then (ungroup base cs).map (c :: ·) else none
  | c :: cs => if Digits.isDigit base c then (ungroup base cs).map (c :: ·) else none

/-- Decimal digits without a superfluous zero at the front. -/
def wholeDigits (text : List Char) : Option (List Char) :=
  match ungroup 10 text with
  | some ('0' :: _ :: _) => none
  | digits => digits

/-- A sign, and what follows it. -/
def sign : List Char → Bool × List Char
  | '+' :: rest => (false, rest)
  | '-' :: rest => (true, rest)
  | text => (false, text)

def unsigned (base : Nat) (text : List Char) : Option Int :=
  (ungroup base text).map fun digits => (Digits.number base digits : Int)

def signed (text : List Char) : Option Int :=
  let (negative, rest) := sign text
  (wholeDigits rest).map fun digits =>
    if negative then -(Digits.number 10 digits : Int) else Digits.number 10 digits

def integer? (text : List Char) : Option Toml := do
  let n ← match text with
    | '0' :: 'x' :: digits => unsigned 16 digits
    | '0' :: 'o' :: digits => unsigned 8 digits
    | '0' :: 'b' :: digits => unsigned 2 digits
    | _ => signed text
  if isInteger n then some (.integer n) else none

/-! ### Floating point numbers -/

/-- The power of ten after the letter e; nothing stands for the power 0. -/
def exponent? : List Char → Option Int
  | [] => some 0
  | c :: rest =>
    if c = 'e' || c = 'E' then
      let (negative, rest) := sign rest
      (ungroup 10 rest).map fun digits =>
        if negative then -(Digits.number 10 digits : Int) else Digits.number 10 digits
    else none

/-- The decimal is too large for any double: it lies beyond the largest one by half a unit or
more. -/
def overflows (digits : List Char) (exponent : Int) : Bool :=
  let n := Digits.number 10 digits
  let order := exponent + (toString n).length
  n ≠ 0 && 308 < order &&
    (310 < order || Nat.pow 2 1024 - Nat.pow 2 970 ≤
      n * Nat.pow 10 exponent.toNat / Nat.pow 10 (-exponent).toNat)

/-- The digits of a decimal and the power of ten they count. -/
def decimal? (text : List Char) : Option (List Char × Int) := do
  let isPart := fun c : Char => c.isDigit || c = '_'
  let whole ← wholeDigits (text.takeWhile isPart)
  match text.dropWhile isPart with
  | [] => none
  | '.' :: rest =>
    let fraction ← ungroup 10 (rest.takeWhile isPart)
    let exponent ← exponent? (rest.dropWhile isPart)
    some (whole ++ fraction, exponent - fraction.length)
  | rest => (exponent? rest).map fun exponent => (whole, exponent)

/-- Beyond the largest double there are only negative numbers. -/
def float? (text : List Char) : Option Toml := do
  let (negative, rest) := sign text
  if rest = "inf".toList || rest = "nan".toList then some (.float (String.ofList text))
  else
    let (digits, exponent) ← decimal? rest
    if overflows digits exponent && !negative then none else some (.float (String.ofList text))

/-! ### Dates and times -/

/-- The number that exactly two digits write, if it is within the bounds. -/
def twoDigits (low high : Nat) (c d : Char) : Option Nat :=
  if c.isDigit && d.isDigit then
    let n := Digits.number 10 [c, d]
    if low ≤ n && n ≤ high then some n else none
  else none

def isLeap (year : Nat) : Bool := year % 4 = 0 && (year % 100 ≠ 0 || year % 400 = 0)

def daysIn (year month : Nat) : Nat :=
  if month = 2 then if isLeap year then 29 else 28
  else if month = 4 || month = 6 || month = 9 || month = 11 then 30
  else 31

/-- A day of the calendar, and what follows it. -/
def day? : List Char → Option (List Char)
  | a :: b :: c :: d :: '-' :: e :: f :: '-' :: g :: h :: rest => do
    let century ← twoDigits 0 99 a b
    let year ← twoDigits 0 99 c d
    let month ← twoDigits 1 12 e f
    let _ ← twoDigits 1 (daysIn (100 * century + year) month) g h
    some rest
  | _ => none

/-- A time of the day, and what follows it. A minute may have a leap second. -/
def time? : List Char → Option (List Char)
  | a :: b :: ':' :: c :: d :: ':' :: e :: f :: rest => do
    let _ ← twoDigits 0 23 a b
    let _ ← twoDigits 0 59 c d
    let _ ← twoDigits 0 60 e f
    match rest with
    | '.' :: g :: rest => if g.isDigit then some (rest.dropWhile (·.isDigit)) else none
    | '.' :: [] => none
    | _ => some rest
  | _ => none

/-- Nothing, or the distance from universal time. -/
def isOffset : List Char → Bool
  | [] | ['Z'] | ['z'] => true
  | [s, a, b, ':', c, d] =>
    (s = '+' || s = '-') && (twoDigits 0 23 a b).isSome && (twoDigits 0 59 c d).isSome
  | _ => false

/-- A time alone has no offset. -/
def isTime (text : List Char) : Bool := time? text = some []

def isMoment (text : List Char) : Bool := (time? text).any isOffset

def isDate (text : List Char) : Bool :=
  match day? text with
  | none => false
  | some [] => true
  | some (c :: rest) => (c = 'T' || c = 't' || c = ' ') && isMoment rest

def date? (text : List Char) : Option Toml :=
  if isDate text || isTime text then some (.date (String.ofList text)) else none

/-! ### The end of a value -/

def endsValue (c : Char) : Bool :=
  isBlank c || c = '\n' || c = '\r' || c = ',' || c = ']' || c = '\x7d' || c = '#'

/-- The characters of a value. A day goes on after a blank if a digit follows. -/
def span (text : List Char) : List Char × List Char :=
  let (word, rest) := text.span (!endsValue ·)
  match rest with
  | ' ' :: c :: rest' =>
    if c.isDigit && day? word = some [] then
      let (time, rest) := (c :: rest').span (!endsValue ·)
      (word ++ ' ' :: time, rest)
    else (word, rest)
  | _ => (word, rest)

def scalar? (text : List Char) : Option (Toml × List Char) := do
  let (word, rest) := span text
  let value ← if word = "true".toList then some (.boolean true)
    else if word = "false".toList then some (.boolean false)
    else (integer? word).or ((float? word).or (date? word))
  some (value, rest)

end Toml

end TemplateTrace
