import TemplateTrace.Toml.Quoted
import TemplateTrace.Toml.Scalar

/-!
Reading a TOML text as a list of statements, one to a line: a header, or a key with its value.
Arrays and inline tables may stand inside one another up to a fixed depth.
-/

namespace TemplateTrace

namespace Toml

/-- A key has fewer parts than this, and values fewer levels. -/
def limit : Nat := 80

/-! ### Keys -/

def dropBlanks (text : List Char) : List Char := text.dropWhile isBlank

def keyPart? : List Char → Option (String × List Char)
  | c :: rest =>
    if c = '"' || c = '\'' then oneLine? (c :: rest)
    else if isBare c then
      some (String.ofList (c :: rest.takeWhile isBare), rest.dropWhile isBare)
    else none
  | [] => none

/-- The parts of a key, so many at most, and the blanks after it. -/
def key? : Nat → List Char → Option (List String × List Char)
  | 0, _ => none
  | n + 1, text => do
    let (part, rest) ← keyPart? (dropBlanks text)
    match dropBlanks rest with
    | '.' :: rest =>
      let (parts, rest) ← key? n rest
      some (part :: parts, rest)
    | rest => some ([part], rest)

/-! ### Values -/

/-- Drops blanks, line ends and comments. -/
def dropGap (comment : Bool) : List Char → List Char
  | [] => []
  | '\n' :: rest => dropGap false rest
  | '\r' :: '\n' :: rest => dropGap false rest
  | c :: rest =>
    if comment then if isPlain c then dropGap true rest else c :: rest
    else if isBlank c then dropGap false rest
    else if c = '#' then dropGap true rest
    else c :: rest

mutual

/-- Reads a value that may hold so many levels of values; the first number bounds the steps. -/
def value? : Nat → Nat → List Char → Option (Toml × List Char)
  | 0, _, _ => none
  | n + 1, levels, text =>
    match text with
    | '[' :: rest =>
      match levels with
      | 0 => none
      | levels + 1 => items? n levels [] (dropGap false rest)
    | '\x7b' :: rest =>
      match levels with
      | 0 => none
      | levels + 1 =>
        match dropBlanks rest with
        | '\x7d' :: rest => some (.table [], rest)
        | rest => pairs? n levels [] rest
    | c :: _ =>
      if c = '"' || c = '\'' then (quoted? text).map fun (s, rest) => (.string s, rest)
      else scalar? text
    | [] => none

/-- The items of an array, after those already found. -/
def items? : Nat → Nat → List Toml → List Char → Option (Toml × List Char)
  | 0, _, _, _ => none
  | n + 1, levels, found, text =>
    match text with
    | ']' :: rest => some (.array found.reverse, rest)
    | text => do
      let (v, rest) ← value? n levels text
      match dropGap false rest with
      | ',' :: rest => items? n levels (v :: found) (dropGap false rest)
      | ']' :: rest => some (.array (v :: found).reverse, rest)
      | _ => none

def pairs? : Nat → Nat → List (String × Tree) → List Char → Option (Toml × List Char)
  | 0, _, _, _ => none
  | n + 1, levels, found, text => do
    let (key, rest) ← key? (limit - 1) text
    match rest with
    | '=' :: rest =>
      let (v, rest) ← value? n levels (dropBlanks rest)
      let found ← Tree.insert key v .header found
      match dropBlanks rest with
      | ',' :: rest => pairs? n levels found rest
      | '\x7d' :: rest => some (.table (Tree.membersToToml found), rest)
      | _ => none
    | _ => none

end

/-- Reads a value; every step takes a character or opens a level. -/
def read? (text : List Char) : Option (Toml × List Char) :=
  value? (2 * text.length + 2) (limit - 1) text

/-! ### Statements -/

def lineEnd? (text : List Char) : Option (List Char) :=
  let rest := match dropBlanks text with
    | '#' :: rest => rest.dropWhile isPlain
    | rest => rest
  match rest with
  | [] => some []
  | rest => newline rest

def statement? : List Char → Option (Statement × List Char)
  | '[' :: '[' :: rest => do
    match ← key? (limit - 1) rest with
    | (path, ']' :: ']' :: rest) => some (.element path, rest)
    | _ => none
  | '[' :: rest => do
    match ← key? (limit - 1) rest with
    | (path, ']' :: rest) => some (.header path, rest)
    | _ => none
  | text => do
    match ← key? (limit - 1) text with
    | (path, '=' :: rest) =>
      let (v, rest) ← read? (dropBlanks rest)
      some (.pair path v, rest)
    | _ => none

/-- The statements of the lines, as many as the number says at most. -/
def statements? : Nat → List Char → Option (List Statement)
  | 0, _ => none
  | n + 1, text =>
    match dropBlanks text with
    | [] => some []
    | text =>
      match lineEnd? text with
      | some rest => statements? n rest
      | none => do
        let (s, rest) ← statement? text
        let rest ← lineEnd? rest
        let ss ← statements? n rest
        some (s :: ss)

def dropMark : List Char → List Char
  | '\ufeff' :: rest => rest
  | text => text

def ofText? (text : String) : Option Toml := do
  let text := dropMark text.toList
  let statements ← statements? (text.length + 1) text
  ofStatements? statements

end Toml

end TemplateTrace
