import TemplateTrace.Digits
import TemplateTrace.Toml

/-!
Reading strings in the four ways to quote them. Each reader is given the text after the opening
quotes and returns the string with what follows the closing quotes.
-/

namespace TemplateTrace

namespace Toml

/-- The number of so many hexadecimal digits, after the digits already read. -/
def hexNumber (value : Nat) : Nat → List Char → Option (Nat × List Char)
  | 0, text => some (value, text)
  | _ + 1, [] => none
  | n + 1, c :: text => (Digits.value? c).bind fun d => hexNumber (16 * value + d) n text

/-- The character with the code, which must not be half of a surrogate pair. -/
def ofCode (digits : Nat) (text : List Char) : Option (Char × List Char) :=
  (hexNumber 0 digits text).bind fun (code, rest) =>
    if code.isValidChar then some (Char.ofNat code, rest) else none

def letterEscape : Char → Option Char
  | 'b' => some '\x08'
  | 't' => some '\t'
  | 'n' => some '\n'
  | 'f' => some '\x0c'
  | 'r' => some '\r'
  | '"' => some '"'
  | '\\' => some '\\'
  | _ => none

/-- The character that an escape stands for, after the backslash. -/
def escape : List Char → Option (Char × List Char)
  | [] => none
  | c :: rest =>
    if c = 'u' then ofCode 4 rest
    else if c = 'U' then ofCode 8 rest
    else (letterEscape c).map (·, rest)

theorem hexNumber_length {value n : Nat} {text rest : List Char} {code : Nat}
    (h : hexNumber value n text = some (code, rest)) : rest.length ≤ text.length := by
  induction n generalizing value text with
  | zero => simp [hexNumber] at h; simp [h.2]
  | succ n ih =>
    cases text with
    | nil => simp [hexNumber] at h
    | cons c text =>
      obtain ⟨d, _, h⟩ := Option.bind_eq_some_iff.1 h
      exact Nat.le_succ_of_le (ih h)

theorem ofCode_length {n : Nat} {text rest : List Char} {c : Char}
    (h : ofCode n text = some (c, rest)) : rest.length ≤ text.length := by
  obtain ⟨⟨code, r⟩, hr, h⟩ := Option.bind_eq_some_iff.1 h
  simp only [Option.ite_none_right_eq_some, Option.some.injEq, Prod.mk.injEq] at h
  exact h.2.2 ▸ hexNumber_length hr

theorem escape_length {text rest : List Char} {c : Char} (h : escape text = some (c, rest)) :
    rest.length < text.length := by
  cases text with
  | nil => simp [escape] at h
  | cons d text =>
    simp only [escape] at h
    split at h
    · exact Nat.lt_succ_of_le (ofCode_length h)
    · split at h
      · exact Nat.lt_succ_of_le (ofCode_length h)
      · obtain ⟨e, _, he⟩ := Option.map_eq_some_iff.1 h
        cases he
        exact Nat.lt_succ_self _

/-- The line feed or the pair of carriage return and line feed that the text begins with is
dropped. -/
def newline : List Char → Option (List Char)
  | '\n' :: rest => some rest
  | '\r' :: '\n' :: rest => some rest
  | _ => none

theorem newline_length {text rest : List Char} (h : newline text = some rest) :
    rest.length < text.length := by
  unfold newline at h
  split at h
  · cases h
    simp
  · cases h
    simp only [List.length_cons]
    omega
  · simp at h

def dropLines : List Char → List Char
  | '\r' :: '\n' :: rest => dropLines rest
  | c :: rest => if isBlank c || c = '\n' then dropLines rest else c :: rest
  | [] => []

theorem dropLines_length (text : List Char) : (dropLines text).length ≤ text.length := by
  fun_induction dropLines text <;> simp_all <;> omega

/-- Reads up to a double quote; `found` holds the characters so far, the latest first. -/
def basic (found text : List Char) : Option (String × List Char) :=
  match text with
  | [] => none
  | '"' :: rest => some (String.ofList found.reverse, rest)
  | '\\' :: rest =>
    match h : escape rest with
    | none => none
    | some (c, rest') =>
      have := escape_length h
      basic (c :: found) rest'
  | c :: rest => if isPlain c then basic (c :: found) rest else none
termination_by text.length

def literal (found : List Char) : List Char → Option (String × List Char)
  | [] => none
  | '\'' :: rest => some (String.ofList found.reverse, rest)
  | c :: rest => if isPlain c then literal (c :: found) rest else none

/-- Three quotes close a string of several lines; up to two more before them belong to it. -/
def closeLines (quote : Char) (found rest : List Char) : String × List Char :=
  let own := (rest.take 2).takeWhile (· = quote)
  (String.ofList (own ++ found).reverse, rest.drop own.length)

/-- Reads up to three double quotes. A backslash at the end of a line drops what follows up to the
next character that is no blank; every line end counts as a line feed. -/
def basicLines (found text : List Char) : Option (String × List Char) :=
  match text with
  | [] => none
  | '"' :: '"' :: '"' :: rest => some (closeLines '"' found rest)
  | '\\' :: rest =>
    match hn : newline (rest.dropWhile isBlank) with
    | some rest' =>
      have : (dropLines rest').length < rest.length + 1 :=
        Nat.lt_of_le_of_lt (dropLines_length _)
          (Nat.lt_trans (newline_length hn)
            (Nat.lt_succ_of_le (List.dropWhile_sublist isBlank).length_le))
      basicLines found (dropLines rest')
    | none =>
      match h : escape rest with
      | none => none
      | some (c, rest') =>
        have := escape_length h
        basicLines (c :: found) rest'
  | '\r' :: '\n' :: rest => basicLines ('\n' :: found) rest
  | c :: rest => if isPlain c || c = '\n' then basicLines (c :: found) rest else none
termination_by text.length

def literalLines (found : List Char) : List Char → Option (String × List Char)
  | [] => none
  | '\'' :: '\'' :: '\'' :: rest => some (closeLines '\'' found rest)
  | '\r' :: '\n' :: rest => literalLines ('\n' :: found) rest
  | c :: rest => if isPlain c || c = '\n' then literalLines (c :: found) rest else none

/-- A line end just after the opening quotes does not count. -/
def dropFirstNewline (text : List Char) : List Char := (newline text).getD text

def oneLine? : List Char → Option (String × List Char)
  | '"' :: rest => basic [] rest
  | '\'' :: rest => literal [] rest
  | _ => none

/-- A string, from its opening quotes on. -/
def quoted? : List Char → Option (String × List Char)
  | '"' :: '"' :: '"' :: rest => basicLines [] (dropFirstNewline rest)
  | '\'' :: '\'' :: '\'' :: rest => literalLines [] (dropFirstNewline rest)
  | text => oneLine? text

end Toml

end TemplateTrace
