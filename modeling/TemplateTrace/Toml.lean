/-!
TOML documents, and how one is built from its statements. Tables keep their members in order; floating
point numbers and dates are kept as they are written. A table that is being built remembers how it came
about, because a header may complete a table that other headers imply, and a dotted key may extend a
table made by dotted keys, but nothing may be defined twice.
-/

namespace TemplateTrace

inductive Toml
  | string (value : String)
  | integer (value : Int)
  | float (written : String)
  | boolean (value : Bool)
  | date (written : String)
  | array (items : List Toml)
  | table (members : List (String × Toml))

namespace Toml

/-- Integers are signed and have 64 bits. -/
def isInteger (n : Int) : Bool := Int64.minValue.toInt ≤ n && n ≤ Int64.maxValue.toInt

/-- May stand in a comment or between quotes as it is: no control character but the tab. -/
def isPlain (c : Char) : Bool := c = '\t' || (' ' ≤ c && c ≠ '\x7f')

/-- May stand in a key without quotes. -/
def isBare (c : Char) : Bool := c.isAlphanum || c = '_' || c = '-'

def isBlank (c : Char) : Bool := c = ' ' || c = '\t'

/-! ### Building a document -/

inductive Statement
  | header (path : List String)
  /-- The header of one more table in an array of tables. -/
  | element (path : List String)
  | pair (path : List String) (value : Toml)

/-- How a table came about: by its header, by a header of a table inside it, or by a dotted key. -/
inductive Origin
  | header
  | implied
  | dotted
  deriving DecidableEq

/-- A document that is not finished. In an array of tables only the last table may still grow. -/
inductive Tree
  | leaf (value : Toml)
  | table (origin : Origin) (members : List (String × Tree))
  | tables (earlier : List Toml) (last : List (String × Tree))

abbrev Members := List (String × Tree)

namespace Tree

mutual

def toToml : Tree → Toml
  | .leaf v => v
  | .table _ ms => .table (membersToToml ms)
  | .tables earlier last => .array (earlier ++ [.table (membersToToml last)])

def membersToToml : Members → List (String × Toml)
  | [] => []
  | (key, t) :: ms => (key, t.toToml) :: membersToToml ms

end

/-- Puts a tree in the place of the one that the key has. -/
def replace (key : String) (t : Tree) : Members → Members
  | [] => []
  | (k, u) :: ms => if k = key then (k, t) :: ms else (k, u) :: replace key t ms

/-- Changes the members of the table at the path, and makes the tables on the way that are
missing. A dotted path does not lead into a table that has a header. -/
def within (dotted : Bool) (change : Origin → Members → Option Members) :
    List String → Origin → Members → Option Members
  | [], origin, ms => change origin ms
  | key :: path, _, ms =>
    match ms.lookup key with
    | none => do
      let origin := if dotted then .dotted else .implied
      let inner ← within dotted change path origin []
      some (ms ++ [(key, .table origin inner)])
    | some (.leaf _) => none
    | some (.table origin inner) => do
      if dotted && origin = .header then none
      let inner ← within dotted change path origin inner
      some (replace key (.table origin inner) ms)
    | some (.tables earlier last) => do
      let last ← within dotted change path .header last
      some (replace key (.tables earlier last) ms)

/-- Gives a new key a value. Behind dots the table must have been made by dotted keys. -/
def insert (path : List String) (value : Toml) (origin : Origin) (ms : Members) :
    Option Members :=
  match path.reverse with
  | [] => none
  | key :: outer =>
    within true (fun o ms =>
      if decide (o = .dotted) = outer.isEmpty then none
      else if (ms.lookup key).isSome then none
      else some (ms ++ [(key, .leaf value)])) outer.reverse origin ms

/-- Begins the table of a header, unless it has begun already. -/
def begin (path : List String) (ms : Members) : Option Members :=
  match path.reverse with
  | [] => none
  | key :: outer =>
    within false (fun _ ms =>
      match ms.lookup key with
      | none => some (ms ++ [(key, .table .header [])])
      | some (.table .implied inner) => some (replace key (.table .header inner) ms)
      | some _ => none) outer.reverse .header ms

/-- Begins one more table in an array of tables. -/
def beginElement (path : List String) (ms : Members) : Option Members :=
  match path.reverse with
  | [] => none
  | key :: outer =>
    within false (fun _ ms =>
      match ms.lookup key with
      | none => some (ms ++ [(key, .tables [] [])])
      | some (.tables earlier last) =>
        some (replace key (.tables (earlier ++ [.table (membersToToml last)]) []) ms)
      | some _ => none) outer.reverse .header ms

end Tree

/-- The document so far, and the path of the header that the next keys stand under. -/
structure Building where
  members : Members := []
  path : List String := []

namespace Building

def add (b : Building) : Statement → Option Building
  | .header path => (Tree.begin path b.members).map fun members => { members, path }
  | .element path => (Tree.beginElement path b.members).map fun members => { members, path }
  | .pair path value =>
    (Tree.within false (Tree.insert path value) b.path .header b.members).map
      fun members => { b with members }

end Building

def ofStatements? (statements : List Statement) : Option Toml :=
  (statements.foldlM Building.add {}).map fun b => .table (Tree.membersToToml b.members)

end Toml

end TemplateTrace
