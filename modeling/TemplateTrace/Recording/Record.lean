import TemplateTrace.Json

/-!
Reading structures from JSON. A structure has named members in a fixed order and is written as an
object, in which other members do not count, or as an array that holds a first part of the members.
-/

namespace TemplateTrace

/-- The members of a structure that are written, by name. -/
structure Record where
  members : List (String × Json)

namespace Record

def find (r : Record) (name : String) : Option Json := r.members.lookup name

/-- The members of an object, if every key is a text. -/
def keyed : List (Json.Text × Json) → Option (List (String × Json))
  | [] => some []
  | (some key, v) :: ms => (keyed ms).map ((key, v) :: ·)
  | (none, _) :: _ => none

def distinct (members : List (String × Json)) : Bool :=
  match members with
  | [] => true
  | (key, _) :: ms => !ms.any (·.1 = key) && distinct ms

/-- Reads the structure whose members are named in order. -/
def ofJson? (names : List String) : Json → Option Record
  | .array items =>
    if items.length ≤ names.length then some ⟨names.zip items⟩ else none
  | .object members => do
    let known := (← keyed members).filter fun m => names.contains m.1
    if distinct known then some ⟨known⟩ else none
  | _ => none

def required {α : Type} (r : Record) (name : String) (read : Json → Option α) : Option α :=
  (r.find name).bind read

/-- A member that may be missing. -/
def withDefault {α : Type} (r : Record) (name : String) (read : Json → Option α) (default : α) :
    Option α :=
  match r.find name with
  | none => some default
  | some v => read v

/-- A member that may be missing or null. -/
def optional {α : Type} (r : Record) (name : String) (read : Json → Option α) :
    Option (Option α) :=
  match r.find name with
  | none | some .null => some none
  | some v => (read v).map some

end Record

namespace Json

def text? : Json → Option String
  | .text t => t
  | _ => none

def word? : Json → Option UInt32
  | .number (.integer n) => if 0 ≤ n ∧ n < UInt32.size then some (.ofNat n.toNat) else none
  | _ => none

def signedWord? : Json → Option Int32
  | .number (.integer n) =>
    if Int32.minValue.toInt ≤ n ∧ n ≤ Int32.maxValue.toInt then some (.ofInt n) else none
  | _ => none

def list? {α : Type} (read : Json → Option α) : Json → Option (List α)
  | .array items => items.mapM read
  | _ => none

end Json

end TemplateTrace
