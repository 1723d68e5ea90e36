import TemplateTrace.Dictionary
import TemplateTrace.Failure

/-!
A trace as the compiler records it: entries that begin or end an instantiation, and the dictionary
that names are spelled with. Nothing is checked here; what an entry lacks or has too much of is
found when the entry is decoded.
-/

namespace TemplateTrace

/-- The ways to name what is instantiated; the first that is present counts. -/
structure NameRef where
  literal : Option String := none
  dictionaryId : Option UInt32 := none
  compressed : Option String := none
  deriving DecidableEq

/-- A place whose file is given by number, and by name where the number is new. -/
structure PlaceRef where
  fileId : UInt32
  fileName : Option String := none
  line : UInt32 := 0
  column : Option UInt32 := none
  deriving DecidableEq

structure Opening where
  kind : Int32
  name : NameRef
  place : PlaceRef
  deriving DecidableEq

structure Entry where
  opening : Option Opening := none
  closing : Bool := false
  deriving DecidableEq

structure Trace where
  entries : List Entry := []
  dictionary : Dictionary := #[]
  deriving DecidableEq

/-- The contents of a trace file. -/
structure Collection where
  traces : List Trace := []
  deriving DecidableEq

/-- The one trace that a trace file should hold. -/
def Collection.single (c : Collection) : Except Failure Trace :=
  match c.traces with
  | [t] => .ok t
  | ts => .error (.layout
    s!"expected exactly one trace in the trace file, found {ts.length}")

end TemplateTrace
