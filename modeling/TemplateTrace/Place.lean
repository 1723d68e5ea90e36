import Std.Data.TreeMap

/-!
Places in source files. A recording names a file only where its number first occurs, so the names
given so far are kept in a table; a number that was never named stands for the empty path.
-/

namespace TemplateTrace

structure Place where
  file : String
  line : UInt32
  column : Option UInt32
  deriving DecidableEq

namespace Place

def text (p : Place) : String :=
  match p.column with
  | some column => s!"{p.file}:{p.line}:{column}"
  | none => s!"{p.file}:{p.line}"

end Place

/-- The file names given so far, by file number. -/
structure FileTable where
  names : Std.TreeMap UInt32 String := ∅

namespace FileTable

def knows (t : FileTable) (id : UInt32) : Bool := id ∈ t.names

def size (t : FileTable) : Nat := t.names.size

/-- The name last given for the number. -/
def name (t : FileTable) (id : UInt32) : String := t.names.getD id ""

def record (t : FileTable) (id : UInt32) (name : String) : FileTable := ⟨t.names.insert id name⟩

/-- The place, and the table with the file's name if one is given here. -/
def locate (t : FileTable) (id : UInt32) (given : Option String) (line : UInt32)
    (column : Option UInt32) : Place × FileTable :=
  match given with
  | some name => (⟨name, line, column⟩, t.record id name)
  | none => (⟨t.name id, line, column⟩, t)

/-- A file that is named anew is counted once. -/
theorem size_record (t : FileTable) (id : UInt32) (name : String) :
    (t.record id name).size = if t.knows id then t.size else t.size + 1 := by
  simp [size, record, knows, Std.TreeMap.size_insert]

end FileTable

end TemplateTrace
