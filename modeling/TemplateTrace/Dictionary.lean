/-!
Names kept in parts. A dictionary entry is a marked name: each placeholder in it stands for the text
of the entry's next marker, which is the id of another entry. Here are the entries, what an id
directly needs, and how the texts of the markers are put into a marked name.
-/

namespace TemplateTrace

/-- Stands in a marked name for the text of the next marker. -/
def placeholder : Char := '\x00'

structure DictionaryEntry where
  marked : String
  markers : List UInt32
  deriving DecidableEq

abbrev Dictionary := Array DictionaryEntry

/-- Why an id has no name. -/
inductive NameError
  | outOfRange (id : UInt32) (size : Nat)
  | missingMarker (id : UInt32) (placeholder : Nat)
  | cycle (id : UInt32)
  deriving DecidableEq

namespace NameError

def message : NameError → String
  | outOfRange id size => s!"dictionary id {id} is out of range (table has {size} entries)"
  | missingMarker id p => s!"dictionary entry {id} has no marker id for placeholder {p}"
  | cycle id => s!"dictionary entry {id} refers back to itself"

end NameError

namespace DictionaryEntry

def placeholders (e : DictionaryEntry) : Nat := e.marked.toList.count placeholder

/-- Puts the texts into the placeholders, in order. -/
def fill : List Char → List String → List Char
  | [], _ => []
  | c :: cs, [] => c :: fill cs []
  | c :: cs, t :: ts =>
    if c = placeholder then t.toList ++ fill cs ts else c :: fill cs (t :: ts)

end DictionaryEntry

namespace Dictionary

def entry (d : Dictionary) (id : UInt32) : Except NameError DictionaryEntry :=
  match d[id.toNat]? with
  | some e => .ok e
  | none => .error (.outOfRange id d.size)

/-- The markers that the entry's placeholders take, from left to right; markers beyond the last
placeholder are not among them. -/
def needs (d : Dictionary) (id : UInt32) : Except NameError (List UInt32) :=
  match d.entry id with
  | .error e => .error e
  | .ok e =>
    if e.markers.length < e.placeholders then .error (.missingMarker id e.markers.length)
    else .ok (e.markers.take e.placeholders)

variable {d : Dictionary} {id : UInt32} {markers : List UInt32}

theorem needs_eq_ok_iff : d.needs id = .ok markers ↔
    ∃ e, d[id.toNat]? = some e ∧ e.placeholders ≤ e.markers.length ∧
      markers = e.markers.take e.placeholders := by
  unfold needs entry
  cases d[id.toNat]? with
  | none => simp
  | some e =>
    by_cases hlt : e.markers.length < e.placeholders
    · simp [hlt, Nat.not_le.mpr hlt]
    · simp [hlt, Nat.not_lt.mp hlt, eq_comm]

theorem needs_eq_ok (h : d.needs id = .ok markers) :
    ∃ e, d[id.toNat]? = some e ∧ markers = e.markers.take e.placeholders ∧
      markers.length = e.placeholders := by
  obtain ⟨e, he, hle, rfl⟩ := needs_eq_ok_iff.mp h
  exact ⟨e, he, rfl, List.length_take_of_le hle⟩

end Dictionary

end TemplateTrace
