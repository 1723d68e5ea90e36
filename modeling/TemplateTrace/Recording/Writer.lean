import TemplateTrace.Recording
import TemplateTrace.Json

/-!
Writing a recorded trace as JSON. Members that are absent are left out; lists, markers and line
numbers are always written.
-/

namespace TemplateTrace

namespace Json

def word (n : UInt32) : Json := .nat n.toNat

def signedWord (n : Int32) : Json := .number (.integer n.toInt)

/-- A member of a structure, if there is something to write. -/
def present {α : Type} (name : String) (write : α → Json) (value : Option α) :
    List (String × Json) :=
  value.toList.map fun x => (name, write x)

end Json

def NameRef.toJson (n : NameRef) : Json :=
  .record (Json.present "name" .string n.literal ++ Json.present "dict_id" .word n.dictionaryId ++
    Json.present "compressed_name" .string n.compressed)

def PlaceRef.toJson (p : PlaceRef) : Json :=
  .record ([("file_id", .word p.fileId)] ++ Json.present "file_name" .string p.fileName ++
    [("line", .word p.line)] ++ Json.present "column" .word p.column)

def Opening.toJson (o : Opening) : Json :=
  .record [("kind", .signedWord o.kind), ("name", o.name.toJson), ("location", o.place.toJson)]

def Entry.toJson (e : Entry) : Json :=
  .record (Json.present "begin" Opening.toJson e.opening ++
    if e.closing then [("end", .record [])] else [])

def DictionaryEntry.toJson (e : DictionaryEntry) : Json :=
  .record [("marked_name", .string e.marked), ("marker_ids", .array (e.markers.map .word))]

def Trace.toJson (t : Trace) : Json :=
  .record [("entries", .array (t.entries.map Entry.toJson)),
    ("names", .array (t.dictionary.toList.map DictionaryEntry.toJson))]

def Collection.toJson (c : Collection) : Json :=
  .record [("traces", .array (c.traces.map Trace.toJson))]

end TemplateTrace
