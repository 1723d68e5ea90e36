import TemplateTrace.Context
import TemplateTrace.Evaluation.Assembly
import TemplateTrace.Json
import TemplateTrace.Recording.Reader

/-!
The evaluation that the text of a trace file describes, and an evaluation as the text of a JSON document
that leaves nothing out.
-/

namespace TemplateTrace

/-- How a trace is read and shown. -/
structure View where
  strict : Bool
  full : Bool
  rootName : String
  result : String
  deriving DecidableEq

/-- A column that is not known is written as -1, which is no column. -/
def Place.toJson (p : Place) : Json :=
  .record [("file", .string p.file), ("line", .nat p.line.toNat),
    ("column", .number (.integer (p.column.elim (-1) fun c => c.toNat)))]

def Frame.toJson (f : Frame) : Json :=
  .record [("name", .string f.instantiation.name), ("kind", .string f.instantiation.kind.name),
    ("location", f.instantiation.place.toJson), ("children", .array (f.children.toList.map .nat))]

namespace Evaluation

def ofTrace (v : View) (t : Trace) : Except Failure Evaluation :=
  match t.events v.strict with
  | .error failure => .error failure
  | .ok events => ofEvents v.full v.rootName v.result events

/-- Reads the text of a trace file that holds one trace. -/
def ofText (v : View) (text : String) : Except Failure Evaluation := do
  let collection ← Collection.ofText text
  let trace ← collection.single
  ofTrace v trace

def toJson (e : Evaluation) : Json :=
  .record [("root_name", .string e.rootName), ("evaluation_result", .string e.result),
    ("frames", .array (e.frames.toList.map Frame.toJson)),
    ("roots", .array (e.roots.toList.map .nat))]

def dump (e : Evaluation) : String := e.toJson.pretty

end Evaluation

end TemplateTrace
