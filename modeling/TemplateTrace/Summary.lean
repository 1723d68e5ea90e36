import TemplateTrace.Evaluation
import TemplateTrace.Json

/-!
Counting the frames of an evaluation: all of them, those at the top, those without children, those
of each kind, and how deep they are nested.
-/

namespace TemplateTrace

structure Summary where
  total : Nat
  roots : Nat
  leaves : Nat
  /-- The depth of the deepest frame; the frames at the top have depth 1. -/
  depth : Nat
  /-- How often each kind that occurs does so, in the order of the codes. -/
  byKind : List (Kind × Nat)
  deriving DecidableEq

namespace Summary

/-- The largest depth of a visit; 0 if there is none. -/
def deepest (visits : List Visit) : Nat := visits.foldl (fun depth v => max depth v.2) 0

def count (frames : List Frame) (kind : Kind) : Nat :=
  frames.countP (·.instantiation.kind = kind)

def kinds (frames : List Frame) : List (Kind × Nat) :=
  (Kind.all.map fun k => (k, count frames k)).filter (0 < ·.2)

end Summary

def Evaluation.summary (e : Evaluation) : Summary where
  total := e.frames.size
  roots := e.roots.size
  leaves := e.frames.toList.countP (·.children.isEmpty)
  depth := Summary.deepest (e.visits List.reverse)
  byKind := Summary.kinds e.frames.toList

namespace Summary

def toJson (s : Summary) : Json :=
  .record [("total_frames", .nat s.total), ("root_frames", .nat s.roots),
    ("leaf_frames", .nat s.leaves), ("max_depth", .nat s.depth),
    ("frames_by_kind", .record (s.byKind.map fun k => (k.1.name, .nat k.2)))]

end Summary

namespace Evaluation

/-- The summary in words; the result is left out if it is empty. -/
def report (e : Evaluation) : String :=
  let s := e.summary
  let result := if e.result.isEmpty then "" else s!"\nResult: {e.result}"
  let kinds := s.byKind.map fun k => s!"\n  {k.1.name}: {k.2}"
  s!"Expression: {e.rootName}\nInstantiations: {s.total}\nTop-level: {s.roots}\n" ++
    s!"Leaves: {s.leaves}\nMax depth: {s.depth}" ++ result ++ String.join kinds

end Evaluation

end TemplateTrace
