import TemplateTrace.Kind
import TemplateTrace.Place

/-!
The instantiations of one evaluation, as what happens and as a table. In a trace an instantiation
begins, or the one begun last ends. The table has frames that point to one another; they can be visited
from the top down. The evaluated expression is no instantiation: its name labels the root that the
top-level frames hang under.

The outline is the tree as a list of lines in pre-order. A line knows how deep it stands and how many
lines hang directly below it, which is all that a drawing needs.
-/

namespace TemplateTrace

structure Instantiation where
  kind : Kind
  name : String
  place : Place
  deriving DecidableEq

inductive Event
  | opens (instantiation : Instantiation)
  | closes
  deriving DecidableEq

/-- The position of a frame in the table. -/
abbrev FrameIndex := Nat

structure Frame where
  instantiation : Instantiation
  children : Array FrameIndex
  deriving DecidableEq

structure Evaluation where
  rootName : String
  result : String
  frames : Array Frame
  roots : Array FrameIndex
  deriving DecidableEq

/-- A frame, and the depth that it stands at. -/
abbrev Visit := FrameIndex × Nat

namespace Evaluation

def size (e : Evaluation) : Nat := e.frames.size

def isEmpty (e : Evaluation) : Bool := e.frames.isEmpty

/-! ### Visits -/

/-- The frames directly below a frame. -/
def below (frames : Array Frame) (v : Visit) : List Visit :=
  frames[v.1]?.elim [] fun f => f.children.toList.map (·, v.2 + 1)

/-- Visits the pending frames and those below them, as many as the number says at most. -/
def walk (frames : Array Frame) (order : List Visit → List Visit) : Nat → List Visit → List Visit
  | 0, _ => []
  | _, [] => []
  | n + 1, v :: pending => v :: walk frames order n (order (below frames v) ++ pending)

/-- The visits to all frames; those at the top have depth 1. -/
def visits (e : Evaluation) (order : List Visit → List Visit) : List Visit :=
  walk e.frames order e.frames.size (order (e.roots.toList.map (·, 1)))

@[simp] theorem walk_zero (frames : Array Frame) (order : List Visit → List Visit)
    (pending : List Visit) : walk frames order 0 pending = [] := rfl

@[simp] theorem walk_nil (frames : Array Frame) (order : List Visit → List Visit) (n : Nat) :
    walk frames order n [] = [] := by cases n <;> rfl

@[simp] theorem walk_cons (frames : Array Frame) (order : List Visit → List Visit) (n : Nat)
    (v : Visit) (pending : List Visit) :
    walk frames order (n + 1) (v :: pending) =
      v :: walk frames order n (order (below frames v) ++ pending) := rfl

end Evaluation

/-! ### The outline -/

structure OutlineNode where
  name : String
  /-- Absent for the root that stands for the evaluated expression. -/
  kind : Option Kind
  depth : Nat
  children : Nat
  deriving DecidableEq

namespace OutlineNode

/-- The text of the line, without the branches. -/
def content (n : OutlineNode) : String :=
  match n.kind with
  | some kind => s!"{n.name} ({kind.name})"
  | none => n.name

def ofFrame (f : Frame) (depth : Nat) : OutlineNode :=
  ⟨f.instantiation.name, some f.instantiation.kind, depth, f.children.size⟩

end OutlineNode

namespace Evaluation

/-- The root, and below it every frame before the frames that it holds. -/
def outline (e : Evaluation) : List OutlineNode :=
  ⟨e.rootName, none, 0, e.roots.size⟩ ::
    (e.visits id).filterMap fun v => e.frames[v.1]?.map (OutlineNode.ofFrame · v.2)

end Evaluation

end TemplateTrace
