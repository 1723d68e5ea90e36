import TemplateTrace.Evaluation
import TemplateTrace.Failure

/-!
Putting the frames together from a stream of events. Frames that have not ended are stacked, the
innermost first; a frame enters the table when it ends, so children stand before their parents.
Outside full mode a bookkeeping frame without kept children is dropped at its end.
-/

namespace TemplateTrace

/-- A frame whose end has not come yet. -/
structure UnfinishedFrame where
  instantiation : Instantiation
  children : Array FrameIndex
  deriving DecidableEq

structure Assembly where
  full : Bool
  frames : Array Frame := #[]
  roots : Array FrameIndex := #[]
  stack : List UnfinishedFrame := []
  /-- Events handled so far, those that failed included. -/
  handled : Nat := 0

namespace Assembly

/-- Dropped outside full mode. -/
def drops (full : Bool) (f : UnfinishedFrame) : Bool :=
  !full && f.instantiation.kind.isBookkeeping && f.children.isEmpty

/-- Hangs a finished frame under the innermost open frame, or among the roots. -/
def attach (a : Assembly) (id : FrameIndex) : Assembly :=
  match a.stack with
  | [] => { a with roots := a.roots.push id }
  | parent :: outer =>
    { a with stack := { parent with children := parent.children.push id } :: outer }

/-- Enters a frame that has ended into the table, unless it is dropped. -/
def enter (a : Assembly) (f : UnfinishedFrame) : Assembly :=
  if drops a.full f then a
  else attach { a with frames := a.frames.push ⟨f.instantiation, f.children⟩ } a.frames.size

def step (a : Assembly) : Event → Except Failure Unit × Assembly
  | .opens i => (.ok (), { a with stack := ⟨i, #[]⟩ :: a.stack, handled := a.handled + 1 })
  | .closes =>
    match a.stack with
    | [] => (.error (.unbalanced (some a.handled) 0), { a with handled := a.handled + 1 })
    | f :: outer => (.ok (), enter { a with stack := outer, handled := a.handled + 1 } f)

/-- Handles the events one after the other, and goes on after failures. -/
def run (a : Assembly) (events : List Event) : Assembly :=
  events.foldl (fun a e => (a.step e).2) a

/-- Handles the events up to the first failure. -/
def feed (a : Assembly) : List Event → Except Failure Assembly
  | [] => .ok a
  | e :: es =>
    match a.step e with
    | (.error failure, _) => .error failure
    | (.ok _, a) => feed a es

def finish (a : Assembly) (rootName result : String) : Except Failure Evaluation :=
  if a.stack.isEmpty then .ok ⟨rootName, result, a.frames, a.roots⟩
  else .error (.unbalanced none a.stack.length)

@[simp] theorem run_nil (a : Assembly) : a.run [] = a := rfl

@[simp] theorem run_cons (a : Assembly) (e : Event) (es : List Event) :
    a.run (e :: es) = (a.step e).2.run es := rfl

theorem run_append (a : Assembly) (es fs : List Event) :
    a.run (es ++ fs) = (a.run es).run fs := by
  simp [run]

end Assembly

/-- The evaluation that a stream of events describes. -/
def Evaluation.ofEvents (full : Bool) (rootName result : String) (events : List Event) :
    Except Failure Evaluation :=
  match Assembly.feed { full } events with
  | .error failure => .error failure
  | .ok a => a.finish rootName result

end TemplateTrace
