import TemplateTrace.Drawing
import TemplateTrace.Evaluation.Assembly
import TemplateTrace.Summary
import Mathlib.Tactic.Common

/-!
Instantiations that are told in another way.

Putting the frames together asks of an instantiation only its kind, and only where a frame ends. So
if every instantiation is told in another way that keeps its kind, the same frames are kept, at the
same places and below the same parents. The summary is then the same, and so is the outline if the
names are kept too.
-/

namespace TemplateTrace

/-- The event with its instantiation told in another way. -/
def Event.relabel (g : Instantiation → Instantiation) : Event → Event
  | opens i => opens (g i)
  | closes => closes

def Frame.relabel (g : Instantiation → Instantiation) (f : Frame) : Frame :=
  { f with instantiation := g f.instantiation }

def UnfinishedFrame.relabel (g : Instantiation → Instantiation) (f : UnfinishedFrame) :
    UnfinishedFrame :=
  { f with instantiation := g f.instantiation }

def Assembly.relabel (g : Instantiation → Instantiation) (a : Assembly) : Assembly :=
  { a with frames := a.frames.map (·.relabel g), stack := a.stack.map (·.relabel g) }

def Evaluation.relabel (g : Instantiation → Instantiation) (e : Evaluation) : Evaluation :=
  { e with frames := e.frames.map (·.relabel g) }

variable {g : Instantiation → Instantiation}

/-! ### Putting the frames together -/

namespace Assembly

lemma attach_relabel (a : Assembly) (id : FrameIndex) :
    (a.relabel g).attach id = (a.attach id).relabel g := by
  obtain ⟨full, frames, roots, _ | ⟨parent, outer⟩, handled⟩ := a <;> rfl

lemma enter_relabel (hkind : ∀ i, (g i).kind = i.kind) (a : Assembly) (f : UnfinishedFrame) :
    (a.relabel g).enter (f.relabel g) = (a.enter f).relabel g := by
  have hdrops : drops a.full (f.relabel g) = drops a.full f := by
    simp only [drops, UnfinishedFrame.relabel, hkind]
  have hfull : (a.relabel g).full = a.full := rfl
  have hsize : (a.relabel g).frames.size = a.frames.size := Array.size_map
  unfold enter
  rw [hfull, hdrops, hsize]
  by_cases hd : drops a.full f = true
  · rw [if_pos hd, if_pos hd]
  · rw [if_neg hd, if_neg hd, ← attach_relabel]
    congr 1
    simp [relabel, Frame.relabel, UnfinishedFrame.relabel]

/-- **A step does with the other instantiation what it does with the one.** -/
lemma step_relabel (hkind : ∀ i, (g i).kind = i.kind) (a : Assembly) (e : Event) :
    (a.relabel g).step (e.relabel g) = ((a.step e).1, (a.step e).2.relabel g) := by
  cases e with
  | opens i => rfl
  | closes =>
    obtain ⟨full, frames, roots, _ | ⟨f, outer⟩, handled⟩ := a
    · rfl
    · have henter := enter_relabel hkind ⟨full, frames, roots, outer, handled + 1⟩ f
      exact congrArg (Except.ok (), ·) henter

lemma feed_relabel (hkind : ∀ i, (g i).kind = i.kind) (a : Assembly) (es : List Event) :
    (a.relabel g).feed (es.map (·.relabel g)) = (a.feed es).map (·.relabel g) := by
  induction es generalizing a with
  | nil => rfl
  | cons e es ih =>
    rw [List.map_cons, feed, feed, step_relabel hkind]
    rcases a.step e with ⟨failure | _, b⟩
    · rfl
    · exact ih b

lemma finish_relabel (a : Assembly) (rootName result : String) :
    (a.relabel g).finish rootName result = (a.finish rootName result).map (·.relabel g) := by
  obtain ⟨full, frames, roots, _ | ⟨f, outer⟩, handled⟩ := a
  · rfl
  · simp [finish, relabel, Except.map]

end Assembly

namespace Evaluation

/-- **Frames are put together by their kinds.** The events with other instantiations of the same
kinds fail where the events fail, and give the same evaluation but for the instantiations. -/
theorem ofEvents_relabel (hkind : ∀ i, (g i).kind = i.kind) (full : Bool)
    (rootName result : String) (es : List Event) :
    ofEvents full rootName result (es.map (·.relabel g)) =
      (ofEvents full rootName result es).map (·.relabel g) := by
  have hfeed := Assembly.feed_relabel hkind { full } es
  have hstart : Assembly.relabel g { full } = { full } := by simp [Assembly.relabel]
  rw [hstart] at hfeed
  unfold ofEvents
  rw [hfeed]
  cases Assembly.feed { full } es with
  | error failure => rfl
  | ok a => exact a.finish_relabel rootName result

/-! ### Showing the evaluation -/

lemma below_relabel (frames : Array Frame) (v : Visit) :
    below (frames.map (·.relabel g)) v = below frames v := by
  unfold below
  rw [Array.getElem?_map]
  cases frames[v.1]? <;> rfl

lemma walk_relabel (frames : Array Frame) (order : List Visit → List Visit) (n : Nat)
    (pending : List Visit) :
    walk (frames.map (·.relabel g)) order n pending = walk frames order n pending := by
  induction n generalizing pending with
  | zero => rfl
  | succ n ih =>
    cases pending with
    | nil => rfl
    | cons v pending => rw [walk_cons, walk_cons, below_relabel, ih]

lemma visits_relabel (e : Evaluation) (order : List Visit → List Visit) :
    (e.relabel g).visits order = e.visits order := by
  have hsize : (e.relabel g).frames.size = e.frames.size := Array.size_map
  rw [visits, hsize]
  exact walk_relabel _ _ _ _

/-- The outline tells the kinds and the names. -/
lemma outline_relabel (hkind : ∀ i, (g i).kind = i.kind) (hname : ∀ i, (g i).name = i.name)
    (e : Evaluation) : (e.relabel g).outline = e.outline := by
  have hnode (f : Frame) (depth : Nat) :
      OutlineNode.ofFrame (f.relabel g) depth = OutlineNode.ofFrame f depth := by
    simp only [OutlineNode.ofFrame, Frame.relabel, hkind, hname]
  rw [outline, outline, visits_relabel]
  congr 2
  funext v
  have hframe : (e.relabel g).frames[v.1]? = e.frames[v.1]?.map (·.relabel g) := Array.getElem?_map
  rw [hframe, Option.map_map]
  congr 1
  funext f
  exact hnode f v.2

/-- The drawing tells no more than the outline. -/
lemma drawing_relabel (hkind : ∀ i, (g i).kind = i.kind) (hname : ∀ i, (g i).name = i.name)
    (e : Evaluation) (width : Nat) : (e.relabel g).drawing width = e.drawing width := by
  rw [drawing, drawing, outline_relabel hkind hname]

/-- The summary tells the kinds alone. -/
lemma summary_relabel (hkind : ∀ i, (g i).kind = i.kind) (e : Evaluation) :
    (e.relabel g).summary = e.summary := by
  have hframes : (e.relabel g).frames.toList = e.frames.toList.map (·.relabel g) :=
    Array.toList_map
  have hleaves : (e.relabel g).frames.toList.countP (·.children.isEmpty) =
      e.frames.toList.countP (·.children.isEmpty) := by
    rw [hframes, List.countP_map]
    rfl
  have hcount : Summary.count (e.relabel g).frames.toList = Summary.count e.frames.toList := by
    funext k
    simp only [hframes, Summary.count, List.countP_map, Function.comp_def, Frame.relabel, hkind]
  have hkinds : Summary.kinds (e.relabel g).frames.toList = Summary.kinds e.frames.toList := by
    rw [Summary.kinds, hcount, Summary.kinds]
  have hsize : (e.relabel g).frames.size = e.frames.size := Array.size_map
  have hroots : (e.relabel g).roots = e.roots := rfl
  rw [summary, visits_relabel, hleaves, hkinds, hsize, hroots, summary]

end Evaluation

end TemplateTrace
