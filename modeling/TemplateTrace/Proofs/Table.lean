import TemplateTrace.Evaluation
import TemplateTrace.Proofs.Forest

/-!
Forests as tables of frames.

A forest is laid out in the order in which its nodes end, so a node stands right after everything
below it, and its children are where their own trees end. A table is read back from its roots by
following the children, which have to stand before their parent. Reading what was laid out gives
the forest.
-/

namespace TemplateTrace

namespace Forest

/-- Where the roots stand if the forest is laid out from place `n` on. -/
def ids (n : Nat) : Forest → List FrameIndex
  | nil => []
  | cons _ below rest => (n + below.size) :: rest.ids (n + below.size + 1)

/-- The frames of the forest, laid out from place `n` on. -/
def frames (n : Nat) : Forest → List Frame
  | nil => []
  | cons root below rest =>
    below.frames n ++ ⟨root, (below.ids n).toArray⟩ :: rest.frames (n + below.size + 1)

@[simp] lemma length_frames (n : Nat) (f : Forest) : (f.frames n).length = f.size := by
  induction f generalizing n with
  | nil => rfl
  | cons root below rest hb hr => simp [frames, size, hb, hr]; omega

@[simp] lemma length_ids (n : Nat) (f : Forest) : (f.ids n).length = f.width := by
  induction f generalizing n with
  | nil => rfl
  | cons root below rest _ hr => simp [ids, width, hr]

lemma map_frames (n : Nat) (f : Forest) :
    (f.frames n).map (·.instantiation) = f.postorder := by
  induction f generalizing n with
  | nil => rfl
  | cons root below rest hb hr => simp [frames, postorder, hb, hr]

/-- The table holds the forest from place `n` on. -/
def Within (table : Array Frame) (n : Nat) : Forest → Prop
  | nil => True
  | cons root below rest => below.Within table n ∧
      table[n + below.size]? = some ⟨root, (below.ids n).toArray⟩ ∧
      rest.Within table (n + below.size + 1)

lemma within_of_toList {table : Array Frame} {n : Nat} {f : Forest} (before after : List Frame)
    (h : table.toList = before ++ f.frames n ++ after) (hn : before.length = n) :
    f.Within table n := by
  induction f generalizing n before after with
  | nil => trivial
  | cons root below rest hb hr =>
    rw [frames] at h
    refine ⟨?_, ?_, ?_⟩
    · exact hb before _ (by simpa using h) hn
    · rw [← Array.getElem?_toList, h]
      simp [← hn]
    · refine hr (before ++ below.frames n ++ [⟨root, (below.ids n).toArray⟩]) after
        (by simpa using h) ?_
      simp [hn, Nat.add_assoc]

end Forest

namespace Evaluation

/-- The forest at the ids, which have to stand before the bound, as children stand before their
parents. -/
def readAt (table : Array Frame) (bound : Nat) : List FrameIndex → Option Forest
  | [] => some .nil
  | id :: ids =>
    if id < bound then do
      let frame ← table[id]?
      let below ← readAt table id frame.children.toList
      let rest ← readAt table bound ids
      return .cons frame.instantiation below rest
    else none
termination_by ids => (bound, ids.length)

def forest? (e : Evaluation) : Option Forest := readAt e.frames e.frames.size e.roots.toList

/-- The evaluation with the forest laid out. -/
def ofForest (rootName result : String) (f : Forest) : Evaluation where
  rootName := rootName
  result := result
  frames := (f.frames 0).toArray
  roots := (f.ids 0).toArray

lemma readAt_ids {table : Array Frame} {n bound : Nat} {f : Forest} (h : f.Within table n)
    (hb : n + f.size ≤ bound) : readAt table bound (f.ids n) = some f := by
  induction f generalizing n bound with
  | nil => rw [Forest.ids, readAt]
  | cons root below rest ihb ihr =>
    obtain ⟨hbelow, hroot, hrest⟩ := h
    rw [Forest.size] at hb
    have hid : n + below.size < bound := by omega
    have hrest' : readAt table bound (rest.ids (n + below.size + 1)) = some rest :=
      ihr hrest (by omega)
    rw [Forest.ids, readAt, if_pos hid, hroot]
    simp [ihb hbelow (Nat.le_refl _), hrest']

lemma within_ofForest (rootName result : String) (f : Forest) :
    f.Within (ofForest rootName result f).frames 0 :=
  Forest.within_of_toList [] [] (by simp [ofForest]) rfl

/-- Reading back what was laid out gives the forest. -/
@[simp] lemma forest?_ofForest (rootName result : String) (f : Forest) :
    (ofForest rootName result f).forest? = some f :=
  readAt_ids (within_ofForest rootName result f) (by simp [ofForest])

end Evaluation

end TemplateTrace
