import TemplateTrace.Drawing
import TemplateTrace.Proofs.Growth

/-!
The picture of a forest, drawn by recursion, and the drawing that is made in one pass.

The recursion knows for every node whether trees come after it, and hands the bars of the levels
above down to what is below. The pass only has a count for every open level: of a parent that is
being drawn, the children still to come. Before the forest below a node is drawn, the node's count
is the number of its trees; afterwards it is zero, and the counts above are what they were.

What both have in common is a row for every node, which says what the lines of the node begin with;
the width matters only when the row is cut into lines.
-/

namespace TemplateTrace

open Drawing

/-- The text of a node in the picture. -/
def Instantiation.caption (i : Instantiation) : String := s!"{i.name} ({i.kind.name})"

namespace Forest

/-- The forest with the lead before every line; only the last tree is led to by a corner, and only
below it the level has ended. -/
def picture (width : Nat) (lead : List Char) : Forest → List (List Char)
  | nil => []
  | cons root below rest =>
    wrap lead (if rest = nil then corner else fork) root.caption.toList width ++
      below.picture width (lead ++ if rest = nil then noBar else bar) ++
      rest.picture width lead

/-- The visits to the forest laid out from place `n` on, each node before what is below it. -/
def visits (n depth : Nat) : Forest → List Visit
  | nil => []
  | cons _ below rest =>
    (n + below.size, depth) :: (below.visits n (depth + 1) ++
      rest.visits (n + below.size + 1) depth)

/-- The lines of the forest in pre-order, the trees standing at the depth. -/
def outline (depth : Nat) : Forest → List OutlineNode
  | nil => []
  | cons root below rest =>
    ⟨root.name, some root.kind, depth, below.width⟩ ::
      (below.outline (depth + 1) ++ rest.outline depth)

/-! ### The walk over the table -/

lemma below_within {table : Array Frame} {n depth : Nat} {root : Instantiation}
    {below rest : Forest} (h : (cons root below rest).Within table n) :
    Evaluation.below table (n + below.size, depth) = (below.ids n).map (·, depth + 1) := by
  simp [Evaluation.below, h.2.1]

/-- The walk visits the forest before what is pending after it, and takes one step for a node. -/
lemma walk_ids {table : Array Frame} {n steps : Nat} {f : Forest} (h : f.Within table n)
    (hs : f.size ≤ steps) (depth : Nat) (pending : List Visit) :
    Evaluation.walk table id steps ((f.ids n).map (·, depth) ++ pending) =
      f.visits n depth ++ Evaluation.walk table id (steps - f.size) pending := by
  induction f generalizing n depth steps pending with
  | nil => rfl
  | cons root below rest hb hr =>
    obtain ⟨steps, rfl⟩ : ∃ k, steps = k + 1 := ⟨steps - 1, by simp only [size] at hs; omega⟩
    simp only [size] at hs
    simp only [ids, List.map_cons, List.cons_append, Evaluation.walk_cons, below_within h, id,
      visits]
    rw [hb h.1 (by omega), hr h.2.2 (by omega), List.append_assoc]
    congr 4
    simp only [size]
    omega

lemma filterMap_visits {table : Array Frame} {n depth : Nat} {f : Forest}
    (h : f.Within table n) :
    (f.visits n depth).filterMap (fun v => table[v.1]?.map (OutlineNode.ofFrame · v.2)) =
      f.outline depth := by
  induction f generalizing n depth with
  | nil => rfl
  | cons root below rest hb hr =>
    obtain ⟨hbelow, hroot, hrest⟩ := h
    rw [visits, List.filterMap_cons, List.filterMap_append, hb hbelow, hr hrest, hroot]
    simp [outline, OutlineNode.ofFrame]

end Forest

lemma Evaluation.outline_ofForest (rootName result : String) (f : Forest) :
    (ofForest rootName result f).outline =
      ⟨rootName, none, 0, f.width⟩ :: f.outline 1 := by
  have h := within_ofForest rootName result f
  have hvisits : (ofForest rootName result f).visits id = f.visits 0 1 := by
    have := Forest.walk_ids h (Nat.le_refl _) 1 []
    simpa [Evaluation.visits, ofForest] using this
  rw [Evaluation.outline, hvisits, Forest.filterMap_visits h]
  simp [ofForest]

/-! ### Rows -/

namespace Drawing

/-- A node with what its lines begin with. -/
structure Row where
  node : OutlineNode
  lead : List Char
  connector : List Char

/-- The lines of the node. -/
def Row.lines (width : Nat) (r : Row) : List (List Char) :=
  wrap r.lead r.connector r.node.content.toList width

/-- The rows of the nodes, with the counts that the nodes before them left. -/
def rowsFrom : List Nat → List OutlineNode → List Row
  | _, [] => []
  | counts, node :: nodes =>
    let counts := countDown node.depth counts
    ⟨node, lead node.depth counts, connector node.depth counts⟩ ::
      rowsFrom (counts ++ [node.children]) nodes

lemma drawFrom_eq_rows (width : Nat) (counts : List Nat) (nodes : List OutlineNode) :
    drawFrom width counts nodes = (rowsFrom counts nodes).flatMap (Row.lines width) := by
  induction nodes generalizing counts with
  | nil => rfl
  | cons node nodes ih =>
    rw [drawFrom, rowsFrom, List.flatMap_cons, ih]
    rfl

lemma map_node_rowsFrom (counts : List Nat) (nodes : List OutlineNode) :
    (rowsFrom counts nodes).map (·.node) = nodes := by
  induction nodes generalizing counts with
  | nil => rfl
  | cons node nodes ih => rw [rowsFrom, List.map_cons, ih]

end Drawing

/-- The rows of the outline. -/
def Evaluation.rows (e : Evaluation) : List Row := rowsFrom [] e.outline

namespace Forest

/-- The rows of the forest, the trees standing at the depth behind the lead. -/
def rows (depth : Nat) (lead : List Char) : Forest → List Row
  | nil => []
  | cons root below rest =>
    ⟨⟨root.name, some root.kind, depth, below.width⟩, lead, if rest = nil then corner else fork⟩ ::
      (below.rows (depth + 1) (lead ++ if rest = nil then noBar else bar) ++ rest.rows depth lead)

lemma flatMap_lines_rows (width depth : Nat) (lead : List Char) (f : Forest) :
    (f.rows depth lead).flatMap (Row.lines width) = f.picture width lead := by
  induction f generalizing depth lead with
  | nil => rfl
  | cons root below rest hb hr =>
    rw [rows, picture, List.flatMap_cons, List.flatMap_append, hb, hr, ← List.append_assoc]
    rfl

end Forest

/-! ### The counts of the open levels -/

namespace Drawing

/-- The counts for a node one level below the counts `above`; what deeper levels left is gone. -/
lemma countDown_append (above deeper : List Nat) (count : Nat) :
    countDown (above.length + 1) (above ++ count :: deeper) = above ++ [count - 1] := by
  have hresize : resize (above.length + 1) (above ++ count :: deeper) = above ++ [count] := by
    simp [resize, List.take_append]
  rw [countDown, hresize, Nat.add_sub_cancel, List.modify_eq_take_cons_drop (by simp)]
  simp

lemma lead_append (above : List Nat) (count : Nat) :
    lead (above.length + 1) (above ++ [count]) = above.flatMap level := by
  simp [lead]

lemma connector_append (above : List Nat) (rest : Forest) :
    connector (above.length + 1) (above ++ [rest.width]) =
      if rest = .nil then corner else fork := by
  cases rest <;> simp [connector, Forest.width]

lemma level_width (rest : Forest) : level rest.width = if rest = .nil then noBar else bar := by
  cases rest <;> simp [level, Forest.width]

/-- **The pass gives the rows of the forest** below the levels that the counts stand for, and leaves
their counts as they were. -/
lemma rowsFrom_outline (f : Forest) (above deeper : List Nat) (nodes : List OutlineNode) :
    ∃ deeper', rowsFrom (above ++ f.width :: deeper) (f.outline (above.length + 1) ++ nodes) =
      f.rows (above.length + 1) (above.flatMap level) ++
        rowsFrom (above ++ 0 :: deeper') nodes := by
  induction f generalizing above deeper nodes with
  | nil => exact ⟨deeper, rfl⟩
  | cons root below rest hb hr =>
    -- the node's own count stands behind that of its parent while what is below it is drawn
    obtain ⟨d₁, h₁⟩ := hb (above ++ [rest.width]) [] (rest.outline (above.length + 1) ++ nodes)
    obtain ⟨d₂, h₂⟩ := hr above (0 :: d₁) nodes
    rw [List.length_append, List.length_singleton] at h₁
    rw [List.append_assoc, List.singleton_append] at h₁
    rw [List.append_assoc, List.singleton_append] at h₁
    refine ⟨d₂, ?_⟩
    have hcounts := countDown_append above deeper (rest.width + 1)
    rw [Nat.add_sub_cancel] at hcounts
    calc rowsFrom (above ++ (rest.width + 1) :: deeper)
          ((Forest.cons root below rest).outline (above.length + 1) ++ nodes)
        = ⟨⟨root.name, some root.kind, above.length + 1, below.width⟩, above.flatMap level,
            if rest = .nil then corner else fork⟩ ::
              rowsFrom (above ++ rest.width :: [below.width])
                (below.outline (above.length + 1 + 1) ++
                  (rest.outline (above.length + 1) ++ nodes)) := by
          simp [Forest.outline, rowsFrom, hcounts, lead_append, connector_append]
      _ = (Forest.cons root below rest).rows (above.length + 1) (above.flatMap level) ++
            rowsFrom (above ++ 0 :: d₂) nodes := by
          rw [h₁, h₂]
          simp [Forest.rows, level_width]

/-- **The pass draws the forest** below the levels that the counts stand for, and leaves their
counts as they were. -/
lemma drawFrom_outline (width : Nat) (f : Forest) (above deeper : List Nat)
    (nodes : List OutlineNode) :
    ∃ deeper', drawFrom width (above ++ f.width :: deeper) (f.outline (above.length + 1) ++ nodes) =
      f.picture width (above.flatMap level) ++ drawFrom width (above ++ 0 :: deeper') nodes := by
  obtain ⟨deeper', h⟩ := rowsFrom_outline f above deeper nodes
  refine ⟨deeper', ?_⟩
  rw [drawFrom_eq_rows, h, List.flatMap_append, Forest.flatMap_lines_rows, drawFrom_eq_rows]

end Drawing

namespace Evaluation

lemma drawing_eq_rows (e : Evaluation) (width : Nat) :
    e.drawing width = (e.rows.flatMap (Row.lines width)).map String.ofList := by
  rw [drawing, draw, drawFrom_eq_rows, rows]

lemma rows_ofForest (rootName result : String) (f : Forest) :
    (ofForest rootName result f).rows =
      ⟨⟨rootName, none, 0, f.width⟩, [], []⟩ :: f.rows 1 [] := by
  obtain ⟨deeper, hpass⟩ := rowsFrom_outline f [] [] []
  simp only [List.nil_append, List.append_nil, List.length_nil, Nat.zero_add] at hpass
  rw [rows, outline_ofForest, rowsFrom]
  simp [countDown, resize, lead, connector, hpass, rowsFrom]

lemma drawing_ofForest (rootName result : String) (f : Forest) (width : Nat) :
    (ofForest rootName result f).drawing width =
      (wrap [] [] rootName.toList width ++ f.picture width []).map String.ofList := by
  rw [drawing_eq_rows, rows_ofForest, List.flatMap_cons, Forest.flatMap_lines_rows]
  rfl

end Evaluation

/-- **The drawing is the picture of the tree**: the line of the root, and the forest drawn below. -/
theorem Evaluation.drawing_eq_picture {full : Bool} {rootName result : String} {es : List Event}
    {e : Evaluation} (h : ofEvents full rootName result es = .ok e) (width : Nat) :
    ∃ f, e.forest? = some f ∧ e.drawing width =
      (wrap [] [] e.rootName.toList width ++ f.picture width []).map String.ofList := by
  obtain ⟨f, rfl, rfl⟩ := ofEvents_eq_ok_iff.mp h
  refine ⟨f.trim full, forest?_ofForest rootName result _, ?_⟩
  obtain ⟨deeper, hpass⟩ := drawFrom_outline width (f.trim full) [] [] []
  rw [drawing, outline_ofForest, draw, drawFrom]
  simp only [List.nil_append, List.append_nil, List.length_nil, Nat.zero_add] at hpass
  simp [countDown, resize, lead, connector, OutlineNode.content, hpass, drawFrom, ofForest]

theorem Evaluation.drawing_eq_picture_nested :
    ∃ e f, ofEvents false "root" "int" nestedEvents = .ok e ∧ e.forest? = some f ∧ e.drawing 25 =
      (wrap [] [] e.rootName.toList 25 ++ f.picture 25 []).map String.ofList := by
  obtain ⟨e, he⟩ : ∃ e, ofEvents false "root" "int" nestedEvents = .ok e := ⟨_, rfl⟩
  obtain ⟨f, hf, hd⟩ := drawing_eq_picture he 25
  exact ⟨e, f, he, hf, hd⟩

end TemplateTrace
