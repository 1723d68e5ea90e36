import TemplateTrace.Proofs.Pieces

/-!
The drawing that is cut to a width and the drawing that is not cut.

Both have the same rows, so the lines of a node can be put together to its line in the other
drawing. A line that fits is not cut; a line that does not fit is cut, also where its lead alone is
too long, as there is room for one character of the text only and the connector has two. What is cut
makes the drawing longer, so the drawings are the same only if every line fits.
-/

namespace TemplateTrace

open Drawing

namespace Drawing.Row

/-- The line of the node if nothing is cut. -/
def line (r : Row) : List Char := r.lead ++ r.connector ++ r.node.content.toList

lemma lines_zero (r : Row) : r.lines 0 = [r.line] := by
  rw [lines, wrap, if_pos (Nat.zero_le 1), line]

/-- The node stands at the left, or is led to by a connector. -/
def Led (r : Row) : Prop := r.lead = [] ∨ 2 ≤ r.connector.length

variable {r : Row} {width : Nat}

lemma length_lines_eq_one_iff (hr : r.Led) (hw : 2 ≤ width) :
    (r.lines width).length = 1 ↔ r.line.length ≤ width := by
  obtain ⟨piece, rest, hcut, hlines⟩ := r.exists_lines width
  have hlength : (r.lines width).length =
      (cut r.lead r.connector r.node.content.toList width).length := by
    simp [hlines, hcut]
  have hled : r.lead.length = 0 ∨ 2 ≤ r.connector.length :=
    hr.imp_left List.length_eq_zero_iff.mpr
  rw [hlength, cut, if_neg (by omega), length_pieces_eq_one_iff]
  simp only [room, line, List.length_append]
  omega

lemma lines_of_length_le (hr : r.Led) (hw : 2 ≤ width) (h : r.line.length ≤ width) :
    r.lines width = [r.line] := by
  obtain ⟨piece, rest, hcut, hlines⟩ := r.exists_lines width
  have hone := (length_lines_eq_one_iff hr hw).mpr h
  have hrest : rest = [] := by simpa [hlines] using hone
  subst hrest
  have hpiece : piece = r.connector ++ r.node.content.toList := by
    rw [← flatten_cut r.lead r.connector r.node.content.toList width, hcut,
      List.flatten_singleton]
  rw [hlines, hpiece, line, List.append_assoc, List.map_nil]

end Drawing.Row

section Parts

variable {α β : Type} {f : α → List β} {xs : List α}

lemma length_le_length_flatMap (hf : ∀ x ∈ xs, f x ≠ []) : xs.length ≤ (xs.flatMap f).length := by
  induction xs with
  | nil => exact Nat.le_refl 0
  | cons x xs ih =>
    obtain ⟨hx, hxs⟩ := List.forall_mem_cons.mp hf
    have := List.length_pos_iff.mpr hx
    have := ih hxs
    simp only [List.flatMap_cons, List.length_append, List.length_cons]
    omega

/-- If no part is empty, and all parts together are as long as there are parts, every part has
length one. -/
lemma length_eq_one_of_flatMap (hf : ∀ x ∈ xs, f x ≠ []) (h : (xs.flatMap f).length = xs.length) :
    ∀ x ∈ xs, (f x).length = 1 := by
  induction xs with
  | nil => simp
  | cons x xs ih =>
    obtain ⟨hx, hxs⟩ := List.forall_mem_cons.mp hf
    have := List.length_pos_iff.mpr hx
    have := length_le_length_flatMap hxs
    simp only [List.flatMap_cons, List.length_append, List.length_cons] at h
    exact List.forall_mem_cons.mpr ⟨by omega, ih hxs (by omega)⟩

end Parts

namespace Evaluation

lemma drawing_zero (e : Evaluation) :
    e.drawing 0 = e.rows.map fun r => String.ofList r.line := by
  rw [drawing_eq_rows, List.map_flatMap, ← List.flatMap_pure_eq_map]
  exact List.flatMap_congr fun r _ => by rw [Row.lines_zero]; rfl

/-- A drawing that is not cut has one line for every node. -/
lemma length_drawing_zero (e : Evaluation) : (e.drawing 0).length = e.outline.length := by
  rw [drawing_zero, List.length_map, rows, ← List.length_map, map_node_rowsFrom]

lemma led_of_mem_rows {full : Bool} {rootName result : String} {es : List Event} {e : Evaluation}
    (h : ofEvents full rootName result es = .ok e) {r : Row} (hr : r ∈ e.rows) : r.Led := by
  obtain ⟨f, -, rfl⟩ := ofEvents_eq_ok_iff.mp h
  rw [rows_ofForest] at hr
  rcases List.mem_cons.mp hr with rfl | hr
  · exact .inl rfl
  · exact .inr (Forest.of_mem_rows hr).2.2.ge

/-- Cutting changes nothing if and only if every line fits. -/
lemma drawing_eq_drawing_zero_iff {full : Bool} {rootName result : String} {es : List Event}
    {e : Evaluation} (h : ofEvents full rootName result es = .ok e) {width : Nat}
    (hw : 2 ≤ width) :
    e.drawing width = e.drawing 0 ↔ ∀ line ∈ e.drawing 0, line.length ≤ width := by
  have hfits : (∀ line ∈ e.drawing 0, line.length ≤ width) ↔
      ∀ r ∈ e.rows, r.line.length ≤ width := by
    simp [drawing_zero]
  rw [hfits]
  constructor
  · intro heq r hr
    have hlength := congrArg List.length heq
    rw [drawing_zero, drawing_eq_rows, List.length_map, List.length_map] at hlength
    have hone := length_eq_one_of_flatMap (fun r _ => r.lines_ne_nil width) hlength r hr
    exact (Row.length_lines_eq_one_iff (led_of_mem_rows h hr) hw).mp hone
  · intro hall
    rw [drawing_eq_rows, drawing_eq_rows]
    congr 1
    refine List.flatMap_congr fun r hr => ?_
    rw [Row.lines_of_length_le (led_of_mem_rows h hr) hw (hall r hr), Row.lines_zero]

/-- **The cut drawing and the one that is not cut agree.** The lines of a node carry the pieces of
its line behind the lead and, where the line goes on, behind what stands for the connector; and
the drawings are the same if and only if every line fits the width. -/
theorem drawing_wrapped {full : Bool} {rootName result : String} {es : List Event} {e : Evaluation}
    (h : ofEvents full rootName result es = .ok e) {width : Nat} (hw : 2 ≤ width) :
    e.rows.map (·.node) = e.outline ∧
      e.drawing width = (e.rows.map fun r => (r.lines width).map String.ofList).flatten ∧
      e.drawing 0 = e.rows.map (fun r => String.ofList r.line) ∧
      (∀ r ∈ e.rows, ∃ piece rest,
        r.lines width =
          (r.lead ++ piece) :: rest.map (fun p => r.lead ++ continuation r.connector ++ p) ∧
        r.lead ++ (piece :: rest).flatten = r.line) ∧
      (e.drawing width = e.drawing 0 ↔ ∀ line ∈ e.drawing 0, line.length ≤ width) := by
  refine ⟨map_node_rowsFrom _ _, ?_, drawing_zero e, fun r _ => ?_,
    drawing_eq_drawing_zero_iff h hw⟩
  · rw [drawing_eq_rows, List.map_flatMap, List.flatMap]
  · obtain ⟨piece, rest, hcut, hlines⟩ := r.exists_lines width
    refine ⟨piece, rest, hlines, ?_⟩
    rw [← hcut, flatten_cut, Row.line, List.append_assoc]

/-- The longest line has 46 characters. -/
theorem drawing_wrapped_nested :
    ∃ e, ofEvents false "root" "int" nestedEvents = .ok e ∧ e.drawing 46 = e.drawing 0 ∧
      e.drawing 45 ≠ e.drawing 0 := by
  obtain ⟨e, he⟩ : ∃ e, ofEvents false "root" "int" nestedEvents = .ok e := ⟨_, rfl⟩
  have hfits : ∀ line ∈ e.drawing 0, line.length ≤ 46 := by
    obtain rfl := Except.ok.inj he
    decide +kernel
  have hlong : ¬ ∀ line ∈ e.drawing 0, line.length ≤ 45 := by
    obtain rfl := Except.ok.inj he
    decide +kernel
  exact ⟨e, he, (drawing_wrapped he (by decide)).2.2.2.2.mpr hfits,
    fun h => hlong ((drawing_wrapped he (by decide)).2.2.2.2.mp h)⟩

end Evaluation

end TemplateTrace
