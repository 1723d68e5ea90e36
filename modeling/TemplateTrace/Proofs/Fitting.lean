import TemplateTrace.Proofs.Tally

/-!
How wide a drawing is.

What a line begins with has two characters for every level above its node; the first line of a node
has its connector in place of the last two. Behind that the text has room up to the width, and in
any case for one character. So a line is longer than the width only where its node stands so deep
that there is no other room.
-/

namespace TemplateTrace

open Drawing

namespace Drawing

variable {first later width : Nat} {text : List Char}

/-- No piece is longer than its room. -/
lemma length_le_of_pieces {piece : List Char} {rest : List (List Char)}
    (h : pieces first later text = piece :: rest) :
    piece.length ≤ first + 1 ∧ ∀ p ∈ rest, p.length ≤ later + 1 := by
  have hfirst : (pieces first later text)[0]? = some piece := by rw [h, List.getElem?_cons_zero]
  refine ⟨(length_of_getElem?_pieces hfirst).1, fun p hp => ?_⟩
  obtain ⟨i, hi⟩ := List.mem_iff_getElem?.mp hp
  have hlater : (pieces first later text)[i + 1]? = some p := by rw [h, List.getElem?_cons_succ, hi]
  exact (length_of_getElem?_pieces hlater).1

@[simp] lemma length_continuation (connector : List Char) :
    (continuation connector).length = connector.length := by
  unfold continuation
  split
  · next h => rw [h]; rfl
  · split
    · next h => rw [h]; rfl
    · exact List.length_replicate

namespace Row

@[simp] lemma length_further (r : Row) :
    r.further.length = r.lead.length + r.connector.length := by
  rw [further, List.length_append, length_continuation]

/-- A line fits the width, or has one character behind what it begins with. -/
lemma length_le_of_mem_lines {r : Row} (hw : 2 ≤ width) {line : List Char}
    (h : line ∈ r.lines width) : line.length ≤ max width (r.further.length + 1) := by
  obtain ⟨piece, rest, hcut, hlines⟩ := r.exists_lines width
  rw [cut, if_neg (by omega)] at hcut
  obtain ⟨hpiece, hrest⟩ := length_le_of_pieces hcut
  rw [hlines, List.mem_cons, List.mem_map] at h
  have hlead := r.length_further
  rcases h with rfl | ⟨p, hp, rfl⟩
  · rw [room] at hpiece
    rw [List.length_append]
    omega
  · have hlater := hrest p hp
    rw [room, ← further] at hlater
    rw [List.length_append]
    omega

end Row

end Drawing

/-- Every level down makes the further lines begin with two characters more. -/
lemma Forest.length_further_of_mem_rows {f : Forest} {depth : Nat} {lead : List Char} {r : Row}
    (h : r ∈ f.rows depth lead) :
    r.further.length + 2 * depth = lead.length + 2 * (r.node.depth + 1) := by
  induction f generalizing depth lead with
  | nil => simp [rows] at h
  | cons root below rest hb hr =>
    rw [rows, List.mem_cons, List.mem_append] at h
    rcases h with rfl | h | h
    · have hconnector : (if rest = nil then corner else fork).length = 2 := by cases rest <;> rfl
      simp only [Row.length_further, hconnector]
      omega
    · have hbar : (if rest = nil then noBar else bar).length = 2 := by cases rest <;> rfl
      have hbelow := hb h
      rw [List.length_append, hbar] at hbelow
      omega
    · exact hr h

namespace Evaluation

section Laid

variable {rootName result : String} {f : Forest}

lemma length_further_ofForest {r : Row} (h : r ∈ (ofForest rootName result f).rows) :
    r.further.length = 2 * r.node.depth := by
  rw [rows_ofForest] at h
  rcases List.mem_cons.mp h with rfl | h
  · rfl
  · have := Forest.length_further_of_mem_rows h
    rw [List.length_nil] at this
    omega

lemma depth_le_summary_ofForest {r : Row} (h : r ∈ (ofForest rootName result f).rows) :
    r.node.depth ≤ (ofForest rootName result f).summary.depth := by
  have hnode : r.node ∈ (ofForest rootName result f).outline := by
    rw [← map_node_rowsFrom [] (ofForest rootName result f).outline]
    exact List.mem_map_of_mem h
  have hmax := depth_summary_ofForest rootName result f
  exact (List.max?_eq_some_iff.mp hmax).2 _ (List.mem_map_of_mem hnode)

end Laid

/-- **The drawing fits the width** where the deepest nodes leave room for it: no line is longer than
the width, or than what a line of the deepest nodes begins with and one character. -/
theorem drawing_fits {full : Bool} {rootName result : String} {es : List Event} {e : Evaluation}
    (h : ofEvents full rootName result es = .ok e) {width : Nat} (hw : 2 ≤ width) :
    (∀ line ∈ e.drawing width, line.length ≤ max width (2 * e.summary.depth + 1)) ∧
      (2 * e.summary.depth < width → ∀ line ∈ e.drawing width, line.length ≤ width) := by
  obtain ⟨f, -, rfl⟩ := ofEvents_eq_ok_iff.mp h
  have hfits : ∀ line ∈ (ofForest rootName result (f.trim full)).drawing width,
      line.length ≤ max width (2 * (ofForest rootName result (f.trim full)).summary.depth + 1) := by
    intro line hline
    rw [drawing_eq_rows, List.mem_map] at hline
    obtain ⟨chars, hchars, rfl⟩ := hline
    obtain ⟨r, hr, hmem⟩ := List.mem_flatMap.mp hchars
    have hlength := Row.length_le_of_mem_lines hw hmem
    have hfurther := length_further_ofForest hr
    have hdepth := depth_le_summary_ofForest hr
    rw [String.length_ofList]
    omega
  refine ⟨hfits, fun hroom line hline => ?_⟩
  have := hfits line hline
  omega

/-- The deepest node of the tree has a line of seven characters if there is room for five. -/
theorem drawing_fits_nested :
    ∃ e, ofEvents false "root" "int" nestedEvents = .ok e ∧ e.summary.depth = 3 ∧
      (∀ line ∈ e.drawing 5, line.length ≤ 7) ∧ (∃ line ∈ e.drawing 5, line.length = 7) ∧
      ∀ line ∈ e.drawing 7, line.length ≤ 7 := by
  obtain ⟨e, he⟩ : ∃ e, ofEvents false "root" "int" nestedEvents = .ok e := ⟨_, rfl⟩
  have hdepth : e.summary.depth = 3 := by
    obtain rfl := Except.ok.inj he
    rfl
  have hdeepest : ∃ line ∈ e.drawing 5, line.length = 7 := by
    obtain rfl := Except.ok.inj he
    decide +kernel
  obtain ⟨hnarrow, -⟩ := drawing_fits he (show 2 ≤ 5 by decide)
  obtain ⟨-, hwide⟩ := drawing_fits he (show 2 ≤ 7 by decide)
  rw [hdepth] at hnarrow hwide
  exact ⟨e, he, hdepth, hnarrow, hdeepest, hwide (by decide)⟩

end Evaluation

end TemplateTrace
