import TemplateTrace.Proofs.Picture

/-!
The pieces that a text is cut into, and the lines that carry them.

A text that fits is its only piece; from a longer one the first piece is taken, and the rest is cut
again. A node's lines carry its pieces in order, one each, behind what the lines begin with.
-/

namespace TemplateTrace

namespace Drawing

variable {first later : Nat} {text : List Char}

lemma pieces_of_le (h : text.length ≤ first + 1) : pieces first later text = [text] := by
  rw [pieces]
  split
  · rfl
  · next hdrop => simp [List.drop_eq_nil_of_le h] at hdrop

lemma pieces_of_lt (h : first + 1 < text.length) :
    pieces first later text =
      text.take (first + 1) :: pieces later later (text.drop (first + 1)) := by
  rw [pieces]
  split
  · next hdrop =>
    have := List.drop_eq_nil_iff.mp hdrop
    omega
  · next hdrop => rw [hdrop]

lemma pieces_ne_nil : pieces first later text ≠ [] := by
  rcases Nat.lt_or_ge (first + 1) text.length with h | h
  · simp [pieces_of_lt h]
  · simp [pieces_of_le h]

/-- Nothing is lost, and nothing is added. -/
lemma flatten_pieces (first later : Nat) (text : List Char) :
    (pieces first later text).flatten = text := by
  fun_induction pieces first later text with
  | case1 first text h => exact List.flatten_singleton
  | case2 first text c rest h ih =>
    rw [List.flatten_cons, ih, ← h, List.take_append_drop]

/-- Only a text that fits is left whole. -/
lemma length_pieces_eq_one_iff :
    (pieces first later text).length = 1 ↔ text.length ≤ first + 1 := by
  rcases Nat.lt_or_ge (first + 1) text.length with h | h
  · simp [pieces_of_lt h, pieces_ne_nil, h]
  · simp [pieces_of_le h, h]

/-- The most characters that the piece with the index can have, less one. -/
def roomAt (first later : Nat) : Nat → Nat
  | 0 => first
  | _ + 1 => later

@[simp] lemma roomAt_self (later i : Nat) : roomAt later later i = later := by cases i <;> rfl

/-- No piece is longer than its room, and only the last may be shorter. -/
lemma length_of_getElem?_pieces {i : Nat} {piece : List Char}
    (h : (pieces first later text)[i]? = some piece) :
    piece.length ≤ roomAt first later i + 1 ∧
      (i + 1 < (pieces first later text).length → piece.length = roomAt first later i + 1) := by
  induction i generalizing first text with
  | zero =>
    by_cases hcut : first + 1 < text.length
    · rw [pieces_of_lt hcut, List.getElem?_cons_zero] at h
      obtain rfl := Option.some.inj h
      have hfull : (text.take (first + 1)).length = first + 1 := by
        rw [List.length_take]
        omega
      exact ⟨hfull.le, fun _ => hfull⟩
    · have hwhole : pieces first later text = [text] := pieces_of_le (Nat.not_lt.mp hcut)
      rw [hwhole, List.getElem?_cons_zero] at h
      obtain rfl := Option.some.inj h
      refine ⟨Nat.not_lt.mp hcut, fun hmore => ?_⟩
      rw [hwhole, List.length_singleton] at hmore
      omega
  | succ i ih =>
    by_cases hcut : first + 1 < text.length
    · rw [pieces_of_lt hcut, List.getElem?_cons_succ] at h
      have hrest := ih h
      rw [roomAt_self] at hrest
      rw [pieces_of_lt hcut, List.length_cons, roomAt]
      exact ⟨hrest.1, fun hmore => hrest.2 (Nat.lt_of_succ_lt_succ hmore)⟩
    · have hwhole : pieces first later text = [text] := pieces_of_le (Nat.not_lt.mp hcut)
      rw [hwhole] at h
      simp at h

/-- No piece of a text is empty. -/
lemma ne_nil_of_mem_pieces (htext : text ≠ []) {piece : List Char}
    (h : piece ∈ pieces first later text) : piece ≠ [] := by
  fun_induction pieces first later text with
  | case1 first text hdrop =>
    obtain rfl := List.mem_singleton.mp h
    exact htext
  | case2 first text c rest hdrop ih =>
    rcases List.mem_cons.mp h with rfl | h
    · intro hnil
      have hempty := List.take_eq_nil_iff.mp hnil
      exact htext (hempty.resolve_left (Nat.succ_ne_zero first))
    · exact ih (List.cons_ne_nil c rest) h

/-! ### The lines -/

/-- The pieces of the text of a node. -/
def cut (lead connector content : List Char) (width : Nat) : List (List Char) :=
  if width ≤ 1 then [connector ++ content]
  else pieces (room width lead) (room width (lead ++ continuation connector)) (connector ++ content)

variable (lead connector content : List Char) (width : Nat)

lemma flatten_cut : (cut lead connector content width).flatten = connector ++ content := by
  unfold cut
  split
  · exact List.flatten_singleton
  · exact flatten_pieces _ _ _

lemma exists_cut : ∃ piece rest, cut lead connector content width = piece :: rest := by
  refine List.exists_cons_of_ne_nil ?_
  unfold cut
  split
  · exact List.cons_ne_nil _ _
  · exact pieces_ne_nil

/-- Every line carries a piece. -/
lemma wrap_of_cut {lead connector content : List Char} {width : Nat} {piece : List Char}
    {rest : List (List Char)} (h : cut lead connector content width = piece :: rest) :
    wrap lead connector content width =
      (lead ++ piece) :: rest.map (lead ++ continuation connector ++ ·) := by
  unfold cut at h
  unfold wrap
  split at h
  · next hw =>
    obtain ⟨rfl, rfl⟩ := List.cons.inj h
    rw [if_pos hw, List.append_assoc, List.map_nil]
  · next hw =>
    rw [if_neg hw]
    simp only [h]

/-! ### The lines of a row -/

namespace Row

/-- What the further lines of the node begin with. -/
def further (r : Row) : List Char := r.lead ++ continuation r.connector

/-- The first line carries the first piece of the text behind the lead, and the further lines carry
the other pieces. -/
lemma exists_lines (width : Nat) (r : Row) : ∃ piece rest,
    cut r.lead r.connector r.node.content.toList width = piece :: rest ∧
      r.lines width = (r.lead ++ piece) :: rest.map (r.further ++ ·) := by
  obtain ⟨piece, rest, h⟩ := exists_cut r.lead r.connector r.node.content.toList width
  exact ⟨piece, rest, h, wrap_of_cut h⟩

lemma lines_ne_nil (width : Nat) (r : Row) : r.lines width ≠ [] := by
  obtain ⟨piece, rest, -, h⟩ := r.exists_lines width
  simp [h]

end Row

end Drawing

open Drawing

/-- No row of a forest is above its trees, the leads go on from the lead of the trees, and every row
has a connector. -/
lemma Forest.of_mem_rows {f : Forest} {depth : Nat} {lead : List Char} {r : Row}
    (h : r ∈ f.rows depth lead) :
    depth ≤ r.node.depth ∧ lead <+: r.lead ∧ r.connector.length = 2 := by
  induction f generalizing depth lead with
  | nil => simp [rows] at h
  | cons root below rest hb hr =>
    rw [rows, List.mem_cons, List.mem_append] at h
    rcases h with rfl | h | h
    · exact ⟨Nat.le_refl _, List.prefix_refl _, by cases rest <;> rfl⟩
    · obtain ⟨hdepth, hlead, hconnector⟩ := hb h
      exact ⟨by omega, (List.prefix_append _ _).trans hlead, hconnector⟩
    · exact hr h

end TemplateTrace
