import TemplateTrace.Proofs.Fitting

/-!
How full the lines of a node are.

A text is cut only where the room of a line is used up and something is left for the next one. So
every line but the last is full, and the last carries something too, unless there was nothing to
carry from the start. A line is full if it has the width, or one character where what it begins with
leaves no room.
-/

namespace TemplateTrace

namespace Drawing

/-- What the line with the index begins with. -/
def margin (lead connector : List Char) : Nat → List Char
  | 0 => lead
  | _ + 1 => lead ++ continuation connector

variable (lead connector content : List Char) (width : Nat)

lemma wrap_eq_mapIdx : wrap lead connector content width =
    (cut lead connector content width).mapIdx fun i piece => margin lead connector i ++ piece := by
  obtain ⟨piece, rest, hcut⟩ := exists_cut lead connector content width
  rw [wrap_of_cut hcut, hcut]
  apply List.ext_getElem?
  intro i
  rw [List.getElem?_mapIdx]
  cases i with
  | zero => rfl
  | succ i =>
    rw [List.getElem?_cons_succ, List.getElem?_cons_succ, List.getElem?_map]
    rfl

variable {lead connector content width}

lemma length_wrap :
    (wrap lead connector content width).length = (cut lead connector content width).length := by
  rw [wrap_eq_mapIdx, List.length_mapIdx]

/-- The margin and the room of a line make up the width where there is room. -/
lemma length_margin_add_roomAt (i : Nat) :
    (margin lead connector i).length +
        (roomAt (room width lead) (room width (lead ++ continuation connector)) i + 1) =
      max width ((margin lead connector i).length + 1) := by
  cases i with
  | zero =>
    simp only [margin, roomAt, room]
    omega
  | succ i =>
    simp only [margin, roomAt, room]
    omega

lemma length_of_getElem?_wrap (hw : 2 ≤ width) {i : Nat} {line : List Char}
    (h : (wrap lead connector content width)[i]? = some line) :
    line.length ≤ max width ((margin lead connector i).length + 1) ∧
      (i + 1 < (wrap lead connector content width).length →
        line.length = max width ((margin lead connector i).length + 1)) := by
  rw [length_wrap]
  rw [wrap_eq_mapIdx, List.getElem?_mapIdx, Option.map_eq_some_iff] at h
  obtain ⟨piece, hpiece, rfl⟩ := h
  rw [cut, if_neg (by omega)] at hpiece ⊢
  obtain ⟨hle, hfull⟩ := length_of_getElem?_pieces hpiece
  rw [List.length_append, ← length_margin_add_roomAt i]
  exact ⟨by omega, fun hmore => by rw [hfull hmore]⟩

/-- **Every line but the last is full.** If nothing is to be cut, a node has one line. Otherwise its
lines carry pieces that make up the connector and the content, behind the lead and behind what
stands for the connector from the second line on; a line that is not the last has the width, or one
character where its margin leaves no room, and no line has more. No piece is empty, unless the text
is, and then there is one line. -/
theorem wrap_fills (lead connector content : List Char) (width : Nat) :
    (continuation connector).length = connector.length ∧
    (width ≤ 1 → wrap lead connector content width = [lead ++ connector ++ content]) ∧
    (2 ≤ width → ∃ pieces : List (List Char), pieces ≠ [] ∧
      wrap lead connector content width =
        pieces.mapIdx (fun i piece => margin lead connector i ++ piece) ∧
      pieces.flatten = connector ++ content ∧
      (∀ i line, (wrap lead connector content width)[i]? = some line →
        line.length ≤ max width ((margin lead connector i).length + 1) ∧
        (i + 1 < (wrap lead connector content width).length →
          line.length = max width ((margin lead connector i).length + 1))) ∧
      (connector ++ content ≠ [] → ∀ piece ∈ pieces, piece ≠ []) ∧
      (connector ++ content = [] → (wrap lead connector content width).length = 1)) := by
  refine ⟨length_continuation connector, fun hw => by rw [wrap, if_pos hw], fun hw => ?_⟩
  have hcut : cut lead connector content width = pieces (room width lead)
      (room width (lead ++ continuation connector)) (connector ++ content) := if_neg (by omega)
  refine ⟨cut lead connector content width, ?_, wrap_eq_mapIdx lead connector content width,
    flatten_cut lead connector content width, fun i line => length_of_getElem?_wrap hw, ?_, ?_⟩
  · rw [hcut]
    exact pieces_ne_nil
  · intro htext piece hpiece
    rw [hcut] at hpiece
    exact ne_nil_of_mem_pieces htext hpiece
  · intro htext
    rw [length_wrap, hcut, length_pieces_eq_one_iff, htext]
    exact Nat.zero_le _

/-- A lead that is wider than the width, and letters beyond the basic ones. -/
theorem wrap_fills_narrow :
    let lead := bar ++ bar
    wrap lead fork ['ä', 'ö'] 3 =
        [lead ++ ['+'], lead ++ bar ++ [' '], lead ++ bar ++ ['ä'], lead ++ bar ++ ['ö']] ∧
      (∀ line ∈ (wrap lead fork ['ä', 'ö'] 3)[2]?, line.length = 7) ∧
      (∀ line ∈ (wrap [] corner ['ä', 'ö', 'ü'] 4)[0]?, line.length = 4) ∧
      (wrap lead [] [] 3).length = 1 ∧
      wrap lead fork ['ä', 'ö'] 1 = [lead ++ fork ++ ['ä', 'ö']] := by
  intro lead
  have hnarrow : wrap lead fork ['ä', 'ö'] 3 =
      [lead ++ ['+'], lead ++ bar ++ [' '], lead ++ bar ++ ['ä'], lead ++ bar ++ ['ö']] := by
    decide +kernel
  obtain ⟨-, -, hcut⟩ := wrap_fills lead fork ['ä', 'ö'] 3
  obtain ⟨_, -, -, -, hlines, -⟩ := hcut (by decide)
  obtain ⟨-, -, hcorner⟩ := wrap_fills [] corner ['ä', 'ö', 'ü'] 4
  obtain ⟨_, -, -, -, hwide, -⟩ := hcorner (by decide)
  obtain ⟨-, -, hempty⟩ := wrap_fills lead [] [] 3
  obtain ⟨_, -, -, -, -, -, hone⟩ := hempty (by decide)
  obtain ⟨-, hwhole, -⟩ := wrap_fills lead fork ['ä', 'ö'] 1
  refine ⟨hnarrow, fun line hline => ?_, fun line hline => ?_, hone rfl, hwhole (by decide)⟩
  · exact (hlines 2 line hline).2 (by rw [hnarrow]; decide)
  · exact (hwide 0 line hline).2 (by decide +kernel)

end Drawing

end TemplateTrace
