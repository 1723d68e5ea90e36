import TemplateTrace.Proofs.Picture

/-!
What can be told from a drawing that is not cut.

Every node has one line. Its levels come off two characters at a time until the connector is met,
whose characters stand in no level; so the line tells the depth of the node and its text, whatever
the text is made of. A text ends in its kind, and the ending of one kind is not the end of another's.
Where a forest is left, the depth falls below that of its trees, so the depths alone tell how many
trees hang below each node.
-/

namespace TemplateTrace

namespace Drawing

/-- The depth that a line is drawn at, and the text behind its connector. -/
def untangle : List Char → Nat × List Char
  | c :: ' ' :: line =>
    if c = '|' ∨ c = ' ' then ((untangle line).1 + 1, (untangle line).2) else (1, line)
  | line => (0, line)

lemma untangle_level (count : Nat) (line : List Char) :
    untangle (level count ++ line) = ((untangle line).1 + 1, (untangle line).2) := by
  unfold level
  split <;> simp [bar, noBar, untangle]

lemma untangle_connector (rest : Forest) (text : List Char) :
    untangle ((if rest = .nil then corner else fork) ++ text) = (1, text) := by
  split <;> simp [corner, fork, untangle]

lemma untangle_lead (above : List Nat) (rest : Forest) (text : List Char) :
    untangle (above.flatMap level ++ (if rest = .nil then corner else fork) ++ text) =
      (above.length + 1, text) := by
  induction above with
  | nil => simpa using untangle_connector rest text
  | cons count above ih =>
    rw [List.flatMap_cons, List.append_assoc, List.append_assoc, untangle_level,
      ← List.append_assoc, ih]
    rfl

end Drawing

open Drawing

/-- What the line of a node tells. -/
def OutlineNode.told (n : OutlineNode) : Nat × List Char := (n.depth, n.content.toList)

/-- The lines of the picture tell what is in the outline. -/
lemma Forest.map_untangle_picture (f : Forest) (above : List Nat) :
    (f.picture 0 (above.flatMap level)).map untangle =
      (f.outline (above.length + 1)).map OutlineNode.told := by
  induction f generalizing above with
  | nil => rfl
  | cons root below rest hb hr =>
    have hbelow := hb (above ++ [rest.width])
    rw [List.flatMap_append, List.flatMap_singleton, level_width, List.length_append,
      List.length_singleton] at hbelow
    rw [picture, outline, List.map_append, List.map_append, hbelow, hr above, List.map_cons,
      List.map_append, wrap, if_pos (Nat.zero_le 1), List.map_singleton, untangle_lead,
      List.append_assoc, List.singleton_append]
    rfl

/-! ### The text of a node -/

/-- What the text of a node of the kind ends with. -/
def Kind.ending (k : Kind) : List Char := ' ' :: '(' :: (k.name.toList ++ [')'])

lemma Kind.eq_of_ending_suffix {k k' : Kind} (h : k.ending <:+ k'.ending) : k = k' := by
  have hall : ∀ k ∈ all, ∀ k' ∈ all, k.ending <:+ k'.ending → k = k' := by decide +kernel
  exact hall k (mem_all k) k' (mem_all k') h

/-- The kind can be told from the end of a text, and the name from what is before it. -/
lemma Kind.ending_inj {k k' : Kind} {s t : List Char} (h : s ++ k.ending = t ++ k'.ending) :
    s = t ∧ k = k' := by
  have hk : k = k' := by
    rcases List.suffix_or_suffix_of_suffix (List.suffix_append s k.ending)
      (h ▸ List.suffix_append t k'.ending) with hs | hs
    · exact eq_of_ending_suffix hs
    · exact (eq_of_ending_suffix hs).symm
  subst hk
  exact ⟨List.append_cancel_right h, rfl⟩

lemma OutlineNode.told_inj {i j : Instantiation} {depth depth' m n : Nat}
    (h : told ⟨i.name, some i.kind, depth, m⟩ = told ⟨j.name, some j.kind, depth', n⟩) :
    i.name = j.name ∧ i.kind = j.kind ∧ depth = depth' := by
  obtain ⟨hdepth, htext⟩ := Prod.mk.inj h
  have hsplit (i : Instantiation) (depth n : Nat) :
      (content ⟨i.name, some i.kind, depth, n⟩).toList = i.name.toList ++ i.kind.ending := by
    change (i.name ++ " (" ++ i.kind.name ++ ")").toList = _
    simp [Kind.ending]
  rw [hsplit, hsplit] at htext
  obtain ⟨hname, hkind⟩ := Kind.ending_inj htext
  exact ⟨String.toList_inj.mp hname, hkind, hdepth⟩

/-! ### The outline -/

namespace Forest

/-- What comes next does not stand as deep. -/
def Shallower (depth : Nat) (told : List (Nat × List Char)) : Prop := ∀ n ∈ told.head?, n.1 < depth

lemma shallower_nil (depth : Nat) : Shallower depth [] := by simp [Shallower]

lemma shallower_outline_append {depth : Nat} (f : Forest) {xs : List (Nat × List Char)}
    (h : Shallower depth xs) :
    Shallower (depth + 1) ((f.outline depth).map OutlineNode.told ++ xs) := by
  cases f with
  | nil => exact fun n hn => Nat.lt_succ_of_lt (h n hn)
  | cons root below rest =>
    rintro n ⟨⟩
    exact Nat.lt_succ_self depth

/-- **The outline can be told from its depths and texts**, and so can where it ends. -/
lemma outline_inj {f g : Forest} {depth : Nat} {xs ys : List (Nat × List Char)}
    (hx : Shallower depth xs) (hy : Shallower depth ys)
    (h : (f.outline depth).map OutlineNode.told ++ xs =
      (g.outline depth).map OutlineNode.told ++ ys) :
    f.outline depth = g.outline depth ∧ f.width = g.width ∧ xs = ys := by
  induction f generalizing g depth xs ys with
  | nil =>
    cases g with
    | nil => exact ⟨rfl, rfl, h⟩
    | cons root below rest =>
      obtain rfl : xs = _ := h
      exact absurd (hx _ rfl) (Nat.lt_irrefl depth)
  | cons root below rest hb hr =>
    cases g with
    | nil =>
      obtain rfl : _ = ys := h
      exact absurd (hy _ rfl) (Nat.lt_irrefl depth)
    | cons root' below' rest' =>
      simp only [outline, List.map_cons, List.map_append, List.cons_append, List.append_assoc] at h
      obtain ⟨hroot, htail⟩ := List.cons.inj h
      obtain ⟨hname, hkind, -⟩ := OutlineNode.told_inj hroot
      obtain ⟨hbelow, hwidth, hrest⟩ :=
        hb (shallower_outline_append rest hx) (shallower_outline_append rest' hy) htail
      obtain ⟨houtline, hwidth', hend⟩ := hr hx hy hrest
      refine ⟨?_, ?_, hend⟩
      · rw [outline, outline, hname, hkind, hbelow, hwidth, houtline]
      · rw [width, width, hwidth']

end Forest

namespace Evaluation

lemma outline_ofForest_inj {rootName result rootName' result' : String} {f g : Forest}
    (h : (ofForest rootName result f).drawing 0 = (ofForest rootName' result' g).drawing 0) :
    (ofForest rootName result f).outline = (ofForest rootName' result' g).outline := by
  rw [drawing_ofForest, drawing_ofForest] at h
  have hlines := List.map_injective_iff.mpr (fun _ _ => String.ofList_inj.mp) h
  simp only [wrap, if_pos (Nat.zero_le 1), List.nil_append, List.singleton_append] at hlines
  obtain ⟨hname, hpicture⟩ := List.cons.inj hlines
  have htold : (f.outline 1).map OutlineNode.told = (g.outline 1).map OutlineNode.told := by
    have hf := f.map_untangle_picture []
    rw [List.flatMap_nil, hpicture] at hf
    exact hf.symm.trans (g.map_untangle_picture [])
  rw [← List.append_nil (List.map _ (f.outline 1)), ← List.append_nil (List.map _ (g.outline 1))]
    at htold
  obtain ⟨houtline, hwidth, -⟩ :=
    Forest.outline_inj (Forest.shallower_nil 1) (Forest.shallower_nil 1) htold
  rw [outline_ofForest, outline_ofForest, String.toList_inj.mp hname, hwidth, houtline]

/-- **A drawing that is not cut tells the outline**: its nodes with their names, kinds and depths,
and how many hang below each. -/
theorem outline_eq_of_drawing_eq {full full' : Bool} {rootName result rootName' result' : String}
    {es es' : List Event} {e e' : Evaluation} (h : ofEvents full rootName result es = .ok e)
    (h' : ofEvents full' rootName' result' es' = .ok e') (hd : e.drawing 0 = e'.drawing 0) :
    e.outline = e'.outline := by
  obtain ⟨f, -, rfl⟩ := ofEvents_eq_ok_iff.mp h
  obtain ⟨g, -, rfl⟩ := ofEvents_eq_ok_iff.mp h'
  exact outline_ofForest_inj hd

/-- Frames whose names look like lines of a drawing. -/
def imitatingEvents (file : String) : List Event :=
  [.opens ⟨.templateInstantiation, "+ f (Memoization)\n| ` g", file, 1, none⟩,
    .opens ⟨.memoization, "", file, 2, none⟩, .closes, .closes]

/-- What the events are put together to. -/
def imitating (file result : String) : Evaluation where
  rootName := "  + r"
  result := result
  frames := #[⟨⟨.memoization, "", file, 2, none⟩, #[]⟩,
    ⟨⟨.templateInstantiation, "+ f (Memoization)\n| ` g", file, 1, none⟩, #[0]⟩]
  roots := #[1]

theorem outline_eq_of_drawing_eq_imitating :
    let e := imitating "a.hpp" "int"
    let e' := imitating "b.hpp" "char"
    ofEvents false "  + r" "int" (imitatingEvents "a.hpp") = .ok e ∧
      ofEvents true "  + r" "char" (imitatingEvents "b.hpp") = .ok e' ∧
      e.drawing 0 = ["  + r", "` + f (Memoization)\n| ` g (TemplateInstantiation)",
        "  `  (Memoization)"] ∧ e ≠ e' ∧ e.outline = e'.outline := by
  intro e e'
  have h : ofEvents false "  + r" "int" (imitatingEvents "a.hpp") = .ok e := rfl
  have h' : ofEvents true "  + r" "char" (imitatingEvents "b.hpp") = .ok e' := rfl
  have hd : e.drawing 0 = e'.drawing 0 := by decide +kernel
  exact ⟨h, h', by decide +kernel, by decide, outline_eq_of_drawing_eq h h' hd⟩

end Evaluation

end TemplateTrace
