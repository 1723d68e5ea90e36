import TemplateTrace.Proofs.Pieces

/-!
The bars of the drawing.

The further lines of a node begin with its lead and one more level, and so do the leads of all nodes
below it. The level is a bar if the node has a fork, and blank if it has a corner. In pre-order what
hangs below a node is what follows it up to the first node that is not deeper, and the node has a
fork if that one stands at its own depth.

The invariant is kept for all ends of the list of rows, so that the rows of a forest can be put
before rows that are known to be right.
-/

namespace TemplateTrace

namespace Drawing

namespace Row

lemma further_prefix_of_mem_tail {width : Nat} {r : Row} {line : List Char}
    (h : line ∈ (r.lines width).tail) : r.further <+: line := by
  obtain ⟨piece, rest, -, hlines⟩ := r.exists_lines width
  rw [hlines, List.tail_cons] at h
  obtain ⟨piece, -, rfl⟩ := List.mem_map.mp h
  exact List.prefix_append _ _

lemma lead_prefix_of_mem_lines {width : Nat} {r : Row} {line : List Char}
    (h : line ∈ r.lines width) : r.lead <+: line := by
  obtain ⟨piece, rest, -, hlines⟩ := r.exists_lines width
  rw [hlines] at h
  rcases List.mem_cons.mp h with rfl | h
  · exact List.prefix_append _ _
  · have htail : line ∈ (r.lines width).tail := by rwa [hlines]
    exact (List.prefix_append _ _).trans (further_prefix_of_mem_tail htail)

/-- The rows below hang below the node, and those after them do not. -/
structure Heads (x : Row) (below after : List Row) : Prop where
  deeper : ∀ r ∈ below, x.node.depth < r.node.depth
  ended : ∀ y ∈ after.head?, y.node.depth ≤ x.node.depth

/-- The node is led to as what follows it demands, and hands its level on to what is below it. -/
structure Fits (x : Row) (below after : List Row) : Prop where
  length_lead : x.lead.length + 2 = 2 * x.node.depth
  handed : ∀ r ∈ below, x.further <+: r.lead
  fork : (∃ y ∈ after.head?, y.node.depth = x.node.depth) → x.connector = Drawing.fork
  corner : (∀ y ∈ after.head?, y.node.depth < x.node.depth) → x.connector = Drawing.corner

end Row

/-- What follows a node is split in one way into what is below it and what is not. -/
lemma Row.Heads.unique {x : Row} {below after below' after' : List Row} (h : x.Heads below after)
    (h' : x.Heads below' after') (he : below ++ after = below' ++ after') :
    below = below' ∧ after = after' := by
  -- a row in one part but not in the other would be deeper than the node and not
  have hnil {a b c : List Row} (hd : ∀ r ∈ a, x.node.depth < r.node.depth)
      (hc : ∀ y ∈ c.head?, y.node.depth ≤ x.node.depth) (hab : c = a ++ b) : a = [] := by
    rcases a with _ | ⟨y, a⟩
    · rfl
    · have := hd y (by simp)
      have := hc y (by simp [hab])
      omega
  rcases List.append_eq_append_iff.mp he with ⟨l, rfl, rfl⟩ | ⟨l, rfl, rfl⟩
  · obtain rfl := hnil (fun r hr => h'.deeper r (by simp [hr])) h.ended rfl
    simp
  · obtain rfl := hnil (fun r hr => h.deeper r (by simp [hr])) h'.ended rfl
    simp

/-- Every row fits into what comes after it. -/
def AllFit (rows : List Row) : Prop :=
  ∀ x below after, x :: (below ++ after) <:+ rows → x.Heads below after → x.Fits below after

lemma allFit_nil : AllFit [] := fun x below after h => by simp at h

lemma AllFit.cons {x : Row} {below after : List Row} (hrows : AllFit (below ++ after))
    (hx : x.Heads below after) (hfits : x.Fits below after) : AllFit (x :: (below ++ after)) := by
  intro y below' after' h hy
  rcases List.suffix_cons_iff.mp h with he | h
  · obtain ⟨rfl, hsplit⟩ := List.cons.inj he
    obtain ⟨rfl, rfl⟩ := hy.unique hx hsplit
    exact hfits
  · exact hrows y below' after' h hy

end Drawing

open Drawing

namespace Forest

/-- What comes after a tree of the forest does not stand deeper than the tree. -/
lemma depth_le_of_mem_head? (rest : Forest) {depth : Nat} (lead : List Char) {rows : List Row}
    (hrows : ∀ y ∈ rows.head?, y.node.depth < depth) :
    ∀ y ∈ (rest.rows depth lead ++ rows).head?, y.node.depth ≤ depth := by
  cases rest with
  | nil => exact fun y hy => (hrows y hy).le
  | cons root below rest =>
    rintro y ⟨⟩
    exact Nat.le_refl depth

/-- **The rows of a forest fit**, also with rows after it that are not as deep. -/
lemma allFit_rows_append (f : Forest) {depth : Nat} {lead : List Char} {rows : List Row}
    (hlead : lead.length + 2 = 2 * depth) (hhead : ∀ y ∈ rows.head?, y.node.depth < depth)
    (hrows : AllFit rows) : AllFit (f.rows depth lead ++ rows) := by
  induction f generalizing depth lead rows with
  | nil => exact hrows
  | cons root below rest hb hr =>
    have hnext := rest.depth_le_of_mem_head? lead hhead
    have hrest := hr hlead hhead hrows
    have hbelow : AllFit (below.rows (depth + 1) (lead ++ if rest = nil then noBar else bar) ++
        (rest.rows depth lead ++ rows)) := by
      refine hb ?_ (fun y hy => Nat.lt_succ_of_le (hnext y hy)) hrest
      split <;> simp [bar, noBar] <;> omega
    rw [Forest.rows, List.cons_append, List.append_assoc]
    refine hbelow.cons ⟨fun r hr => (of_mem_rows hr).1, hnext⟩ ⟨hlead, fun r hr => ?_, ?_, ?_⟩
    · have hcontinuation : continuation (if rest = nil then corner else fork) =
          if rest = nil then noBar else bar := by split <;> rfl
      simpa [Row.further, hcontinuation] using (of_mem_rows hr).2.1
    · rintro ⟨y, hy, hdepth⟩
      cases rest with
      | nil => exact absurd hdepth (hhead y hy).ne
      | cons i g g' => rfl
    · intro hlast
      cases rest with
      | nil => rfl
      | cons i g g' => exact absurd (hlast _ rfl) (Nat.lt_irrefl depth)

end Forest

namespace Drawing

/-- The two characters of the line at the level of the nodes that stand at the depth. -/
def columns (depth : Nat) (line : List Char) : List Char := (line.drop (2 * (depth - 1))).take 2

lemma columns_eq_of_isPrefix {depth : Nat} {lead segment line : List Char}
    (hlead : lead.length + 2 = 2 * depth) (hsegment : segment.length = 2)
    (h : lead ++ segment <+: line) : columns depth line = segment := by
  obtain ⟨text, rfl⟩ := h
  have hdrop : 2 * (depth - 1) = lead.length := by omega
  rw [columns, hdrop, List.append_assoc, List.drop_left, ← hsegment, List.take_left]

lemma Row.Fits.columns_eq {x : Row} {below after : List Row} {segment : List Char} {width : Nat}
    (h : x.Fits below after) (hx : continuation x.connector = segment)
    (hsegment : segment.length = 2) {line : List Char}
    (hl : line ∈ (x.lines width).tail ++ below.flatMap (Row.lines width)) :
    columns x.node.depth line = segment := by
  have hbegins : x.further <+: line := by
    rcases List.mem_append.mp hl with hl | hl
    · exact further_prefix_of_mem_tail hl
    · obtain ⟨r, hr, hl⟩ := List.mem_flatMap.mp hl
      exact (h.handed r hr).trans (lead_prefix_of_mem_lines hl)
  rw [further, hx] at hbegins
  exact columns_eq_of_isPrefix h.length_lead hsegment hbegins

end Drawing

namespace Evaluation

/-- **Bars are not broken.** The drawing has the lines of the nodes in the order of the outline. The
lines between the first line of a node and that of its next sibling have a bar at its level, and
below the first line of a last sibling, down to the end of what hangs below it, the level is
blank. -/
theorem drawing_bars {full : Bool} {rootName result : String} {es : List Event} {e : Evaluation}
    (h : ofEvents full rootName result es = .ok e) (width : Nat) :
    e.rows.map (·.node) = e.outline ∧ (∀ r ∈ e.rows, r.lines width ≠ []) ∧
      e.drawing width = (e.rows.flatMap (Row.lines width)).map String.ofList ∧
      ∀ before x below after, e.rows = before ++ x :: (below ++ after) → 0 < x.node.depth →
        (∀ r ∈ below, x.node.depth < r.node.depth) →
        ((∃ y ∈ after.head?, y.node.depth = x.node.depth) →
          ∀ line ∈ (x.lines width).tail ++ below.flatMap (Row.lines width),
            columns x.node.depth line = bar) ∧
        ((∀ y ∈ after.head?, y.node.depth < x.node.depth) →
          ∀ line ∈ (x.lines width).tail ++ below.flatMap (Row.lines width),
            columns x.node.depth line = noBar) := by
  refine ⟨map_node_rowsFrom _ _, fun r _ => r.lines_ne_nil width, drawing_eq_rows e width, ?_⟩
  intro before x below after hrows hpos hbelow
  obtain ⟨f, -, rfl⟩ := ofEvents_eq_ok_iff.mp h
  have hfit : AllFit ((f.trim full).rows 1 [] ++ []) :=
    Forest.allFit_rows_append _ rfl (by simp) allFit_nil
  rw [List.append_nil] at hfit
  have hsuffix : x :: (below ++ after) <:+ (f.trim full).rows 1 [] := by
    have hroot : x :: (below ++ after) <:+
        ⟨⟨rootName, none, 0, (f.trim full).width⟩, [], []⟩ :: (f.trim full).rows 1 [] :=
      rows_ofForest rootName result (f.trim full) ▸ ⟨before, hrows.symm⟩
    refine (List.suffix_cons_iff.mp hroot).resolve_left fun he => ?_
    obtain ⟨rfl, -⟩ := List.cons.inj he
    exact absurd hpos (Nat.lt_irrefl 0)
  constructor
  · rintro ⟨y, hy, hdepth⟩ line hl
    have hended : ∀ z ∈ after.head?, z.node.depth ≤ x.node.depth := fun z hz => by
      rw [Option.mem_unique hz hy, hdepth]
    have hfits := hfit x below after hsuffix ⟨hbelow, hended⟩
    exact hfits.columns_eq (by rw [hfits.fork ⟨y, hy, hdepth⟩]; rfl) rfl hl
  · intro hlast line hl
    have hfits := hfit x below after hsuffix ⟨hbelow, fun z hz => (hlast z hz).le⟩
    exact hfits.columns_eq (by rw [hfits.corner hlast]; rfl) rfl hl

/-- At width 2 the connectors are cut, and the bars stand. -/
theorem drawing_bars_nested :
    let x : Row := ⟨⟨"a", some .templateInstantiation, 1, 2⟩, [], fork⟩
    let below : List Row :=
      [⟨⟨"kept", some .deducedSubstitution, 2, 1⟩, bar, fork⟩,
        ⟨⟨"inner", some .templateInstantiation, 3, 0⟩, bar ++ bar, corner⟩,
        ⟨⟨"b", some .memoization, 2, 0⟩, bar, corner⟩]
    let after : List Row := [⟨⟨"c", some .templateInstantiation, 1, 0⟩, [], corner⟩]
    ∃ e, ofEvents false "root" "int" nestedEvents = .ok e ∧
      e.rows = [⟨⟨"root", none, 0, 2⟩, [], []⟩] ++ x :: (below ++ after) ∧
      ∀ line ∈ (x.lines 2).tail ++ below.flatMap (Row.lines 2), columns 1 line = bar := by
  intro x below after
  obtain ⟨e, he⟩ : ∃ e, ofEvents false "root" "int" nestedEvents = .ok e := ⟨_, rfl⟩
  have hrows : e.rows = [⟨⟨"root", none, 0, 2⟩, [], []⟩] ++ x :: (below ++ after) := by
    obtain rfl := Except.ok.inj he
    rfl
  obtain ⟨-, -, -, hbars⟩ := drawing_bars he 2
  exact ⟨e, he, hrows, (hbars _ x below after hrows (by decide) (by decide)).1 ⟨_, rfl, rfl⟩⟩

end Evaluation

end TemplateTrace
