import TemplateTrace.Proofs.Wrapping
import TemplateTrace.Summary
import Mathlib.Algebra.BigOperators.Group.List.Basic
import Mathlib.Algebra.GroupWithZero.Nat
import Mathlib.Data.List.Perm.Basic

/-!
The summary of an evaluation and its outline.

The table has the frames in the order of their ends and the outline has them in the order of their
beginnings, so what is counted in one is counted in the other. The walk of the summary takes the
children of a frame from the last to the first, and comes to the same visits in another order.
-/

namespace TemplateTrace

namespace Forest

/-! ### The table and the outline -/

lemma length_outline (f : Forest) (depth : Nat) : (f.outline depth).length = f.size := by
  induction f generalizing depth with
  | nil => rfl
  | cons root below rest hb hr =>
    rw [outline, List.length_cons, List.length_append, hb, hr, size]
    omega

/-- The outline has the kinds of the frames, each with the number of its children. -/
lemma outline_perm_frames (f : Forest) (n depth : Nat) :
    ((f.outline depth).map fun o => (o.kind, o.children)).Perm
      ((f.frames n).map fun frame => (some frame.instantiation.kind, frame.children.size)) := by
  induction f generalizing n depth with
  | nil => exact .nil
  | cons root below rest hb hr =>
    have hchildren : (below.ids n).toArray.size = below.width := by simp
    rw [outline, frames, List.map_cons, List.map_append, List.map_append, List.map_cons, hchildren]
    exact ((hb n _).append (hr _ _)).cons _ |>.trans List.perm_middle.symm

lemma countP_outline (f : Forest) (n depth : Nat) (p : Option Kind × Nat → Bool) :
    (f.outline depth).countP (fun o => p (o.kind, o.children)) =
      (f.frames n).countP fun frame => p (some frame.instantiation.kind, frame.children.size) := by
  have h := (f.outline_perm_frames n depth).countP_eq p
  rwa [List.countP_map, List.countP_map] at h

lemma le_depth_of_mem_outline {f : Forest} {depth : Nat} {o : OutlineNode}
    (h : o ∈ f.outline depth) : depth ≤ o.depth := by
  induction f generalizing depth with
  | nil => simp [outline] at h
  | cons root below rest hb hr =>
    rw [outline, List.mem_cons, List.mem_append] at h
    rcases h with rfl | h | h
    · exact Nat.le_refl _
    · exact (Nat.le_succ _).trans (hb h)
    · exact hr h

/-- The trees stand at the depth, and what is below them stands deeper. -/
lemma countP_depth_outline (f : Forest) (depth : Nat) :
    (f.outline depth).countP (·.depth = depth) = f.width := by
  induction f with
  | nil => rfl
  | cons root below rest _ hr =>
    have hbelow : (below.outline (depth + 1)).countP (·.depth = depth) = 0 := by
      refine List.countP_eq_zero.mpr fun o ho => ?_
      have := le_depth_of_mem_outline ho
      simp
      omega
    rw [outline, List.countP_cons, List.countP_append, hbelow, hr, width]
    simp

/-! ### The walk from the last child to the first -/

/-- The walk visits what the pre-order visits, and then what is pending. -/
lemma walk_reverse_ids {table : Array Frame} {n steps : Nat} {f : Forest} (h : f.Within table n)
    (hs : f.size ≤ steps) (depth : Nat) (pending : List Visit) :
    ∃ vs, vs.Perm (f.visits n depth) ∧
      Evaluation.walk table List.reverse steps (((f.ids n).map (·, depth)).reverse ++ pending) =
        vs ++ Evaluation.walk table List.reverse (steps - f.size) pending := by
  induction f generalizing n depth steps pending with
  | nil => exact ⟨[], .nil, rfl⟩
  | cons root below rest hb hr =>
    rw [size] at hs
    -- the trees after the first one come first, then its root, then what is below the root
    have hsrest : rest.size ≤ steps := by omega
    obtain ⟨vs, hvs, hrest⟩ := hr h.2.2 hsrest depth ((n + below.size, depth) :: pending)
    obtain ⟨k, hk⟩ : ∃ k, steps - rest.size = k + 1 := ⟨steps - rest.size - 1, by omega⟩
    have hsbelow : below.size ≤ k := by omega
    obtain ⟨ws, hws, hbelow⟩ := hb h.1 hsbelow (depth + 1) pending
    refine ⟨vs ++ (n + below.size, depth) :: ws, ?_, ?_⟩
    · rw [visits]
      exact List.perm_middle.trans (((hvs.append hws).trans List.perm_append_comm).cons _)
    · have hsteps : k - below.size = steps - (cons root below rest).size := by
        rw [size]
        omega
      rw [ids, List.map_cons, List.reverse_cons, List.append_assoc, List.singleton_append, hrest,
        hk, Evaluation.walk_cons, below_within h, hbelow, hsteps, List.append_assoc,
        List.cons_append]

lemma map_depth_visits (f : Forest) (n depth : Nat) :
    (f.visits n depth).map (·.2) = (f.outline depth).map (·.depth) := by
  induction f generalizing n depth with
  | nil => rfl
  | cons root below rest hb hr =>
    rw [visits, outline, List.map_cons, List.map_cons, List.map_append, List.map_append, hb, hr]

end Forest

namespace Summary

/-! ### Depths and kinds -/

lemma deepest_eq_foldl (vs : List Visit) : deepest vs = (vs.map (·.2)).foldl max 0 := by
  rw [deepest, List.foldl_map]

lemma deepest_perm {vs ws : List Visit} (h : vs.Perm ws) : deepest vs = deepest ws := by
  rw [deepest_eq_foldl, deepest_eq_foldl]
  exact (h.map _).foldl_eq 0

/-- Every frame is of one kind. -/
lemma sum_count (frames : List Frame) : (Kind.all.map (count frames)).sum = frames.length := by
  induction frames with
  | nil => rfl
  | cons frame frames ih =>
    have hone : (Kind.all.map fun k => if frame.instantiation.kind = k then 1 else 0).sum = 1 := by
      cases frame.instantiation.kind <;> rfl
    have hcount : count (frame :: frames) = fun k =>
        count frames k + if frame.instantiation.kind = k then 1 else 0 := by
      funext k
      simp [count, List.countP_cons]
    rw [hcount, List.sum_map_add, ih, hone, List.length_cons]

/-- Kinds that do not occur are left out, and add nothing. -/
lemma sum_kinds (frames : List Frame) : ((kinds frames).map (·.2)).sum = frames.length := by
  have hfilter (ks : List (Kind × Nat)) :
      ((ks.filter (0 < ·.2)).map (·.2)).sum = (ks.map (·.2)).sum := by
    induction ks with
    | nil => rfl
    | cons k ks ih =>
      rcases Nat.eq_zero_or_pos k.2 with hk | hk
      · rw [List.filter_cons_of_neg (by simp [hk]), ih, List.map_cons, List.sum_cons, hk, zero_add]
      · rw [List.filter_cons_of_pos (by simpa using hk), List.map_cons, List.sum_cons, ih,
          List.map_cons, List.sum_cons]
  rw [kinds, hfilter, List.map_map, ← sum_count]
  rfl

lemma nodup_kinds (frames : List Frame) : ((kinds frames).map (·.1)).Nodup := by
  have hsub : ((kinds frames).map (·.1)).Sublist Kind.all := by
    have h := (List.filter_sublist (p := (0 < ·.2))
      (l := Kind.all.map fun k => (k, count frames k))).map (·.1)
    simpa [kinds, Function.comp_def] using h
  exact hsub.nodup (by decide)

lemma mem_kinds {frames : List Frame} {k : Kind} {n : Nat} :
    (k, n) ∈ kinds frames ↔ n = count frames k ∧ 0 < n := by
  simp only [kinds, List.mem_filter, List.mem_map, Prod.mk.injEq, decide_eq_true_eq]
  constructor
  · rintro ⟨⟨k', -, rfl, rfl⟩, hn⟩
    exact ⟨rfl, hn⟩
  · rintro ⟨rfl, hn⟩
    exact ⟨⟨k, Kind.mem_all k, rfl, rfl⟩, hn⟩

lemma lookup_kinds (frames : List Frame) (k : Kind) :
    ((kinds frames).lookup k).getD 0 = count frames k := by
  cases h : (kinds frames).lookup k with
  | none =>
    by_contra hne
    have hk : (k, count frames k) ∈ kinds frames :=
      mem_kinds.mpr ⟨rfl, Nat.pos_of_ne_zero fun h0 => hne h0.symm⟩
    simpa using List.lookup_eq_none_iff.mp h _ hk
  | some n =>
    obtain ⟨ks, ks', he, -⟩ := List.lookup_eq_some_iff.mp h
    have hk : (k, n) ∈ kinds frames := by simp [he]
    exact (mem_kinds.mp hk).1

end Summary

namespace Evaluation

section Laid

variable (rootName result : String) (f : Forest)

lemma total_summary_ofForest : (ofForest rootName result f).summary.total = f.size := by
  simp [summary, ofForest]

lemma roots_summary_ofForest : (ofForest rootName result f).summary.roots = f.width := by
  simp [summary, ofForest]

lemma leaves_summary_ofForest :
    (ofForest rootName result f).summary.leaves =
      (f.outline 1).countP (·.children = 0) := by
  have hleaf (frame : Frame) : frame.children.isEmpty = decide (frame.children.size = 0) := rfl
  simp only [summary, ofForest, hleaf]
  exact (f.countP_outline 0 1 fun p => decide (p.2 = 0)).symm

lemma depth_summary_ofForest :
    ((ofForest rootName result f).outline.map (·.depth)).max? =
      some (ofForest rootName result f).summary.depth := by
  obtain ⟨vs, hvs, hwalk⟩ := Forest.walk_reverse_ids (within_ofForest rootName result f)
    (Nat.le_refl _) 1 []
  have hvisits : (ofForest rootName result f).visits List.reverse = vs := by
    simpa [visits, ofForest] using hwalk
  rw [outline_ofForest, List.map_cons, List.max?_cons', summary, hvisits,
    Summary.deepest_perm hvs, Summary.deepest_eq_foldl, Forest.map_depth_visits]

lemma byKind_summary_ofForest (k : Kind) :
    (((ofForest rootName result f).summary.byKind).lookup k).getD 0 =
      (f.outline 1).countP (·.kind = some k) := by
  have h := f.countP_outline 0 1 fun p => decide (p.1 = some k)
  simp only [Option.some.injEq] at h
  rw [h]
  exact Summary.lookup_kinds _ k

end Laid

/-- **The summary sums up the outline.** It counts the nodes below the root, those directly below
it, those without children and those of each kind, and has the depth of the deepest node. -/
theorem summary_eq_tally {full : Bool} {rootName result : String} {es : List Event}
    {e : Evaluation} (h : ofEvents full rootName result es = .ok e) :
    e.outline.length = e.summary.total + 1 ∧ (e.drawing 0).length = e.summary.total + 1 ∧
      e.outline.head?.map (·.children) = some e.summary.roots ∧
      e.outline.countP (·.depth = 1) = e.summary.roots ∧
      e.outline.tail.countP (·.children = 0) = e.summary.leaves ∧
      (e.outline.map (·.depth)).max? = some e.summary.depth ∧
      (∀ k, e.outline.countP (·.kind = some k) = (e.summary.byKind.lookup k).getD 0) ∧
      (e.summary.byKind.map (·.1)).Nodup ∧ (e.summary.byKind.map (·.2)).sum = e.summary.total := by
  obtain ⟨f, -, rfl⟩ := ofEvents_eq_ok_iff.mp h
  generalize f.trim full = f at *
  have hlength : (ofForest rootName result f).outline.length =
      (ofForest rootName result f).summary.total + 1 := by
    rw [outline_ofForest, total_summary_ofForest, List.length_cons, Forest.length_outline]
  refine ⟨hlength, (length_drawing_zero _).trans hlength, ?_, ?_, ?_,
    depth_summary_ofForest rootName result f, fun k => ?_, Summary.nodup_kinds _,
    Summary.sum_kinds _⟩
  · rw [outline_ofForest, roots_summary_ofForest]
    rfl
  · rw [outline_ofForest, roots_summary_ofForest, List.countP_cons, Forest.countP_depth_outline]
    rfl
  · rw [outline_ofForest, leaves_summary_ofForest, List.tail_cons]
  · rw [outline_ofForest, byKind_summary_ofForest, List.countP_cons]
    rfl

theorem summary_eq_tally_nested :
    ∃ e, ofEvents false "root" "int" nestedEvents = .ok e ∧ e.summary.total = 5 ∧
      e.outline.tail.countP (·.children = 0) = 3 ∧ (e.outline.map (·.depth)).max? = some 3 ∧
      e.outline.countP (·.kind = some .templateInstantiation) = 3 := by
  obtain ⟨e, he⟩ : ∃ e, ofEvents false "root" "int" nestedEvents = .ok e := ⟨_, rfl⟩
  obtain ⟨-, -, -, -, hleaves, hdepth, hkind, -, -⟩ := summary_eq_tally he
  have hsummary : e.summary = ⟨5, 2, 3, 3, [(.templateInstantiation, 3),
      (.deducedSubstitution, 1), (.memoization, 1)]⟩ := by
    obtain rfl := Except.ok.inj he
    rfl
  refine ⟨e, he, ?_, ?_, ?_, ?_⟩
  · rw [hsummary]
  · rw [hleaves, hsummary]
  · rw [hdepth, hsummary]
  · rw [hkind, hsummary]
    rfl

end Evaluation

end TemplateTrace
