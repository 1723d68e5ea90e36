import TemplateTrace.Proofs.Growth
import TemplateTrace.Proofs.Span

/-!
Which frames are left out outside full mode.

The assembly decides at the end of a frame, by whether anything was kept below it. Seen from the
whole stream, a frame is kept if between its beginning and its end, itself included, some frame
begins that is no bookkeeping. The table is that of full mode without the other frames, and the
frames that are left are numbered anew.
-/

namespace TemplateTrace

/-- The frame with the number `n` begins a stretch in which, itself included, some frame is no
bookkeeping. -/
def Matters (es : List Event) (n : FrameIndex) : Prop :=
  ∃ before i inner, Spans es before i inner ∧ endsBefore before inner = n ∧
    ∃ j, .opens j ∈ Event.opens i :: inner ∧ j.kind.isBookkeeping = false

namespace Evaluation

variable (kept : FrameIndex → Bool)

/-- The number of a kept frame among the kept ones. -/
def rank (n : FrameIndex) : Nat := (List.range n).countP kept

def renumber (ids : List FrameIndex) : List FrameIndex := (ids.filter kept).map (rank kept)

/-- The frames of the table that are kept, where the first of them has the number `n`. -/
def restrictFrom (n : Nat) (table : List Frame) : List Frame :=
  ((table.zipIdx n).filter fun p => kept p.2).map fun p =>
    ⟨p.1.instantiation, (renumber kept p.1.children.toList).toArray⟩

/-- The evaluation with the kept frames only, in their order and under their parents. -/
def restrict (e : Evaluation) : Evaluation where
  rootName := e.rootName
  result := e.result
  frames := (restrictFrom kept 0 e.frames.toList).toArray
  roots := (renumber kept e.roots.toList).toArray

lemma rank_succ (n : FrameIndex) : rank kept (n + 1) = rank kept n + (kept n).toNat := by
  rw [rank, List.range_succ, List.countP_append, rank]
  cases h : kept n <;> simp [h]

end Evaluation

namespace Forest

/-- Some frame of the forest is no bookkeeping. -/
def essential (f : Forest) : Bool := f.postorder.any (!·.kind.isBookkeeping)

/-- Some frame of the tree is no bookkeeping. -/
def matters (root : Instantiation) (below : Forest) : Bool :=
  !root.kind.isBookkeeping || below.essential

lemma essential_cons (root : Instantiation) (below rest : Forest) :
    (cons root below rest).essential = (matters root below || rest.essential) := by
  simp only [essential, matters, postorder, List.any_append, List.any_cons]
  rw [Bool.or_left_comm, Bool.or_assoc]

/-- Nothing is left of a forest in which all is bookkeeping. -/
lemma trim_false_eq_nil_iff {f : Forest} : f.trim false = nil ↔ f.essential = false := by
  induction f with
  | nil => simp [trim, essential, postorder]
  | cons root below rest hb hr =>
    have hd : decide (below.trim false = nil) = !below.essential := by simp [hb]
    rw [trim, essential_cons, matters, hd]
    cases root.kind.isBookkeeping <;> cases below.essential <;> simp [hr]

/-- The forest without the trees in which all is bookkeeping. -/
def prune : Forest → Forest
  | nil => nil
  | cons root below rest =>
    if matters root below then cons root below.prune rest.prune else rest.prune

/-- Trimming from the leaves upward takes the same trees away. -/
lemma trim_false (f : Forest) : f.trim false = f.prune := by
  induction f with
  | nil => rfl
  | cons root below rest hb hr =>
    have hd : decide (below.trim false = nil) = !below.essential := by simp [trim_false_eq_nil_iff]
    rw [trim, prune, matters, hd, hb, hr]
    cases root.kind.isBookkeeping <;> cases below.essential <;> rfl

lemma prune_eq_nil_of_not_matters {root : Instantiation} {below : Forest}
    (h : matters root below = false) : below.prune = nil := by
  rw [matters, Bool.or_eq_false_iff] at h
  rw [← trim_false, trim_false_eq_nil_iff, h.2]

/-- The forest laid out from place `n` on has marks where a tree is to be left. -/
def Marks (kept : FrameIndex → Bool) (n : Nat) (f : Forest) : Prop :=
  ∀ k root below, f.subtrees[k]? = some (root, below) → kept (n + k) = matters root below

variable {kept : FrameIndex → Bool} {n : Nat}

lemma Marks.cons {root : Instantiation} {below rest : Forest}
    (h : (Forest.cons root below rest).Marks kept n) :
    below.Marks kept n ∧ kept (n + below.size) = matters root below ∧
      rest.Marks kept (n + below.size + 1) := by
  refine ⟨fun k i g hk => h k i g ?_, h below.size root below ?_, fun k i g hk => ?_⟩
  · have hlt := (List.getElem?_eq_some_iff.mp hk).1
    rw [subtrees, List.getElem?_append_left hlt, hk]
  · simp [subtrees]
  · have := h (below.size + 1 + k) i g (by
      rw [subtrees, List.getElem?_append_right (by simp; omega), length_subtrees]
      simpa [Nat.add_sub_cancel_left, Nat.add_assoc, Nat.add_comm 1] using hk)
    simpa [Nat.add_assoc] using this

open Evaluation

lemma rank_size {f : Forest} (h : f.Marks kept n) :
    rank kept (n + f.size) = rank kept n + f.prune.size := by
  induction f generalizing n with
  | nil => rfl
  | cons root below rest hb hr =>
    obtain ⟨hbelow, hroot, hrest⟩ := h.cons
    have hplace : n + (cons root below rest).size = n + below.size + 1 + rest.size := by
      simp only [size]
      omega
    rw [hplace, hr hrest, rank_succ, hb hbelow, hroot, prune]
    cases hm : matters root below
    · simp [prune_eq_nil_of_not_matters hm, size]
    · simp only [if_true, size, Bool.toNat_true]
      omega

/-- The number after the first tree. -/
lemma rank_after_root {root : Instantiation} {below rest : Forest}
    (h : (Forest.cons root below rest).Marks kept n) :
    rank kept (n + below.size + 1) =
      rank kept n + below.prune.size + (matters root below).toNat := by
  obtain ⟨hbelow, hroot, -⟩ := h.cons
  rw [rank_succ, rank_size hbelow, hroot]

lemma renumber_ids {f : Forest} (h : f.Marks kept n) :
    renumber kept (f.ids n) = f.prune.ids (rank kept n) := by
  induction f generalizing n with
  | nil => rfl
  | cons root below rest _ hr =>
    obtain ⟨hbelow, hroot, hrest⟩ := h.cons
    have hids := hr hrest
    rw [rank_after_root h] at hids
    rw [prune]
    cases hm : matters root below
    · rw [hm] at hroot
      simpa [ids, renumber, hroot, hm, prune_eq_nil_of_not_matters hm, size] using hids
    · rw [hm] at hroot
      simpa [ids, renumber, hroot, hm, rank_size hbelow] using hids

lemma restrictFrom_frames {f : Forest} (h : f.Marks kept n) :
    restrictFrom kept n (f.frames n) = f.prune.frames (rank kept n) := by
  induction f generalizing n with
  | nil => rfl
  | cons root below rest hb hr =>
    obtain ⟨hbelow, hroot, hrest⟩ := h.cons
    have hframes := hr hrest
    rw [rank_after_root h] at hframes
    have hroots := renumber_ids hbelow
    simp only [restrictFrom, frames, List.zipIdx_append, List.filter_append, List.map_append,
      length_frames, List.zipIdx_cons] at *
    rw [prune, hb hbelow]
    cases hm : matters root below
    · rw [hm] at hroot hframes
      simpa [hroot, prune_eq_nil_of_not_matters hm, size, frames] using hframes
    · rw [hm] at hroot hframes
      simpa [hroot, frames, hroots] using hframes

/-! ### Kept frames have kept parents -/

lemma essential_of_kept {f : Forest} (h : f.Marks kept n) {m : FrameIndex} (hm : m ∈ f.ids n)
    (hk : kept m = true) : f.essential = true := by
  induction f generalizing n with
  | nil => simp [ids] at hm
  | cons root below rest _ hr =>
    obtain ⟨-, hroot, hrest⟩ := h.cons
    rw [essential_cons, Bool.or_eq_true]
    rcases List.mem_cons.mp hm with rfl | hm
    · exact .inl (hroot ▸ hk)
    · exact .inr (hr hrest hm)

/-- A frame is kept if one of its children is. -/
lemma kept_of_child {f : Forest} (h : f.Marks kept n) {k : Nat} {frame : Frame}
    (hf : (f.frames n)[k]? = some frame) {m : FrameIndex} (hm : m ∈ frame.children)
    (hk : kept m = true) : kept (n + k) = true := by
  induction f generalizing n k with
  | nil => simp [frames] at hf
  | cons root below rest hb hr =>
    obtain ⟨hbelow, hroot, hrest⟩ := h.cons
    rw [frames, List.getElem?_append, length_frames] at hf
    split at hf
    · exact hb hbelow hf
    next hlt =>
    obtain ⟨j, rfl⟩ : ∃ j, k = below.size + j := ⟨k - below.size, by omega⟩
    rw [Nat.add_sub_cancel_left] at hf
    cases j with
    | zero =>
      obtain rfl : _ = frame := by simpa using hf
      have hessential := essential_of_kept hbelow (by simpa using hm) hk
      simpa [matters, hessential] using hroot
    | succ j =>
      have := hr hrest (by simpa using hf)
      simpa [Nat.add_assoc, Nat.add_comm 1] using this

/-! ### Stretches of the stream -/

lemma mem_postorder_iff {f : Forest} {i : Instantiation} :
    i ∈ f.postorder ↔ .opens i ∈ f.events := by
  induction f with
  | nil => simp [postorder, events]
  | cons root below rest hb hr =>
    simp only [postorder, events, List.mem_append, List.mem_cons, hb, hr, Event.opens.injEq]
    tauto

lemma matters_eq_true_iff {root : Instantiation} {below : Forest} :
    matters root below = true ↔
      ∃ j, .opens j ∈ Event.opens root :: below.events ∧ j.kind.isBookkeeping = false := by
  simp [matters, essential, mem_postorder_iff]

lemma matters_iff {f : Forest} {k : Nat} {root : Instantiation} {below : Forest}
    (h : f.subtrees[k]? = some (root, below)) :
    Matters f.events k ↔ matters root below = true := by
  rw [matters_eq_true_iff]
  constructor
  · rintro ⟨before, i, inner, hs, rfl, hj⟩
    obtain ⟨g, hg, rfl⟩ := subtree_of_spans hs
    obtain ⟨rfl, rfl⟩ : i = root ∧ g = below := by simpa using hg.symm.trans h
    exact hj
  · intro hj
    obtain ⟨lead, hs, hn⟩ := spans_of_subtree [] [] h
    exact ⟨lead, root, below.events, by simpa using hs, by simpa using hn, hj⟩

end Forest

namespace Evaluation

lemma restrict_ofForest {kept : FrameIndex → Bool} (rootName result : String) {f : Forest}
    (h : f.Marks kept 0) :
    (ofForest rootName result f).restrict kept = ofForest rootName result f.prune := by
  simp [restrict, ofForest, Forest.restrictFrom_frames h, Forest.renumber_ids h, rank]

/-- **Outside full mode exactly the frames that matter are kept**: the evaluation is that of full
mode, whose tree is the nesting of the stream and whose frames stand in the order of their ends,
restricted to the frames that matter, and with a frame what is around it is kept. -/
theorem ofEvents_restrict (rootName result : String) {es : List Event} (h : Balanced es) :
    ∃ (f : Forest) (whole : Evaluation) (kept : FrameIndex → Bool),
      f.events = es ∧ ofEvents true rootName result es = .ok whole ∧ whole.forest? = some f ∧
      (∀ before i inner, Spans es before i inner →
        whole.frames[endsBefore before inner]?.map (·.instantiation) = some i) ∧
      (∀ n, kept n = true ↔ Matters es n) ∧
      (∀ (n : FrameIndex) (frame : Frame), whole.frames[n]? = some frame →
        ∀ m ∈ frame.children, kept m = true → kept n = true) ∧
      ofEvents false rootName result es = .ok (whole.restrict kept) ∧
      (whole.restrict kept).forest? = some f.prune := by
  classical
  obtain ⟨f, rfl⟩ := balanced_iff.mp h
  have hmarks : f.Marks (fun n => decide (Matters f.events n)) 0 := fun k root below hk => by
    rw [Nat.zero_add, Bool.eq_iff_iff, decide_eq_true_iff, Forest.matters_iff hk]
  have hwhole := ofEvents_events true rootName result f
  have hpart := ofEvents_events false rootName result f
  have hrestrict := restrict_ofForest rootName result hmarks
  rw [Forest.trim_true] at hwhole
  rw [Forest.trim_false] at hpart
  refine ⟨f, _, _, rfl, hwhole, forest?_ofForest _ _ f, ?_, fun n => decide_eq_true_iff, ?_,
    by rw [hpart, hrestrict], by rw [hrestrict, forest?_ofForest]⟩
  · intro before i inner hs
    obtain ⟨below, hk, -⟩ := Forest.subtree_of_spans hs
    rw [ofForest, List.getElem?_toArray, ← List.getElem?_map, Forest.map_frames,
      ← Forest.map_subtrees, List.getElem?_map, hk, Option.map_some]
  · intro n frame hf m hm hk
    have := Forest.kept_of_child hmarks (by simpa [ofForest] using hf) hm hk
    simpa using this

theorem ofEvents_restrict_nested :
    Balanced nestedEvents ∧ ∃ whole kept,
      ofEvents true "root" "int" nestedEvents = .ok whole ∧
      (∀ n, kept n = true ↔ Matters nestedEvents n) ∧
      ofEvents false "root" "int" nestedEvents = .ok (whole.restrict kept) := by
  have hb : Balanced nestedEvents := by decide
  obtain ⟨f, whole, kept, -, hwhole, -, -, hkept, -, hpart, -⟩ :=
    ofEvents_restrict "root" "int" hb
  exact ⟨hb, whole, kept, hwhole, hkept, hpart⟩

end Evaluation

end TemplateTrace
