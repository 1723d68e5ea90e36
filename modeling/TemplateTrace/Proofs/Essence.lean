import TemplateTrace.Proofs.Beginnings
import TemplateTrace.Proofs.Tally

/-!
The summary and the frames that are no bookkeeping.

Outside full mode a bookkeeping frame is kept only for a frame below it that is none, and that frame
stands deeper. So the deepest of the kept frames is no bookkeeping, and neither is a kept frame
with nothing kept below it; the summary can be read off the frames of the full tree that are no
bookkeeping.

In full mode the summary can be read off the stream. A frame without children ends right after it has
begun, and a frame is as deep as there are frames open when it has begun.
-/

namespace TemplateTrace

/-- How often an end comes right after a beginning. -/
def immediateEnds (es : List Event) : Nat :=
  (es.zip es.tail).countP fun p => p.1.isOpening && !p.2.isOpening

@[simp] lemma immediateEnds_closes (es : List Event) :
    immediateEnds (.closes :: es) = immediateEnds es := by
  cases es <;> simp [immediateEnds, Event.isOpening]

@[simp] lemma immediateEnds_opens_closes (i : Instantiation) (es : List Event) :
    immediateEnds (.opens i :: .closes :: es) = immediateEnds es + 1 := by
  rw [← immediateEnds_closes es]
  simp [immediateEnds, Event.isOpening]

@[simp] lemma immediateEnds_opens_opens (i j : Instantiation) (es : List Event) :
    immediateEnds (.opens i :: .opens j :: es) = immediateEnds (.opens j :: es) := by
  simp [immediateEnds, Event.isOpening]

/-- A part of a list has the same maximum if it has nothing smaller for any number of the list. -/
lemma max?_getD_eq_of_subset {l l' : List Nat} (hsub : l ⊆ l') (h : ∀ b ∈ l', ∃ a ∈ l, b ≤ a) :
    l.max?.getD 0 = l'.max?.getD 0 := by
  cases hm : l'.max? with
  | none =>
    obtain rfl : l' = [] := List.max?_eq_none_iff.mp hm
    rw [List.subset_nil.mp hsub, List.max?_nil]
  | some m =>
    obtain ⟨hmem, hle⟩ := List.max?_eq_some_iff.mp hm
    obtain ⟨a, ha, hma⟩ := h m hmem
    obtain rfl : a = m := Nat.le_antisymm (hle a (hsub ha)) hma
    have hmax : l.max? = some a := List.max?_eq_some_iff.mpr ⟨ha, fun b hb => hle b (hsub hb)⟩
    rw [hmax]

/-! ### Beginnings in a stream -/

lemma mem_beginnings_iff {es : List Event} {b : Beginning} :
    b ∈ beginnings es ↔ b.upTo <+: es := by
  constructor
  · intro h
    obtain ⟨p, q, rfl, hb⟩ := split_of_mem_beginningsAfter h
    exact ⟨q, by simp [Beginning.upTo, hb]⟩
  · rintro ⟨rest, rfl⟩
    rw [beginnings, Beginning.upTo, beginningsAfter_append, beginningsAfter_append]
    simp [beginningsAfter]

/-- The largest number of frames that are open at once is reached where a frame begins. -/
lemma max?_open_inits (es : List Event) :
    (es.inits.map fun p => openings p - closings p).max? =
      some (((beginnings es).map (·.depth)).max?.getD 0) := by
  refine List.max?_eq_some_iff.mpr ⟨?_, fun m hm => ?_⟩
  · cases hm : ((beginnings es).map (·.depth)).max? with
    | none => exact List.mem_map.mpr ⟨[], by simp, rfl⟩
    | some d =>
      obtain ⟨b, hb, rfl⟩ := List.mem_map.mp (List.max?_mem hm)
      exact List.mem_map.mpr ⟨b.upTo, (List.mem_inits _ _).mpr (mem_beginnings_iff.mp hb), rfl⟩
  · obtain ⟨p, hp, rfl⟩ := List.mem_map.mp hm
    rw [List.mem_inits] at hp
    clear hm
    -- an end leaves fewer frames open than were open before it
    induction p using List.reverseRecOn with
    | nil => exact Nat.zero_le _
    | append_singleton p e ih =>
      cases e with
      | opens i =>
        have hb : (⟨p, i⟩ : Beginning) ∈ beginnings es := mem_beginnings_iff.mpr hp
        exact List.le_max?_getD_of_mem (List.mem_map_of_mem hb)
      | closes =>
        have hle := ih ((List.prefix_append p _).trans hp)
        simp only [openings_append, closings_append, openings_closes, closings_closes,
          openings_nil, closings_nil]
        omega

namespace Forest

/-- The frames that are no bookkeeping, each with what is below it. -/
def essentials (f : Forest) : List (Beginning × Forest) :=
  (f.nodes []).filter fun n => !n.1.instantiation.kind.isBookkeeping

variable {f below : Forest} {before : List Event} {b : Beginning}

/-! ### Depths -/

/-- What is below a node is in the forest. -/
lemma nodes_subset_of_mem (h : (b, below) ∈ f.nodes before) :
    below.nodes b.upTo ⊆ f.nodes before := by
  induction f generalizing before with
  | nil => simp [nodes] at h
  | cons root sub rest hb hr =>
    rw [nodes, List.mem_cons, List.mem_append] at h
    intro n hn
    rw [nodes, List.mem_cons, List.mem_append]
    rcases h with h | h | h
    · obtain ⟨rfl, rfl⟩ := Prod.mk.inj h
      exact .inr (.inl hn)
    · exact .inr (.inl (hb h hn))
    · exact .inr (.inr (hr h hn))

lemma depth_le_of_mem_nodes {n : Beginning × Forest} (h : n ∈ below.nodes b.upTo) :
    b.depth ≤ n.1.depth := by
  obtain ⟨p, hp, hle⟩ := split_of_mem_nodes h
  simp only [Beginning.depth, Beginning.upTo, hp, openings_append, closings_append,
    openings_opens, closings_opens, openings_nil, closings_nil]
  omega

lemma exists_mem_nodes_of_essential (before : List Event) (h : f.essential = true) :
    ∃ n ∈ f.nodes before, n.1.instantiation.kind.isBookkeeping = false := by
  induction f generalizing before with
  | nil => simp [essential, postorder] at h
  | cons root below rest hb hr =>
    rw [essential_cons, matters, Bool.or_assoc, Bool.or_eq_true, Bool.or_eq_true] at h
    rcases h with h | h | h
    · exact ⟨(⟨before, root⟩, below), by simp [nodes], by simpa using h⟩
    · obtain ⟨n, hn, hk⟩ := hb (before ++ [.opens root]) h
      exact ⟨n, by simp [nodes, hn], hk⟩
    · obtain ⟨n, hn, hk⟩ := hr (before ++ .opens root :: (below.events ++ [.closes])) h
      exact ⟨n, by simp [nodes, hn], hk⟩

/-- A frame that stays has a frame at its depth or below that is no bookkeeping. -/
lemma exists_essential_of_staying {n : Beginning × Forest} (h : n ∈ f.staying false []) :
    ∃ m ∈ f.essentials, n.1.depth ≤ m.1.depth := by
  obtain ⟨hn, hstays⟩ := List.mem_filter.mp h
  rw [stays, Bool.false_or, matters, Bool.or_eq_true] at hstays
  rcases hstays with hself | hbelow
  · exact ⟨n, List.mem_filter.mpr ⟨hn, hself⟩, Nat.le_refl _⟩
  · obtain ⟨m, hm, hk⟩ := exists_mem_nodes_of_essential n.1.upTo hbelow
    have hmem : m ∈ f.nodes [] := nodes_subset_of_mem hn hm
    exact ⟨m, List.mem_filter.mpr ⟨hmem, by simpa using hk⟩, depth_le_of_mem_nodes hm⟩

lemma essentials_subset_staying : f.essentials ⊆ f.staying false [] := by
  intro n hn
  obtain ⟨hmem, hk⟩ := List.mem_filter.mp hn
  exact List.mem_filter.mpr ⟨hmem, by simp [stays, matters, hk]⟩

lemma max_depth_staying (f : Forest) :
    ((f.staying false []).map (·.1.depth)).max?.getD 0 =
      (f.essentials.map (·.1.depth)).max?.getD 0 := by
  refine (max?_getD_eq_of_subset (List.map_subset _ essentials_subset_staying) fun d hd => ?_).symm
  obtain ⟨n, hn, rfl⟩ := List.mem_map.mp hd
  obtain ⟨m, hm, hle⟩ := exists_essential_of_staying hn
  exact ⟨m.1.depth, List.mem_map_of_mem hm, hle⟩

/-! ### Counts -/

@[simp] lemma width_eq_zero_iff : f.width = 0 ↔ f = nil := by cases f <;> simp [width]

/-- The lines of what is left are counted among the frames. -/
lemma countP_outline_trim (full : Bool) (f : Forest) (p : OutlineNode → Bool) :
    ((f.trim full).outline 1).countP p = (f.nodes []).countP fun n =>
      p ⟨n.1.instantiation.name, some n.1.instantiation.kind, n.1.depth, (n.2.trim full).width⟩ &&
        stays full n.1.instantiation n.2 := by
  rw [outline_trim full [] 1 f (by simp), List.countP_map, staying, List.countP_filter]
  rfl

/-- A frame that is left without children is no bookkeeping, and has nothing else below it. -/
lemma countP_leaves_trim (f : Forest) :
    ((f.trim false).outline 1).countP (·.children = 0) =
      f.essentials.countP fun n => !n.2.essential := by
  rw [countP_outline_trim, essentials, List.countP_filter]
  refine List.countP_congr fun n _ => ?_
  have hnil : n.2.trim false = nil ↔ n.2.essential = false := trim_false_eq_nil_iff
  cases he : n.2.essential <;> simp [stays, matters, hnil, he]

lemma width_trim (f : Forest) : (f.trim false).width =
    (f.nodes []).countP fun n => n.1.Under [] ∧ matters n.1.instantiation n.2 := by
  have hcount := countP_staying false [] [] (by simp [Balanced]) f
  rw [List.append_nil] at hcount
  rw [← hcount, staying, List.countP_filter]
  refine List.countP_congr fun n _ => ?_
  simp [stays]

/-! ### The walk around the forest -/

/-- A frame without children ends right after it has begun. -/
lemma immediateEnds_events_append (f : Forest) (es : List Event) (depth : Nat) :
    immediateEnds (f.events ++ es) =
      (f.outline depth).countP (·.children = 0) + immediateEnds es := by
  induction f generalizing es depth with
  | nil => simp [events, outline]
  | cons root below rest hb hr =>
    have hrest := hr es depth
    cases below with
    | nil =>
      have hends : immediateEnds ((cons root nil rest).events ++ es) =
          immediateEnds (rest.events ++ es) + 1 := by simp [events]
      have hlines : ((cons root nil rest).outline depth).countP (·.children = 0) =
          (rest.outline depth).countP (·.children = 0) + 1 := by simp [outline, width]
      omega
    | cons i sub others =>
      have hbelow := hb (.closes :: (rest.events ++ es)) (depth + 1)
      have hends : immediateEnds ((cons root (cons i sub others) rest).events ++ es) =
          immediateEnds ((cons i sub others).events ++ .closes :: (rest.events ++ es)) := by
        simp [events]
      have hlines : ((cons root (cons i sub others) rest).outline depth).countP (·.children = 0) =
          ((cons i sub others).outline (depth + 1)).countP (·.children = 0) +
            (rest.outline depth).countP (·.children = 0) := by
        rw [outline, List.countP_cons, List.countP_append]
        simp [width]
      rw [immediateEnds_closes] at hbelow
      omega

end Forest

namespace Evaluation

section Laid

variable (rootName result : String) (f : Forest)

lemma depth_summary_eq : (ofForest rootName result f).summary.depth =
    ((f.outline 1).map (·.depth)).max?.getD 0 := by
  have h := depth_summary_ofForest rootName result f
  rw [outline_ofForest, List.map_cons, List.max?_cons, Option.some.injEq] at h
  rw [← h]
  cases ((f.outline 1).map (·.depth)).max? <;> simp

lemma byKind_summary_trim (full : Bool) (k : Kind) :
    ((ofForest rootName result (f.trim full)).summary.byKind.lookup k).getD 0 =
      (f.nodes []).countP fun n => n.1.instantiation.kind = k ∧
        Forest.stays full n.1.instantiation n.2 := by
  rw [byKind_summary_ofForest, Forest.countP_outline_trim]
  refine List.countP_congr fun n _ => ?_
  simp

lemma depth_summary_trim (full : Bool) : (ofForest rootName result (f.trim full)).summary.depth =
    ((f.staying full []).map (·.1.depth)).max?.getD 0 := by
  rw [depth_summary_eq, Forest.outline_trim full [] 1 f (by simp), List.map_map]
  rfl

lemma leaves_summary_events :
    (ofForest rootName result f).summary.leaves = immediateEnds f.events := by
  have hwalk := f.immediateEnds_events_append [] 1
  rw [List.append_nil] at hwalk
  rw [leaves_summary_ofForest, hwalk]
  rfl

lemma depth_summary_events : (f.events.inits.map fun p => openings p - closings p).max? =
    some (ofForest rootName result f).summary.depth := by
  have hnodes : f.staying true [] = f.nodes [] := by simp [Forest.staying, Forest.stays]
  have hdepth := depth_summary_trim rootName result f true
  rw [Forest.trim_true, hnodes] at hdepth
  rw [max?_open_inits, hdepth, beginnings, Forest.beginningsAfter_events, List.map_map]
  rfl

end Laid

/-- **The summary is told by the frames that are no bookkeeping.** Outside full mode these frames are
all counted under their kinds, and of the others not more than in full mode; the deepest of them
has the depth of the whole, those with no other of them below are the leaves, and the frames at the
top that are or hold one of them are the roots. In full mode the stream itself tells how many frames
there are, how many have no children, and how deep they are nested. -/
theorem summary_of_essentials (rootName result : String) {es : List Event} (h : Balanced es) :
    ∃ (f : Forest) (whole part : Evaluation), f.events = es ∧
      ofEvents true rootName result es = .ok whole ∧ whole.forest? = some f ∧
      ofEvents false rootName result es = .ok part ∧
      (∀ k, k.isBookkeeping = false →
        (part.summary.byKind.lookup k).getD 0 = (whole.summary.byKind.lookup k).getD 0) ∧
      (∀ k, (part.summary.byKind.lookup k).getD 0 ≤ (whole.summary.byKind.lookup k).getD 0) ∧
      part.summary.depth = (f.essentials.map (·.1.depth)).max?.getD 0 ∧
      part.summary.leaves = f.essentials.countP (fun n => !n.2.essential) ∧
      part.summary.roots = (f.nodes []).countP (fun n =>
        n.1.Under [] ∧ Forest.matters n.1.instantiation n.2) ∧
      whole.summary.total = openings es ∧ whole.summary.leaves = immediateEnds es ∧
      (es.inits.map fun p => openings p - closings p).max? = some whole.summary.depth := by
  obtain ⟨f, rfl⟩ := balanced_iff.mp h
  have hwhole := ofEvents_events true rootName result f
  have hpart := ofEvents_events false rootName result f
  refine ⟨f, _, _, rfl, hwhole, ?_, hpart, fun k hk => ?_, fun k => ?_, ?_, ?_, ?_, ?_, ?_, ?_⟩
  · rw [Forest.trim_true, forest?_ofForest]
  · rw [byKind_summary_trim, byKind_summary_trim]
    refine List.countP_congr fun n _ => ?_
    have hstays (hn : n.1.instantiation.kind = k) : Forest.stays false n.1.instantiation n.2 := by
      simp [Forest.stays, Forest.matters, hn, hk]
    simpa [Forest.stays] using hstays
  · rw [byKind_summary_trim, byKind_summary_trim]
    refine List.countP_mono_left fun n _ => ?_
    simp +contextual [Forest.stays]
  · rw [depth_summary_trim, Forest.max_depth_staying]
  · rw [leaves_summary_ofForest, Forest.countP_leaves_trim]
  · rw [roots_summary_ofForest, Forest.width_trim]
  · rw [total_summary_ofForest, Forest.trim_true, Forest.openings_events]
  · rw [Forest.trim_true, leaves_summary_events]
  · rw [Forest.trim_true, depth_summary_events rootName result]

/-- Of eight frames five are kept, and of five leaves three. -/
theorem summary_of_essentials_nested :
    Balanced nestedEvents ∧ ∃ (f : Forest) (whole part : Evaluation), f.events = nestedEvents ∧
      ofEvents true "root" "int" nestedEvents = .ok whole ∧
      ofEvents false "root" "int" nestedEvents = .ok part ∧
      (part.summary.byKind.lookup .memoization).getD 0 =
        (whole.summary.byKind.lookup .memoization).getD 0 ∧
      (f.essentials.map (·.1.depth)).max?.getD 0 = 3 ∧
      f.essentials.countP (fun n => !n.2.essential) = 3 ∧
      whole.summary.total = 8 ∧ whole.summary.leaves = 5 ∧ whole.summary.depth = 3 := by
  have hb : Balanced nestedEvents := by decide
  obtain ⟨f, whole, part, hf, hwhole, -, hpart, hkind, -, hdepth, hleaves, -, htotal, hends, hopen⟩ :=
    summary_of_essentials "root" "int" hb
  have hsummary : part.summary = ⟨5, 2, 3, 3, [(.templateInstantiation, 3),
      (.deducedSubstitution, 1), (.memoization, 1)]⟩ := by
    obtain rfl := Except.ok.inj hpart
    rfl
  have hmax : (nestedEvents.inits.map fun p => openings p - closings p).max? = some 3 := by decide
  rw [hsummary] at hdepth hleaves
  refine ⟨hb, f, whole, part, hf, hwhole, hpart, hkind .memoization rfl, hdepth.symm, hleaves.symm,
    htotal.trans (by decide), hends.trans (by decide), ?_⟩
  exact Option.some.inj (hopen.symm.trans hmax)

end Evaluation

end TemplateTrace
