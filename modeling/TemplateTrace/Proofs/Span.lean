import TemplateTrace.Proofs.Forest

/-!
The stretch of a stream from the beginning of a frame to its end.

A frame is known by how many frames end before it: in a stream no two stretches have the same
number, and in the walk around a forest the stretch with number `k` belongs to the node that is
`k`-th to end, with the walk around what is below the node inside.
-/

namespace TemplateTrace

/-- In the stream the frame of `i` begins after the events `before`, and ends after the events
`inner`, in which everything that begins ends. -/
structure Spans (es before : List Event) (i : Instantiation) (inner : List Event) : Prop where
  split : ∃ after, es = before ++ .opens i :: (inner ++ .closes :: after)
  nested : Balanced inner

/-- How many frames end before the one that begins after `before` and has `inner` inside. -/
def endsBefore (before inner : List Event) : Nat := closings before + closings inner

/-! ### Numbers are unique -/

/-- Two ends with the same number are one. -/
lemma eq_of_closes {p q p' q' : List Event} (h : p ++ .closes :: q = p' ++ .closes :: q')
    (hc : closings p = closings p') : p = p' := by
  rcases List.append_eq_append_iff.mp h with ⟨a, rfl, ha⟩ | ⟨a, rfl, ha⟩
  · rcases a with _ | ⟨x, a⟩
    · simp
    · obtain ⟨rfl, -⟩ := List.cons.inj ha
      simp at hc
  · rcases a with _ | ⟨x, a⟩
    · simp
    · obtain ⟨rfl, -⟩ := List.cons.inj ha
      simp at hc

/-- A frame that begins inside another does not end where the other does. -/
lemma not_balanced_of_opens {a inner : List Event} {i : Instantiation}
    (h : Balanced (a ++ .opens i :: inner)) : ¬ Balanced inner := by
  intro hi
  have hprefix := h.1 a (by simp)
  have hwhole := h.2
  have hinner := hi.2
  simp at hprefix hwhole hinner
  omega

lemma eq_of_opens {before before' inner inner' : List Event} {i i' : Instantiation}
    (h : before ++ .opens i :: inner = before' ++ .opens i' :: inner') (hi : Balanced inner)
    (hi' : Balanced inner') : before = before' ∧ i = i' ∧ inner = inner' := by
  rcases List.append_eq_append_iff.mp h with ⟨a, rfl, ha⟩ | ⟨a, rfl, ha⟩
  · rcases a with _ | ⟨x, a⟩
    · simpa using ha
    · obtain ⟨-, rfl⟩ := List.cons.inj ha
      exact absurd hi' (not_balanced_of_opens hi)
  · rcases a with _ | ⟨x, a⟩
    · simpa [eq_comm] using ha
    · obtain ⟨-, rfl⟩ := List.cons.inj ha
      exact absurd hi (not_balanced_of_opens hi')

lemma Spans.unique {es before before' inner inner' : List Event} {i i' : Instantiation}
    (h : Spans es before i inner) (h' : Spans es before' i' inner')
    (hn : endsBefore before inner = endsBefore before' inner') :
    before = before' ∧ i = i' ∧ inner = inner' := by
  obtain ⟨⟨after, rfl⟩, hi⟩ := h
  obtain ⟨⟨after', he⟩, hi'⟩ := h'
  have hsplit : (before ++ .opens i :: inner) ++ .closes :: after =
      (before' ++ .opens i' :: inner') ++ .closes :: after' := by simpa using he
  exact eq_of_opens (eq_of_closes hsplit (by simpa [endsBefore] using hn)) hi hi'

/-! ### The stretches of a forest -/

namespace Forest

/-- The nodes in the order in which they end, each with what is below it. -/
def subtrees : Forest → List (Instantiation × Forest)
  | nil => []
  | cons root below rest => below.subtrees ++ (root, below) :: rest.subtrees

@[simp] lemma map_subtrees (f : Forest) : f.subtrees.map (·.1) = f.postorder := by
  induction f with
  | nil => rfl
  | cons root below rest hb hr => simp [subtrees, postorder, hb, hr]

@[simp] lemma length_subtrees (f : Forest) : f.subtrees.length = f.size := by
  rw [← length_postorder, ← map_subtrees, List.length_map]

@[simp] lemma closings_events (f : Forest) : closings f.events = f.size := by
  induction f with
  | nil => rfl
  | cons root below rest hb hr => simp [events, size, hb, hr]; omega

lemma balanced_events (f : Forest) : Balanced f.events := balanced_iff.mpr ⟨f, rfl⟩

/-- Every node has its stretch, wherever the forest stands in the stream. -/
lemma spans_of_subtree {f below : Forest} {k : Nat} {i : Instantiation} (before after : List Event)
    (h : f.subtrees[k]? = some (i, below)) :
    ∃ lead, Spans (before ++ f.events ++ after) lead i below.events ∧
      endsBefore lead below.events = closings before + k := by
  induction f generalizing k before after with
  | nil => simp [subtrees] at h
  | cons root sub rest hb hr =>
    rw [subtrees, List.getElem?_append] at h
    split at h
    · -- the node is below the root
      obtain ⟨lead, hs, hn⟩ := hb (before ++ [.opens root]) (.closes :: (rest.events ++ after)) h
      exact ⟨lead, by simpa [events] using hs, by simpa using hn⟩
    · next hk =>
      simp only [length_subtrees] at h hk
      obtain hk | ⟨k', hk'⟩ : k - sub.size = 0 ∨ ∃ k', k - sub.size = k' + 1 := by
        cases k - sub.size with
        | zero => exact .inl rfl
        | succ k' => exact .inr ⟨k', rfl⟩
      · -- the node is the root
        obtain ⟨rfl, rfl⟩ : root = i ∧ sub = below := by simpa [hk] using h
        refine ⟨before, ⟨⟨rest.events ++ after, by simp [events]⟩, balanced_events sub⟩, ?_⟩
        simp [endsBefore]
        omega
      · -- the node comes after the first tree
        rw [hk', List.getElem?_cons_succ] at h
        obtain ⟨lead, hs, hn⟩ :=
          hr (before ++ .opens root :: (sub.events ++ [.closes])) after h
        refine ⟨lead, by simpa [events] using hs, hn.trans ?_⟩
        simp
        omega

/-- The stretches of the walk around the forest are those of its nodes. -/
lemma subtree_of_spans {f : Forest} {before inner : List Event} {i : Instantiation}
    (h : Spans f.events before i inner) :
    ∃ below, f.subtrees[endsBefore before inner]? = some (i, below) ∧ below.events = inner := by
  have hlt : endsBefore before inner < f.subtrees.length := by
    obtain ⟨⟨after, he⟩, -⟩ := h
    have := congrArg closings he
    simp at this
    simp [endsBefore]
    omega
  obtain ⟨⟨j, below⟩, hj⟩ : ∃ node, f.subtrees[endsBefore before inner]? = some node :=
    ⟨_, List.getElem?_eq_getElem hlt⟩
  obtain ⟨lead, hs, hn⟩ := spans_of_subtree [] [] hj
  obtain ⟨-, rfl, rfl⟩ := Spans.unique (by simpa using hs) h (by simpa using hn)
  exact ⟨below, hj, rfl⟩

end Forest

end TemplateTrace
