import TemplateTrace.Evaluation
import Mathlib.Data.List.Infix
import Mathlib.Tactic.Common

/-!
Ordered forests of instantiations, and the streams of events that write them down.

A node is written as its beginning, the events of what hangs below it, and its end. The streams
that come from forests are those in which every end has a beginning before it and nothing is left
open.
-/

namespace TemplateTrace

/-- An ordered forest: its first tree, by the root and the forest below the root, and the trees
after that one. -/
inductive Forest
  | nil
  | cons (root : Instantiation) (below rest : Forest)
  deriving DecidableEq

namespace Forest

def size : Forest → Nat
  | nil => 0
  | cons _ below rest => below.size + 1 + rest.size

/-- How many trees there are. -/
def width : Forest → Nat
  | nil => 0
  | cons _ _ rest => rest.width + 1

/-- The walk around the forest. -/
def events : Forest → List Event
  | nil => []
  | cons root below rest => .opens root :: (below.events ++ .closes :: rest.events)

/-- The nodes in the order in which they end. -/
def postorder : Forest → List Instantiation
  | nil => []
  | cons root below rest => below.postorder ++ root :: rest.postorder

@[simp] lemma length_postorder (f : Forest) : f.postorder.length = f.size := by
  induction f with
  | nil => rfl
  | cons root below rest hb hr => simp [postorder, size, hb, hr]; omega

end Forest

/-! ### Streams that nest -/

namespace Event

def isOpening : Event → Bool
  | opens _ => true
  | closes => false

end Event

/-- How many frames the events open. -/
def openings (es : List Event) : Nat := es.countP (·.isOpening)

/-- How many frames the events close. -/
def closings (es : List Event) : Nat := es.count .closes

/-- No frame is closed that is not open, if `n` frames were open before. -/
def Covered (n : Nat) (es : List Event) : Prop := ∀ p ∈ es.inits, closings p ≤ n + openings p

/-- The events close the frames that were open before, `n` of them, and all that they open. -/
def Closing (n : Nat) (es : List Event) : Prop :=
  (∀ p ∈ es.inits, closings p ≤ n + openings p) ∧ closings es = n + openings es

/-- No frame is closed that is not open, and in the end none is open. -/
def Balanced (es : List Event) : Prop := Closing 0 es

instance (n : Nat) (es : List Event) : Decidable (Closing n es) :=
  inferInstanceAs (Decidable (_ ∧ _))

instance (es : List Event) : Decidable (Balanced es) := inferInstanceAs (Decidable (Closing 0 es))

@[simp] lemma openings_append (es fs : List Event) :
    openings (es ++ fs) = openings es + openings fs := by simp [openings]

@[simp] lemma closings_append (es fs : List Event) :
    closings (es ++ fs) = closings es + closings fs := by simp [closings]

@[simp] lemma openings_opens (i : Instantiation) (es : List Event) :
    openings (.opens i :: es) = openings es + 1 := by simp [openings, Event.isOpening]

@[simp] lemma openings_closes (es : List Event) : openings (.closes :: es) = openings es := by
  simp [openings, Event.isOpening]

@[simp] lemma closings_opens (i : Instantiation) (es : List Event) :
    closings (.opens i :: es) = closings es := by simp [closings]

@[simp] lemma closings_closes (es : List Event) :
    closings (.closes :: es) = closings es + 1 := by simp [closings]

@[simp] lemma openings_nil : openings [] = 0 := rfl

@[simp] lemma closings_nil : closings [] = 0 := rfl

@[simp] lemma covered_nil {n : Nat} : Covered n [] := by simp [Covered]

@[simp] lemma covered_opens {n : Nat} {i : Instantiation} {es : List Event} :
    Covered n (.opens i :: es) ↔ Covered (n + 1) es := by
  simp only [Covered, List.inits_cons, List.mem_cons, List.mem_map, forall_eq_or_imp,
    forall_exists_index, and_imp, forall_apply_eq_imp_iff₂, openings_opens, closings_opens]
  simp [Nat.add_assoc, Nat.add_comm]

@[simp] lemma covered_closes {n : Nat} {es : List Event} :
    Covered n (.closes :: es) ↔ ∃ m, n = m + 1 ∧ Covered m es := by
  simp only [Covered, List.inits_cons, List.mem_cons, List.mem_map, forall_eq_or_imp,
    forall_exists_index, and_imp, forall_apply_eq_imp_iff₂, openings_closes, closings_closes]
  constructor
  · rintro ⟨-, h⟩
    have := h [] (by simp)
    rw [closings_nil, openings_nil] at this
    refine ⟨n - 1, by omega, fun p hp => ?_⟩
    have := h p hp
    omega
  · rintro ⟨m, rfl, h⟩
    refine ⟨by simp, fun p hp => ?_⟩
    have := h p hp
    omega

lemma closing_iff {n : Nat} {es : List Event} :
    Closing n es ↔ Covered n es ∧ closings es = n + openings es := Iff.rfl

@[simp] lemma closing_nil {n : Nat} : Closing n [] ↔ n = 0 := by
  simp [closing_iff, eq_comm]

@[simp] lemma closing_opens {n : Nat} {i : Instantiation} {es : List Event} :
    Closing n (.opens i :: es) ↔ Closing (n + 1) es := by
  simp [closing_iff, Nat.add_assoc, Nat.add_comm]

@[simp] lemma closing_closes {n : Nat} {es : List Event} :
    Closing n (.closes :: es) ↔ ∃ m, n = m + 1 ∧ Closing m es := by
  simp only [closing_iff, covered_closes, closings_closes, openings_closes]
  constructor
  · rintro ⟨⟨m, rfl, h⟩, he⟩
    exact ⟨m, rfl, h, by omega⟩
  · rintro ⟨m, rfl, h, he⟩
    exact ⟨⟨m, rfl, h⟩, by omega⟩

/-- The events of a forest open nothing that they leave open. -/
lemma closing_events_append {n : Nat} (f : Forest) (es : List Event) :
    Closing n (f.events ++ es) ↔ Closing n es := by
  induction f generalizing n es with
  | nil => rfl
  | cons root below rest hb hr => simp [Forest.events, hb, hr]

/-- What comes first in a stream that closes what is open is a forest. -/
lemma exists_forest_append {n : Nat} {es : List Event} (h : Closing n es) :
    ∃ (f : Forest) (fs : List Event), es = f.events ++ fs ∧
      (n = 0 ∧ fs = [] ∨ ∃ m gs, n = m + 1 ∧ fs = .closes :: gs ∧ Closing m gs) := by
  -- a beginning splits the stream twice: at its own end, and at the end of what is around it
  induction hl : es.length using Nat.strong_induction_on generalizing n es with
  | _ l ih =>
    subst hl
    match es, h with
    | [], h => exact ⟨.nil, [], rfl, .inl ⟨by simpa using h, rfl⟩⟩
    | .closes :: es, h =>
      obtain ⟨m, rfl, hm⟩ := closing_closes.mp h
      exact ⟨.nil, .closes :: es, rfl, .inr ⟨m, es, rfl, rfl, hm⟩⟩
    | .opens i :: es, h =>
      obtain ⟨below, fs, rfl, ⟨h0, -⟩ | ⟨m, gs, hm, rfl, hgs⟩⟩ :=
        ih es.length (by simp) (closing_opens.mp h) rfl
      · omega
      obtain rfl : n = m := by omega
      obtain ⟨rest, hs, rfl, hrest⟩ := ih gs.length (by simp; omega) hgs rfl
      exact ⟨.cons i below rest, hs, by simp [Forest.events], hrest⟩

/-- The balanced streams are those of forests. -/
lemma balanced_iff {es : List Event} : Balanced es ↔ ∃ f : Forest, f.events = es := by
  constructor
  · intro h
    obtain ⟨f, fs, rfl, ⟨-, rfl⟩ | ⟨m, gs, hm, -⟩⟩ := exists_forest_append h
    · exact ⟨f, by simp⟩
    · omega
  · rintro ⟨f, rfl⟩
    have := closing_events_append (n := 0) f []
    simpa [Balanced] using this

/-! ### A stream for trying things out -/

/-- The beginning of a frame at the first line of a file. -/
def Event.begins (kind : Kind) (name : String) : Event := .opens ⟨kind, name, "fib.hpp", 1, none⟩

/-- A frame with four children: bookkeeping with nothing below it, bookkeeping around a frame that
is none, bookkeeping around bookkeeping, and a memoized frame; and a frame after it. -/
def nestedEvents : List Event :=
  [.begins .templateInstantiation "a",
    .begins .explicitSubstitution "leaf", .closes,
    .begins .deducedSubstitution "kept", .begins .templateInstantiation "inner", .closes, .closes,
    .begins .priorSubstitution "empty", .begins .defaultArgumentChecking "child", .closes, .closes,
    .begins .memoization "b", .closes, .closes,
    .begins .templateInstantiation "c", .closes]

end TemplateTrace
