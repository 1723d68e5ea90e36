import TemplateTrace.Proofs.Acceptance
import TemplateTrace.Proofs.Essence

/-!
What hangs below memoized frames.

A memoized frame stands for a result that was there already, and one might expect it to be a leaf. But
frames are put together without regard to it: what begins before the memoized frame has ended hangs
below it like below any other frame that is no bookkeeping. So the memoized frames are leaves exactly
if the stream itself has nothing inside them, apart from bookkeeping that is left out.
-/

namespace TemplateTrace

/-- Nothing that begins in the stretch is left: all of it is bookkeeping, and that is left out. -/
def Vanishes (full : Bool) (inner : List Event) : Prop :=
  ∀ j, .opens j ∈ inner → full = false ∧ j.kind.isBookkeeping = true

namespace Forest

variable {full : Bool} {f : Forest} {kind : Kind}

lemma trim_eq_nil_iff : f.trim full = nil ↔ Vanishes full f.events := by
  cases full with
  | true =>
    rw [trim_true]
    constructor
    · rintro rfl
      simp [Vanishes, events]
    · intro h
      cases f with
      | nil => rfl
      | cons root below rest => cases (h root (by simp [events])).1
  | false => simp [trim_false_eq_nil_iff, essential, Vanishes, mem_postorder_iff]

/-- A node of a forest stands for the stretch of the walk that goes around what is below it. -/
lemma spans_of_node {b : Beginning} {below : Forest} (hn : (b, below) ∈ f.nodes []) :
    Spans f.events b.before b.instantiation below.events := by
  simpa using spans_of_mem_nodes [] hn

lemma exists_node_of_spans {before inner : List Event} {i : Instantiation}
    (h : Spans f.events before i inner) :
    ∃ below, (⟨before, i⟩, below) ∈ f.nodes [] ∧ below.events = inner := by
  have hb : (⟨before, i⟩ : Beginning) ∈ beginnings f.events := by
    obtain ⟨after, hsplit⟩ := h.split
    exact mem_beginnings_iff.mpr ⟨inner ++ .closes :: after, by simp [Beginning.upTo, hsplit]⟩
  rw [beginnings, beginningsAfter_events] at hb
  obtain ⟨⟨b, below⟩, hn, rfl⟩ := List.mem_map.mp hb
  exact ⟨below, hn, (spans_of_node hn).inner_unique h⟩

/-- Frames of a kind that is never left out have nothing below them in the outline exactly if nothing
is left of what begins inside them. -/
lemma childless_outline_iff (full : Bool) (f : Forest) (hkind : kind.isBookkeeping = false) :
    (∀ o ∈ (f.trim full).outline 1, o.kind = some kind → o.children = 0) ↔
      ∀ before i inner, Spans f.events before i inner → i.kind = kind → Vanishes full inner := by
  rw [outline_trim full [] 1 f (by simp)]
  constructor
  · intro h before i inner hs hi
    obtain ⟨below, hn, rfl⟩ := exists_node_of_spans hs
    have hstays : (⟨before, i⟩, below) ∈ f.staying full [] :=
      List.mem_filter.mpr ⟨hn, by simp [stays, matters, hi, hkind]⟩
    have hwidth := h _ (List.mem_map_of_mem hstays) (by simp [hi])
    exact trim_eq_nil_iff.mp (width_eq_zero_iff.mp hwidth)
  · rintro h o ho hk
    obtain ⟨n, hn, rfl⟩ := List.mem_map.mp ho
    have hs := spans_of_node (List.mem_of_mem_filter hn)
    exact width_eq_zero_iff.mpr (trim_eq_nil_iff.mpr (h _ _ _ hs (Option.some.inj hk)))

lemma childless_frames_iff (n depth : Nat) :
    (∀ frame ∈ f.frames n, frame.instantiation.kind = kind → frame.children = #[]) ↔
      ∀ o ∈ f.outline depth, o.kind = some kind → o.children = 0 := by
  have hperm := f.outline_perm_frames n depth
  have houtline : (∀ o ∈ f.outline depth, o.kind = some kind → o.children = 0) ↔
      ∀ p ∈ (f.outline depth).map fun o => (o.kind, o.children), p.1 = some kind → p.2 = 0 := by
    simp
  rw [houtline]
  simp [hperm.mem_iff]

end Forest

def Trace.unfolded : Trace where
  entries := [
    { opening := some
        ⟨8, { literal := some "fib<1>" }, { fileId := 0, fileName := some "fib.hpp", line := 3 }⟩ },
    { opening := some ⟨0, { literal := some "fib<0>" }, { fileId := 0, line := 4 }⟩ },
    { closing := true }, { closing := true }]

namespace Evaluation

/-- **Memoized frames are leaves exactly if nothing is left of what begins inside them**, in the table
as in the outline. -/
theorem memoized_childless_iff {v : View} {t : Trace} {e : Evaluation} (h : ofTrace v t = .ok e) :
    ∃ es, t.events v.strict = .ok es ∧
      ((∀ frame ∈ e.frames, frame.instantiation.kind = .memoization → frame.children = #[]) ↔
        ∀ before i inner, Spans es before i inner → i.kind = .memoization →
          Vanishes v.full inner) ∧
      ((∀ o ∈ e.outline, o.kind = some .memoization → o.children = 0) ↔
        ∀ before i inner, Spans es before i inner → i.kind = .memoization →
          Vanishes v.full inner) := by
  obtain ⟨es, hes, he⟩ := exists_events_of_ofTrace h
  obtain ⟨f, rfl, rfl⟩ := ofEvents_eq_ok_iff.mp he
  have hkind : Kind.memoization.isBookkeeping = false := rfl
  have houtline := Forest.childless_outline_iff v.full f hkind
  refine ⟨_, hes, ?_, ?_⟩
  · rw [← houtline, ← Forest.childless_frames_iff 0 1]
    simp [ofForest]
  · rw [← houtline, outline_ofForest]
    simp

/-- Inside the memoized frame another one begins that is left in either mode. -/
theorem memoized_childless_iff_unfolded :
    ∃ e es, ofTrace ⟨true, false, "root", ""⟩ .unfolded = .ok e ∧
      Trace.unfolded.events true = .ok es ∧
      ¬ ∀ before i inner, Spans es before i inner → i.kind = .memoization →
        Vanishes false inner := by
  have he : ofTrace ⟨true, false, "root", ""⟩ .unfolded =
      .ok ⟨"root", "", #[⟨⟨.templateInstantiation, "fib<0>", "fib.hpp", 4, none⟩, #[]⟩,
        ⟨⟨.memoization, "fib<1>", "fib.hpp", 3, none⟩, #[0]⟩], #[1]⟩ := rfl
  obtain ⟨es, hes, hframes, -⟩ := memoized_childless_iff he
  refine ⟨_, es, he, hes, ?_⟩
  rw [← hframes]
  simp

/-- A memoized frame is no leaf if the trace has another frame inside. -/
theorem memoized_expanded :
    ∃ e, ofTrace ⟨true, true, "fib<1>::value", ""⟩ .unfolded = .ok e ∧
      ∃ frame ∈ e.frames, frame.instantiation.kind = .memoization ∧ frame.children = #[0] := by
  have he : ofTrace ⟨true, true, "fib<1>::value", ""⟩ .unfolded =
      .ok ⟨"fib<1>::value", "", #[⟨⟨.templateInstantiation, "fib<0>", "fib.hpp", 4, none⟩, #[]⟩,
        ⟨⟨.memoization, "fib<1>", "fib.hpp", 3, none⟩, #[0]⟩], #[1]⟩ := rfl
  exact ⟨_, he, ⟨⟨.memoization, "fib<1>", "fib.hpp", 3, none⟩, #[0]⟩, by simp, rfl, rfl⟩

end Evaluation

end TemplateTrace
