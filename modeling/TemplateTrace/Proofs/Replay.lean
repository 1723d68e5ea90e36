import TemplateTrace.Proofs.Growth

/-!
Putting the walk around a finished tree together again.

What is left outside full mode has no bookkeeping frame without something below it: a frame that
was kept for what is below it is kept for the same reason again. So nothing more is dropped from the
walk, in either mode, and the frames get the numbers that they had.
-/

namespace TemplateTrace

namespace Forest

/-- Every bookkeeping frame has something below it. -/
def Trimmed : Forest → Prop
  | nil => True
  | cons root below rest =>
    (root.kind.isBookkeeping = true → below ≠ nil) ∧ below.Trimmed ∧ rest.Trimmed

lemma trimmed_trim (f : Forest) : (f.trim false).Trimmed := by
  induction f with
  | nil => trivial
  | cons root below rest hb hr =>
    rw [trim]
    split
    · exact hr
    · next hkept => exact ⟨by simpa using hkept, hb, hr⟩

lemma Trimmed.trim_eq {f : Forest} (h : f.Trimmed) (full : Bool) : f.trim full = f := by
  induction f with
  | nil => rfl
  | cons root below rest hb hr =>
    obtain ⟨hroot, hbelow, hrest⟩ := h
    rw [trim, hb hbelow, hr hrest, if_neg]
    intro hdropped
    simp only [Bool.and_eq_true, decide_eq_true_eq] at hdropped
    exact hroot hdropped.1.2 hdropped.2

@[simp] lemma trim_trim (full : Bool) (f : Forest) : (f.trim full).trim full = f.trim full := by
  cases full with
  | true => simp
  | false => exact (trimmed_trim f).trim_eq false

end Forest

namespace Evaluation

/-- **The walk around the tree of an evaluation is put together to that evaluation**, in the mode that
it comes from and in full mode; outside full mode there is nothing left to drop. -/
theorem ofEvents_replay {full : Bool} {rootName result : String} {es : List Event} {e : Evaluation}
    (h : ofEvents full rootName result es = .ok e) :
    ∃ f, e.forest? = some f ∧ ofEvents full rootName result f.events = .ok e ∧
      ofEvents true rootName result f.events = .ok e ∧ (full = false → f.Trimmed) := by
  obtain ⟨f, -, rfl⟩ := ofEvents_eq_ok_iff.mp h
  refine ⟨f.trim full, forest?_ofForest rootName result _, ?_, ?_, ?_⟩
  · rw [ofEvents_events, Forest.trim_trim]
  · rw [ofEvents_events, Forest.trim_true]
  · rintro rfl
    exact f.trimmed_trim

/-- What is replayed is shorter than the stream, as three frames were dropped. -/
theorem ofEvents_replay_nested :
    ∃ e f, ofEvents false "root" "int" nestedEvents = .ok e ∧ e.forest? = some f ∧
      f.events ≠ nestedEvents ∧ ofEvents false "root" "int" f.events = .ok e ∧
      ofEvents true "root" "int" f.events = .ok e ∧ f.Trimmed := by
  obtain ⟨e, he⟩ : ∃ e, ofEvents false "root" "int" nestedEvents = .ok e := ⟨_, rfl⟩
  obtain ⟨f, hf, hsame, hfull, htrimmed⟩ := ofEvents_replay he
  refine ⟨e, f, he, hf, ?_, hsame, hfull, htrimmed rfl⟩
  rintro hevents
  -- in full mode the stream itself has more frames
  rw [hevents] at hfull
  obtain rfl := Except.ok.inj he
  exact absurd hfull (by decide +kernel)

end Evaluation

end TemplateTrace
