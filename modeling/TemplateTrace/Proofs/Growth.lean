import TemplateTrace.Evaluation.Assembly
import TemplateTrace.Proofs.Table

/-!
What the assembly makes of a stream of events.

The events of a forest add the frames of the forest to the table, from its present end on, and hang
the roots under the innermost open frame. Outside full mode the forest is trimmed first, from the
leaves upward. So the evaluations that come from streams are the trimmed forests, laid out.
-/

namespace TemplateTrace

/-- The forest without the bookkeeping frames that have nothing below them once what is below them
is trimmed; in full mode nothing is taken away. -/
def Forest.trim (full : Bool) : Forest → Forest
  | nil => nil
  | cons root below rest =>
    if !full && root.kind.isBookkeeping && below.trim full = nil then rest.trim full
    else cons root (below.trim full) (rest.trim full)

@[simp] lemma Forest.trim_true (f : Forest) : f.trim true = f := by
  induction f with
  | nil => rfl
  | cons root below rest hb hr => simp [Forest.trim, hb, hr]

namespace Assembly

/-- Hangs finished frames under the innermost open frame, or among the roots, in order. -/
def attachAll (a : Assembly) (ids : List FrameIndex) : Assembly :=
  match a.stack with
  | [] => { a with roots := a.roots ++ ids.toArray }
  | parent :: outer =>
    { a with stack := { parent with children := parent.children ++ ids.toArray } :: outer }

/-- The assembly with the forest laid out at the end of its table and hung in. -/
def graft (a : Assembly) (f : Forest) : Assembly :=
  { a with frames := a.frames ++ (f.frames a.frames.size).toArray }.attachAll
    (f.ids a.frames.size)

/-- The assembly when so many more events were handled. -/
def advance (a : Assembly) (n : Nat) : Assembly := { a with handled := a.handled + n }

@[simp] lemma graft_nil (a : Assembly) : a.graft .nil = a := by
  obtain ⟨full, frames, roots, _ | ⟨parent, outer⟩, handled⟩ := a <;>
    simp [graft, attachAll, Forest.frames, Forest.ids]

@[simp] lemma graft_full (a : Assembly) (f : Forest) : (a.graft f).full = a.full := by
  unfold graft attachAll
  split <;> rfl

@[simp] lemma advance_full (a : Assembly) (n : Nat) : (a.advance n).full = a.full := rfl

/-- The trees after the first one are hung in after it. -/
lemma graft_graft (a : Assembly) (root : Instantiation) (below rest : Forest) :
    (a.graft (.cons root below .nil)).graft rest = a.graft (.cons root below rest) := by
  obtain ⟨full, frames, roots, _ | ⟨parent, outer⟩, handled⟩ := a <;>
    simp [graft, attachAll, Forest.frames, Forest.ids, Nat.add_assoc]

lemma advance_advance (a : Assembly) (m n : Nat) :
    (a.advance m).advance n = a.advance (m + n) := by
  simp [advance, Nat.add_assoc]

lemma graft_advance (a : Assembly) (f : Forest) (n : Nat) :
    (a.advance n).graft f = (a.graft f).advance n := by
  obtain ⟨full, frames, roots, _ | ⟨parent, outer⟩, handled⟩ := a <;>
    simp [graft, attachAll, advance]

/-- The assembly with one more frame open, below which the forest hangs. -/
def opened (a : Assembly) (root : Instantiation) (below : Forest) : Assembly :=
  { a with
    frames := a.frames ++ (below.frames a.frames.size).toArray
    stack := ⟨root, (below.ids a.frames.size).toArray⟩ :: a.stack }

@[simp] lemma opened_full (a : Assembly) (root : Instantiation) (below : Forest) :
    (a.opened root below).full = a.full := rfl

lemma step_opens (a : Assembly) (root : Instantiation) :
    a.step (.opens root) = (.ok (), (a.opened root .nil).advance 1) := by
  simp [step, opened, advance, Forest.frames, Forest.ids]

lemma graft_opened (a : Assembly) (root : Instantiation) (below : Forest) :
    (a.opened root .nil).graft below = a.opened root below := by
  simp [opened, graft, attachAll, Forest.frames, Forest.ids]

lemma drops_iff (full : Bool) (n : Nat) (root : Instantiation) (below : Forest) :
    drops full ⟨root, (below.ids n).toArray⟩ =
      (!full && root.kind.isBookkeeping && decide (below = .nil)) := by
  cases below <;> simp [drops, Forest.ids]

/-- The end of the frame puts it and what hangs below it where a trimmed tree goes. -/
lemma step_closes (a : Assembly) (root : Instantiation) (below : Forest) (n : Nat) :
    ((a.opened root (below.trim a.full)).advance n).step .closes =
      (.ok (), (a.graft ((Forest.cons root below .nil).trim a.full)).advance (n + 1)) := by
  simp only [step, opened, advance, enter, Forest.trim, drops_iff]
  by_cases hd : (!a.full && root.kind.isBookkeeping && decide (below.trim a.full = .nil)) = true
  · have hnil : below.trim a.full = .nil := by simpa using (Bool.and_eq_true_iff.mp hd).2
    rw [if_pos hd, if_pos hd, graft_nil, hnil]
    simp [Forest.frames, Nat.add_assoc]
  · rw [if_neg hd, if_neg hd]
    rcases hs : a.stack with _ | ⟨parent, outer⟩ <;>
      simp [attach, graft, attachAll, Forest.frames, Forest.ids, hs, Nat.add_assoc]

lemma trim_cons_graft (a : Assembly) (root : Instantiation) (below rest : Forest) :
    (a.graft ((Forest.cons root below .nil).trim a.full)).graft (rest.trim a.full) =
      a.graft ((Forest.cons root below rest).trim a.full) := by
  simp only [Forest.trim]
  split
  · rw [graft_nil]
  · rw [graft_graft]

/-- **The events of a forest graft it, trimmed.** -/
lemma feed_events (a : Assembly) (f : Forest) (es : List Event) :
    a.feed (f.events ++ es) = ((a.graft (f.trim a.full)).advance f.events.length).feed es := by
  induction f generalizing a es with
  | nil => simp [Forest.events, Forest.trim, advance]
  | cons root below rest hb hr =>
    calc a.feed ((Forest.cons root below rest).events ++ es)
        = ((a.opened root .nil).advance 1).feed
            (below.events ++ .closes :: (rest.events ++ es)) := by
          simp [Forest.events, feed, step_opens]
      _ = ((a.opened root (below.trim a.full)).advance (1 + below.events.length)).feed
            (.closes :: (rest.events ++ es)) := by
          rw [hb, graft_advance, advance_advance, advance_full, opened_full, graft_opened]
      _ = ((a.graft ((Forest.cons root below .nil).trim a.full)).advance
            (1 + below.events.length + 1)).feed (rest.events ++ es) := by
          rw [feed, step_closes]
      _ = ((a.graft ((Forest.cons root below rest).trim a.full)).advance
            (1 + below.events.length + 1 + rest.events.length)).feed es := by
          rw [hr, graft_advance, advance_advance, advance_full, graft_full, trim_cons_graft]
      _ = _ := by
          congr 2
          simp only [Forest.events, List.length_cons, List.length_append]
          omega

/-- A frame that has ended leaves the open frames open, whatever hangs below them now. -/
lemma map_stack_enter (a : Assembly) (f : UnfinishedFrame) :
    (a.enter f).stack.map (·.instantiation) = a.stack.map (·.instantiation) := by
  unfold enter attach
  split
  · rfl
  · split <;> simp_all

lemma length_stack_enter (a : Assembly) (f : UnfinishedFrame) :
    (a.enter f).stack.length = a.stack.length := by
  simpa using congrArg List.length (map_stack_enter a f)

lemma handled_enter (a : Assembly) (f : UnfinishedFrame) : (a.enter f).handled = a.handled := by
  unfold enter attach
  split
  · rfl
  · split <;> rfl

/-- A stream that is taken to the end closes only what is open, and leaves the rest open. -/
lemma covered_of_feed {a b : Assembly} {es : List Event} (h : a.feed es = .ok b) :
    Covered a.stack.length es ∧
      b.stack.length + closings es = a.stack.length + openings es := by
  induction es generalizing a with
  | nil =>
    obtain rfl : a = b := Except.ok.inj h
    simp
  | cons e es ih =>
    cases e with
    | opens i =>
      obtain ⟨hcovered, hcount⟩ := ih h
      simp only [List.length_cons] at hcovered hcount
      rw [covered_opens, openings_opens, closings_opens]
      exact ⟨hcovered, by omega⟩
    | closes =>
      rcases hs : a.stack with _ | ⟨f, outer⟩
      · simp [feed, step, hs] at h
      · simp only [feed, step, hs] at h
        obtain ⟨hcovered, hcount⟩ := ih h
        simp only [length_stack_enter] at hcovered hcount
        rw [covered_closes, openings_closes, closings_closes, List.length_cons]
        exact ⟨⟨outer.length, rfl, hcovered⟩, by omega⟩

/-- A stream is refused at the first end for which no frame is open, by the number that the end has
among all events. -/
lemma split_of_feed_error {a : Assembly} {es : List Event} {failure : Failure}
    (h : a.feed es = .error failure) :
    ∃ before after, es = before ++ .closes :: after ∧ Closing a.stack.length before ∧
      failure = .unbalanced (some (a.handled + before.length)) 0 := by
  induction es generalizing a with
  | nil => simp [feed] at h
  | cons e es ih =>
    cases e with
    | opens i =>
      obtain ⟨before, after, rfl, hbefore, rfl⟩ := ih h
      refine ⟨.opens i :: before, after, rfl, closing_opens.mpr hbefore, ?_⟩
      simp only [List.length_cons, Failure.unbalanced.injEq, Option.some.injEq, and_true]
      omega
    | closes =>
      rcases hs : a.stack with _ | ⟨f, outer⟩
      · simp only [feed, step, hs] at h
        exact ⟨[], es, rfl, closing_nil.mpr rfl, (Except.error.inj h).symm⟩
      · simp only [feed, step, hs] at h
        obtain ⟨before, after, rfl, hbefore, rfl⟩ := ih h
        rw [length_stack_enter] at hbefore
        refine ⟨.closes :: before, after, rfl, closing_closes.mpr ⟨_, rfl, hbefore⟩, ?_⟩
        simp only [handled_enter, List.length_cons, Failure.unbalanced.injEq, Option.some.injEq,
          and_true]
        omega

end Assembly

namespace Evaluation

lemma ofEvents_events (full : Bool) (rootName result : String) (f : Forest) :
    ofEvents full rootName result f.events = .ok (ofForest rootName result (f.trim full)) := by
  have h := Assembly.feed_events { full } f []
  rw [List.append_nil, Assembly.feed] at h
  simp [ofEvents, h, Assembly.finish, Assembly.graft, Assembly.attachAll, Assembly.advance,
    ofForest]

/-- The evaluations that come from streams are the trimmed forests. -/
lemma ofEvents_eq_ok_iff {full : Bool} {rootName result : String} {es : List Event}
    {e : Evaluation} : ofEvents full rootName result es = .ok e ↔
      ∃ f : Forest, f.events = es ∧ e = ofForest rootName result (f.trim full) := by
  constructor
  · intro h
    have hb : Balanced es := by
      unfold ofEvents at h
      split at h
      · simp at h
      · next a ha =>
        unfold Assembly.finish at h
        split at h
        · next hs =>
          obtain ⟨hcovered, hcount⟩ := Assembly.covered_of_feed ha
          rw [List.isEmpty_iff.mp hs, List.length_nil, Nat.zero_add] at hcount
          exact closing_iff.mpr ⟨hcovered, hcount⟩
        · simp at h
    obtain ⟨f, rfl⟩ := balanced_iff.mp hb
    rw [ofEvents_events] at h
    exact ⟨f, rfl, (Except.ok.inj h).symm⟩
  · rintro ⟨f, rfl, rfl⟩
    exact ofEvents_events full rootName result f

lemma exists_ofEvents_iff {full : Bool} {rootName result : String} {es : List Event} :
    (∃ e, ofEvents full rootName result es = .ok e) ↔ Balanced es := by
  rw [balanced_iff]
  constructor
  · rintro ⟨e, h⟩
    obtain ⟨f, hf, -⟩ := ofEvents_eq_ok_iff.mp h
    exact ⟨f, hf⟩
  · rintro ⟨f, rfl⟩
    exact ⟨_, ofEvents_events full rootName result f⟩

/-- A stream is refused where a frame ends that is not open, or in the end if frames are open. -/
lemma of_ofEvents_eq_error {full : Bool} {rootName result : String} {es : List Event}
    {failure : Failure} (h : ofEvents full rootName result es = .error failure) :
    (∃ before after, es = before ++ .closes :: after ∧ Balanced before ∧
        failure = .unbalanced (some before.length) 0) ∨
      Covered 0 es ∧ ∃ n, 0 < n ∧ openings es = closings es + n ∧
        failure = .unbalanced none n := by
  unfold ofEvents at h
  cases hfeed : Assembly.feed { full } es with
  | error cause =>
    obtain rfl : cause = failure := by simpa [hfeed] using h
    obtain ⟨before, after, hsplit, hbefore, rfl⟩ := Assembly.split_of_feed_error hfeed
    exact .inl ⟨before, after, hsplit, hbefore, by simp⟩
  | ok a =>
    obtain ⟨hcovered, hcount⟩ := Assembly.covered_of_feed hfeed
    simp only [hfeed, Assembly.finish] at h
    split at h
    · simp at h
    · next hopen =>
      have hpos : 0 < a.stack.length :=
        List.length_pos_iff.mpr fun hnil => hopen (List.isEmpty_iff.mpr hnil)
      rw [List.length_nil] at hcount
      exact .inr ⟨hcovered, a.stack.length, hpos, by omega, (Except.error.inj h).symm⟩

/-- **In full mode nothing is lost**: the events of a forest are put together to that forest, with
the frames in the order in which they end, and a stream that can be put together is the walk around
the forest that is read back. -/
theorem ofEvents_full_inverse (rootName result : String) :
    (∀ f : Forest, ∃ e, ofEvents true rootName result f.events = .ok e ∧ e.forest? = some f ∧
      e.frames.toList.map (·.instantiation) = f.postorder) ∧
    ∀ es e, ofEvents true rootName result es = .ok e →
      ∃ f, e.forest? = some f ∧ f.events = es ∧
        e.frames.toList.map (·.instantiation) = f.postorder := by
  have hframes (f : Forest) :
      (ofForest rootName result f).frames.toList.map (·.instantiation) = f.postorder := by
    simp [ofForest, f.map_frames]
  constructor
  · intro f
    have h := ofEvents_events true rootName result f
    rw [Forest.trim_true] at h
    exact ⟨_, h, forest?_ofForest rootName result f, hframes f⟩
  · intro es e h
    obtain ⟨f, rfl, rfl⟩ := ofEvents_eq_ok_iff.mp h
    rw [Forest.trim_true]
    exact ⟨f, forest?_ofForest rootName result f, rfl, hframes f⟩

theorem ofEvents_full_inverse_nested :
    ∃ e f, ofEvents true "root" "int" nestedEvents = .ok e ∧ e.forest? = some f ∧
      f.events = nestedEvents := by
  obtain ⟨f, hf, he, -⟩ := (ofEvents_full_inverse "root" "int").2 nestedEvents _ rfl
  exact ⟨_, f, rfl, hf, he⟩

end Evaluation

end TemplateTrace
