import TemplateTrace.Proofs.Growth

/-!
Going on after failures.

Only an end can fail, and only where no frame is open; all that it changes is the number of events
handled. Nothing but the failures themselves depends on that number, so after any events the open
frames, the table and the roots are what they are without the ends that failed.
-/

namespace TemplateTrace

/-- The instantiations that have begun and not ended, the innermost first; an end does nothing if
there is none. -/
def unfinished (es : List Event) : List Instantiation :=
  es.foldl (fun begun e => match e with
    | .opens i => i :: begun
    | .closes => begun.tail) []

lemma unfinished_append_singleton (es : List Event) (e : Event) :
    unfinished (es ++ [e]) = match e with
      | .opens i => i :: unfinished es
      | .closes => (unfinished es).tail := by
  simp [unfinished]

namespace Assembly

/-- The events that do not fail when they are handled one after the other. -/
def succeeding (a : Assembly) : List Event → List Event
  | [] => []
  | e :: es =>
    if (a.step e).1.isOk then e :: (a.step e).2.succeeding es
    else (a.step e).2.succeeding es

variable {a : Assembly}

/-! ### A failed end -/

lemma step_eq_error_iff {e : Event} {failure : Failure} : (a.step e).1 = .error failure ↔
    e = .closes ∧ a.stack = [] ∧ failure = .unbalanced (some a.handled) 0 := by
  cases e with
  | opens i => simp [step]
  | closes => cases hs : a.stack <;> simp [step, hs, eq_comm]

/-- A failed end is counted, and that is all. -/
lemma step_of_error {e : Event} {failure : Failure} (h : (a.step e).1 = .error failure) :
    (a.step e).2 = a.advance 1 := by
  obtain ⟨rfl, hs, -⟩ := step_eq_error_iff.mp h
  simp [step, hs, advance]

/-! ### The number of events handled -/

lemma enter_advance (a : Assembly) (f : UnfinishedFrame) (n : Nat) :
    (a.advance n).enter f = (a.enter f).advance n := by
  obtain ⟨full, frames, roots, _ | ⟨parent, outer⟩, handled⟩ := a <;>
    by_cases hd : drops full f <;> simp [enter, attach, advance, hd]

/-- A step does not ask how many events were handled, except for the failure. -/
lemma step_advance (a : Assembly) (e : Event) (n : Nat) :
    ((a.advance n).step e).1.isOk = (a.step e).1.isOk ∧
      ((a.advance n).step e).2 = (a.step e).2.advance n := by
  have hcount : a.handled + n + 1 = a.handled + 1 + n := Nat.add_right_comm _ _ _
  cases e with
  | opens i => exact ⟨rfl, by simp [step, advance, hcount]⟩
  | closes =>
    rcases hs : a.stack with _ | ⟨f, outer⟩
    · exact ⟨by simp [step, advance, hs]; rfl, by simp [step, advance, hs, hcount]⟩
    · refine ⟨by simp [step, advance, hs], ?_⟩
      have henter := enter_advance { a with stack := outer, handled := a.handled + 1 } f n
      simpa [step, advance, hs, hcount] using henter

lemma run_advance (a : Assembly) (es : List Event) (n : Nat) :
    (a.advance n).run es = (a.run es).advance n := by
  induction es generalizing a with
  | nil => rfl
  | cons e es ih => rw [run_cons, run_cons, (step_advance a e n).2, ih]

lemma succeeding_advance (a : Assembly) (es : List Event) (n : Nat) :
    (a.advance n).succeeding es = a.succeeding es := by
  induction es generalizing a with
  | nil => rfl
  | cons e es ih =>
    obtain ⟨hok, hstep⟩ := step_advance a e n
    rw [succeeding, succeeding, hok, hstep, ih]

lemma handled_run (a : Assembly) (es : List Event) :
    (a.run es).handled = a.handled + es.length := by
  have hstep (b : Assembly) (e : Event) : (b.step e).2.handled = b.handled + 1 := by
    cases e with
    | opens i => rfl
    | closes => cases hs : b.stack <;> simp [step, hs, handled_enter]
  induction es generalizing a with
  | nil => rfl
  | cons e es ih =>
    rw [run_cons, ih, hstep, List.length_cons]
    omega

/-! ### The open frames -/

lemma map_stack_run (full : Bool) (es : List Event) :
    (run { full } es).stack.map (·.instantiation) = unfinished es := by
  induction es using List.reverseRecOn with
  | nil => rfl
  | append_singleton es e ih =>
    rw [run_append, run_cons, run_nil, unfinished_append_singleton]
    cases e with
    | opens i => simp [step, ih]
    | closes =>
      rcases hs : (run { full } es).stack with _ | ⟨f, outer⟩
      · simp [step, hs, ← ih]
      · simp [step, hs, ← ih, map_stack_enter]

lemma stack_run_eq_nil_iff {full : Bool} {es : List Event} :
    (run { full } es).stack = [] ↔ unfinished es = [] := by
  rw [← map_stack_run full es, List.map_eq_nil_iff]

/-- Frames that are left open are the only reason to be refused in the end. -/
lemma finish_run (full : Bool) (es : List Event) (rootName result : String) :
    let a := run { full } es
    unfinished es = [] ∧ a.finish rootName result = .ok ⟨rootName, result, a.frames, a.roots⟩ ∨
      unfinished es ≠ [] ∧
        a.finish rootName result = .error (.unbalanced none (unfinished es).length) := by
  intro a
  have hopen : a.stack.map (·.instantiation) = unfinished es := map_stack_run full es
  rw [← hopen]
  rcases hs : a.stack with _ | ⟨f, outer⟩
  · exact .inl ⟨rfl, by simp [finish, hs]⟩
  · exact .inr ⟨by simp, by simp [finish, hs]⟩

/-! ### Without the failures -/

/-- The events that do not fail lead to the same assembly, but for the number of events handled. -/
lemma exists_run_eq_advance (a : Assembly) (es : List Event) :
    ∃ n, a.run es = (a.run (a.succeeding es)).advance n := by
  induction es generalizing a with
  | nil => exact ⟨0, rfl⟩
  | cons e es ih =>
    rw [run_cons, succeeding]
    cases he : (a.step e).1 with
    | ok _ => exact ih _
    | error failure =>
      obtain ⟨n, hn⟩ := ih a
      rw [step_of_error he, run_advance, succeeding_advance, hn]
      exact ⟨n + 1, advance_advance _ _ _⟩

/-- Without those that fail, the events can be handled up to the last. -/
lemma feed_succeeding (a : Assembly) (es : List Event) :
    a.feed (a.succeeding es) = .ok (a.run (a.succeeding es)) := by
  induction es generalizing a with
  | nil => rfl
  | cons e es ih =>
    rw [succeeding]
    cases he : (a.step e).1 with
    | ok _ =>
      have hstep : a.step e = (.ok (), (a.step e).2) := Prod.ext he rfl
      rw [Except.isOk, Except.toBool, if_pos rfl, feed, hstep]
      exact ih _
    | error failure =>
      rw [step_of_error he, succeeding_advance]
      exact ih a

lemma finish_advance (a : Assembly) (n : Nat) (rootName result : String) :
    (a.advance n).finish rootName result = a.finish rootName result := rfl

/-- **A failed end leaves no trace.** An end fails exactly where nothing is unfinished, and says how
many events were handled before it, failed ones included. After any events the open frames, the
table and the roots are what they are without the events that failed, and so is the evaluation, or
the failure for frames left open. -/
theorem run_succeeding (full : Bool) (es : List Event) :
    (∀ p e failure, ((run { full } p).step e).1 = .error failure ↔
        e = .closes ∧ unfinished p = [] ∧ failure = .unbalanced (some p.length) 0) ∧
      let whole := run { full } es
      let part := run { full } (succeeding { full } es)
      part.stack = whole.stack ∧ part.frames = whole.frames ∧ part.roots = whole.roots ∧
        whole.stack.map (·.instantiation) = unfinished es ∧
        ∀ rootName result, part.finish rootName result = whole.finish rootName result ∧
          Evaluation.ofEvents full rootName result (succeeding { full } es) =
            whole.finish rootName result ∧
          (unfinished es = [] ∧
              whole.finish rootName result = .ok ⟨rootName, result, whole.frames, whole.roots⟩ ∨
            unfinished es ≠ [] ∧
              whole.finish rootName result = .error (.unbalanced none (unfinished es).length)) := by
  constructor
  · intro p e failure
    rw [step_eq_error_iff, stack_run_eq_nil_iff, handled_run, Nat.zero_add]
  · obtain ⟨n, hn⟩ := exists_run_eq_advance { full } es
    have hfeed := feed_succeeding { full } es
    intro whole part
    have hwhole : whole = part.advance n := hn
    refine ⟨by rw [hwhole]; rfl, by rw [hwhole]; rfl, by rw [hwhole]; rfl, map_stack_run full es,
      fun rootName result => ⟨by rw [hwhole, finish_advance], ?_, finish_run full es _ _⟩⟩
    rw [Evaluation.ofEvents, hfeed, hwhole, finish_advance]

example : succeeding { full := false } (.closes :: nestedEvents ++ [.closes, .closes]) =
    nestedEvents := by decide +kernel

end Assembly

end TemplateTrace
