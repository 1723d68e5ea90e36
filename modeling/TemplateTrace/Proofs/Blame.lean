import TemplateTrace.Proofs.Acceptance

/-!
What a failure says about where a trace goes wrong.

All entries are read before any frame is put together, so a failure to read is that of the first
entry that cannot be read, whatever is out of balance before it. If all entries are read, there is
one event for each of them, and the number that an event has is the index of its entry.
-/

namespace TemplateTrace

namespace Trace

def cut (t : Trace) (n : Nat) : Trace := { t with entries := t.entries.take n }

def Decodes (t : Trace) (strict : Bool) : Prop := ∃ events, t.events strict = .ok events

/-- The entries before the index can be read, and with the one at the index there is the failure. -/
def FailsAt (t : Trace) (strict : Bool) (index : Nat) (failure : Failure) : Prop :=
  (t.cut index).Decodes strict ∧ (t.cut (index + 1)).events strict = .error failure

/-- The entry at the index is an end, and those before it pair up among themselves. -/
def EndsAt (t : Trace) (index : Nat) : Prop :=
  (∃ e, t.entries[index]? = some e ∧ e.opening = none ∧ e.closing = true) ∧
    Paired (t.entries.take index)

/-- No entry ends what did not begin, and `n` more begin than end. -/
def LeavesOpen (t : Trace) (n : Nat) : Prop :=
  (∀ p, p <+: t.entries → p.countP (·.closing) ≤ p.countP (·.opening.isSome)) ∧
    t.entries.countP (·.opening.isSome) = t.entries.countP (·.closing) + n

variable {t : Trace} {strict : Bool}

/-! ### Entries that cannot be read -/

lemma answers_cut (t : Trace) (strict : Bool) (n : Nat) :
    (t.cut n).answers strict = (t.answers strict).take n := by
  apply List.ext_getElem?
  intro index
  simp only [getElem?_answers, cut, List.getElem?_take]
  split
  · next hlt => rw [List.take_take, Nat.min_eq_left (Nat.le_of_lt hlt)]
  · rfl

lemma failsAt_of_events {failure : Failure} (h : t.events strict = .error failure) :
    ∃ index, failure.readAt? = some index ∧ t.FailsAt strict index failure := by
  obtain ⟨events, rest, hsplit, hread⟩ := answers_of_events_eq_error h
  refine ⟨events.length, hread, ⟨events, ?_⟩, ?_⟩
  · rw [events_eq, answers_cut, hsplit, mapM_id_eq_ok_iff]
    simp
  · rw [events_eq, answers_cut, hsplit, mapM_id_eq_error_iff]
    exact ⟨events, [], by simp [List.take_append]⟩

/-! ### Entries that do not pair up -/

lemma endsAt_of_events {before after : List Event}
    (h : t.events strict = .ok (before ++ .closes :: after)) (hbefore : Balanced before) :
    t.EndsAt before.length := by
  have hsorts := sameSorts h
  constructor
  · obtain ⟨hlen, hget⟩ := List.forall₂_iff_get.mp hsorts
    have hlt : before.length < t.entries.length := by simp [hlen]
    obtain ⟨hopening, hone⟩ := hget before.length hlt (by simp)
    simp only [List.get_eq_getElem, List.getElem_append_right (Nat.le_refl _), Nat.sub_self,
      List.getElem_cons_zero] at hopening hone
    rw [← hopening] at hone
    exact ⟨_, List.getElem?_eq_getElem hlt, by simpa [Event.isOpening] using hopening.symm,
      by simpa [Event.isOpening] using hone.symm⟩
  · have htake := hsorts.take before.length
    rw [List.take_left] at htake
    exact htake.balanced_iff.mp hbefore

lemma leavesOpen_of_events {events : List Event} {n : Nat} (h : t.events strict = .ok events)
    (hcovered : Covered 0 events) (hcount : openings events = closings events + n) :
    t.LeavesOpen n := by
  have hsorts := sameSorts h
  rw [hsorts.openings_eq, hsorts.closings_eq] at hcount
  exact ⟨hsorts.covered_iff.mp hcovered, hcount⟩

end Trace

namespace Evaluation

/-- **A failure names the entry that it comes from.** Reading fails at the first entry that cannot be
read; or all entries can be read, and the failure is that of the first end without a beginning, or
says how many frames are left open. -/
theorem ofTrace_blames {v : View} {t : Trace} {failure : Failure}
    (h : ofTrace v t = .error failure) :
    (∃ index, failure.readAt? = some index ∧ t.FailsAt v.strict index failure) ∨
      t.Decodes v.strict ∧
        ((∃ index, failure = .unbalanced (some index) 0 ∧ t.EndsAt index) ∨
          ∃ n, 0 < n ∧ failure = .unbalanced none n ∧ t.LeavesOpen n) := by
  cases hevents : t.events v.strict with
  | error cause =>
    obtain rfl : cause = failure := by simpa [ofTrace, hevents] using h
    exact .inl (Trace.failsAt_of_events hevents)
  | ok events =>
    rw [ofTrace_of_events hevents] at h
    refine .inr ⟨⟨events, hevents⟩, ?_⟩
    rcases of_ofEvents_eq_error h with
      ⟨before, after, rfl, hbefore, rfl⟩ | ⟨hcovered, n, hpos, hcount, rfl⟩
    · exact .inl ⟨before.length, rfl, Trace.endsAt_of_events hevents hbefore⟩
    · exact .inr ⟨n, hpos, rfl, Trace.leavesOpen_of_events hevents hcovered hcount⟩

/-- An end too many, too few ends, and an empty entry after an end too many. -/
theorem ofTrace_blames_partlyNamed :
    let view : View := ⟨false, true, "root", "int"⟩
    let extra : List Entry := Trace.partlyNamed.entries ++ [{ closing := true }]
    ofTrace view { Trace.partlyNamed with entries := extra } =
        .error (.unbalanced (some 6) 0) ∧
      Trace.EndsAt { Trace.partlyNamed with entries := extra } 6 ∧
      ofTrace view (Trace.partlyNamed.cut 4) = .error (.unbalanced none 2) ∧
      (Trace.partlyNamed.cut 4).LeavesOpen 2 ∧
      ofTrace view { Trace.partlyNamed with entries := extra ++ [{}] } =
        .error (.malformed 7 .neitherBeginNorEnd) ∧
      Trace.FailsAt { Trace.partlyNamed with entries := extra ++ [{}] } false 7
        (.malformed 7 .neitherBeginNorEnd) := by
  intro view extra
  have hends : ofTrace view { Trace.partlyNamed with entries := extra } =
      .error (.unbalanced (some 6) 0) := by decide +kernel
  have hopen : ofTrace view (Trace.partlyNamed.cut 4) = .error (.unbalanced none 2) := by
    decide +kernel
  have hempty : ofTrace view { Trace.partlyNamed with entries := extra ++ [{}] } =
      .error (.malformed 7 .neitherBeginNorEnd) := by decide +kernel
  refine ⟨hends, ?_, hopen, ?_, hempty, ?_⟩
  · obtain ⟨index, hread, -⟩ | ⟨-, ⟨index, hfailure, hindex⟩ | ⟨n, -, hfailure, -⟩⟩ :=
      ofTrace_blames hends
    · simp [Failure.readAt?] at hread
    · obtain rfl : 6 = index := by simpa using hfailure
      exact hindex
    · simp at hfailure
  · obtain ⟨index, hread, -⟩ | ⟨-, ⟨index, hfailure, -⟩ | ⟨n, -, hfailure, hn⟩⟩ :=
      ofTrace_blames hopen
    · simp [Failure.readAt?] at hread
    · simp at hfailure
    · obtain rfl : 2 = n := by simpa using hfailure
      exact hn
  · obtain ⟨index, hread, hindex⟩ | ⟨-, ⟨index, hfailure, -⟩ | ⟨n, -, hfailure, -⟩⟩ :=
      ofTrace_blames hempty
    · obtain rfl : 7 = index := by simpa [Failure.readAt?] using hread
      exact hindex
    · simp at hfailure
    · simp at hfailure

end Evaluation

end TemplateTrace
