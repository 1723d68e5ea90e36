import TemplateTrace.Proofs.Growth
import Mathlib.Data.Nat.Find

/-!
What becomes of a stream, read off its beginnings and ends.

A stream goes wrong at the first end with which more frames have ended than begun, or, if there is no
such end, in that fewer have ended in all. Where it goes wrong it is refused, by the place of that
end or by the number of frames that are left open. As only beginnings and ends are counted, frames
that are dropped make no difference.
-/

namespace TemplateTrace

/-- The event at the place is an end, and with it, for the first time, more frames have ended than
begun. -/
structure Oversteps (es : List Event) (n : Nat) : Prop where
  closes : es[n]? = some .closes
  before : ∀ k ≤ n, closings (es.take k) ≤ openings (es.take k)
  beyond : openings (es.take (n + 1)) < closings (es.take (n + 1))

variable {es : List Event} {n : Nat}

lemma covered_zero_iff : Covered 0 es ↔ ∀ p, p <+: es → closings p ≤ openings p := by
  simp [Covered]

lemma Oversteps.le {m : Nat} (h : Oversteps es m) (h' : Oversteps es n) : n ≤ m := by
  by_contra hlt
  have hle := h'.before (m + 1) (by omega)
  have hbeyond := h.beyond
  omega

/-- There is one such place at most. -/
lemma Oversteps.unique {m : Nat} (h : Oversteps es m) (h' : Oversteps es n) : m = n :=
  Nat.le_antisymm (h'.le h) (h.le h')

lemma Oversteps.not_covered (h : Oversteps es n) : ¬ Covered 0 es := by
  intro hcovered
  have hle := covered_zero_iff.mp hcovered _ (List.take_prefix (n + 1) es)
  have hlt := h.beyond
  omega

/-- An end after events that are balanced has no beginning. -/
lemma oversteps_of_balanced {before after : List Event} (h : Balanced before) :
    Oversteps (before ++ .closes :: after) before.length := by
  refine ⟨by simp, fun k hk => ?_, ?_⟩
  · have hprefix : before.take k ∈ before.inits := by simpa using List.take_prefix k before
    have hle := h.1 _ hprefix
    rw [List.take_append_of_le_length hk]
    omega
  · have hcount := h.2
    simp only [List.take_append, List.take_of_length_le (Nat.le_succ _), Nat.add_sub_cancel_left,
      List.take_succ_cons, List.take_zero, closings_append, openings_append, closings_closes,
      openings_closes, closings_nil, openings_nil]
    omega

/-- **A stream that some prefix of which has too many ends goes wrong at a place.** -/
lemma exists_oversteps (h : ¬ Covered 0 es) : ∃ n, Oversteps es n := by
  classical
  have hbad : ∃ k, openings (es.take k) < closings (es.take k) := by
    rw [covered_zero_iff] at h
    push Not at h
    obtain ⟨p, hp, hlt⟩ := h
    exact ⟨p.length, by rwa [← List.prefix_iff_eq_take.mp hp]⟩
  -- the place is before the shortest prefix with too many ends
  have hbeyond := Nat.find_spec hbad
  have hfirst (k : Nat) (hk : k < Nat.find hbad) :
      closings (es.take k) ≤ openings (es.take k) := Nat.not_lt.mp (Nat.find_min hbad hk)
  obtain ⟨n, hn⟩ : ∃ n, Nat.find hbad = n + 1 := by
    cases hz : Nat.find hbad with
    | zero => simp [hz] at hbeyond
    | succ n => exact ⟨n, rfl⟩
  rw [hn] at hbeyond hfirst
  refine ⟨n, ?_, fun k hk => hfirst k (Nat.lt_succ_of_le hk), hbeyond⟩
  have hle := hfirst n (Nat.lt_succ_self n)
  rw [List.take_add_one] at hbeyond
  cases he : es[n]? with
  | none => simp [he] at hbeyond; omega
  | some e =>
    cases e with
    | closes => rfl
    | opens i => simp [he] at hbeyond; omega

namespace Evaluation

variable {full : Bool} {rootName result : String}

lemma ofEvents_of_oversteps (h : Oversteps es n) :
    ofEvents full rootName result es = .error (.unbalanced (some n) 0) := by
  cases hr : ofEvents full rootName result es with
  | ok e => exact absurd (exists_ofEvents_iff.mp ⟨e, hr⟩).1 h.not_covered
  | error failure =>
    rcases of_ofEvents_eq_error hr with ⟨before, after, rfl, hbefore, rfl⟩ | ⟨hcovered, -⟩
    · rw [h.unique (oversteps_of_balanced hbefore)]
    · exact absurd hcovered h.not_covered

lemma ofEvents_of_leftOpen (h : Covered 0 es) (hn : 0 < n) (hcount : openings es = closings es + n) :
    ofEvents full rootName result es = .error (.unbalanced none n) := by
  cases hr : ofEvents full rootName result es with
  | ok e =>
    have := (exists_ofEvents_iff.mp ⟨e, hr⟩).2
    omega
  | error failure =>
    rcases of_ofEvents_eq_error hr with ⟨before, after, rfl, hbefore, -⟩ | ⟨-, m, -, hm, rfl⟩
    · exact absurd h (oversteps_of_balanced hbefore).not_covered
    · obtain rfl : m = n := by omega
      rfl

/-- A stream is balanced, goes wrong at a place, or leaves frames open. -/
lemma balanced_or_oversteps_or_leftOpen (es : List Event) :
    Balanced es ∨ (∃ n, Oversteps es n) ∨
      Covered 0 es ∧ ∃ n, 0 < n ∧ openings es = closings es + n := by
  by_cases hcovered : Covered 0 es
  · have hle := covered_zero_iff.mp hcovered es (List.prefix_refl es)
    rcases Nat.eq_or_lt_of_le hle with heq | hlt
    · exact .inl ⟨hcovered, by omega⟩
    · exact .inr (.inr ⟨hcovered, openings es - closings es, by omega, by omega⟩)
  · exact .inr (.inl (exists_oversteps hcovered))

/-- **What becomes of a stream is told by its beginnings and ends.** It has an evaluation exactly if no
prefix has more ends than beginnings and the whole has equally many; otherwise it is refused at the
first end with which the ends outnumber the beginnings, or, if there is none, for the frames that
are left open. Neither the mode nor the names make a difference. -/
theorem ofEvents_verdict (full : Bool) (rootName result : String) (es : List Event) :
    ((∃ e, ofEvents full rootName result es = .ok e) ↔
        (∀ p, p <+: es → closings p ≤ openings p) ∧ closings es = openings es) ∧
      ((∃ p, p <+: es ∧ openings p < closings p) → ∃ n, Oversteps es n ∧
        ofEvents full rootName result es = .error (.unbalanced (some n) 0)) ∧
      ((∀ p, p <+: es → closings p ≤ openings p) → ∀ n, 0 < n → openings es = closings es + n →
        ofEvents full rootName result es = .error (.unbalanced none n)) ∧
      ∀ full' rootName' result', (ofEvents full' rootName' result' es).map (fun _ => ()) =
        (ofEvents full rootName result es).map fun _ => () := by
  refine ⟨?_, ?_, fun hle n hn hcount => ?_, fun full' rootName' result' => ?_⟩
  · rw [exists_ofEvents_iff, Balanced, closing_iff, covered_zero_iff, Nat.zero_add]
  · rintro ⟨p, hp, hlt⟩
    have hnot : ¬ Covered 0 es := fun h => Nat.not_le.mpr hlt (covered_zero_iff.mp h p hp)
    obtain ⟨n, hn⟩ := exists_oversteps hnot
    exact ⟨n, hn, ofEvents_of_oversteps hn⟩
  · exact ofEvents_of_leftOpen (covered_zero_iff.mpr hle) hn hcount
  · rcases balanced_or_oversteps_or_leftOpen es with hb | ⟨n, hn⟩ | ⟨hcovered, n, hn, hcount⟩
    · obtain ⟨e, he⟩ := exists_ofEvents_iff.mpr hb
      obtain ⟨e', he'⟩ := exists_ofEvents_iff.mpr hb
      rw [he, he']
      rfl
    · rw [ofEvents_of_oversteps hn, ofEvents_of_oversteps hn]
    · rw [ofEvents_of_leftOpen hcovered hn hcount, ofEvents_of_leftOpen hcovered hn hcount]

/-- An end too many, after which a frame is left open too, and too few ends. -/
theorem ofEvents_verdict_nested :
    let extra := nestedEvents ++ [.closes, .begins .memoization "d"]
    (∃ e, ofEvents false "root" "int" nestedEvents = .ok e) ∧
      Oversteps extra 16 ∧
      ofEvents false "root" "int" extra = .error (.unbalanced (some 16) 0) ∧
      ofEvents true "root" "int" (nestedEvents.take 5) = .error (.unbalanced none 3) := by
  intro extra
  obtain ⟨hok, -, -, -⟩ := ofEvents_verdict false "root" "int" nestedEvents
  obtain ⟨-, hends, -, -⟩ := ofEvents_verdict false "root" "int" extra
  obtain ⟨-, -, hopen, -⟩ := ofEvents_verdict true "root" "int" (nestedEvents.take 5)
  have hbalanced : Balanced nestedEvents := by decide
  have hplace : Oversteps extra 16 := ⟨by decide, by decide, by decide⟩
  have hcovered : ∀ p ∈ (nestedEvents.take 5).inits, closings p ≤ openings p := by decide
  obtain ⟨n, hn, hrefused⟩ := hends ⟨extra.take 17, List.take_prefix _ _, hplace.beyond⟩
  refine ⟨hok.mpr ⟨covered_zero_iff.mp hbalanced.1, by decide⟩, hplace, ?_, ?_⟩
  · rw [hrefused, hn.unique hplace]
  · exact hopen (fun p hp => hcovered p (by simpa using hp)) 3 (by decide) (by decide)

end Evaluation

end TemplateTrace
