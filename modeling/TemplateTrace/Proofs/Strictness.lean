import TemplateTrace.Evaluation.Text
import TemplateTrace.Proofs.Growth
import TemplateTrace.Proofs.Reading

/-!
Strict and lenient reading of one trace.

An entry that strict reading refuses is one that lenient reading makes something up for: a name that
is there only in compressed form, or a file without a name. Which entries these are can be told from
the trace alone. Up to the first of them both ways of reading give the same answers, so strict
reading has the outcome of lenient reading, unless it comes to such an entry.
-/

namespace TemplateTrace

/-- There is no form of the name but the compressed one. -/
def NameRef.onlyCompressed (n : NameRef) : Bool :=
  n.literal.isNone && n.dictionaryId.isNone && n.compressed.isSome

/-- What strict reading says to the entry if lenient reading makes something up for it. -/
def Entry.refusal (before : List Entry) (index : Nat) (e : Entry) : Option Failure :=
  e.opening.bind fun o =>
    if o.name.onlyCompressed then some (.compressedName index)
    else if o.place.Named before then none
    else some (.unnamedFile index o.place.fileId)

/-- The first entry that strict reading refuses stands at the index, and this is what is said. -/
def Trace.Refused (t : Trace) (index : Nat) (failure : Failure) : Prop :=
  (∃ e, t.entries[index]? = some e ∧
      e.refusal (t.entries.take index) index = some failure) ∧
    ∀ k < index, ∀ e, t.entries[k]? = some e → e.refusal (t.entries.take k) k = none

/-! ### One entry -/

/-- What lenient reading answers to an entry, and what strict reading has to say to it. -/
abbrev Review := Except Failure Event × Option Failure

/-- What strict reading answers. -/
def Review.strict : Review → Except Failure Event
  | (.error failure, _) => .error failure
  | (.ok event, refusal) => refusal.elim (.ok event) .error

/-- The entry with both ways to read it. -/
def Entry.review (d : Dictionary) (before : List Entry) (index : Nat) (e : Entry) : Review :=
  (e.meaning d false (lastNamed before) index, e.refusal before index)

section

variable {d : Dictionary} {before : List Entry} {index : Nat}

lemma NameRef.meaning_strict (n : NameRef) : n.meaning d true index =
    if n.onlyCompressed then .error (.compressedName index) else n.meaning d false index := by
  obtain ⟨_ | text, _ | id, _ | compressed⟩ := n <;> rfl

lemma NameRef.meaning_of_onlyCompressed {n : NameRef} (h : n.onlyCompressed = true) :
    n.meaning d false index = .ok Context.compressedName := by
  obtain ⟨_ | text, _ | id, _ | compressed⟩ := n <;> simp [onlyCompressed] at h
  rfl

lemma PlaceRef.exists_file_lenient {p : PlaceRef} :
    ∃ file, p.file false (lastNamed before) index = .ok file := by
  by_cases hnamed : p.Named before
  · obtain ⟨file, hfile⟩ := file_of_named hnamed
    exact ⟨file, hfile false index⟩
  · exact ⟨"", file_of_not_named hnamed false index⟩

/-- **Strict reading refuses after lenient reading succeeds**, and is otherwise the same. -/
lemma Entry.meaning_strict (e : Entry) :
    e.meaning d true (lastNamed before) index = (e.review d before index).strict := by
  obtain ⟨_ | o, _ | _⟩ := e
  · rfl
  · rfl
  · simp only [review, meaning, Opening.meaning, refusal, Option.bind_some,
      NameRef.meaning_strict]
    cases Kind.ofCode? o.kind with
    | none => rfl
    | some kind =>
      by_cases hname : o.name.onlyCompressed = true
      · have hfile : ∃ file, o.place.file false (lastNamed before) index = .ok file :=
          PlaceRef.exists_file_lenient
        obtain ⟨file, hfile⟩ := hfile
        rw [if_pos hname, if_pos hname, NameRef.meaning_of_onlyCompressed hname, hfile]
        rfl
      · rw [if_neg hname, if_neg hname]
        cases o.name.meaning d false index with
        | error failure => rfl
        | ok name =>
          by_cases hnamed : o.place.Named before
          · obtain ⟨file, hfile⟩ := PlaceRef.file_of_named hnamed
            rw [if_pos hnamed, hfile, hfile]
            rfl
          · rw [if_neg hnamed, PlaceRef.file_of_not_named hnamed, PlaceRef.file_of_not_named hnamed]
            rfl
  · rfl

end

/-! ### All entries -/

/-- The two outcomes are the same, or the strict one is the first refusal, and then a lenient failure
comes later. -/
lemma mapM_strict (reviews : List Review) :
    (reviews.map Review.strict).mapM id = (reviews.map (·.1)).mapM id ∨
      ∃ (before after : List Review) (event : Event) (refusal : Failure),
        reviews = before ++ (.ok event, some refusal) :: after ∧ (∀ r ∈ before, r.2 = none) ∧
          (reviews.map Review.strict).mapM id = .error refusal ∧
          ∀ failure, (reviews.map (·.1)).mapM id = .error failure →
            ∃ r ∈ after, r.1 = .error failure := by
  induction reviews with
  | nil => exact .inl rfl
  | cons r reviews ih =>
    obtain ⟨failure | event, refusal⟩ := r
    · exact .inl (mapM_id_error_cons.trans mapM_id_error_cons.symm)
    cases refusal with
    | some refusal =>
      refine .inr ⟨[], reviews, event, refusal, rfl, by simp, mapM_id_error_cons, fun failure h => ?_⟩
      rw [List.map_cons, mapM_id_ok_cons_eq_error_iff] at h
      exact List.mem_map.mp (mem_of_mapM_id_eq_error h)
    | none =>
      simp only [List.map_cons, Review.strict, Option.elim_none, mapM_id_ok_cons_eq_error_iff]
      rcases ih with ih | ⟨before, after, event', refusal, rfl, hbefore, herror, hlater⟩
      · exact .inl (by rw [mapM_id_ok_cons, mapM_id_ok_cons, ih])
      · exact .inr ⟨(.ok event, none) :: before, after, event', refusal, rfl, by simpa using hbefore,
          herror, hlater⟩

/-- The entries with both ways to read them. -/
def Trace.reviews (t : Trace) : List Review :=
  t.entries.mapIdx fun index e => e.review t.dictionary (t.entries.take index) index

namespace Trace

lemma getElem?_reviews (t : Trace) (index : Nat) : t.reviews[index]? =
    t.entries[index]?.map (·.review t.dictionary (t.entries.take index) index) := by
  simp [reviews]

lemma map_reviews (t : Trace) : t.reviews.map (·.1) = t.answers false := by
  apply List.ext_getElem?
  intro index
  simp only [List.getElem?_map, getElem?_reviews, getElem?_answers, Option.map_map]
  rfl

lemma map_strict_reviews (t : Trace) : t.reviews.map Review.strict = t.answers true := by
  apply List.ext_getElem?
  intro index
  simp only [List.getElem?_map, getElem?_reviews, getElem?_answers, Option.map_map,
    Entry.meaning_strict]
  rfl

/-- **Strict reading has the outcome of lenient reading**, unless it comes to an entry that it
refuses; then lenient reading fails later or not at all. -/
lemma events_strict (t : Trace) : t.events true = t.events false ∨
    ∃ index refusal, t.Refused index refusal ∧ t.events true = .error refusal ∧
      ∀ failure, t.events false = .error failure →
        ∃ later, index < later ∧ failure.readAt? = some later := by
  have houtcomes := mapM_strict t.reviews
  rw [map_reviews, map_strict_reviews, ← events_eq, ← events_eq] at houtcomes
  rcases houtcomes with h | ⟨before, after, event, refusal, hsplit, hbefore, herror, hlater⟩
  · exact .inl h
  refine .inr ⟨before.length, refusal, ⟨?_, fun k hk e he => ?_⟩, herror, fun failure h => ?_⟩
  · have hhere := t.getElem?_reviews before.length
    rw [hsplit, List.getElem?_append_right (Nat.le_refl _), Nat.sub_self, List.getElem?_cons_zero,
      eq_comm, Option.map_eq_some_iff] at hhere
    obtain ⟨e, he, hreview⟩ := hhere
    exact ⟨e, he, (Prod.mk.inj hreview).2⟩
  · have hearlier := t.getElem?_reviews k
    rw [hsplit, List.getElem?_append_left hk, he, Option.map_some] at hearlier
    exact hbefore _ (List.mem_of_getElem? hearlier)
  · obtain ⟨r, hr, hfailure⟩ := hlater failure h
    obtain ⟨m, hm⟩ := List.mem_iff_getElem?.mp hr
    have hthere := t.getElem?_reviews (before.length + (m + 1))
    rw [hsplit, List.getElem?_append_right (Nat.le_add_right _ _), Nat.add_sub_cancel_left,
      List.getElem?_cons_succ, hm, eq_comm, Option.map_eq_some_iff] at hthere
    obtain ⟨e, -, rfl⟩ := hthere
    exact ⟨_, by omega, Entry.readAt?_of_meaning hfailure⟩

end Trace

/-! ### The evaluation -/

namespace Evaluation

/-- Putting the frames together fails only where they are unbalanced. -/
lemma eq_unbalanced_of_ofEvents {full : Bool} {rootName result : String} {es : List Event}
    {failure : Failure} (h : ofEvents full rootName result es = .error failure) :
    ∃ entry n, failure = .unbalanced entry n := by
  rcases of_ofEvents_eq_error h with ⟨before, after, -, -, rfl⟩ | ⟨-, n, -, -, rfl⟩
  · exact ⟨_, _, rfl⟩
  · exact ⟨_, _, rfl⟩

/-- A trace fails where its entries are read, or where its frames are put together. -/
lemma of_ofTrace_eq_error {v : View} {t : Trace} {failure : Failure}
    (h : ofTrace v t = .error failure) :
    t.events v.strict = .error failure ∨ ∃ entry n, failure = .unbalanced entry n := by
  unfold ofTrace at h
  cases hevents : t.events v.strict with
  | error cause =>
    rw [hevents] at h
    obtain rfl : cause = failure := Except.error.inj h
    exact .inl rfl
  | ok events =>
    rw [hevents] at h
    exact .inr (eq_unbalanced_of_ofEvents h)

lemma readAt?_or_unbalanced {v : View} {t : Trace} {failure : Failure}
    (h : ofTrace v t = .error failure) :
    (∃ place, failure.readAt? = some place) ∨ ∃ entry n, failure = .unbalanced entry n := by
  refine (of_ofTrace_eq_error h).imp_left fun hevents => ?_
  obtain ⟨events, -, -, hread⟩ := Trace.answers_of_events_eq_error hevents
  exact ⟨events.length, hread⟩

lemma ofTrace_strict (full : Bool) (rootName result : String) (t : Trace) :
    let strict := ofTrace ⟨true, full, rootName, result⟩ t
    let lenient := ofTrace ⟨false, full, rootName, result⟩ t
    strict = lenient ∨ ∃ index refusal, t.Refused index refusal ∧ strict = .error refusal ∧
      ∀ failure place, lenient = .error failure → failure.readAt? = some place → index < place := by
  intro strict lenient
  rcases t.events_strict with h | ⟨index, refusal, hrefused, herror, hlater⟩
  · exact .inl (by simp [strict, lenient, ofTrace, h])
  · refine .inr ⟨index, refusal, hrefused, by simp [strict, ofTrace, herror], ?_⟩
    intro failure place h hplace
    rcases of_ofTrace_eq_error h with hevents | ⟨entry, n, rfl⟩
    · obtain ⟨later, hlt, hread⟩ := hlater failure hevents
      obtain rfl : later = place := by simpa [hread] using hplace
      exact hlt
    · simp [Failure.readAt?] at hplace

/-- **Strict reading only refuses.** -/
theorem ofTrace_strict_refuses (full : Bool) (rootName result : String) (t : Trace) :
    let strict := ofTrace ⟨true, full, rootName, result⟩ t
    let lenient := ofTrace ⟨false, full, rootName, result⟩ t
    (∀ e, strict = .ok e → lenient = .ok e) ∧
      (∀ e failure, lenient = .ok e → strict = .error failure →
        ∃ index, t.Refused index failure) ∧
      (∀ failure place, lenient = .error failure → failure.readAt? = some place →
        strict = .error failure ∨
          ∃ index < place, ∃ refusal, t.Refused index refusal ∧ strict = .error refusal) ∧
      (∀ entry n, lenient = .error (.unbalanced entry n) →
        strict = .error (.unbalanced entry n) ∨
          ∃ index refusal, t.Refused index refusal ∧ strict = .error refusal) ∧
      ∀ failure, lenient = .error failure →
        (∃ place, failure.readAt? = some place) ∨ ∃ entry n, failure = .unbalanced entry n := by
  intro strict lenient
  rcases ofTrace_strict full rootName result t with h | ⟨index, refusal, hrefused, herror, hlater⟩
  · have hsame : strict = lenient := h
    rw [hsame]
    refine ⟨fun _ => id, ?_, fun _ _ h _ => .inl h, fun _ _ => .inl,
      fun _ => readAt?_or_unbalanced⟩
    intro e failure hok herror
    simp [hok] at herror
  · have herror : strict = .error refusal := herror
    rw [herror]
    refine ⟨by simp, ?_, ?_, fun _ _ _ => .inr ⟨index, refusal, hrefused, rfl⟩,
      fun _ => readAt?_or_unbalanced⟩
    · rintro e failure - ⟨⟩
      exact ⟨index, hrefused⟩
    · intro failure place h hplace
      exact .inr ⟨index, hlater failure place h hplace, refusal, hrefused, rfl⟩

theorem ofTrace_strict_refuses_partlyNamed :
    let failing : Trace := { Trace.partlyNamed with entries := Trace.partlyNamed.entries ++ [{}] }
    let refusal : Failure := .compressedName 3
    (∃ index, Trace.partlyNamed.Refused index refusal) ∧
      ofTrace ⟨false, true, "root", "int"⟩ failing = .error (.malformed 6 .neitherBeginNorEnd) ∧
      ∃ index < 6, ∃ refusal, failing.Refused index refusal ∧
        ofTrace ⟨true, true, "root", "int"⟩ failing = .error refusal := by
  intro failing refusal
  obtain ⟨-, hrefused, -⟩ := ofTrace_strict_refuses true "root" "int" .partlyNamed
  obtain ⟨-, -, hearlier, -⟩ := ofTrace_strict_refuses true "root" "int" failing
  obtain ⟨e, he⟩ : ∃ e, ofTrace ⟨false, true, "root", "int"⟩ .partlyNamed = .ok e :=
    exists_of_isOk (by decide +kernel)
  have hlenient : ofTrace ⟨false, true, "root", "int"⟩ failing =
      .error (.malformed 6 .neitherBeginNorEnd) := by decide +kernel
  have hstrict : ofTrace ⟨true, true, "root", "int"⟩ failing ≠
      .error (.malformed 6 .neitherBeginNorEnd) := by decide +kernel
  exact ⟨hrefused e refusal he (by decide +kernel), hlenient,
    (hearlier _ 6 hlenient rfl).resolve_left hstrict⟩

end Evaluation

end TemplateTrace
