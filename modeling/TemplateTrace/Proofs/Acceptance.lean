import TemplateTrace.Evaluation.Text
import TemplateTrace.Proofs.Growth
import TemplateTrace.Proofs.Reach
import TemplateTrace.Proofs.Reading

/-!
Which traces are accepted.

A trace is accepted if every entry can be read at its place and the beginnings and ends pair up. None
of this asks how the evaluation is shown: the frames are put together for every balanced stream of
events, whether some of them are dropped or not.
-/

namespace TemplateTrace

/-! ### What can be read -/

/-- The codes of the kinds. -/
lemma Kind.exists_ofCode?_iff {c : Int32} : (∃ k, Kind.ofCode? c = some k) ↔ 0 ≤ c ∧ c ≤ 8 := by
  constructor
  · rintro ⟨k, hk⟩
    obtain rfl : k.code = c := by simpa using List.find?_some hk
    cases k <;> decide
  · rintro ⟨hlow, hhigh⟩
    rw [Int32.le_iff_toInt_le] at hlow hhigh
    have hcodes : ∀ n < 9, ∃ k ∈ Kind.all, k.code.toInt = (n : ℕ) := by decide
    have hbound : c.toInt.toNat < 9 := by
      have : (8 : Int32).toInt = 8 := rfl
      omega
    obtain ⟨k, -, hk⟩ := hcodes _ hbound
    have hzero : (0 : Int32).toInt = 0 := rfl
    obtain rfl : k.code = c := Int32.toInt_inj.mp (by omega)
    exact ⟨k, Kind.ofCode?_code k⟩

/-- The name is there, or the dictionary has one for the id, or only in compressed form where that
will do. -/
def NameRef.Readable (d : Dictionary) (strict : Bool) (n : NameRef) : Prop :=
  match n.literal, n.dictionaryId, n.compressed with
  | some _, _, _ => True
  | none, some id, _ => ∀ i, d.Reaches id i → d.Complete i ∧ ¬ d.Leads i i
  | none, none, some _ => strict = false
  | none, none, none => False

lemma NameRef.exists_meaning_iff {d : Dictionary} {strict : Bool} {index : Nat} {n : NameRef} :
    (∃ name, n.meaning d strict index = .ok name) ↔ n.Readable d strict := by
  obtain ⟨literal, id, compressed⟩ := n
  rcases literal with _ | text
  · rcases id with _ | id
    · cases compressed <;> cases strict <;> simp [meaning, Readable]
    · simp only [meaning, Readable]
      rw [(Glossary.serves_start d).resolve_eq, ← Dictionary.expands_iff, Dictionary.Expands]
      cases d.expand [] id <;> simp [Except.mapError]
  · simp [meaning, Readable]

lemma PlaceRef.exists_file_iff {strict : Bool} {before : List Entry} {index : Nat} {p : PlaceRef} :
    (∃ file, p.file strict (lastNamed before) index = .ok file) ↔
      (strict = true → p.Named before) := by
  by_cases hnamed : p.Named before
  · obtain ⟨file, hfile⟩ := file_of_named hnamed
    simp [hfile, hnamed]
  · rw [file_of_not_named hnamed]
    cases strict <;> simp [hnamed]

/-- The beginning can be read after the entries before it. -/
structure Opening.Readable (d : Dictionary) (strict : Bool) (before : List Entry) (o : Opening) :
    Prop where
  kind : 0 ≤ o.kind ∧ o.kind ≤ 8
  name : o.name.Readable d strict
  file : strict = true → o.place.Named before

/-- The entry has a beginning or an end and not both, and the beginning can be read. -/
structure Entry.Readable (d : Dictionary) (strict : Bool) (before : List Entry) (e : Entry) :
    Prop where
  one : e.opening.isSome = !e.closing
  opening : ∀ o, e.opening = some o → o.Readable d strict before

section

variable {d : Dictionary} {strict : Bool} {before : List Entry} {index : Nat}

lemma Opening.exists_meaning_iff {o : Opening} :
    (∃ event, o.meaning d strict (lastNamed before) index = .ok event) ↔
      o.Readable d strict before := by
  simp only [meaning_eq_ok_iff]
  constructor
  · rintro ⟨event, kind, name, file, hkind, hname, hfile, -⟩
    exact ⟨Kind.exists_ofCode?_iff.mp ⟨kind, hkind⟩, NameRef.exists_meaning_iff.mp ⟨name, hname⟩,
      PlaceRef.exists_file_iff.mp ⟨file, hfile⟩⟩
  · rintro ⟨hkind, hname, hfile⟩
    obtain ⟨kind, hkind⟩ := Kind.exists_ofCode?_iff.mpr hkind
    obtain ⟨name, hname⟩ := NameRef.exists_meaning_iff.mpr hname
    obtain ⟨file, hfile⟩ := PlaceRef.exists_file_iff.mpr hfile
    exact ⟨_, kind, name, file, hkind, hname, hfile, rfl⟩

lemma Entry.exists_meaning_iff {e : Entry} :
    (∃ event, e.meaning d strict (lastNamed before) index = .ok event) ↔
      e.Readable d strict before := by
  constructor
  · rintro ⟨event, h⟩
    refine ⟨(of_meaning_eq_ok h).2, ?_⟩
    rintro o ho
    obtain ⟨opening, closing⟩ := e
    obtain rfl : opening = some o := ho
    cases closing with
    | true => simp [meaning] at h
    | false => exact Opening.exists_meaning_iff.mp ⟨event, h⟩
  · rintro ⟨hone, hopening⟩
    obtain ⟨_ | o, _ | _⟩ := e
    · simp at hone
    · exact ⟨.closes, rfl⟩
    · exact Opening.exists_meaning_iff.mpr (hopening o rfl)
    · simp at hone

end

/-! ### What pairs up -/

/-- No end comes before the beginning that it ends, and in the end there are no more beginnings. -/
def Paired (es : List Entry) : Prop :=
  (∀ p, p <+: es → p.countP (·.closing) ≤ p.countP (·.opening.isSome)) ∧
    es.countP (·.closing) = es.countP (·.opening.isSome)

lemma closings_eq_countP (es : List Event) : closings es = es.countP fun e => !e.isOpening := by
  induction es with
  | nil => rfl
  | cons e es ih => cases e <;> simp [ih, Event.isOpening]

/-- Each entry is one of the two sorts, and its event is of the same sort. -/
def SameSorts : List Entry → List Event → Prop :=
  List.Forall₂ fun e event => event.isOpening = e.opening.isSome ∧ e.opening.isSome = !e.closing

lemma SameSorts.openings_eq {es : List Entry} {events : List Event} (h : SameSorts es events) :
    openings events = es.countP (·.opening.isSome) := by
  induction h with
  | nil => rfl
  | cons hsort _ ih => simp [openings, List.countP_cons, hsort.1] at ih ⊢; omega

lemma SameSorts.closings_eq {es : List Entry} {events : List Event} (h : SameSorts es events) :
    closings events = es.countP (·.closing) := by
  rw [closings_eq_countP]
  induction h with
  | nil => rfl
  | cons hsort _ ih => simp [List.countP_cons, hsort.1, hsort.2] at ih ⊢; omega

lemma SameSorts.take {es : List Entry} {events : List Event} (h : SameSorts es events) (n : Nat) :
    SameSorts (es.take n) (events.take n) := List.forall₂_take n h

/-- No entry ends what did not begin exactly if no event closes what is not open. -/
lemma SameSorts.covered_iff {es : List Entry} {events : List Event} (h : SameSorts es events) :
    Covered 0 events ↔
      ∀ p, p <+: es → p.countP (·.closing) ≤ p.countP (·.opening.isSome) := by
  rw [Covered]
  refine ⟨fun hp p hprefix => ?_, fun hp p hmem => ?_⟩
  · have := hp (events.take p.length) (by simpa using List.take_prefix _ _)
    rw [(h.take _).openings_eq, (h.take _).closings_eq, ← List.prefix_iff_eq_take.mp hprefix] at this
    simpa using this
  · have hprefix : p <+: events := by simpa using hmem
    rw [List.prefix_iff_eq_take.mp hprefix, (h.take _).openings_eq, (h.take _).closings_eq]
    simpa using hp _ (List.take_prefix _ _)

/-- The entries pair up exactly if their events are balanced. -/
lemma SameSorts.balanced_iff {es : List Entry} {events : List Event} (h : SameSorts es events) :
    Balanced events ↔ Paired es := by
  rw [Balanced, closing_iff, h.covered_iff, Nat.zero_add, h.openings_eq, h.closings_eq, Paired]

/-! ### Accepted traces -/

/-- Every entry can be read at its place, and the beginnings and ends pair up. -/
structure Trace.Acceptable (strict : Bool) (t : Trace) : Prop where
  readable : ∀ (index : Nat) (e : Entry), t.entries[index]? = some e →
    e.Readable t.dictionary strict (t.entries.take index)
  paired : Paired t.entries

namespace Trace

variable {t : Trace} {strict : Bool}

lemma sameSorts {events : List Event} (h : t.events strict = .ok events) :
    SameSorts t.entries events := by
  rw [events_eq, mapM_id_eq_ok_iff] at h
  refine List.forall₂_iff_get.mpr ⟨by simpa using congrArg List.length h, fun k hk hk' => ?_⟩
  have hanswer := getElem?_answers t strict k
  rw [h, List.getElem?_map, List.getElem?_eq_getElem hk, List.getElem?_eq_getElem hk'] at hanswer
  exact Entry.of_meaning_eq_ok (Option.some.inj hanswer).symm

lemma exists_events_iff : (∃ events, t.events strict = .ok events) ↔
    ∀ (index : Nat) (e : Entry), t.entries[index]? = some e →
      e.Readable t.dictionary strict (t.entries.take index) := by
  have hall : (∃ events : List Event, t.answers strict = events.map .ok) ↔
      ∀ answer ∈ t.answers strict, ∃ event, answer = .ok event := by
    have h := Set.ext_iff.mp (Set.range_list_map (Except.ok (ε := Failure) (α := Event)))
      (t.answers strict)
    simpa [eq_comm] using h
  simp only [events_eq, mapM_id_eq_ok_iff, hall, List.mem_iff_getElem?, getElem?_answers,
    Option.map_eq_some_iff]
  constructor
  · intro h index e he
    exact Entry.exists_meaning_iff.mp (h _ ⟨index, e, he, rfl⟩)
  · rintro h answer ⟨index, e, he, rfl⟩
    exact Entry.exists_meaning_iff.mpr (h index e he)

end Trace

namespace Evaluation

lemma ofTrace_of_events {v : View} {t : Trace} {events : List Event}
    (h : t.events v.strict = .ok events) :
    ofTrace v t = ofEvents v.full v.rootName v.result events := by
  rw [ofTrace, h]

lemma exists_events_of_ofTrace {v : View} {t : Trace} {e : Evaluation}
    (h : ofTrace v t = .ok e) :
    ∃ events, t.events v.strict = .ok events ∧
      ofEvents v.full v.rootName v.result events = .ok e := by
  unfold ofTrace at h
  cases hevents : t.events v.strict with
  | error failure => simp [hevents] at h
  | ok events =>
    rw [hevents] at h
    exact ⟨events, rfl, h⟩

/-- **A trace is accepted exactly if every entry can be read at its place and the beginnings and ends
pair up**; how the evaluation is shown does not matter. -/
theorem ofTrace_accepts_iff (v : View) (t : Trace) :
    ((∃ e, ofTrace v t = .ok e) ↔ t.Acceptable v.strict) ∧
      ∀ full rootName result, (∃ e, ofTrace ⟨v.strict, full, rootName, result⟩ t = .ok e) ↔
        ∃ e, ofTrace v t = .ok e := by
  have hiff (w : View) : (∃ e, ofTrace w t = .ok e) ↔ t.Acceptable w.strict := by
    constructor
    · rintro ⟨e, h⟩
      cases hevents : t.events w.strict with
      | error failure => simp [ofTrace, hevents] at h
      | ok events =>
        rw [ofTrace_of_events hevents] at h
        exact ⟨Trace.exists_events_iff.mp ⟨events, hevents⟩,
          (Trace.sameSorts hevents).balanced_iff.mp (exists_ofEvents_iff.mp ⟨e, h⟩)⟩
    · rintro ⟨hreadable, hpaired⟩
      obtain ⟨events, hevents⟩ := Trace.exists_events_iff.mpr hreadable
      have hbalanced := (Trace.sameSorts hevents).balanced_iff.mpr hpaired
      obtain ⟨e, he⟩ := exists_ofEvents_iff.mpr hbalanced
      exact ⟨e, (ofTrace_of_events hevents).trans he⟩
  refine ⟨hiff v, fun full rootName result => ?_⟩
  rw [hiff v, hiff ⟨v.strict, full, rootName, result⟩]

theorem ofTrace_accepts_iff_partlyNamed :
    Trace.partlyNamed.Acceptable false ∧ ¬ Trace.partlyNamed.Acceptable true := by
  obtain ⟨hlenient, hview⟩ := ofTrace_accepts_iff ⟨false, true, "root", "int"⟩ .partlyNamed
  obtain ⟨hstrict, -⟩ := ofTrace_accepts_iff ⟨true, true, "root", "int"⟩ .partlyNamed
  rw [← hlenient, ← hstrict, ← hview false "" ""]
  have hrefused : ofTrace ⟨true, true, "root", "int"⟩ .partlyNamed = .error (.compressedName 3) := by
    decide +kernel
  refine ⟨exists_of_isOk (by decide +kernel), ?_⟩
  rw [hrefused]
  simp

end Evaluation

end TemplateTrace
