import TemplateTrace.Proofs.Decoding
import TemplateTrace.Proofs.Forest

/-!
Reading all the entries of a trace.

Reading goes on only after entries that were read, so what is known of the files before an entry can
be told from the entries before it. Every entry has then an answer by its place alone; the trace is
read if every answer is an event, and otherwise the first failure among the answers is the outcome.
-/

namespace TemplateTrace

/-- The name that the entries give to the file, the last one if there are several. -/
def lastNamed (es : List Entry) (id : UInt32) : Option String := es.reverse.findSome? (·.gives id)

lemma lastNamed_append (es : List Entry) (e : Entry) (id : UInt32) :
    lastNamed (es ++ [e]) id = (e.gives id).or (lastNamed es id) :=
  findSome?_reverse_append _ es e

lemma lastNamed_eq_none_iff {es : List Entry} {id : UInt32} :
    lastNamed es id = none ↔ ∀ e ∈ es, e.gives id = none := by
  simp [lastNamed]

/-- The file is named here, or an entry before names it. -/
def PlaceRef.Named (before : List Entry) (p : PlaceRef) : Prop :=
  p.fileName = none → ∃ e ∈ before, (e.gives p.fileId).isSome

instance (before : List Entry) (p : PlaceRef) : Decidable (p.Named before) :=
  inferInstanceAs (Decidable (_ → _))

namespace PlaceRef

variable {before : List Entry} {p : PlaceRef}

lemma named_iff : p.Named before ↔ ∃ file, p.fileName.or (lastNamed before p.fileId) = some file := by
  rw [Named, ← Option.isSome_iff_exists]
  cases p.fileName with
  | some file => simp
  | none =>
    rw [Option.none_or, ← not_iff_not, Option.not_isSome_iff_eq_none, lastNamed_eq_none_iff]
    simp

/-- A file that is not named is refused, or has the empty name. -/
lemma file_of_not_named (h : ¬ p.Named before) (strict : Bool) (index : Nat) :
    p.file strict (lastNamed before) index =
      if strict then .error (.unnamedFile index p.fileId) else .ok "" := by
  rw [named_iff, ← Option.isSome_iff_exists, Option.not_isSome_iff_eq_none] at h
  rw [file, h]

lemma file_of_named (h : p.Named before) :
    ∃ file, ∀ strict index, p.file strict (lastNamed before) index = .ok file := by
  obtain ⟨file, hfile⟩ := named_iff.mp h
  exact ⟨file, fun _ _ => by rw [PlaceRef.file, hfile]⟩

end PlaceRef

section

variable {d : Dictionary} {strict : Bool} {named : UInt32 → Option String} {index : Nat}
  {event : Event}

/-- A beginning is read if its kind, its name and its file are. -/
lemma Opening.meaning_eq_ok_iff {o : Opening} : o.meaning d strict named index = .ok event ↔
    ∃ kind name file, Kind.ofCode? o.kind = some kind ∧ o.name.meaning d strict index = .ok name ∧
      o.place.file strict named index = .ok file ∧
        event = .opens ⟨kind, name, file, o.place.line, o.place.column⟩ := by
  unfold meaning
  cases Kind.ofCode? o.kind with
  | none => simp [bind, Except.bind]
  | some kind =>
    cases o.name.meaning d strict index with
    | error failure => simp [bind, Except.bind]
    | ok name =>
      cases o.place.file strict named index with
      | error failure => simp [bind, Except.bind]
      | ok file => simp [bind, Except.bind, pure, Except.pure, eq_comm]

namespace Entry

variable {e : Entry}

/-- An entry that is read has either a beginning or an end, and its event is of that sort. -/
lemma of_meaning_eq_ok (h : e.meaning d strict named index = .ok event) :
    event.isOpening = e.opening.isSome ∧ e.opening.isSome = !e.closing := by
  obtain ⟨_ | o, _ | _⟩ := e
  · simp [meaning] at h
  · obtain rfl : .closes = event := Except.ok.inj h
    exact ⟨rfl, rfl⟩
  · obtain ⟨kind, name, file, -, -, -, rfl⟩ := Opening.meaning_eq_ok_iff.mp h
    exact ⟨rfl, rfl⟩
  · simp [meaning] at h

/-- An entry that is read names the file that it gives a name to. -/
lemma names_of_meaning_eq_ok (h : e.meaning d strict named index = .ok event) (id : UInt32) :
    names id (e, .ok event) = e.gives id := by
  have hsort := (of_meaning_eq_ok h).1
  cases event with
  | opens i => rfl
  | closes =>
    have hopening : e.opening = none := by simpa [Event.isOpening] using hsort
    simp [names, gives, hopening]

lemma remember_lastNamed {past : List Entry}
    (h : e.meaning d strict (lastNamed past) index = .ok event) :
    Context.remember (lastNamed past) (e, .ok event) = lastNamed (past ++ [e]) := by
  funext id
  rw [Context.remember, names_of_meaning_eq_ok h, lastNamed_append]

end Entry

end

/-! ### Where reading fails -/

/-- The entry at which reading failed; there is none if the frames could not be put together. -/
def Failure.readAt? : Failure → Option Nat
  | malformed index _ | unknownKind index _ | unresolved (some index) _ | unnamedFile index _
  | compressedName index => some index
  | _ => none

section

variable {d : Dictionary} {strict : Bool} {named : UInt32 → Option String} {index : Nat}
  {failure : Failure}

lemma NameRef.readAt?_of_meaning {n : NameRef} (h : n.meaning d strict index = .error failure) :
    failure.readAt? = some index := by
  unfold meaning at h
  split at h
  · simp at h
  · cases hres : (({ dictionary := d } : Glossary).resolve ‹UInt32›).1 with
    | error cause =>
      rw [hres] at h
      obtain rfl := Except.error.inj h
      rfl
    | ok text => simp [hres, Except.mapError] at h
  · split at h
    · obtain rfl := Except.error.inj h
      rfl
    · simp at h
  · obtain rfl := Except.error.inj h
    rfl

lemma PlaceRef.readAt?_of_file {p : PlaceRef} (h : p.file strict named index = .error failure) :
    failure.readAt? = some index := by
  unfold file at h
  split at h
  · simp at h
  · split at h
    · obtain rfl := Except.error.inj h
      rfl
    · simp at h

lemma Entry.readAt?_of_meaning {e : Entry} (h : e.meaning d strict named index = .error failure) :
    failure.readAt? = some index := by
  obtain ⟨_ | o, _ | _⟩ := e
  · obtain rfl := Except.error.inj h
    rfl
  · simp [meaning] at h
  · simp only [meaning, Opening.meaning] at h
    cases hkind : Kind.ofCode? o.kind with
    | none =>
      rw [hkind] at h
      obtain rfl := Except.error.inj h
      rfl
    | some kind =>
      cases hname : o.name.meaning d strict index with
      | error cause =>
        rw [hkind, hname] at h
        obtain rfl := Except.error.inj h
        exact NameRef.readAt?_of_meaning hname
      | ok name =>
        cases hfile : o.place.file strict named index with
        | error cause =>
          rw [hkind, hname, hfile] at h
          obtain rfl := Except.error.inj h
          exact PlaceRef.readAt?_of_file hfile
        | ok file =>
          rw [hkind, hname, hfile] at h
          exact absurd h (by simp [bind, Except.bind, pure, Except.pure])
  · obtain rfl := Except.error.inj h
    rfl

end

/-! ### All the answers -/

section

variable {ε α : Type} {answers : List (Except ε α)} {failure : ε}

lemma exists_of_isOk {r : Except ε α} (h : r.isOk = true) : ∃ x, r = .ok x := by
  cases r with
  | error failure => simp [Except.isOk, Except.toBool] at h
  | ok x => exact ⟨x, rfl⟩

lemma map_eq_error_iff {β : Type} {f : α → β} {r : Except ε α} :
    r.map f = .error failure ↔ r = .error failure := by
  cases r <;> simp [Except.map]

lemma mapM_id_ok_cons (x : α) : (.ok x :: answers).mapM id = (answers.mapM id).map (x :: ·) := by
  rw [List.mapM_cons]
  cases answers.mapM id <;> rfl

lemma mapM_id_error_cons : (.error failure :: answers).mapM id = .error failure := by
  rw [List.mapM_cons]
  rfl

lemma mapM_id_ok_cons_eq_error_iff {x : α} :
    (.ok x :: answers).mapM id = .error failure ↔ answers.mapM id = .error failure := by
  rw [mapM_id_ok_cons, map_eq_error_iff]

/-- All is well if every answer is. -/
lemma mapM_id_eq_ok_iff {xs : List α} : answers.mapM id = .ok xs ↔ answers = xs.map .ok := by
  induction answers generalizing xs with
  | nil => cases xs <;> simp [pure, Except.pure]
  | cons answer answers ih =>
    cases answer with
    | error failure =>
      rw [mapM_id_error_cons]
      cases xs <;> simp
    | ok x =>
      rw [mapM_id_ok_cons]
      cases hrest : answers.mapM id <;> cases xs <;> simp [Except.map, ← ih, hrest]

/-- Otherwise the first failure is the outcome. -/
lemma mapM_id_eq_error_iff : answers.mapM id = .error failure ↔
    ∃ (xs : List α) (rest : List (Except ε α)),
      answers = xs.map .ok ++ .error failure :: rest := by
  induction answers with
  | nil => simp [pure, Except.pure]
  | cons answer answers ih =>
    cases answer with
    | error cause =>
      rw [mapM_id_error_cons]
      constructor
      · rintro ⟨⟩
        exact ⟨[], answers, rfl⟩
      · rintro ⟨_ | ⟨x, xs⟩, rest, h⟩
        · obtain ⟨⟨⟩, -⟩ := List.cons.inj h
          rfl
        · simp at h
    | ok x =>
      rw [mapM_id_ok_cons_eq_error_iff, ih]
      constructor
      · rintro ⟨xs, rest, rfl⟩
        exact ⟨x :: xs, rest, rfl⟩
      · rintro ⟨_ | ⟨y, ys⟩, rest, h⟩
        · simp at h
        · exact ⟨ys, rest, (List.cons.inj h).2⟩

lemma mem_of_mapM_id_eq_error (h : answers.mapM id = .error failure) :
    .error failure ∈ answers := by
  obtain ⟨xs, rest, rfl⟩ := mapM_id_eq_error_iff.mp h
  simp

lemma mapM_id_map {β : Type} (f : α → β) (answers : List (Except ε α)) :
    (answers.map (·.map f)).mapM id = (answers.mapM id).map (·.map f) := by
  cases h : answers.mapM id with
  | ok xs =>
    obtain rfl := mapM_id_eq_ok_iff.mp h
    exact mapM_id_eq_ok_iff.mpr (by simp [Except.map])
  | error failure =>
    obtain ⟨xs, rest, rfl⟩ := mapM_id_eq_error_iff.mp h
    exact mapM_id_eq_error_iff.mpr ⟨xs.map f, rest.map (·.map f), by simp [Except.map]⟩

/-- If every failure is told in another way, so is that of the outcome. -/
lemma mapM_id_mapError {ε' : Type} (f : ε → ε') (answers : List (Except ε α)) :
    (answers.map (·.mapError f)).mapM id = (answers.mapM id).mapError f := by
  cases h : answers.mapM id with
  | ok xs =>
    obtain rfl := mapM_id_eq_ok_iff.mp h
    exact mapM_id_eq_ok_iff.mpr (by simp [Except.mapError])
  | error failure =>
    obtain ⟨xs, rest, rfl⟩ := mapM_id_eq_error_iff.mp h
    exact mapM_id_eq_error_iff.mpr ⟨xs, rest.map (·.mapError f), by simp [Except.mapError]⟩

end

/-- What the entries mean, each after those before it. -/
def Trace.answers (t : Trace) (strict : Bool) : List (Except Failure Event) :=
  t.entries.mapIdx fun index e =>
    e.meaning t.dictionary strict (lastNamed (t.entries.take index)) index

namespace Context

variable {c : Context} {d : Dictionary} {strict : Bool}

lemma events_cons (index : Nat) (e : Entry) (es : List Entry) : c.events index (e :: es) =
    match (c.step index e).1 with
    | .error failure => .error failure
    | .ok event => ((c.step index e).2.events (index + 1) es).map (event :: ·) := by
  rw [events]
  rcases c.step index e with ⟨failure | event, c⟩
  · rfl
  · simp only
    cases c.events (index + 1) es <;> rfl

/-- The entries are read by what they mean after the past ones, up to the first failure. -/
lemma Recalls.events_eq {past : List Entry} (h : c.Recalls d strict (lastNamed past))
    (es : List Entry) :
    c.events past.length es = (es.mapIdx fun k e =>
      e.meaning d strict (lastNamed (past ++ es.take k)) (past.length + k)).mapM id := by
  induction es generalizing c past with
  | nil => rfl
  | cons e es ih =>
    obtain ⟨hanswer, hnext⟩ := h.step past.length e
    rw [events_cons, List.mapIdx_cons, hanswer]
    simp only [List.take_zero, List.append_nil, Nat.add_zero]
    cases hm : e.meaning d strict (lastNamed past) past.length with
    | error failure => rw [mapM_id_error_cons]
    | ok event =>
      rw [hm, Entry.remember_lastNamed hm] at hnext
      have hrest := ih hnext
      rw [List.length_append, List.length_singleton] at hrest
      simp only [hrest, mapM_id_ok_cons, List.append_assoc, List.singleton_append,
        List.take_succ_cons, Nat.add_assoc, Nat.add_comm 1]

end Context

namespace Trace

/-- **The first failure among the answers decides.** -/
lemma events_eq (t : Trace) (strict : Bool) : t.events strict = (t.answers strict).mapM id := by
  have hstart : (Context.initial strict t.dictionary).Recalls t.dictionary strict (lastNamed []) :=
    Context.recalls_initial t.dictionary strict
  have h := hstart.events_eq t.entries
  simpa [Trace.events, answers] using h

lemma getElem?_answers (t : Trace) (strict : Bool) (index : Nat) :
    (t.answers strict)[index]? = t.entries[index]?.map fun e =>
      e.meaning t.dictionary strict (lastNamed (t.entries.take index)) index := by
  simp [answers]

@[simp] lemma length_answers (t : Trace) (strict : Bool) :
    (t.answers strict).length = t.entries.length := by
  simp [answers]

/-- A failure to read is the first among the answers, and names the entry that gave it. -/
lemma answers_of_events_eq_error {t : Trace} {strict : Bool} {failure : Failure}
    (h : t.events strict = .error failure) :
    ∃ (events : List Event) (rest : List (Except Failure Event)),
      t.answers strict = events.map .ok ++ .error failure :: rest ∧
        failure.readAt? = some events.length := by
  rw [events_eq, mapM_id_eq_error_iff] at h
  obtain ⟨events, rest, hsplit⟩ := h
  have hhere : (t.answers strict)[events.length]? = some (.error failure) := by simp [hsplit]
  rw [getElem?_answers, Option.map_eq_some_iff] at hhere
  obtain ⟨e, -, hfailure⟩ := hhere
  exact ⟨events, rest, hsplit, Entry.readAt?_of_meaning hfailure⟩

/-! ### A trace for trying things out -/

/-- A file that is named once and used twice, markers that are shared, and a name that is there only
in compressed form. -/
def partlyNamed : Trace where
  entries := [
    { opening := some ⟨0, { dictionaryId := some 2 }, { fileId := 7, fileName := some "fib.hpp" }⟩ },
    { opening := some ⟨3, { literal := some "f", dictionaryId := some 9 }, { fileId := 7 }⟩ },
    { closing := true },
    { opening := some ⟨8, { compressed := some "?" }, { fileId := 7 }⟩ },
    { closing := true }, { closing := true }]
  dictionary := #[⟨"int", []⟩, ⟨"v<\x00>", [0, 3]⟩, ⟨"p<\x00,\x00>", [1, 1]⟩, ⟨"a<\x00>", [3]⟩]

end Trace

end TemplateTrace
