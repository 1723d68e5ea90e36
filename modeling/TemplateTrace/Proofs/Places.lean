import TemplateTrace.Proofs.Acceptance
import TemplateTrace.Proofs.Relabelling
import TemplateTrace.Proofs.Strictness

/-!
The places of a recording are carried along and never looked at.

A trace without its places is read to the events without their places, as lenient reading refuses no
place. So the places can be taken out before the trace is read or after the frames are put together,
and what is shown without places is the same for all traces that differ in nothing else. The summary
does not even ask for the names: it can be told from the kinds of the entries.
-/

namespace TemplateTrace

/-- The instantiation at no place in particular. -/
def Instantiation.unplaced (i : Instantiation) : Instantiation := { i with place := ⟨"", 0, none⟩ }

/-- The instantiation with nothing but its kind. -/
def Instantiation.ofKind (k : Kind) : Instantiation := ⟨k, "", "", 0, none⟩

def Opening.unplaced (o : Opening) : Opening := { o with place := { fileId := 0 } }

def Entry.unplaced (e : Entry) : Entry := { e with opening := e.opening.map (·.unplaced) }

/-- The trace with the members of all places left out: the file, its name, the line, the column. -/
def Trace.unplaced (t : Trace) : Trace := { t with entries := t.entries.map (·.unplaced) }

/-- The code of the kind that begins; there is none if the entry is an end. -/
def Entry.code (e : Entry) : Option Int32 := e.opening.map (·.kind)

/-- The kind that begins; there is none if a frame ends. -/
def Event.kind? : Event → Option Kind
  | opens i => some i.kind
  | closes => none

/-! ### Reading without places -/

lemma lastNamed_unplaced (es : List Entry) (id : UInt32) :
    lastNamed (es.map (·.unplaced)) id = none := by
  refine lastNamed_eq_none_iff.mpr fun e he => ?_
  obtain ⟨e, -, rfl⟩ := List.mem_map.mp he
  obtain ⟨_ | o, closing⟩ := e
  · rfl
  · simp [Entry.unplaced, Entry.gives, Opening.unplaced]

lemma Entry.meaning_unplaced (d : Dictionary) (before : List Entry) (index : Nat) (e : Entry) :
    e.unplaced.meaning d false (lastNamed (before.map (·.unplaced))) index =
      (e.meaning d false (lastNamed before) index).map (·.relabel Instantiation.unplaced) := by
  obtain ⟨_ | o, _ | _⟩ := e
  · rfl
  · rfl
  · obtain ⟨file, hfile⟩ : ∃ file, o.place.file false (lastNamed before) index = .ok file :=
      PlaceRef.exists_file_lenient
    have hnowhere : o.unplaced.place.file false (lastNamed (before.map (·.unplaced))) index =
        .ok "" := by
      rw [PlaceRef.file, lastNamed_unplaced]
      rfl
    have hentry : Entry.unplaced { opening := some o } = { opening := some o.unplaced } := rfl
    have hkind : o.unplaced.kind = o.kind := rfl
    have hname : o.unplaced.name = o.name := rfl
    simp only [hentry, meaning, Opening.meaning, hkind, hname, hfile, hnowhere]
    cases Kind.ofCode? o.kind with
    | none => rfl
    | some kind => cases o.name.meaning d false index <;> rfl
  · rfl

namespace Trace

lemma answers_unplaced (t : Trace) : t.unplaced.answers false =
    (t.answers false).map (·.map (·.relabel Instantiation.unplaced)) := by
  apply List.ext_getElem?
  intro index
  rw [List.getElem?_map, getElem?_answers, getElem?_answers, unplaced, List.getElem?_map,
    Option.map_map, Option.map_map, ← List.map_take]
  congr 1
  funext e
  exact e.meaning_unplaced _ _ _

/-- **Without places a trace is read to the events without places.** -/
lemma events_unplaced (t : Trace) : t.unplaced.events false =
    (t.events false).map (·.map (·.relabel Instantiation.unplaced)) := by
  rw [events_eq, events_eq, answers_unplaced, mapM_id_map]

end Trace

/-! ### Reading the kinds -/

lemma Entry.kind?_of_meaning_eq_ok {d : Dictionary} {strict : Bool}
    {named : UInt32 → Option String} {index : Nat} {e : Entry} {event : Event}
    (h : e.meaning d strict named index = .ok event) :
    event.kind? = e.code.bind Kind.ofCode? := by
  obtain ⟨_ | o, _ | _⟩ := e
  · simp [meaning] at h
  · obtain rfl : .closes = event := Except.ok.inj h
    rfl
  · obtain ⟨kind, name, file, hkind, -, -, rfl⟩ := Opening.meaning_eq_ok_iff.mp h
    exact hkind.symm
  · simp [meaning] at h

lemma Trace.map_kind?_of_events {t : Trace} {strict : Bool} {events : List Event}
    (h : t.events strict = .ok events) :
    events.map (·.kind?) = (t.entries.map (·.code)).map (·.bind Kind.ofCode?) := by
  rw [events_eq, mapM_id_eq_ok_iff] at h
  apply List.ext_getElem?
  intro index
  have hanswer := getElem?_answers t strict index
  rw [h, List.getElem?_map] at hanswer
  rw [List.getElem?_map, List.getElem?_map, List.getElem?_map]
  cases he : t.entries[index]? with
  | none =>
    rw [he, Option.map_none, Option.map_eq_none_iff] at hanswer
    rw [hanswer]
    rfl
  | some e =>
    rw [he, Option.map_some, Option.map_eq_some_iff] at hanswer
    obtain ⟨event, hevent, hmeaning⟩ := hanswer
    rw [hevent, Option.map_some, Option.map_some, Option.map_some,
      Entry.kind?_of_meaning_eq_ok hmeaning.symm]

/-- Events of the same kinds are the same events if nothing but the kinds is told. -/
lemma map_relabel_of_map_kind? {es es' : List Event}
    (h : es.map (·.kind?) = es'.map (·.kind?)) :
    es.map (·.relabel fun i => .ofKind i.kind) = es'.map (·.relabel fun i => .ofKind i.kind) := by
  have hbare : (fun e : Event => e.relabel fun i => .ofKind i.kind) =
      (fun k => k.elim .closes fun k => .opens (.ofKind k)) ∘ Event.kind? := by
    funext e
    cases e <;> rfl
  rw [hbare, ← List.map_map, ← List.map_map, h]

namespace Evaluation

/-! ### The evaluation -/

/-- Places can be taken out before or after. -/
lemma ofTrace_unplaced (full : Bool) (rootName result : String) (t : Trace) :
    ofTrace ⟨false, full, rootName, result⟩ t.unplaced =
      (ofTrace ⟨false, full, rootName, result⟩ t).map (·.relabel Instantiation.unplaced) := by
  have hkind (i : Instantiation) : i.unplaced.kind = i.kind := rfl
  unfold ofTrace
  rw [Trace.events_unplaced]
  cases t.events false with
  | error failure => rfl
  | ok events => exact ofEvents_relabel hkind full rootName result events

/-- Strict reading gives nothing that lenient reading does not give. -/
lemma ofTrace_lenient_of_ok {strict full : Bool} {rootName result : String} {t : Trace}
    {e : Evaluation} (h : ofTrace ⟨strict, full, rootName, result⟩ t = .ok e) :
    ofTrace ⟨false, full, rootName, result⟩ t = .ok e := by
  cases strict with
  | false => exact h
  | true =>
    rcases ofTrace_strict full rootName result t with hsame | ⟨_, refusal, -, hrefused, -⟩
    · rw [← hsame, h]
    · rw [h] at hrefused
      simp at hrefused

/-- The labels of an evaluation are not summed up. -/
lemma summary_eq_of_ofEvents {full : Bool} {rootName rootName' result result' : String}
    {es : List Event} {e e' : Evaluation} (h : ofEvents full rootName result es = .ok e)
    (h' : ofEvents full rootName' result' es = .ok e') : e.summary = e'.summary := by
  obtain ⟨f, rfl, rfl⟩ := ofEvents_eq_ok_iff.mp h
  rw [ofEvents_events] at h'
  obtain rfl := Except.ok.inj h'
  rfl

/-- The kinds of the entries decide the summary. -/
lemma summary_eq_of_codes {v v' : View} {t t' : Trace} {e e' : Evaluation}
    (hfull : v.full = v'.full) (hcodes : t.entries.map (·.code) = t'.entries.map (·.code))
    (h : ofTrace v t = .ok e) (h' : ofTrace v' t' = .ok e') : e.summary = e'.summary := by
  obtain ⟨events, hevents, he⟩ := exists_events_of_ofTrace h
  obtain ⟨events', hevents', he'⟩ := exists_events_of_ofTrace h'
  let bare : Instantiation → Instantiation := fun i => .ofKind i.kind
  have hkind (i : Instantiation) : (bare i).kind = i.kind := rfl
  have hsame : events.map (·.relabel bare) = events'.map (·.relabel bare) := by
    apply map_relabel_of_map_kind?
    rw [Trace.map_kind?_of_events hevents, Trace.map_kind?_of_events hevents', hcodes]
  have hbare := ofEvents_relabel hkind v.full v.rootName v.result events
  have hbare' := ofEvents_relabel hkind v'.full v'.rootName v'.result events'
  rw [he, hsame] at hbare
  rw [he', ← hfull] at hbare'
  calc e.summary = (e.relabel bare).summary := (summary_relabel hkind e).symm
    _ = (e'.relabel bare).summary := summary_eq_of_ofEvents hbare hbare'
    _ = e'.summary := summary_relabel hkind e'

section Unplaced

variable {full : Bool} {rootName result : String} {t t' : Trace}

lemma ofTrace_map_unplaced (full : Bool) (rootName result : String)
    (h : t.unplaced = t'.unplaced) :
    (ofTrace ⟨false, full, rootName, result⟩ t).map (·.relabel Instantiation.unplaced) =
      (ofTrace ⟨false, full, rootName, result⟩ t').map (·.relabel Instantiation.unplaced) := by
  rw [← ofTrace_unplaced, ← ofTrace_unplaced, h]

lemma ofTrace_eq_error_iff_of_unplaced (h : t.unplaced = t'.unplaced) (failure : Failure) :
    ofTrace ⟨false, full, rootName, result⟩ t = .error failure ↔
      ofTrace ⟨false, full, rootName, result⟩ t' = .error failure := by
  rw [← map_eq_error_iff, ofTrace_map_unplaced full rootName result h, map_eq_error_iff]

lemma relabel_unplaced_eq {strict : Bool} {e e' : Evaluation} (h : t.unplaced = t'.unplaced)
    (he : ofTrace ⟨strict, full, rootName, result⟩ t = .ok e)
    (he' : ofTrace ⟨strict, full, rootName, result⟩ t' = .ok e') :
    e.relabel Instantiation.unplaced = e'.relabel Instantiation.unplaced := by
  have hmap := ofTrace_map_unplaced full rootName result h
  rw [ofTrace_lenient_of_ok he, ofTrace_lenient_of_ok he'] at hmap
  exact Except.ok.inj hmap

end Unplaced

/-- **Places are only carried along.** Traces that differ in nothing but places have, read leniently,
the same failure or evaluations that look the same; read strictly, they look the same if both are
read. And the summary of a trace that is read can be told from the kinds that its entries begin. -/
theorem ofTrace_places_unseen (t t' : Trace) :
    (t.unplaced = t'.unplaced → ∀ full rootName result,
      (∀ failure, ofTrace ⟨false, full, rootName, result⟩ t = .error failure ↔
        ofTrace ⟨false, full, rootName, result⟩ t' = .error failure) ∧
      ∀ strict e e', ofTrace ⟨strict, full, rootName, result⟩ t = .ok e →
        ofTrace ⟨strict, full, rootName, result⟩ t' = .ok e' →
        (∀ width, e.drawing width = e'.drawing width) ∧ e.outline = e'.outline ∧
          e.summary = e'.summary) ∧
    (t.entries.map (·.code) = t'.entries.map (·.code) → ∀ v v' e e', v.full = v'.full →
      ofTrace v t = .ok e → ofTrace v' t' = .ok e' → e.summary = e'.summary) := by
  refine ⟨fun h full rootName result => ⟨ofTrace_eq_error_iff_of_unplaced h, ?_⟩,
    fun hcodes v v' e e' hfull => summary_eq_of_codes hfull hcodes⟩
  intro strict e e' he he'
  have hsame := relabel_unplaced_eq h he he'
  have hkind (i : Instantiation) : i.unplaced.kind = i.kind := rfl
  have hname (i : Instantiation) : i.unplaced.name = i.name := rfl
  refine ⟨fun width => ?_, ?_, ?_⟩
  · rw [← drawing_relabel hkind hname e, hsame, drawing_relabel hkind hname]
  · rw [← outline_relabel hkind hname e, hsame, outline_relabel hkind hname]
  · rw [← summary_relabel hkind e, hsame, summary_relabel hkind]

/-- The frames of the trace all at one place in a file without a name, and then with names of their
own besides; without the last end, both traces leave a frame open. -/
theorem ofTrace_places_unseen_partlyNamed :
    let change (f : Opening → Opening) (t : Trace) : Trace :=
      { t with entries := t.entries.map fun e => { e with opening := e.opening.map f } }
    let moved := change fun o => { o with place := { fileId := 1, line := 4, column := some 2 } }
    let named := change fun o => { o with name := { literal := some "f" } }
    let cut : Trace := { Trace.partlyNamed with entries := Trace.partlyNamed.entries.dropLast }
    (∃ e e', ofTrace ⟨false, true, "root", "int"⟩ .partlyNamed = .ok e ∧
      ofTrace ⟨false, true, "root", "int"⟩ (moved .partlyNamed) = .ok e' ∧ e ≠ e' ∧
      ∀ width, e.drawing width = e'.drawing width) ∧
    ofTrace ⟨false, true, "root", "int"⟩ (moved cut) = .error (.unbalanced none 1) ∧
    ∃ e e', ofTrace ⟨false, true, "root", "int"⟩ (moved .partlyNamed) = .ok e ∧
      ofTrace ⟨true, true, "", ""⟩ (named .partlyNamed) = .ok e' ∧ e.outline ≠ e'.outline ∧
      e.summary = e'.summary := by
  intro change moved named cut
  obtain ⟨e, he⟩ : ∃ e, ofTrace ⟨false, true, "root", "int"⟩ .partlyNamed = .ok e :=
    exists_of_isOk (by decide +kernel)
  obtain ⟨e', he'⟩ : ∃ e, ofTrace ⟨false, true, "root", "int"⟩ (moved .partlyNamed) = .ok e :=
    exists_of_isOk (by decide +kernel)
  obtain ⟨e'', he''⟩ : ∃ e, ofTrace ⟨true, true, "", ""⟩ (named .partlyNamed) = .ok e :=
    exists_of_isOk (by decide +kernel)
  obtain ⟨hplaces, -⟩ := ofTrace_places_unseen .partlyNamed (moved .partlyNamed)
  obtain ⟨hcut, -⟩ := ofTrace_places_unseen cut (moved cut)
  obtain ⟨-, hcodes⟩ := ofTrace_places_unseen (moved .partlyNamed) (named .partlyNamed)
  have hother : ofTrace ⟨false, true, "root", "int"⟩ .partlyNamed ≠
      ofTrace ⟨false, true, "root", "int"⟩ (moved .partlyNamed) := by decide +kernel
  have hnames : (ofTrace ⟨false, true, "root", "int"⟩ (moved .partlyNamed)).map outline ≠
      (ofTrace ⟨true, true, "", ""⟩ (named .partlyNamed)).map outline := by decide +kernel
  rw [he, he'] at hother
  rw [he', he''] at hnames
  refine ⟨⟨e, e', he, he', fun h => hother (congrArg Except.ok h), ?_⟩, ?_,
    e', e'', he', he'', fun h => hnames (congrArg Except.ok h), ?_⟩
  · exact ((hplaces (by decide) true "root" "int").2 _ _ _ he he').1
  · exact ((hcut (by decide) true "root" "int").1 _).mp (by decide +kernel)
  · exact hcodes (by decide) ⟨false, true, "root", "int"⟩ ⟨true, true, "", ""⟩ _ _ rfl he' he''

end Evaluation

end TemplateTrace
