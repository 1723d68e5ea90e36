import TemplateTrace.Proofs.Representation

/-!
From which documents a recording is read.

A document is read as a recording if and only if the recording is written as it. So the result
depends on nothing but what is given under each name. Two documents agree if they give the same at
every depth, whatever the order of the members, whatever other members there are, whether a usual
value is given or left out, and whether a structure is an object or an array; and from documents
that agree the same is read.
-/

namespace TemplateTrace

namespace Json

/-- The documents are the same, or both give the structure and agree on what is given under each
name, or usual where nothing is given. The function `member` tells what it is to agree on a
member. -/
inductive Agree (names : List String) (usual : String → Option Json)
    (member : String → Json → Json → Prop) : Json → Json → Prop
  | same (v : Json) : Agree names usual member v v
  | given {v w : Json} {f g : String → Option Json} (hv : Gives names v f) (hw : Gives names w g)
      (h : ∀ name ∈ names,
        Option.Rel (member name) ((f name).or (usual name)) ((g name).or (usual name))) :
      Agree names usual member v w

/-- The documents are the same, or lists that agree item by item. -/
inductive AgreeOnItems (item : Json → Json → Prop) : Json → Json → Prop
  | same (v : Json) : AgreeOnItems item v v
  | items {vs ws : List Json} (h : List.Forall₂ item vs ws) :
      AgreeOnItems item (.array vs) (.array ws)

end Json

open Json

/-! ### The parts of a recording -/

def NameRef.Agree : Json → Json → Prop :=
  Json.Agree ["name", "dict_id", "compressed_name"] (fun _ => some .null) fun _ => Eq

def PlaceRef.Agree : Json → Json → Prop :=
  Json.Agree ["file_id", "file_name", "line", "column"]
    (fun
      | "file_id" => none
      | "line" => some (.nat 0)
      | _ => some .null)
    fun _ => Eq

def Opening.Agree : Json → Json → Prop :=
  Json.Agree ["kind", "name", "location"] (fun _ => none) fun
    | "name" => NameRef.Agree
    | "location" => PlaceRef.Agree
    | _ => Eq

def AgreeOnEnd : Json → Json → Prop :=
  Json.Agree [] (fun _ => none) fun _ => Eq

def Entry.Agree : Json → Json → Prop :=
  Json.Agree ["begin", "end"] (fun _ => some .null) fun
    | "begin" => Opening.Agree
    | _ => AgreeOnEnd

def DictionaryEntry.Agree : Json → Json → Prop :=
  Json.Agree ["marked_name", "marker_ids"]
    (fun
      | "marked_name" => none
      | _ => some (.array []))
    fun _ => Eq

def Trace.Agree : Json → Json → Prop :=
  Json.Agree ["entries", "names"] (fun _ => some (.array [])) fun
    | "entries" => AgreeOnItems Entry.Agree
    | _ => AgreeOnItems DictionaryEntry.Agree

def Collection.Agree : Json → Json → Prop :=
  Json.Agree ["traces"] (fun _ => some (.array [])) fun _ => AgreeOnItems Trace.Agree

/-! ### What agreeing documents are written from -/

namespace Json

section Structures

variable {names : List String} {usual : String → Option Json}
  {member : String → Json → Json → Prop} {v w : Json}

/-- A structure gives one thing under each name. -/
lemma Gives.unique {f g : String → Option Json} (hnames : names.Nodup) (hf : Gives names v f)
    (hg : Gives names v g) : f = g := by
  obtain ⟨r, hr, rfl⟩ := (Record.gives_iff hnames).mp hf
  obtain ⟨r', hr', rfl⟩ := (Record.gives_iff hnames).mp hg
  rw [Option.some.inj (hr.symm.trans hr')]

/-- Documents agree if what is read from them does. -/
lemma Agree.of_read {r r' : Record} (hnames : names.Nodup) (hr : Record.ofJson? names v = some r)
    (hr' : Record.ofJson? names w = some r')
    (h : ∀ name ∈ names,
      Option.Rel (member name) ((r.find name).or (usual name)) ((r'.find name).or (usual name))) :
    Agree names usual member v w :=
  .given ((Record.gives_iff hnames).mpr ⟨r, hr, rfl⟩)
    ((Record.gives_iff hnames).mpr ⟨r', hr', rfl⟩) h

end Structures

/-- Documents that agree are written from the same values. Null agrees with nothing else, so that it
keeps its meaning as an optional member. -/
structure Respects {α : Type} (agree : Json → Json → Prop) (written : α → Json → Prop) : Prop where
  iff {v w : Json} (h : agree v w) (x : α) : written x v ↔ written x w
  null {v w : Json} (h : agree v w) : v = .null ↔ w = .null

namespace Respects

lemma eq {α : Type} (written : α → Json → Prop) : Respects Eq written where
  iff h _ := h ▸ Iff.rfl
  null h := h ▸ Iff.rfl

variable {α : Type} {agree : Json → Json → Prop} {written : α → Json → Prop}

section Members

variable {a b : Option Json}

lemma required (hr : Respects agree written) (h : Option.Rel agree (a.or none) (b.or none))
    (x : α) : Required written x a ↔ Required written x b := by
  rw [Option.or_none, Option.or_none] at h
  cases h with
  | none => exact Iff.rfl
  | some h => simp only [Required, Option.some.injEq, exists_eq_left', hr.iff h]

lemma withDefault (hr : Respects agree written) {usual : α} {v : Json}
    (hv : ∀ x, written x v ↔ x = usual)
    (h : Option.Rel agree (a.or (some v)) (b.or (some v))) (x : α) :
    Defaulted written usual x a ↔ Defaulted written usual x b := by
  have hiff (a : Option Json) : Defaulted written usual x a ↔ written x (a.getD v) := by
    cases a with
    | none =>
      rw [Option.getD_none, hv]
      exact ⟨fun h => by cases h; rfl, fun h => h ▸ .missing⟩
    | some w => exact ⟨fun h => by cases h; assumption, .given⟩
  rw [Option.or_some, Option.or_some] at h
  cases h with
  | some h => rw [hiff, hiff, hr.iff h]

lemma optional (hr : Respects agree written) (hnull : ∀ x, ¬ written x .null)
    (h : Option.Rel agree (a.or (some .null)) (b.or (some .null))) (x : Option α) :
    Optional written x a ↔ Optional written x b := by
  have hiff (a : Option Json) : Optional written x a ↔
      (x = none ∧ a.getD .null = .null) ∨ ∃ y, x = some y ∧ written y (a.getD .null) := by
    constructor
    · rintro (_ | _ | hx)
      · exact .inl ⟨rfl, rfl⟩
      · exact .inl ⟨rfl, rfl⟩
      · exact .inr ⟨_, rfl, hx⟩
    · rintro (⟨rfl, ha⟩ | ⟨y, rfl, hx⟩)
      · cases a with
        | none => exact .missing
        | some v =>
          obtain rfl : v = .null := ha
          exact .null
      · cases a with
        | none => exact absurd hx (hnull y)
        | some v => exact .given hx
  rw [Option.or_some, Option.or_some] at h
  cases h with
  | some h => simp only [hiff, hr.null h, hr.iff h]

end Members

lemma forall₂ (hr : Respects agree written) {vs ws : List Json} (h : List.Forall₂ agree vs ws)
    (xs : List α) : List.Forall₂ written xs vs ↔ List.Forall₂ written xs ws := by
  induction h generalizing xs with
  | nil => exact Iff.rfl
  | cons h _ ih =>
    cases xs with
    | nil => simp
    | cons x xs => rw [List.forall₂_cons, List.forall₂_cons, hr.iff h, ih]

lemma list (hr : Respects agree written) : Respects (AgreeOnItems agree) (ListOf written) where
  iff h xs := by
    cases h with
    | same => exact Iff.rfl
    | items h =>
      exact ⟨fun ⟨hx⟩ => .items ((hr.forall₂ h xs).mp hx),
        fun ⟨hx⟩ => .items ((hr.forall₂ h xs).mpr hx)⟩
  null h := by cases h <;> simp

/-- Structures are written from the same values if their members are. -/
lemma record {names : List String} {usual : String → Option Json}
    {member : String → Json → Json → Prop} {members : α → (String → Option Json) → Prop}
    (hnames : names.Nodup)
    (h : ∀ x f g, (∀ name ∈ names,
        Option.Rel (member name) ((f name).or (usual name)) ((g name).or (usual name))) →
      (members x f ↔ members x g)) :
    Respects (Agree names usual member)
      fun x v => ∃ given, Gives names v given ∧ members x given where
  iff hagree x := by
    cases hagree with
    | same => exact Iff.rfl
    | given hv hw hfg =>
      next v w f g =>
      have hiff {v : Json} {f : String → Option Json} (hv : Gives names v f) :
          (∃ given, Gives names v given ∧ members x given) ↔ members x f :=
        ⟨fun ⟨_, hgiven, hx⟩ => hgiven.unique hnames hv ▸ hx, fun hx => ⟨f, hv, hx⟩⟩
      rw [hiff hv, hiff hw, h x f g hfg]
  null hagree := by
    cases hagree with
    | same => exact Iff.rfl
    | given hv hw => cases hv <;> cases hw <;> simp [Json.record]

end Respects

lemma isWord_zero_iff (n : UInt32) : IsWord n (.nat 0) ↔ n = 0 := by
  have hread : word? (.nat 0) = some 0 := rfl
  rw [← Reads.word.iff, hread, Option.some.injEq, eq_comm]

lemma listOf_nil_iff {α : Type} {written : α → Json → Prop} (xs : List α) :
    ListOf written xs (.array []) ↔ xs = [] := by
  constructor
  · rintro ⟨_ | _⟩
    rfl
  · rintro rfl
    exact .items .nil

end Json

lemma NameRef.respects : Respects Agree WrittenAs := by
  refine .record (by decide) fun n _ _ h => ?_
  have hliteral := (Respects.eq IsText).optional Reads.text.null (h "name" (by decide)) n.literal
  have hid := (Respects.eq IsWord).optional Reads.word.null (h "dict_id" (by decide)) n.dictionaryId
  have hcompressed :=
    (Respects.eq IsText).optional Reads.text.null (h "compressed_name" (by decide)) n.compressed
  exact and_congr hliteral (and_congr hid hcompressed)

lemma PlaceRef.respects : Respects Agree WrittenAs := by
  refine .record (by decide) fun p _ _ h => ?_
  have hid := (Respects.eq IsWord).required (h "file_id" (by decide)) p.fileId
  have hfile := (Respects.eq IsText).optional Reads.text.null (h "file_name" (by decide)) p.fileName
  have hline := (Respects.eq IsWord).withDefault isWord_zero_iff (h "line" (by decide)) p.line
  have hcolumn := (Respects.eq IsWord).optional Reads.word.null (h "column" (by decide)) p.column
  exact and_congr hid (and_congr hfile (and_congr hline hcolumn))

lemma Opening.respects : Respects Agree WrittenAs := by
  refine .record (by decide) fun o _ _ h => ?_
  have hkind := (Respects.eq IsSignedWord).required (h "kind" (by decide)) o.kind
  have hname := NameRef.respects.required (h "name" (by decide)) o.name
  have hplace := PlaceRef.respects.required (h "location" (by decide)) o.place
  exact and_congr hkind (and_congr hname hplace)

lemma respects_end : Respects AgreeOnEnd EndWrittenAs := by
  have h : Respects AgreeOnEnd fun (_ : Unit) v => ∃ given, Gives [] v given ∧ True :=
    .record List.nodup_nil fun _ _ _ _ => Iff.rfl
  simp only [and_true] at h
  exact h

lemma Entry.respects : Respects Agree WrittenAs := by
  refine .record (by decide) fun e _ _ h => ?_
  have hopening :=
    Opening.respects.optional Opening.reads.null (h "begin" (by decide)) e.opening
  have hclosing := respects_end.optional reads_end.null (h "end" (by decide))
    (if e.closing then some () else none)
  exact and_congr hopening hclosing

lemma DictionaryEntry.respects : Respects Agree WrittenAs := by
  refine .record (by decide) fun e _ _ h => ?_
  have hmarked := (Respects.eq IsText).required (h "marked_name" (by decide)) e.marked
  have hmarkers :=
    (Respects.eq (ListOf IsWord)).withDefault listOf_nil_iff (h "marker_ids" (by decide)) e.markers
  exact and_congr hmarked hmarkers

lemma Trace.respects : Respects Agree WrittenAs := by
  refine .record (by decide) fun t _ _ h => ?_
  have hentries :=
    Entry.respects.list.withDefault listOf_nil_iff (h "entries" (by decide)) t.entries
  have hnames := DictionaryEntry.respects.list.withDefault listOf_nil_iff (h "names" (by decide))
    t.dictionary.toList
  exact and_congr hentries hnames

lemma Collection.respects : Respects Agree WrittenAs := by
  refine .record (by decide) fun c _ _ h => ?_
  exact Trace.respects.list.withDefault listOf_nil_iff (h "traces" (by decide)) c.traces

/-! ### The recording of a text -/

namespace Collection

variable {text : String} {v : Json}

lemma ofText_eq_ok_iff (h : Json.ofText? text = some v) (c : Collection) :
    ofText text = .ok c ↔ c.WrittenAs v := by
  rw [ofText, h, Option.bind_some, ← reads.iff]
  cases ofJson? v with
  | none => simp
  | some c' => simp

/-- What is written from the same recordings is read with the same result. -/
lemma ofText_congr {text' : String} {w : Json} (h : Json.ofText? text = some v)
    (h' : Json.ofText? text' = some w) (hvw : ∀ c : Collection, c.WrittenAs v ↔ c.WrittenAs w) :
    ofText text = ofText text' := by
  have hread : ofJson? v = ofJson? w := Option.ext fun c => by rw [reads.iff, reads.iff, hvw]
  rw [ofText, ofText, h, h', Option.bind_some, Option.bind_some, hread]

/-- **A recording is read from a document if and only if it is written as the document.** From any
other document nothing is read, and from documents that agree the same is read. -/
theorem ofText_iff_writtenAs (h : Json.ofText? text = some v) :
    (∀ c : Collection, ofText text = .ok c ↔ c.WrittenAs v) ∧
      ((∀ c : Collection, ¬ c.WrittenAs v) →
        ∃ message, ofText text = .error (.format message)) ∧
      ∀ text' w, Json.ofText? text' = some w → Agree v w → ofText text' = ofText text := by
  refine ⟨ofText_eq_ok_iff h, fun hnone => ?_, fun text' w h' hagree => ?_⟩
  · have hread : ofJson? v = none :=
      Option.eq_none_iff_forall_ne_some.mpr fun c hc => hnone c ((reads.iff v c).mp hc)
    exact ⟨_, by rw [ofText, h, Option.bind_some, hread]⟩
  · exact ofText_congr h' h fun c => (respects.iff hagree c).symm

/-- In disorder, with other members, with arrays for structures and with usual values left out, the
same is written. -/
theorem ofText_iff_writtenAs_disordered :
    let place : PlaceRef := { fileId := 0, fileName := some "a.hpp" }
    let opening : Opening := ⟨1, { literal := some "f" }, place⟩
    let trace : Trace := { entries := [{ opening := some opening }] }
    let v := toJson ⟨[trace]⟩
    let placeItems : Json := .array [.nat 0, .string "a.hpp"]
    let openingInDisorder : Json := .record [("location", placeItems), ("id", .nat 1),
      ("name", .array [.string "f", .null]), ("kind", .nat 1)]
    let entry : Json := .record [("end", .null), ("begin", openingInDisorder)]
    let traceItems : Json := .array [.array [entry]]
    let w : Json := .record [("version", .null), ("traces", .array [traceItems])]
    (WrittenAs ⟨[trace]⟩ v ∧ Agree v w) ∧
      ofText v.compact = .ok ⟨[trace]⟩ ∧ ofText w.compact = .ok ⟨[trace]⟩ := by
  intro place opening trace v placeItems openingInDisorder entry traceItems w
  have hv : Json.ofText? v.compact = some v := Json.ofText?_write (undoes.integral _) .compact
  have hw : Json.ofText? w.compact = some w := by
    refine Json.ofText?_write ?_ .compact
    simp [w, traceItems, entry, openingInDisorder, placeItems, string, nat, Integral.null,
      Integral.text, Integral.integer]
  have hwritten : WrittenAs ⟨[trace]⟩ v := (reads.iff v _).mp (undoes.back _)
  have hplace : PlaceRef.Agree place.toJson placeItems :=
    .of_read (by decide) rfl rfl (by simp [place, word])
  have hname : NameRef.Agree opening.name.toJson (.array [.string "f", .null]) :=
    .of_read (by decide) rfl rfl (by simp)
  have hopening : Opening.Agree opening.toJson openingInDisorder :=
    .of_read (by decide) rfl rfl (by simp [hplace, hname, signedWord, nat, opening])
  have hentry : Entry.Agree (Entry.toJson { opening := some opening }) entry :=
    .of_read (by decide) rfl rfl (by simpa [hopening] using .same _)
  have htrace : Trace.Agree trace.toJson traceItems :=
    .of_read (by decide) rfl rfl <| by simpa [trace] using ⟨.items (.cons hentry .nil), .same _⟩
  have hagree : Agree v w := .of_read (by decide) rfl rfl <| by
    simpa [trace] using .items (.cons htrace .nil)
  obtain ⟨hread, -, hsame⟩ := ofText_iff_writtenAs hv
  have hok : ofText v.compact = .ok ⟨[trace]⟩ := (hread _).mpr hwritten
  exact ⟨⟨hwritten, hagree⟩, hok, (hsame _ w hw hagree).trans hok⟩

end Collection

end TemplateTrace
