import TemplateTrace.Evaluation.Text
import TemplateTrace.Recording.Writer
import TemplateTrace.Proofs.Json.RoundTrip

/-!
A recorded trace is read back as it was written.

A member that is absent is left out, and is absent again when nothing of its name is found. So what
has to be known of a structure is that its members are written under different names, and that each
of them is read back under its name; the rest is said once for all structures.
-/

namespace TemplateTrace

/-! ### Members -/

namespace Record

lemma keyed_map (members : List (String × Json)) :
    keyed (members.map fun m => (some m.1, m.2)) = some members := by
  induction members with
  | nil => rfl
  | cons m ms ih => rw [List.map_cons, keyed, ih, Option.map_some]

lemma distinct_of_nodup {members : List (String × Json)} (h : (members.map (·.1)).Nodup) :
    distinct members = true := by
  induction members with
  | nil => rfl
  | cons m ms ih =>
    obtain ⟨hm, hms⟩ := List.nodup_cons.mp h
    simp only [List.mem_map, not_exists, not_and] at hm
    simp only [distinct, ih hms, Bool.and_true, Bool.not_eq_true', List.any_eq_false,
      decide_eq_true_eq]
    exact hm

/-- A structure is read back if its members are written by name and in order. -/
lemma ofJson?_record {names : List String} {members : List (String × Json)}
    (h : (members.map (·.1)).Sublist names) (hnames : names.Nodup) :
    ofJson? names (.record members) = some ⟨members⟩ := by
  have hknown : (members.filter fun m => names.contains m.1) = members := by
    refine List.filter_eq_self.mpr fun m hm => ?_
    exact List.contains_iff_mem.mpr (h.subset (List.mem_map_of_mem hm))
  have hdistinct : distinct members = true := distinct_of_nodup (hnames.sublist h)
  simp only [Json.record, ofJson?, keyed_map, Option.bind_eq_bind, Option.bind_some, hknown,
    hdistinct, if_true]

@[simp]
lemma find_append (ms ns : List (String × Json)) (name : String) :
    find ⟨ms ++ ns⟩ name = (find ⟨ms⟩ name).or (find ⟨ns⟩ name) := List.lookup_append

@[simp]
lemma find_cons (key : String) (v : Json) (ms : List (String × Json)) (name : String) :
    find ⟨(key, v) :: ms⟩ name = if name = key then some v else find ⟨ms⟩ name := by
  by_cases h : name = key
  · simp [find, h]
  · simp [find, List.lookup_cons, beq_false_of_ne h, h]

@[simp]
lemma find_nil (name : String) : find ⟨[]⟩ name = none := rfl

@[simp]
lemma find_present {α : Type} (key : String) (write : α → Json) (value : Option α) (name : String) :
    find ⟨Json.present key write value⟩ name = if name = key then value.map write else none := by
  cases value with
  | none => simp [Json.present]
  | some x => simp [Json.present]

end Record

namespace Json

/-- Whatever is written is read back, and is written with plain integers. Nothing is written as
null. -/
structure Undoes {α : Type} (read : Json → Option α) (write : α → Json) : Prop where
  back (x : α) : read (write x) = some x
  null : read .null = none
  integral (x : α) : (write x).Integral

end Json

open Json

section Members

variable {α : Type} {r : Record} {name : String} {read : Json → Option α} {write : α → Json}

lemma Record.required_of_find {x : α} (h : Undoes read write) (hr : r.find name = some (write x)) :
    r.required name read = some x := by
  rw [required, hr, Option.bind_some, h.back]

lemma Record.withDefault_of_find {x default : α} (h : Undoes read write)
    (hr : r.find name = some (write x)) : r.withDefault name read default = some x := by
  simp only [withDefault, hr, h.back]

lemma Record.optional_of_find {value : Option α} (h : Undoes read write)
    (hr : r.find name = value.map write) : r.optional name read = some value := by
  cases value with
  | none => simp only [optional, hr, Option.map_none]
  | some x =>
    have hnull : write x ≠ .null := fun hx => by simpa [← hx, h.back] using h.null
    simp only [optional, hr, Option.map_some]
    rw [h.back, Option.map_some]

end Members

namespace Json.Undoes

lemma text : Undoes text? Json.string where
  back _ := rfl
  null := rfl
  integral s := .text (some s)

lemma word : Undoes word? Json.word where
  back n := by
    have hn : n.toNat < 4294967296 := n.toNat_lt
    simp [Json.word, nat, word?, hn]
  null := rfl
  integral n := .integer n.toNat

lemma signedWord : Undoes signedWord? Json.signedWord where
  back n := by
    have hn : -2147483648 ≤ n.toInt := n.le_toInt
    simp [Json.signedWord, signedWord?, hn, n.toInt_le]
  null := rfl
  integral n := .integer n.toInt

lemma list {α : Type} {read : Json → Option α} {write : α → Json} (h : Undoes read write) :
    Undoes (list? read) fun xs => .array (xs.map write) where
  back xs := by
    simp only [list?]
    induction xs with
    | nil => rfl
    | cons x xs ih => simp [h.back, ih]
  null := rfl
  integral xs := .array (by simpa using fun x _ => h.integral x)

end Json.Undoes

/-! ### Structures -/

/-- The members of a structure, each of them written at most once and in the order of the names. -/
structure Record.Written (names : List String) (members : List (String × Json)) : Prop where
  named : (members.map (·.1)).Sublist names
  integral : ∀ m ∈ members, m.2.Integral

namespace Record.Written

variable {α : Type} {read : Json → Option α} {write : α → Json}

lemma member (h : Undoes read write) (key : String) (x : α) :
    Written [key] [(key, write x)] where
  named := .refl _
  integral := by simpa using h.integral x

lemma present (h : Undoes read write) (key : String) (value : Option α) :
    Written [key] (Json.present key write value) := by
  cases value with
  | none => exact ⟨List.nil_sublist _, by simp [Json.present]⟩
  | some x => exact member h key x

lemma append {names names' : List String} {ms ms' : List (String × Json)} (h : Written names ms)
    (h' : Written names' ms') : Written (names ++ names') (ms ++ ms') where
  named := by simpa using h.named.append h'.named
  integral m hm := (List.mem_append.mp hm).elim (h.integral m) (h'.integral m)

end Record.Written

/-- A structure is read back from its members. -/
lemma Json.Undoes.record {α : Type} {read : Json → Option α} {names : List String}
    {members : α → List (String × Json)} {decode : Record → Option α}
    (hread : ∀ v, read v = (Record.ofJson? names v).bind decode) (hnames : names.Nodup)
    (hwritten : ∀ x, Record.Written names (members x))
    (hback : ∀ x r, r = Record.mk (members x) → decode r = some x) :
    Undoes read fun x => .record (members x) where
  back x := by
    rw [hread, Record.ofJson?_record (hwritten x).named hnames, Option.bind_some, hback x _ rfl]
  null := hread .null
  integral x := .object (List.forall_mem_map.mpr (hwritten x).integral)

/-! ### The parts of a recording -/

lemma NameRef.undoes : Undoes ofJson? toJson := by
  refine Undoes.record (fun _ => rfl) (by decide)
    (fun n => ((Record.Written.present Undoes.text "name" n.literal).append
      (.present Undoes.word "dict_id" n.dictionaryId)).append
      (.present Undoes.text "compressed_name" n.compressed)) fun n r hr => ?_
  have hliteral : r.find "name" = n.literal.map string := by simp [hr]
  have hid : r.find "dict_id" = n.dictionaryId.map word := by simp [hr]
  have hcompressed : r.find "compressed_name" = n.compressed.map string := by simp [hr]
  simp [Record.optional_of_find Undoes.text hliteral, Record.optional_of_find Undoes.word hid,
    Record.optional_of_find Undoes.text hcompressed]

lemma PlaceRef.undoes : Undoes ofJson? toJson := by
  refine Undoes.record (fun _ => rfl) (by decide)
    (fun p => (((Record.Written.member Undoes.word "file_id" p.fileId).append
      (.present Undoes.text "file_name" p.fileName)).append
      (.member Undoes.word "line" p.line)).append
      (.present Undoes.word "column" p.column)) fun p r hr => ?_
  have hid : r.find "file_id" = some (word p.fileId) := by simp [hr]
  have hfile : r.find "file_name" = p.fileName.map string := by simp [hr]
  have hline : r.find "line" = some (word p.line) := by simp [hr]
  have hcolumn : r.find "column" = p.column.map word := by simp [hr]
  simp [Record.required_of_find Undoes.word hid, Record.optional_of_find Undoes.text hfile,
    Record.withDefault_of_find Undoes.word hline, Record.optional_of_find Undoes.word hcolumn]

lemma Opening.undoes : Undoes ofJson? toJson := by
  refine Undoes.record (fun _ => rfl) (by decide)
    (fun o => (Record.Written.member Undoes.signedWord "kind" o.kind).append
      ((Record.Written.member NameRef.undoes "name" o.name).append
      (.member PlaceRef.undoes "location" o.place))) fun o r hr => ?_
  have hkind : r.find "kind" = some (signedWord o.kind) := by simp [hr]
  have hname : r.find "name" = some o.name.toJson := by simp [hr]
  have hplace : r.find "location" = some o.place.toJson := by simp [hr]
  simp [Record.required_of_find Undoes.signedWord hkind,
    Record.required_of_find NameRef.undoes hname, Record.required_of_find PlaceRef.undoes hplace]

/-- An end is written as a structure without members. -/
lemma Record.Written.closing (closing : Bool) :
    Written ["end"] (if closing then [("end", Json.record [])] else []) := by
  cases closing with
  | false => exact ⟨List.nil_sublist _, by simp⟩
  | true => exact ⟨.refl _, by simp⟩

lemma Entry.undoes : Undoes ofJson? toJson := by
  refine Undoes.record (fun _ => rfl) (by decide)
    (fun e => (Record.Written.present Opening.undoes "begin" e.opening).append
      (.closing e.closing)) fun e r hr => ?_
  have hopening : r.find "begin" = e.opening.map Opening.toJson := by
    cases h : e.closing <;> simp [hr, h]
  -- Of an end nothing is kept but that there is one, so its reader undoes no writer.
  have hclosing : ∃ closing, r.optional "end" (Record.ofJson? []) = some closing ∧
      closing.isSome = e.closing := by
    cases h : e.closing with
    | false => exact ⟨none, by simp [Record.optional, hr, h], rfl⟩
    | true =>
      have hfind : r.find "end" = some (.record []) := by simp [hr, h]
      exact ⟨some ⟨[]⟩, by rw [Record.optional, hfind]; rfl, rfl⟩
  obtain ⟨closing, hend, hsome⟩ := hclosing
  simp [Record.optional_of_find Opening.undoes hopening, hend, hsome]

lemma DictionaryEntry.undoes : Undoes ofJson? toJson := by
  refine Undoes.record (fun _ => rfl) (by decide)
    (fun e => (Record.Written.member Undoes.text "marked_name" e.marked).append
      (.member Undoes.word.list "marker_ids" e.markers)) fun e r hr => ?_
  have hmarked : r.find "marked_name" = some (string e.marked) := by simp [hr]
  have hmarkers : r.find "marker_ids" = some (.array (e.markers.map word)) := by simp [hr]
  simp [Record.required_of_find Undoes.text hmarked,
    Record.withDefault_of_find Undoes.word.list hmarkers]

lemma Trace.undoes : Undoes ofJson? toJson := by
  refine Undoes.record (fun _ => rfl) (by decide)
    (fun t => (Record.Written.member Entry.undoes.list "entries" t.entries).append
      (.member DictionaryEntry.undoes.list "names" t.dictionary.toList)) fun t r hr => ?_
  have hentries : r.find "entries" = some (.array (t.entries.map Entry.toJson)) := by simp [hr]
  have hnames : r.find "names" =
      some (.array (t.dictionary.toList.map DictionaryEntry.toJson)) := by simp [hr]
  simp [Record.withDefault_of_find Entry.undoes.list hentries,
    Record.withDefault_of_find DictionaryEntry.undoes.list hnames]

lemma Collection.undoes : Undoes ofJson? toJson := by
  refine Undoes.record (fun _ => rfl) (by decide)
    (fun c => .member Trace.undoes.list "traces" c.traces) fun c r hr => ?_
  have htraces : r.find "traces" = some (.array (c.traces.map Trace.toJson)) := by simp [hr]
  simp [Record.withDefault_of_find Trace.undoes.list htraces]

namespace Collection

lemma ofText_compact (c : Collection) : ofText c.toJson.compact = .ok c := by
  have hread : Json.ofText? c.toJson.compact = some c.toJson :=
    Json.ofText?_write (undoes.integral c) .compact
  rw [ofText, hread, Option.bind_some, undoes.back]

/-- **A trace file is read back as it was written**, and a written trace is as good as the trace
itself: what is made of it is the same evaluation or the same failure. -/
theorem ofText_toJson_compact :
    (∀ c : Collection, ofText c.toJson.compact = .ok c) ∧
      ∀ (v : View) (t : Trace),
        Evaluation.ofText v (toJson ⟨[t]⟩).compact = Evaluation.ofTrace v t := by
  refine ⟨ofText_compact, fun v t => ?_⟩
  rw [Evaluation.ofText, ofText_compact]
  rfl

end Collection

end TemplateTrace
