import TemplateTrace.Proofs.Mirror
import TemplateTrace.Proofs.Strictness
import Mathlib.Order.Fin.Basic

/-!
Numbering the entries of the dictionary and the files anew.

An id is only a way to point to an entry, and a file number only a way to come back to a file. So if
the entries of the dictionary change places, the files get other numbers, and all references follow,
the evaluation of the trace is the same; and a trace that fails does so at the same entry for the
same cause, which names the ids that the trace has now.
-/

namespace TemplateTrace

/-- New places for the entries of a dictionary with `n` entries, and new numbers for the files.
Places that can be written as an id get places that can. -/
structure Renumbering (n : Nat) where
  place : Equiv.Perm (Fin n)
  files : UInt32 → UInt32
  place_lt : ∀ i : Fin n, i.val < UInt32.size → (place i).val < UInt32.size
  files_injective : Function.Injective files

namespace Renumbering

variable {n : Nat}

/-- If every place can be written as an id, the entries can change places in any way. -/
def ofPerm (h : n ≤ UInt32.size) (place : Equiv.Perm (Fin n)) (files : UInt32 → UInt32)
    (hfiles : Function.Injective files) : Renumbering n where
  place := place
  files := files
  place_lt i _ := (place i).isLt.trans_le h
  files_injective := hfiles

variable (ρ : Renumbering n) {i j : UInt32}

/-- The id of an entry is the one of its new place; an id without entry stays. -/
def ids (i : UInt32) : UInt32 :=
  if h : i.toNat < n then .ofNat (ρ.place ⟨i.toNat, h⟩) else i

lemma toNat_ids (h : i.toNat < n) : (ρ.ids i).toNat = ρ.place ⟨i.toNat, h⟩ := by
  have hword : (ρ.place ⟨i.toNat, h⟩).val < UInt32.size := ρ.place_lt _ i.toNat_lt
  rw [ids, dif_pos h, UInt32.toNat_ofNat_of_lt' hword]

lemma ids_of_le (h : n ≤ i.toNat) : ρ.ids i = i := by
  rw [ids, dif_neg (Nat.not_lt.mpr h)]

lemma toNat_ids_lt_iff : (ρ.ids i).toNat < n ↔ i.toNat < n := by
  rcases Nat.lt_or_ge i.toNat n with h | h
  · simp [ρ.toNat_ids h, h]
  · rw [ρ.ids_of_le h]

lemma ids_injective : Function.Injective ρ.ids := by
  intro i j hij
  -- an id that stays is never the new id of an entry
  have hiff : i.toNat < n ↔ j.toNat < n := by
    rw [← ρ.toNat_ids_lt_iff, hij, ρ.toNat_ids_lt_iff]
  rcases Nat.lt_or_ge i.toNat n with h | h
  · have hplace := congrArg UInt32.toNat hij
    rw [ρ.toNat_ids h, ρ.toNat_ids (hiff.mp h)] at hplace
    have hfin := ρ.place.injective (Fin.val_injective hplace)
    exact UInt32.toNat_inj.mp (Fin.mk.inj hfin)
  · rwa [ρ.ids_of_le h, ρ.ids_of_le (Nat.not_lt.mp fun hj => Nat.not_lt.mpr h (hiff.mpr hj))] at hij

end Renumbering

/-! ### The dictionary -/

def DictionaryEntry.renumber (ids : UInt32 → UInt32) (e : DictionaryEntry) : DictionaryEntry :=
  { e with markers := e.markers.map ids }

@[simp] lemma DictionaryEntry.placeholders_renumber (ids : UInt32 → UInt32) (e : DictionaryEntry) :
    (e.renumber ids).placeholders = e.placeholders := rfl

@[simp] lemma DictionaryEntry.markers_renumber (ids : UInt32 → UInt32) (e : DictionaryEntry) :
    (e.renumber ids).markers = e.markers.map ids := rfl

namespace Dictionary

/-- The dictionary with every entry at its new place. -/
def renumber (d : Dictionary) (ρ : Renumbering d.size) : Dictionary :=
  Array.ofFn fun i => d[ρ.place.symm i].renumber ρ.ids

variable {d : Dictionary} {ρ : Renumbering d.size} {i : UInt32}

@[simp] lemma size_renumber : (d.renumber ρ).size = d.size := Array.size_ofFn

lemma getElem?_place (k : Fin d.size) :
    (d.renumber ρ)[(ρ.place k).val]? = some (d[k].renumber ρ.ids) := by
  simp [renumber]

lemma getElem?_renumber : (d.renumber ρ)[(ρ.ids i).toNat]? =
    d[i.toNat]?.map (·.renumber ρ.ids) := by
  rcases Nat.lt_or_ge i.toNat d.size with h | h
  · rw [ρ.toNat_ids h, getElem?_place, Array.getElem?_eq_getElem h]
    rfl
  · rw [ρ.ids_of_le h, Array.getElem?_eq_none h, Array.getElem?_eq_none (by simpa using h)]
    rfl

lemma needs_renumber : (d.renumber ρ).needs (ρ.ids i) =
    ((d.needs i).map (·.map ρ.ids)).mapError (·.renumber ρ.ids) := by
  unfold needs entry
  rw [getElem?_renumber, size_renumber]
  cases d[i.toNat]? with
  | none => rfl
  | some e =>
    simp only [Option.map_some, DictionaryEntry.placeholders_renumber,
      DictionaryEntry.markers_renumber, List.length_map]
    by_cases hfew : e.markers.length < e.placeholders
    · rw [if_pos hfew, if_pos hfew]
      rfl
    · rw [if_neg hfew, if_neg hfew, ← List.map_take]
      rfl

lemma mirrors_renumber : d.Mirrors (d.renumber ρ) ρ.ids Set.univ where
  needs _ _ := needs_renumber
  splice i _ := by
    funext texts
    rw [splice, splice, getElem?_renumber]
    cases d[i.toNat]? <;> rfl
  closed _ _ _ _ := Set.mem_univ _
  injOn := ρ.ids_injective.injOn

lemma expand_renumber : (d.renumber ρ).expand [] (ρ.ids i) =
    (d.expand [] i).mapError (·.renumber ρ.ids) :=
  mirrors_renumber.expand_eq (List.forall_mem_nil _) (Set.mem_univ i)

end Dictionary

/-! ### The entries of a trace -/

def NameRef.renumber (ids : UInt32 → UInt32) (n : NameRef) : NameRef :=
  { n with dictionaryId := n.dictionaryId.map ids }

def PlaceRef.renumber (files : UInt32 → UInt32) (p : PlaceRef) : PlaceRef :=
  { p with fileId := files p.fileId }

def Opening.renumber (ids files : UInt32 → UInt32) (o : Opening) : Opening :=
  { o with name := o.name.renumber ids, place := o.place.renumber files }

def Entry.renumber (ids files : UInt32 → UInt32) (e : Entry) : Entry :=
  { e with opening := e.opening.map (·.renumber ids files) }

/-- The trace with its entries and files numbered anew, and all references to them. -/
def Trace.renumber (t : Trace) (ρ : Renumbering t.dictionary.size) : Trace where
  entries := t.entries.map (·.renumber ρ.ids ρ.files)
  dictionary := t.dictionary.renumber ρ

/-- The failure with the new numbers; the entries of the trace keep theirs. -/
def Failure.renumber (ids files : UInt32 → UInt32) : Failure → Failure
  | unresolved entry cause => unresolved entry (cause.renumber ids)
  | unnamedFile index id => unnamedFile index (files id)
  | failure => failure

section

variable {d d' : Dictionary} {ids files : UInt32 → UInt32} {named named' : UInt32 → Option String}
  {strict : Bool} {index : Nat}

lemma NameRef.meaning_renumber
    (hids : ∀ i, d'.expand [] (ids i) = (d.expand [] i).mapError (·.renumber ids)) (n : NameRef) :
    (n.renumber ids).meaning d' strict index =
      (n.meaning d strict index).mapError (·.renumber ids files) := by
  obtain ⟨_ | text, _ | id, compressed⟩ := n
  · cases compressed <;> cases strict <;> rfl
  · simp only [renumber, meaning, Option.map_some, (Glossary.serves_start _).resolve_eq, hids]
    cases d.expand [] id <;> rfl
  · rfl
  · rfl

lemma PlaceRef.file_renumber (hfiles : ∀ i, named' (files i) = named i) (p : PlaceRef) :
    (p.renumber files).file strict named' index =
      (p.file strict named index).mapError (·.renumber ids files) := by
  simp only [renumber, file, hfiles]
  cases p.fileName.or (named p.fileId) <;> cases strict <;> rfl

lemma Entry.meaning_renumber
    (hids : ∀ i, d'.expand [] (ids i) = (d.expand [] i).mapError (·.renumber ids))
    (hfiles : ∀ i, named' (files i) = named i) (e : Entry) :
    (e.renumber ids files).meaning d' strict named' index =
      (e.meaning d strict named index).mapError (·.renumber ids files) := by
  obtain ⟨_ | o, _ | _⟩ := e
  · rfl
  · rfl
  · have hname : (o.name.renumber ids).meaning d' strict index =
        (o.name.meaning d strict index).mapError (·.renumber ids files) :=
      o.name.meaning_renumber hids
    have hfile : (o.place.renumber files).file strict named' index =
        (o.place.file strict named index).mapError (·.renumber ids files) :=
      o.place.file_renumber hfiles
    simp only [renumber, meaning, Opening.meaning, Option.map_some, Opening.renumber, hname, hfile]
    cases Kind.ofCode? o.kind with
    | none => rfl
    | some kind =>
      cases o.name.meaning d strict index with
      | error failure => rfl
      | ok name => cases o.place.file strict named index <;> rfl
  · rfl

lemma Entry.gives_renumber (hfiles : Function.Injective files) (e : Entry) (id : UInt32) :
    (e.renumber ids files).gives (files id) = e.gives id := by
  obtain ⟨_ | o, closing⟩ := e
  · rfl
  · simp [renumber, gives, Opening.renumber, PlaceRef.renumber, hfiles.eq_iff]

lemma lastNamed_renumber (hfiles : Function.Injective files) (es : List Entry) (id : UInt32) :
    lastNamed (es.map (·.renumber ids files)) (files id) = lastNamed es id := by
  rw [lastNamed, ← List.map_reverse, List.findSome?_map, lastNamed]
  simp only [Function.comp_def, Entry.gives_renumber hfiles]

end

/-! ### The trace -/

namespace Trace

variable {t : Trace} {ρ : Renumbering t.dictionary.size}

lemma answers_renumber (strict : Bool) : (t.renumber ρ).answers strict =
    (t.answers strict).map (·.mapError (·.renumber ρ.ids ρ.files)) := by
  apply List.ext_getElem?
  intro index
  rw [List.getElem?_map, getElem?_answers, getElem?_answers, renumber, List.getElem?_map,
    Option.map_map, Option.map_map, ← List.map_take]
  congr 1
  funext e
  exact e.meaning_renumber (fun _ => Dictionary.expand_renumber)
    (lastNamed_renumber ρ.files_injective _)

lemma events_renumber (strict : Bool) : (t.renumber ρ).events strict =
    (t.events strict).mapError (·.renumber ρ.ids ρ.files) := by
  rw [events_eq, events_eq, answers_renumber, mapM_id_mapError]

end Trace

namespace Evaluation

/-- **Numbers are only for pointing.** The trace with its dictionary and files numbered anew has the
same evaluation; if it has none, it fails at the same entry and for the same cause, at the new id
or file number. -/
theorem ofTrace_renumber (v : View) (t : Trace) (ρ : Renumbering t.dictionary.size) :
    ofTrace v (t.renumber ρ) = (ofTrace v t).mapError (·.renumber ρ.ids ρ.files) := by
  unfold ofTrace
  rw [Trace.events_renumber]
  cases t.events v.strict with
  | error failure => rfl
  | ok events =>
    cases h : ofEvents v.full v.rootName v.result events with
    | ok e => simp [Except.mapError, h]
    | error failure =>
      -- what is out of balance is told without ids and file numbers
      obtain ⟨entry, n, rfl⟩ := eq_unbalanced_of_ofEvents h
      simp [Except.mapError, h, Failure.renumber]

/-- The dictionary is turned around, and file numbers are one higher: the trace gives what it gave;
an id that contains itself and a file that is never named fail at their new numbers. -/
theorem ofTrace_renumber_partlyNamed :
    let ρ : Renumbering 4 := .ofPerm (by decide) Fin.revPerm (· + 1) fun _ _ => (UInt32.add_left_inj 1).mp
    let opens (name : NameRef) : Trace :=
      { Trace.partlyNamed with entries := [{ opening := some ⟨0, name, { fileId := 7 }⟩ }] }
    let cyclic := opens { dictionaryId := some 3 }
    let unnamed := opens { dictionaryId := some 2 }
    (∃ e, ofTrace ⟨false, true, "root", "int"⟩ .partlyNamed = .ok e ∧
      ofTrace ⟨false, true, "root", "int"⟩ (Trace.partlyNamed.renumber ρ) = .ok e) ∧
    ofTrace ⟨true, true, "root", "int"⟩ cyclic = .error (.unresolved (some 0) (.cycle 3)) ∧
    ofTrace ⟨true, true, "root", "int"⟩ (cyclic.renumber ρ) =
      .error (.unresolved (some 0) (.cycle 0)) ∧
    ofTrace ⟨true, true, "root", "int"⟩ unnamed = .error (.unnamedFile 0 7) ∧
    ofTrace ⟨true, true, "root", "int"⟩ (unnamed.renumber ρ) = .error (.unnamedFile 0 8) := by
  intro ρ opens cyclic unnamed
  obtain ⟨e, he⟩ : ∃ e, ofTrace ⟨false, true, "root", "int"⟩ .partlyNamed = .ok e :=
    exists_of_isOk (by decide +kernel)
  have hcyclic : ofTrace ⟨true, true, "root", "int"⟩ cyclic =
      .error (.unresolved (some 0) (.cycle 3)) := by decide +kernel
  have hunnamed : ofTrace ⟨true, true, "root", "int"⟩ unnamed = .error (.unnamedFile 0 7) := by
    decide +kernel
  refine ⟨⟨e, he, ?_⟩, hcyclic, ?_, hunnamed, ?_⟩
  · rw [ofTrace_renumber _ .partlyNamed ρ, he]
    rfl
  · rw [ofTrace_renumber _ cyclic ρ, hcyclic]
    rfl
  · rw [ofTrace_renumber _ unnamed ρ, hunnamed]
    rfl

end Evaluation

end TemplateTrace
