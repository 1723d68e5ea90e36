import TemplateTrace.Proofs.Decoding
import Mathlib.Data.Finset.Dedup
import Mathlib.Data.Finset.Card
import Mathlib.Data.List.Induction

/-!
A table of file names, told by what was asked of it.

All that counts of its past is which names were given. Of the names of a file it is the last one that is
found, and the file is known from the first one on, even if that is empty. Tables that have the same
names are the same to all who ask, in whatever order the files came in; so places in different files
can be exchanged.
-/

namespace TemplateTrace

namespace FileTable

/-- What can be asked of a table: a place, whether a file is known, and how many files are. -/
inductive Call
  | locate (p : PlaceRef)
  | knows (id : UInt32)
  | size

inductive Answer
  | place (p : Place)
  | knows (known : Bool)
  | size (n : Nat)
  deriving DecidableEq

/-- The answer, and the table for the next call. -/
def call (t : FileTable) : Call → Answer × FileTable
  | .locate p =>
    let (place, t) := t.locate p.fileId p.fileName p.line p.column
    (.place place, t)
  | .knows id => (.knows (t.knows id), t)
  | .size => (.size t.size, t)

/-- The table after the calls. -/
def after (t : FileTable) (calls : List Call) : FileTable := calls.foldl (fun t c => (t.call c).2) t

/-- The answers to the calls, one after the other. -/
def answers (t : FileTable) : List Call → List Answer
  | [] => []
  | c :: calls => (t.call c).1 :: (t.call c).2.answers calls

/-- The file that the call names, and the name. -/
def Call.naming : Call → Option (UInt32 × String)
  | .locate p => p.fileName.map (p.fileId, ·)
  | _ => none

/-- The names that the calls give, in order. -/
def namings (calls : List Call) : List (UInt32 × String) := calls.filterMap Call.naming

variable {t t' : FileTable}

/-! ### One call -/

/-- A call changes the table by the name that it gives, if it gives one. -/
lemma call_snd (t : FileTable) (c : Call) :
    (t.call c).2 = c.naming.elim t fun n => t.record n.1 n.2 := by
  cases c with
  | locate p => cases h : p.fileName <;> simp [call, locate, Call.naming, h]
  | knows id => rfl
  | size => rfl

/-! ### All calls -/

/-- The table holds the names, and no others. -/
structure Holds (t : FileTable) (names : List (UInt32 × String)) : Prop where
  given : ∀ id, t.given id = names.reverse.lookup id
  size : t.size = (names.map Prod.fst).toFinset.card

variable {names : List (UInt32 × String)}

lemma holds_empty : Holds {} [] := ⟨fun id => given_empty id, rfl⟩

lemma Holds.knows_iff (h : t.Holds names) (id : UInt32) :
    t.knows id = true ↔ ∃ name, (id, name) ∈ names := by
  rw [knows_eq_isSome, h.given, List.lookup_isSome_iff]
  simp

lemma Holds.record (h : t.Holds names) (id : UInt32) (name : String) :
    (t.record id name).Holds (names ++ [(id, name)]) where
  given j := by
    rw [given_record, List.reverse_append, h.given]
    simp only [List.reverse_singleton, List.singleton_append, List.lookup_cons]
    grind
  size := by
    have hmem : t.knows id = true ↔ id ∈ (names.map Prod.fst).toFinset := by
      simp [h.knows_iff]
    have hinsert : ((names ++ [(id, name)]).map Prod.fst).toFinset =
        insert id (names.map Prod.fst).toFinset := by
      ext j
      simp
    rw [size_record, hinsert, Finset.card_insert_eq_ite, h.size]
    simp only [hmem]

/-- **The table holds the names that were given.** -/
lemma holds_after (calls : List Call) : (after {} calls).Holds (namings calls) := by
  induction calls using List.reverseRecOn with
  | nil => exact holds_empty
  | append_singleton calls c ih =>
    have hafter : after {} (calls ++ [c]) = ((after {} calls).call c).2 := by
      simp [after, List.foldl_append]
    have hnamings : namings (calls ++ [c]) = namings calls ++ c.naming.toList := by
      cases hc : c.naming <;> simp [namings, List.filterMap_append, hc]
    rw [hafter, hnamings, call_snd]
    cases c.naming with
    | none => simpa using ih
    | some n => exact ih.record n.1 n.2

/-! ### Tables that have the same names -/

/-- The tables have the same names for the same files. -/
def Alike (t t' : FileTable) : Prop := t.given = t'.given

lemma Alike.size_eq (h : Alike t t') : t.size = t'.size :=
  (Std.TreeMap.Equiv.of_forall_constGet?_eq (congrFun h)).size_eq

lemma Alike.note (h : Alike t t') (id : UInt32) (name : Option String) :
    Alike (t.note id name) (t'.note id name) := by
  rw [Alike, given_note, given_note, h]

lemma Alike.call (h : Alike t t') (c : Call) :
    (t.call c).1 = (t'.call c).1 ∧ Alike (t.call c).2 (t'.call c).2 := by
  cases c with
  | locate p =>
    simp only [FileTable.call, locate_eq, congrFun h p.fileId, true_and]
    exact h.note _ _
  | knows id => exact ⟨by simp only [FileTable.call, knows_eq_isSome, congrFun h id], h⟩
  | size => exact ⟨by simp only [FileTable.call, h.size_eq], h⟩

lemma Alike.answers_eq (h : Alike t t') (calls : List Call) : t.answers calls = t'.answers calls := by
  induction calls generalizing t t' with
  | nil => rfl
  | cons c calls ih =>
    obtain ⟨hanswer, hnext⟩ := h.call c
    rw [answers, answers, hanswer, ih hnext]

/-! ### Places in different files -/

variable {i j : UInt32}

lemma given_note_of_ne (hne : i ≠ j) (name : Option String) :
    (t.note i name).given j = t.given j := by
  simp [given_note, hne]

/-- Names of different files can be given in either order. -/
lemma alike_note_note (hne : i ≠ j) (name other : Option String) :
    Alike ((t.note i name).note j other) ((t.note j other).note i name) := by
  funext k
  simp only [given_note]
  grind

/-- **The history tells what a table answers.** A place has the line and the column that are asked for,
and the name given with it, or else the one that was given last for its file, or else the empty one;
the files known are those that were given a name, and each counts once; and two places in different
files can be asked for in either order, without a difference to them or to anything later. -/
theorem answers_of_namings (calls : List Call) :
    let t := after {} calls
    (∀ p : PlaceRef, (t.locate p.fileId p.fileName p.line p.column).1 =
      ⟨(p.fileName.or ((namings calls).reverse.lookup p.fileId)).getD "", p.line, p.column⟩) ∧
    (∀ id, t.knows id = true ↔ ∃ name, (id, name) ∈ namings calls) ∧
    t.size = ((namings calls).map Prod.fst).toFinset.card ∧
    ∀ p q : PlaceRef, p.fileId ≠ q.fileId → ∀ later, ∃ x y rest,
      t.answers (.locate p :: .locate q :: later) = x :: y :: rest ∧
      t.answers (.locate q :: .locate p :: later) = y :: x :: rest := by
  intro t
  have h : t.Holds (namings calls) := holds_after calls
  refine ⟨fun p => by rw [locate_eq, h.given], h.knows_iff, h.size, fun p q hne later => ?_⟩
  have hrest := (alike_note_note (t := t) hne p.fileName q.fileName).answers_eq later
  refine ⟨_, _, _, rfl, ?_⟩
  simp only [answers, FileTable.call, locate_eq, given_note_of_ne hne, given_note_of_ne hne.symm,
    hrest]

/-- A file that is named twice, one with the empty name, and one without a name. -/
def renamed : List Call :=
  [.locate { fileId := 7, fileName := some "old.hpp" }, .knows 7,
    .locate { fileId := 7, fileName := some "new.hpp" },
    .locate { fileId := 5, fileName := some "" }, .locate { fileId := 9 }]

/-- The new name is found, the empty one counts, and what was asked in vain left nothing behind; then file
7 is named again, before or after a place in file 5. -/
theorem answers_of_namings_renamed :
    let t := after {} renamed
    let p : PlaceRef := { fileId := 7, fileName := some "fib.hpp" }
    let q : PlaceRef := { fileId := 5 }
    let later : List Call := [.locate { fileId := 7, line := 2, column := some 4 }, .size]
    (t.locate 7 none 3 none).1 = ⟨"new.hpp", 3, none⟩ ∧
      t.knows 5 = true ∧ t.knows 9 = false ∧ t.size = 2 ∧ p.fileId ≠ q.fileId ∧
      t.answers (.locate p :: .locate q :: later) = [.place ⟨"fib.hpp", 0, none⟩,
        .place ⟨"", 0, none⟩, .place ⟨"fib.hpp", 2, some 4⟩, .size 2] ∧
      t.answers (.locate q :: .locate p :: later) = [.place ⟨"", 0, none⟩,
        .place ⟨"fib.hpp", 0, none⟩, .place ⟨"fib.hpp", 2, some 4⟩, .size 2] := by
  intro t p q later
  have hnamings : namings renamed = [(7, "old.hpp"), (7, "new.hpp"), (5, "")] := rfl
  obtain ⟨hplace, hknows, hsize, hexchange⟩ := answers_of_namings renamed
  rw [hnamings] at hplace hknows hsize
  have hne : p.fileId ≠ q.fileId := by decide
  have hanswers : t.answers (.locate p :: .locate q :: later) = [.place ⟨"fib.hpp", 0, none⟩,
      .place ⟨"", 0, none⟩, .place ⟨"fib.hpp", 2, some 4⟩, .size 2] := by decide +kernel
  obtain ⟨x, y, rest, hpq, hqp⟩ := hexchange p q hne later
  obtain ⟨rfl, rfl, rfl⟩ : _ = x ∧ _ = y ∧ _ = rest := by
    simpa using hanswers.symm.trans hpq
  refine ⟨hplace { fileId := 7, line := 3 }, (hknows 5).mpr ⟨"", by simp⟩, ?_, hsize, hne, hanswers,
    hqp⟩
  rw [Bool.eq_false_iff, ne_eq, hknows 9]
  simp

end FileTable

end TemplateTrace
