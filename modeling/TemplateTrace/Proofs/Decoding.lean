import TemplateTrace.Context
import TemplateTrace.Proofs.Resolution

/-!
What an entry means, and what it leaves behind.

An entry is answered by itself, the dictionary, and the file names that were given before it. The
names that were resolved before save work and are never seen; of the files, what counts is the name
given last by an entry that was answered with a beginning. So an entry that fails, and an end, could
as well not be there.
-/

namespace TemplateTrace

namespace FileTable

/-- The name last given for the number, if there is one. -/
def given (t : FileTable) (id : UInt32) : Option String := t.names[id]?

lemma given_empty (id : UInt32) : ({} : FileTable).given id = none := by simp [given]

lemma given_record (t : FileTable) (i j : UInt32) (s : String) :
    (t.record i s).given j = if i = j then some s else t.given j := by
  simp [given, record, Std.TreeMap.getElem?_insert]

lemma knows_eq_isSome (t : FileTable) (id : UInt32) : t.knows id = (t.given id).isSome := by
  rw [Bool.eq_iff_iff, given, Std.TreeMap.isSome_getElem?_iff_mem, knows, decide_eq_true_iff]

lemma name_eq_getD (t : FileTable) (id : UInt32) : t.name id = (t.given id).getD "" := by
  simp [name, given, Std.TreeMap.getD_eq_getD_getElem?]

/-- The table after a place that may name its file. -/
def note (t : FileTable) (id : UInt32) (name : Option String) : FileTable :=
  name.elim t (t.record id)

lemma given_note (t : FileTable) (id : UInt32) (name : Option String) :
    (t.note id name).given = fun j => (if id = j then name else none).or (t.given j) := by
  funext j
  cases name with
  | none => simp [note]
  | some s =>
    rw [note, Option.elim_some, given_record]
    split <;> rfl

/-- A place has the name given with it, or else the one that its file has. -/
lemma locate_eq (t : FileTable) (id : UInt32) (name : Option String) (line : UInt32)
    (column : Option UInt32) : t.locate id name line column =
      (⟨(name.or (t.given id)).getD "", line, column⟩, t.note id name) := by
  cases name <;> simp [locate, name_eq_getD, note]

end FileTable

/-! ### The meaning of an entry -/

/-- The name that is meant: the literal one, or else the one that the dictionary id has where
nothing is known yet, or else what stands for a compressed name. -/
def NameRef.meaning (d : Dictionary) (strict : Bool) (index : Nat) (n : NameRef) :
    Except Failure String :=
  match n.literal, n.dictionaryId, n.compressed with
  | some text, _, _ => .ok text
  | none, some id, _ =>
    (({ dictionary := d } : Glossary).resolve id).1.mapError (.unresolved (some index))
  | none, none, some _ =>
    if strict then .error (.compressedName index) else .ok Context.compressedName
  | none, none, none => .error (.malformed index .emptyName)

/-- The file that is meant: the one named here, or else the one whose name was given before. -/
def PlaceRef.file (strict : Bool) (named : UInt32 → Option String) (index : Nat) (p : PlaceRef) :
    Except Failure String :=
  match p.fileName.or (named p.fileId) with
  | some file => .ok file
  | none => if strict then .error (.unnamedFile index p.fileId) else .ok ""

/-- The beginning that is meant; the kind is looked at before the name, and the name before the
file. -/
def Opening.meaning (d : Dictionary) (strict : Bool) (named : UInt32 → Option String) (index : Nat)
    (o : Opening) : Except Failure Event := do
  let kind ← (Kind.ofCode? o.kind).elim (.error (.unknownKind index o.kind)) .ok
  let name ← o.name.meaning d strict index
  let file ← o.place.file strict named index
  return .opens ⟨kind, name, ⟨file, o.place.line, o.place.column⟩⟩

namespace Entry

/-- The event that is meant, where files have the names `named`. -/
def meaning (d : Dictionary) (strict : Bool) (named : UInt32 → Option String) (index : Nat)
    (e : Entry) : Except Failure Event :=
  match e.opening, e.closing with
  | some _, true => .error (.malformed index .bothBeginAndEnd)
  | none, false => .error (.malformed index .neitherBeginNorEnd)
  | none, true => .ok .closes
  | some o, false => o.meaning d strict named index

/-- The name that the entry gives to the file. -/
def gives (e : Entry) (id : UInt32) : Option String :=
  e.opening.bind fun o => if o.place.fileId = id then o.place.fileName else none

/-- The name that the file has from an entry with the answer; only beginnings name files. -/
def names (id : UInt32) : Entry × Except Failure Event → Option String
  | (e, .ok (.opens _)) => e.gives id
  | _ => none

end Entry

lemma findSome?_reverse_append {α β : Type} (f : α → Option β) (xs : List α) (x : α) :
    (xs ++ [x]).reverse.findSome? f = (f x).or (xs.reverse.findSome? f) := by
  rw [List.reverse_append, List.reverse_singleton, List.singleton_append, List.findSome?_cons]
  cases f x <;> rfl

/-- The name of the file that was given last. -/
def lastGiven (history : List (Entry × Except Failure Event)) (id : UInt32) : Option String :=
  history.reverse.findSome? (Entry.names id)

lemma lastGiven_append (history : List (Entry × Except Failure Event))
    (p : Entry × Except Failure Event) (id : UInt32) :
    lastGiven (history ++ [p]) id = (Entry.names id p).or (lastGiven history id) :=
  findSome?_reverse_append _ history p

namespace Context

/-- The context after the entries, each with its index, failures or not. -/
def after (c : Context) (calls : List (Nat × Entry)) : Context :=
  calls.foldl (fun c call => (c.step call.1 call.2).2) c

def history (c : Context) : List (Nat × Entry) → List (Entry × Except Failure Event)
  | [] => []
  | (index, e) :: calls => (e, (c.step index e).1) :: history (c.step index e).2 calls

/-- The context has the dictionary, and knows the files by the names. -/
structure Recalls (c : Context) (d : Dictionary) (strict : Bool)
    (named : UInt32 → Option String) : Prop where
  strict : c.strict = strict
  names : c.names.Serves d
  files : c.files.given = named

variable {c : Context} {d : Dictionary} {strict : Bool} {named : UInt32 → Option String}

/-- The name is the one that is meant, whatever was resolved before. -/
lemma name_eq_meaning (hs : c.names.Serves d) (index : Nat) (n : NameRef) :
    (c.name index n).1 = n.meaning d c.strict index ∧ (c.name index n).2.Serves d := by
  obtain ⟨literal, id, compressed⟩ := n
  rcases literal with _ | text
  · rcases id with _ | id
    · rcases compressed with _ | text
      · exact ⟨rfl, hs⟩
      · cases hc : c.strict <;> exact ⟨by simp [name, NameRef.meaning, hc], by simpa [name, hc]⟩
    · have hserves := hs.resolve id
      have hmeans : NameRef.meaning d c.strict index ⟨none, some id, compressed⟩ =
          (c.names.resolve id).1.mapError (.unresolved (some index)) := by
        rw [hs.resolve_eq, ← (Glossary.serves_start d).resolve_eq]
        rfl
      rw [hmeans]
      simp only [name]
      split <;> next hres => rw [hres] at hserves ⊢; exact ⟨rfl, hserves⟩
  · exact ⟨rfl, hs⟩

lemma place_eq_map_file (c : Context) (index : Nat) (p : PlaceRef) :
    c.place index p = (p.file c.strict c.files.given index).map fun file =>
      (⟨file, p.line, p.column⟩, c.files.note p.fileId p.fileName) := by
  cases hn : p.fileName with
  | none =>
    cases hg : c.files.given p.fileId <;> cases hs : c.strict <;>
      simp [place, PlaceRef.file, FileTable.locate_eq, FileTable.knows_eq_isSome, Except.map, hn,
        hg, hs]
  | some file => simp [place, PlaceRef.file, FileTable.locate_eq, Except.map, hn]

/-- What is known of the files after an entry. -/
def remember (named : UInt32 → Option String) (p : Entry × Except Failure Event) :
    UInt32 → Option String := fun id => (Entry.names id p).or (named id)

lemma remember_of_not_opens {p : Entry × Except Failure Event}
    (h : ∀ i, p.2 ≠ .ok (.opens i)) : remember named p = named := by
  obtain ⟨e, failure | _ | _⟩ := p
  · rfl
  · exact absurd rfl (h _)
  · rfl

/-- A beginning is answered by what it means, and names its file if all is well. -/
lemma Recalls.opening (h : c.Recalls d strict named) (index : Nat) (o : Opening) :
    (c.opening index o).1 = o.meaning d strict named index ∧
      (c.opening index o).2.Recalls d strict
        (remember named ({ opening := some o }, o.meaning d strict named index)) := by
  obtain ⟨rfl, hnames, rfl⟩ := h
  obtain ⟨hname, hserves⟩ := name_eq_meaning hnames index o.name
  have hplace := place_eq_map_file c index o.place
  unfold Context.opening Opening.meaning
  cases Kind.ofCode? o.kind with
  | none => exact ⟨rfl, rfl, hnames, rfl⟩
  | some kind =>
    rw [← hname]
    rcases hn : c.name index o.name with ⟨failure | name, names⟩ <;> rw [hn] at hserves
    · exact ⟨rfl, rfl, hserves, rfl⟩
    · cases hf : o.place.file c.strict c.files.given index with
      | error failure =>
        simp only [hplace, hf, Except.map]
        exact ⟨rfl, rfl, hserves, rfl⟩
      | ok file =>
        simp only [hplace, hf, Except.map]
        exact ⟨rfl, rfl, hserves, FileTable.given_note _ _ _⟩

lemma Recalls.step (h : c.Recalls d strict named) (index : Nat) (e : Entry) :
    (c.step index e).1 = e.meaning d strict named index ∧
      (c.step index e).2.Recalls d strict
        (remember named (e, e.meaning d strict named index)) := by
  obtain ⟨opening, closing⟩ := e
  rcases opening with _ | o <;> cases closing
  · exact ⟨rfl, h⟩
  · exact ⟨rfl, h⟩
  · exact h.opening index o
  · exact ⟨rfl, h⟩

lemma remember_lastGiven (history : List (Entry × Except Failure Event))
    (p : Entry × Except Failure Event) :
    remember (lastGiven history) p = lastGiven (history ++ [p]) :=
  funext fun id => (lastGiven_append history p id).symm

lemma Recalls.after {past : List (Entry × Except Failure Event)}
    (h : c.Recalls d strict (lastGiven past)) (calls : List (Nat × Entry)) :
    (c.after calls).Recalls d strict (lastGiven (past ++ c.history calls)) := by
  induction calls generalizing c past with
  | nil => simpa [Context.after, history] using h
  | cons call calls ih =>
    obtain ⟨index, e⟩ := call
    obtain ⟨hanswer, hnext⟩ := h.step index e
    rw [remember_lastGiven, ← hanswer] at hnext
    have hafter := ih hnext
    rwa [List.append_assoc, List.singleton_append] at hafter

lemma recalls_initial (d : Dictionary) (strict : Bool) :
    (initial strict d).Recalls d strict (lastGiven []) :=
  ⟨rfl, Glossary.serves_start d, funext FileTable.given_empty⟩

/-- Contexts that know the files by the same names give the same answers from then on. -/
lemma Recalls.history_eq {c' : Context} (h : c.Recalls d strict named)
    (h' : c'.Recalls d strict named) (calls : List (Nat × Entry)) :
    c.history calls = c'.history calls := by
  induction calls generalizing c c' named with
  | nil => rfl
  | cons call calls ih =>
    obtain ⟨index, e⟩ := call
    obtain ⟨hanswer, hnext⟩ := h.step index e
    obtain ⟨hanswer', hnext'⟩ := h'.step index e
    rw [history, history, hanswer, hanswer', ih hnext hnext']

/-- **Every answer is the meaning of the entry** where files have the names that were given last by
entries answered with a beginning, whatever failed or was resolved before. So an entry that is
not answered with a beginning changes no later answer. -/
theorem step_after_eq_meaning (d : Dictionary) (strict : Bool) (calls : List (Nat × Entry)) :
    let c := (initial strict d).after calls
    (∀ index e, (c.step index e).1 =
        e.meaning d strict (lastGiven ((initial strict d).history calls)) index) ∧
      ∀ index e, (∀ i, (c.step index e).1 ≠ .ok (.opens i)) →
        ∀ later, (c.step index e).2.history later = c.history later := by
  have hafter := (recalls_initial d strict).after calls
  refine ⟨fun index e => (hafter.step index e).1, fun index e hno later => ?_⟩
  obtain ⟨hanswer, hnext⟩ := hafter.step index e
  rw [remember_of_not_opens (hanswer ▸ hno)] at hnext
  exact hnext.history_eq hafter later

end Context

/-- A beginning of the kind with the code, in file 7. -/
def Entry.inFile (code : Int32) (fileName : Option String) : Entry where
  opening := some ⟨code, { literal := some "f" }, { fileId := 7, fileName }⟩

open Context in
/-- An entry of an unknown kind names file 7 anew, and nobody sees it. -/
theorem Context.step_after_eq_meaning_unknown_kind :
    let c := (initial true #[]).after [(0, .inFile 0 (some "fib.hpp"))]
    let lost : Entry := .inFile 42 (some "lost.hpp")
    (c.step 1 lost).1 = .error (.unknownKind 1 42) ∧
      (c.step 1 lost).2.history [(2, .inFile 8 none)] = c.history [(2, .inFile 8 none)] ∧
      c.history [(2, .inFile 8 none)] =
        [(.inFile 8 none, .ok (.opens ⟨.memoization, "f", "fib.hpp", 0, none⟩))] := by
  intro c lost
  have hlost : (c.step 1 lost).1 = .error (.unknownKind 1 42) := rfl
  obtain ⟨-, hunseen⟩ := step_after_eq_meaning #[] true [(0, .inFile 0 (some "fib.hpp"))]
  exact ⟨hlost, hunseen 1 lost (by rw [hlost]; nofun) _, by decide +kernel⟩

end TemplateTrace
