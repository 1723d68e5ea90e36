import TemplateTrace.Proofs.Recording
import Mathlib.Data.List.Nodup

/-!
Which documents a recording is written as.

A structure is an object or an array, and what counts is what it gives under each name. A member has
to be given, or has a usual value where it is missing, or is optional, and then null is as good as
missing. This is said once for each sort of member, and the documents of each part of a recording
are put together from it. A reader finds what is written as the document and nothing else, so that
it fails exactly where nothing is written as the document.
-/

namespace TemplateTrace

namespace Json

/-! ### Structures -/

/-- The document gives a structure by members that have the names: an object in which none of them
is repeated, and others do not count, or an array of the first of them in order. The function tells
what is given under each name. -/
inductive Gives (names : List String) : Json → (String → Option Json) → Prop
  | object {members : List (String × Json)} {given : String → Option Json}
      (once : ∀ name ∈ names, members.countP (·.1 = name) ≤ 1)
      (found : ∀ name v, given name = some v ↔ name ∈ names ∧ (name, v) ∈ members) :
      Gives names (.record members) given
  | array {items : List Json} {given : String → Option Json}
      (fits : items.length ≤ names.length)
      (found : ∀ name v, given name = some v ↔
        ∃ k : Nat, names[k]? = some name ∧ items[k]? = some v) :
      Gives names (.array items) given

section Members

variable {α : Type} (written : α → Json → Prop)

/-- The member has to be given. -/
def Required (x : α) (given : Option Json) : Prop := ∃ v, given = some v ∧ written x v

/-- The member may be missing, and then has the usual value. -/
inductive Defaulted (usual : α) : α → Option Json → Prop
  | missing : Defaulted usual usual none
  | given {x : α} {v : Json} (h : written x v) : Defaulted usual x (some v)

/-- The member may be missing or null. -/
inductive Optional : Option α → Option Json → Prop
  | missing : Optional none none
  | null : Optional none (some .null)
  | given {x : α} {v : Json} (h : written x v) : Optional (some x) (some v)

inductive ListOf : List α → Json → Prop
  | items {xs : List α} {vs : List Json} (h : List.Forall₂ written xs vs) : ListOf xs (.array vs)

end Members

def IsText (s : String) (v : Json) : Prop := v = .text (some s)

def IsWord (n : UInt32) (v : Json) : Prop := v = .number (.integer n.toNat)

def IsSignedWord (n : Int32) (v : Json) : Prop := v = .number (.integer n.toInt)

end Json

open Json

/-! ### The parts of a recording -/

def NameRef.WrittenAs (n : NameRef) (v : Json) : Prop :=
  ∃ given, Gives ["name", "dict_id", "compressed_name"] v given ∧
    Optional IsText n.literal (given "name") ∧
    Optional IsWord n.dictionaryId (given "dict_id") ∧
    Optional IsText n.compressed (given "compressed_name")

def PlaceRef.WrittenAs (p : PlaceRef) (v : Json) : Prop :=
  ∃ given, Gives ["file_id", "file_name", "line", "column"] v given ∧
    Required IsWord p.fileId (given "file_id") ∧
    Optional IsText p.fileName (given "file_name") ∧
    Defaulted IsWord 0 p.line (given "line") ∧
    Optional IsWord p.column (given "column")

def Opening.WrittenAs (o : Opening) (v : Json) : Prop :=
  ∃ given, Gives ["kind", "name", "location"] v given ∧
    Required IsSignedWord o.kind (given "kind") ∧
    Required NameRef.WrittenAs o.name (given "name") ∧
    Required PlaceRef.WrittenAs o.place (given "location")

/-- An end is a structure without members. -/
def EndWrittenAs (_ : Unit) (v : Json) : Prop := ∃ given, Gives [] v given

def Entry.WrittenAs (e : Entry) (v : Json) : Prop :=
  ∃ given, Gives ["begin", "end"] v given ∧
    Optional Opening.WrittenAs e.opening (given "begin") ∧
    Optional EndWrittenAs (if e.closing then some () else none) (given "end")

def DictionaryEntry.WrittenAs (e : DictionaryEntry) (v : Json) : Prop :=
  ∃ given, Gives ["marked_name", "marker_ids"] v given ∧
    Required IsText e.marked (given "marked_name") ∧
    Defaulted (ListOf IsWord) [] e.markers (given "marker_ids")

def Trace.WrittenAs (t : Trace) (v : Json) : Prop :=
  ∃ given, Gives ["entries", "names"] v given ∧
    Defaulted (ListOf Entry.WrittenAs) [] t.entries (given "entries") ∧
    Defaulted (ListOf DictionaryEntry.WrittenAs) [] t.dictionary.toList (given "names")

def Collection.WrittenAs (c : Collection) (v : Json) : Prop :=
  ∃ given, Gives ["traces"] v given ∧
    Defaulted (ListOf Trace.WrittenAs) [] c.traces (given "traces")

/-! ### Reading the members -/

namespace Record

lemma eq_map_of_keyed {members : List (Text × Json)} {known : List (String × Json)}
    (h : keyed members = some known) : members = known.map fun m => (some m.1, m.2) := by
  induction members generalizing known with
  | nil =>
    obtain rfl : [] = known := Option.some.inj h
    rfl
  | cons m ms ih =>
    obtain ⟨_ | key, v⟩ := m
    · simp [keyed] at h
    · obtain ⟨ks, hks, rfl⟩ := Option.map_eq_some_iff.mp h
      rw [List.map_cons, ← ih hks]

lemma nodup_of_distinct {members : List (String × Json)} (h : distinct members = true) :
    (members.map (·.1)).Nodup := by
  induction members with
  | nil => exact List.nodup_nil
  | cons m ms ih =>
    simp only [distinct, Bool.and_eq_true, Bool.not_eq_true', List.any_eq_false,
      decide_eq_true_eq] at h
    refine List.nodup_cons.mpr ⟨fun hm => ?_, ih h.2⟩
    obtain ⟨m', hm', he⟩ := List.mem_map.mp hm
    exact h.1 m' hm' he

lemma find_eq_some_iff {members : List (String × Json)} (h : (members.map (·.1)).Nodup)
    {name : String} {v : Json} : find ⟨members⟩ name = some v ↔ (name, v) ∈ members := by
  induction members with
  | nil => simp
  | cons m ms ih =>
    obtain ⟨key, w⟩ := m
    obtain ⟨hkey, hms⟩ := List.nodup_cons.mp h
    rw [find_cons, List.mem_cons, Prod.mk.injEq]
    split
    · next hname =>
      subst hname
      have hnot : (name, v) ∉ ms := fun hm => hkey (List.mem_map.mpr ⟨_, hm, rfl⟩)
      simp [hnot, eq_comm]
    · next hname => simp [hname, ih hms]

/-- The members of an object that have one of the names. -/
def known (names : List String) (members : List (String × Json)) : List (String × Json) :=
  members.filter fun m => names.contains m.1

lemma mem_known {names : List String} {members : List (String × Json)} {m : String × Json} :
    m ∈ known names members ↔ m.1 ∈ names ∧ m ∈ members := by
  simp [known, and_comm]

/-- The known members are distinct if and only if no known name is repeated. -/
lemma nodup_known_iff {names : List String} {members : List (String × Json)} :
    ((known names members).map (·.1)).Nodup ↔
      ∀ name ∈ names, members.countP (·.1 = name) ≤ 1 := by
  have hcount (name : String) (hname : name ∈ names) :
      ((known names members).map (·.1)).count name = members.countP (·.1 = name) := by
    rw [List.count, List.countP_map, known, List.countP_filter]
    refine List.countP_congr fun m _ => ?_
    simp only [Function.comp_apply, beq_iff_eq, List.contains_iff_mem, Bool.and_eq_true,
      decide_eq_true_eq, and_iff_left_iff_imp]
    rintro rfl
    exact hname
  rw [List.nodup_iff_count_le_one]
  constructor
  · intro h name hname
    exact hcount name hname ▸ h name
  · intro h name
    by_cases hname : name ∈ names
    · exact hcount name hname ▸ h name hname
    · have hnot : name ∉ (known names members).map (·.1) := fun hm => by
        obtain ⟨m, hmem, rfl⟩ := List.mem_map.mp hm
        exact hname (mem_known.mp hmem).1
      rw [List.count_eq_zero_of_not_mem hnot]
      exact Nat.zero_le 1

/-- A structure is read from an object whose known members are distinct, or from an array that is
not too long. -/
lemma ofJson?_eq_some_iff {names : List String} {v : Json} {r : Record} :
    ofJson? names v = some r ↔
      (∃ members, v = .record members ∧ r = ⟨known names members⟩ ∧
        ((known names members).map (·.1)).Nodup) ∨
      ∃ items, v = .array items ∧ items.length ≤ names.length ∧ r = ⟨names.zip items⟩ := by
  constructor
  · intro h
    cases v with
    | array items =>
      simp only [ofJson?] at h
      split at h
      · next hfits => exact .inr ⟨items, rfl, hfits, (Option.some.inj h).symm⟩
      · simp at h
    | object members =>
      simp only [ofJson?, Option.bind_eq_bind, Option.bind_eq_some_iff] at h
      obtain ⟨texts, htexts, h⟩ := h
      split at h
      · next hdistinct =>
        exact .inl ⟨texts, by rw [eq_map_of_keyed htexts, Json.record], (Option.some.inj h).symm,
          nodup_of_distinct hdistinct⟩
      · simp at h
    | _ => simp [ofJson?] at h
  · rintro (⟨members, rfl, rfl, hnodup⟩ | ⟨items, rfl, hfits, rfl⟩)
    · have hdistinct := distinct_of_nodup hnodup
      rw [known] at hdistinct
      simp only [Json.record, ofJson?, keyed_map, Option.bind_eq_bind, Option.bind_some, hdistinct,
        if_true, known]
    · rw [ofJson?, if_pos hfits]

/-- The members that an array gives are named in order. -/
lemma names_zip_isPrefix_names (names : List String) (items : List Json) :
    (names.zip items).map (·.1) <+: names := by
  induction names generalizing items with
  | nil => simp
  | cons name names ih =>
    cases items with
    | nil => simp
    | cons v vs => simpa using ih vs

lemma mem_zip_iff {names : List String} {items : List Json} {name : String} {v : Json} :
    (name, v) ∈ names.zip items ↔ ∃ k : Nat, names[k]? = some name ∧ items[k]? = some v := by
  simp only [List.mem_iff_getElem?, List.getElem?_zip_eq_some]

/-- **A structure is read if and only if it is given**, and what is found is what is given. -/
lemma gives_iff {names : List String} (hnames : names.Nodup) {v : Json}
    {given : String → Option Json} :
    Gives names v given ↔ ∃ r, ofJson? names v = some r ∧ r.find = given := by
  have hzip (items : List Json) := (names_zip_isPrefix_names names items).sublist.nodup hnames
  constructor
  · intro h
    cases h with
    | object once found =>
      next members =>
      have hnodup := nodup_known_iff.mpr once
      refine ⟨_, ofJson?_eq_some_iff.mpr (.inl ⟨members, rfl, rfl, hnodup⟩), ?_⟩
      funext name
      refine Option.ext fun v => ?_
      rw [found, find_eq_some_iff hnodup, mem_known]
    | array fits found =>
      next items =>
      refine ⟨_, ofJson?_eq_some_iff.mpr (.inr ⟨items, rfl, fits, rfl⟩), ?_⟩
      funext name
      refine Option.ext fun v => ?_
      rw [found, find_eq_some_iff (hzip items), mem_zip_iff]
  · rintro ⟨r, hr, rfl⟩
    rcases ofJson?_eq_some_iff.mp hr with ⟨members, rfl, rfl, hnodup⟩ | ⟨items, rfl, hfits, rfl⟩
    · exact .object (nodup_known_iff.mp hnodup) fun name v => by
        rw [find_eq_some_iff hnodup, mem_known]
    · exact .array hfits fun name v => by rw [find_eq_some_iff (hzip items), mem_zip_iff]

end Record

namespace Json

/-- The reader finds a value in a document if and only if the value is written as the document, and
nothing is written as null. -/
structure Reads {α : Type} (read : Json → Option α) (written : α → Json → Prop) : Prop where
  iff (v : Json) (x : α) : read v = some x ↔ written x v
  null (x : α) : ¬ written x .null

namespace Reads

variable {α : Type} {read : Json → Option α} {written : α → Json → Prop}

lemma required (h : Reads read written) (r : Record) (name : String) (x : α) :
    r.required name read = some x ↔ Required written x (r.find name) := by
  simp only [Record.required, Option.bind_eq_some_iff, h.iff, Required]

lemma withDefault (h : Reads read written) (r : Record) (name : String) (usual x : α) :
    r.withDefault name read usual = some x ↔ Defaulted written usual x (r.find name) := by
  rw [Record.withDefault]
  cases r.find name with
  | none =>
    refine ⟨fun hx => Option.some.inj hx ▸ .missing, fun hx => ?_⟩
    cases hx
    rfl
  | some v =>
    refine ⟨fun hx => .given ((h.iff v x).mp hx), fun hx => ?_⟩
    cases hx with
    | given hx => exact (h.iff v x).mpr hx

lemma optional (h : Reads read written) (r : Record) (name : String) (x : Option α) :
    r.optional name read = some x ↔ Optional written x (r.find name) := by
  rw [Record.optional]
  split
  · next hfind =>
    rw [hfind]
    refine ⟨fun hx => Option.some.inj hx ▸ .missing, fun hx => ?_⟩
    cases hx
    rfl
  · next hfind =>
    rw [hfind]
    refine ⟨fun hx => Option.some.inj hx ▸ .null, fun hx => ?_⟩
    cases hx with
    | null => rfl
    | given hx => exact absurd hx (h.null _)
  · next v hnull hfind =>
    rw [hfind, Option.map_eq_some_iff]
    constructor
    · rintro ⟨y, hy, rfl⟩
      exact .given ((h.iff v y).mp hy)
    · intro hx
      cases hx with
      | null => exact absurd rfl hnull
      | given hx => exact ⟨_, (h.iff v _).mpr hx, rfl⟩

lemma text : Reads text? IsText where
  iff v s := by
    cases v <;> simp [text?, IsText]
  null _ h := by simp [IsText] at h

lemma word : Reads word? IsWord where
  iff v n := by
    constructor
    · intro h
      unfold word? at h
      split at h
      · next i =>
        split at h
        · next hi =>
          obtain rfl := Option.some.inj h
          have hsize : i.toNat < UInt32.size := by omega
          rw [IsWord, UInt32.toNat_ofNat_of_lt' hsize, Int.toNat_of_nonneg hi.1]
        · simp at h
      · simp at h
    · rintro rfl
      exact Undoes.word.back n
  null _ h := by simp [IsWord] at h

lemma signedWord : Reads signedWord? IsSignedWord where
  iff v n := by
    constructor
    · intro h
      unfold signedWord? at h
      split at h
      · next i =>
        split at h
        · next hi =>
          obtain rfl := Option.some.inj h
          rw [IsSignedWord, Int32.toInt_ofInt_of_le hi.1 (Int.lt_add_one_of_le hi.2)]
        · simp at h
      · simp at h
    · rintro rfl
      exact Undoes.signedWord.back n
  null _ h := by simp [IsSignedWord] at h

lemma mapM_eq_some_iff (h : Reads read written) (vs : List Json) (xs : List α) :
    vs.mapM read = some xs ↔ List.Forall₂ written xs vs := by
  induction vs generalizing xs with
  | nil => simp [eq_comm]
  | cons v vs ih =>
    simp only [List.mapM_cons, Option.bind_eq_bind, Option.bind_eq_some_iff, h.iff, ih]
    constructor
    · rintro ⟨x, hx, xs, hxs, he⟩
      obtain rfl := Option.some.inj he
      exact .cons hx hxs
    · rintro (_ | ⟨hx, hxs⟩)
      exact ⟨_, hx, _, hxs, rfl⟩

lemma list (h : Reads read written) : Reads (list? read) (ListOf written) where
  iff v xs := by
    constructor
    · intro hv
      unfold list? at hv
      split at hv
      · exact .items ((h.mapM_eq_some_iff _ xs).mp hv)
      · simp at hv
    · rintro ⟨hxs⟩
      exact (h.mapM_eq_some_iff _ xs).mpr hxs
  null _ h := by cases h

/-- A structure is read from its members. -/
lemma record {names : List String} {decode : Record → Option α}
    {members : α → (String → Option Json) → Prop}
    (hread : ∀ v, read v = (Record.ofJson? names v).bind decode) (hnames : names.Nodup)
    (hdecode : ∀ r x, decode r = some x ↔ members x r.find) :
    Reads read fun x v => ∃ given, Gives names v given ∧ members x given where
  iff v x := by
    rw [hread, Option.bind_eq_some_iff]
    constructor
    · rintro ⟨r, hr, hx⟩
      exact ⟨r.find, (Record.gives_iff hnames).mpr ⟨r, hr, rfl⟩, (hdecode r x).mp hx⟩
    · rintro ⟨given, hgiven, hx⟩
      obtain ⟨r, hr, rfl⟩ := (Record.gives_iff hnames).mp hgiven
      exact ⟨r, hr, (hdecode r x).mpr hx⟩
  null x := by
    rintro ⟨given, hgiven, -⟩
    nomatch hgiven

end Reads

end Json

/-! ### Reading the parts of a recording -/

lemma NameRef.reads : Reads ofJson? WrittenAs := by
  refine Reads.record (fun _ => rfl) (by decide) fun r n => ?_
  simp only [Option.bind_eq_bind, Option.bind_eq_some_iff, Reads.text.optional, Reads.word.optional]
  constructor
  · rintro ⟨literal, hliteral, id, hid, compressed, hcompressed, he⟩
    obtain rfl := Option.some.inj he
    exact ⟨hliteral, hid, hcompressed⟩
  · rintro ⟨hliteral, hid, hcompressed⟩
    exact ⟨_, hliteral, _, hid, _, hcompressed, rfl⟩

lemma PlaceRef.reads : Reads ofJson? WrittenAs := by
  refine Reads.record (fun _ => rfl) (by decide) fun r p => ?_
  simp only [Option.bind_eq_bind, Option.bind_eq_some_iff, Reads.word.required,
    Reads.text.optional, Reads.word.withDefault, Reads.word.optional]
  constructor
  · rintro ⟨id, hid, file, hfile, line, hline, column, hcolumn, he⟩
    obtain rfl := Option.some.inj he
    exact ⟨hid, hfile, hline, hcolumn⟩
  · rintro ⟨hid, hfile, hline, hcolumn⟩
    exact ⟨_, hid, _, hfile, _, hline, _, hcolumn, rfl⟩

lemma Opening.reads : Reads ofJson? WrittenAs := by
  refine Reads.record (fun _ => rfl) (by decide) fun r o => ?_
  simp only [Option.bind_eq_bind, Option.bind_eq_some_iff, Reads.signedWord.required,
    NameRef.reads.required, PlaceRef.reads.required]
  constructor
  · rintro ⟨kind, hkind, name, hname, place, hplace, he⟩
    obtain rfl := Option.some.inj he
    exact ⟨hkind, hname, hplace⟩
  · rintro ⟨hkind, hname, hplace⟩
    exact ⟨_, hkind, _, hname, _, hplace, rfl⟩

lemma reads_end : Reads (fun v => (Record.ofJson? [] v).map fun _ => ()) EndWrittenAs := by
  have h : Reads (fun v => (Record.ofJson? [] v).map fun _ => ())
      fun _ v => ∃ given, Gives [] v given ∧ True :=
    .record (fun _ => Option.map_eq_bind) List.nodup_nil fun _ _ => by simp
  simp only [and_true] at h
  exact h

/-- Of an end nothing is kept but that there is one. -/
lemma optional_end_iff {r : Record} {name : String} {closing : Bool} :
    (∃ record, r.optional name (Record.ofJson? []) = some record ∧ record.isSome = closing) ↔
      Optional EndWrittenAs (if closing then some () else none) (r.find name) := by
  have hmap : r.optional name (fun v => (Record.ofJson? [] v).map fun _ => ()) =
      (r.optional name (Record.ofJson? [])).map (Option.map fun _ => ()) := by
    simp only [Record.optional]
    split <;> simp [Function.comp_def]
  rw [← reads_end.optional, hmap, Option.map_eq_some_iff]
  refine exists_congr fun record => and_congr_right fun _ => ?_
  cases record <;> cases closing <;> simp

lemma Entry.reads : Reads ofJson? WrittenAs := by
  refine Reads.record (fun _ => rfl) (by decide) fun r e => ?_
  simp only [Option.bind_eq_bind, Option.bind_eq_some_iff, Opening.reads.optional,
    ← optional_end_iff]
  constructor
  · rintro ⟨opening, hopening, record, hrecord, he⟩
    obtain rfl := Option.some.inj he
    exact ⟨hopening, record, hrecord, rfl⟩
  · rintro ⟨hopening, record, hrecord, he⟩
    exact ⟨_, hopening, record, hrecord, by rw [he]; rfl⟩

lemma DictionaryEntry.reads : Reads ofJson? WrittenAs := by
  refine Reads.record (fun _ => rfl) (by decide) fun r e => ?_
  simp only [Option.bind_eq_bind, Option.bind_eq_some_iff, Reads.text.required,
    Reads.word.list.withDefault]
  constructor
  · rintro ⟨marked, hmarked, markers, hmarkers, he⟩
    obtain rfl := Option.some.inj he
    exact ⟨hmarked, hmarkers⟩
  · rintro ⟨hmarked, hmarkers⟩
    exact ⟨_, hmarked, _, hmarkers, rfl⟩

lemma Trace.reads : Reads ofJson? WrittenAs := by
  refine Reads.record (fun _ => rfl) (by decide) fun r t => ?_
  simp only [Option.bind_eq_bind, Option.bind_eq_some_iff, Entry.reads.list.withDefault,
    DictionaryEntry.reads.list.withDefault]
  constructor
  · rintro ⟨entries, hentries, names, hnames, he⟩
    obtain rfl := Option.some.inj he
    exact ⟨hentries, hnames⟩
  · rintro ⟨hentries, hnames⟩
    exact ⟨_, hentries, _, hnames, by rw [Array.toArray_toList]; rfl⟩

lemma Collection.reads : Reads ofJson? WrittenAs := by
  refine Reads.record (fun _ => rfl) (by decide) fun r c => ?_
  simp only [Option.bind_eq_bind, Option.bind_eq_some_iff, Trace.reads.list.withDefault]
  constructor
  · rintro ⟨traces, htraces, he⟩
    obtain rfl := Option.some.inj he
    exact htraces
  · intro htraces
    exact ⟨_, htraces, rfl⟩

end TemplateTrace
