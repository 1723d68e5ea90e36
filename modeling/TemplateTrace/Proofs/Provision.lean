import TemplateTrace.Proofs.Turns
import Mathlib.Data.List.Chain

/-!
A search never lacks what it needs.

The tasks that are left lie on one another like the calls of a recursion. The ids that are to be
spelled out are those under way, and each of them is a marker of the one that is spelled out next
after it. If every task makes its id known, then the markers of an id are known when it is spelled
out: they were known when it was started, or they have tasks that come before. A turn keeps this. So
nothing fails but a look at an id, and the id that the search is for is known when no task is left.
-/

namespace TemplateTrace

open Relation

namespace Dictionary

/-- The entry of the id is complete, and the markers that it needs are there. -/
def Provided (d : Dictionary) (there : UInt32 → Prop) (id : UInt32) : Prop :=
  d.Complete id ∧ ∀ m, d.Points id m → there m

/-- What a known id needs is known too. -/
def Closed (d : Dictionary) (known : Known) : Prop := ∀ i ∈ known, d.Provided (· ∈ known) i

variable {d : Dictionary} {there there' : UInt32 → Prop} {id : UInt32}

lemma Provided.mono (h : d.Provided there id) (ht : ∀ m, there m → there' m) :
    d.Provided there' id := ⟨h.1, fun m hm => ht m (h.2 m hm)⟩

lemma provided_iff : d.Provided there id ↔
    ∃ markers, d.needs id = .ok markers ∧ ∀ m ∈ markers, there m := by
  simp only [Provided, complete_iff, points_iff]
  grind

lemma closed_empty (d : Dictionary) : d.Closed ∅ := fun i hi => absurd hi (by simp)

lemma Closed.insert {known : Known} (h : d.Closed known) (hid : d.Provided (· ∈ known) id)
    (text : String) : d.Closed (known.insert id text) := by
  have hgrows : ∀ m, m ∈ known → m ∈ known.insert id text := fun m hm => by simp [hm]
  intro i hi
  rcases Std.TreeMap.mem_insert.mp hi with he | hi
  · obtain rfl : id = i := Std.LawfulEqCmp.eq_of_compare he
    exact hid.mono hgrows
  · exact (h i hi).mono hgrows

end Dictionary

/-- The id that the task makes known, together with the tasks that it adds. -/
def Task.id : Task → UInt32
  | .visit id => id
  | .spell id => id

namespace Search

open Dictionary

variable {d : Dictionary} {s s' : Search} {id i : UInt32} {tasks rest : List Task}
  {there there' : UInt32 → Prop}

/-! ### Tasks in order -/

/-- The ids that are to be spelled out, the next one first. -/
def toSpell : List Task → List UInt32
  | [] => []
  | .visit _ :: rest => toSpell rest
  | .spell id :: rest => id :: toSpell rest

/-- Every task is for a marker of the id that is spelled out next after it. -/
def Owned (d : Dictionary) : List Task → Prop
  | [] => True
  | t :: rest => (∀ i ∈ (toSpell rest).head?, d.Points i t.id) ∧ Owned d rest

/-- With these ids there at first, and the id of each task after it, an id that is spelled out is
provided for, and in the end the id that is asked for is there. -/
def Suffice (d : Dictionary) (id : UInt32) : (UInt32 → Prop) → List Task → Prop
  | there, [] => there id
  | there, .visit i :: rest => Suffice d id (fun m => there m ∨ m = i) rest
  | there, .spell i :: rest => d.Provided there i ∧ Suffice d id (fun m => there m ∨ m = i) rest

@[simp] lemma toSpell_visits (ids : List UInt32) :
    toSpell (ids.map .visit ++ rest) = toSpell rest := by
  induction ids with
  | nil => rfl
  | cons i ids ih => exact ih

@[simp, grind =] lemma count_spell_visits (ids : List UInt32) :
    (ids.map Task.visit).count (.spell i) = 0 := by
  simp [List.count_eq_zero]

lemma Owned.isChain (h : Owned d tasks) :
    (toSpell tasks).IsChain fun upper lower => d.Points lower upper := by
  induction tasks with
  | nil => exact .nil
  | cons t rest ih =>
    cases t with
    | visit i => exact ih h.2
    | spell i => exact List.isChain_cons.mpr ⟨h.1, ih h.2⟩

lemma Owned.visits {ids : List UInt32} (h : Owned d rest)
    (hids : ∀ m ∈ ids, ∀ i ∈ (toSpell rest).head?, d.Points i m) :
    Owned d (ids.map .visit ++ rest) := by
  induction ids with
  | nil => exact h
  | cons m ids ih =>
    obtain ⟨hm, hids⟩ := List.forall_mem_cons.mp hids
    exact ⟨(toSpell_visits ids).symm ▸ hm, ih hids⟩

lemma Suffice.mono (h : Suffice d id there tasks) (ht : ∀ m, there m → there' m) :
    Suffice d id there' tasks := by
  induction tasks generalizing there there' with
  | nil => exact ht id h
  | cons t rest ih =>
    have hrest {i : UInt32} : ∀ m, there m ∨ m = i → there' m ∨ m = i :=
      fun m hm => hm.imp_left (ht m)
    cases t with
    | visit i => exact ih h hrest
    | spell i => exact ⟨h.1.mono ht, ih h.2 hrest⟩

lemma suffice_visits (ids : List UInt32) : Suffice d id there (ids.map .visit ++ rest) ↔
    Suffice d id (fun m => there m ∨ m ∈ ids) rest := by
  induction ids generalizing there with
  | nil => simp
  | cons i ids ih => simp [Suffice, ih, or_assoc]

/-! ### What every turn keeps -/

/-- One turn leads from the one search to the other. -/
def Next (d : Dictionary) (s s' : Search) : Prop :=
  ∃ t rest, s.pending = t :: rest ∧ step d { s with pending := rest } t = .ok s'

def Later (d : Dictionary) : Search → Search → Prop := ReflTransGen (Next d)

/-- The tasks are in order, in a search for the id: what is under way is not known yet and is to be
spelled out once, and the tasks bring all that is needed. -/
structure Orderly (d : Dictionary) (id : UInt32) (s : Search) : Prop where
  closed : d.Closed s.known
  underway : ∀ i, s.pending.count (.spell i) = if i ∈ s.underway then 1 else 0
  unknown : ∀ i ∈ s.underway, i ∉ s.known
  owned : Owned d s.pending
  suffice : Suffice d id (· ∈ s.known) s.pending

lemma orderly_start {known : Known} (h : d.Closed known) (id : UInt32) :
    Orderly d id ⟨known, ∅, [.visit id]⟩ where
  closed := h
  underway i := by simp
  unknown i hi := absurd hi (by simp)
  owned := ⟨by simp [toSpell], trivial⟩
  suffice := .inr rfl

/-- An id that is known already, perhaps only since its task was added, is passed over. -/
lemma Orderly.pass (h : Orderly d id s) (hp : s.pending = .visit i :: rest) (hi : i ∈ s.known) :
    Orderly d id { s with pending := rest } := by
  obtain ⟨hclosed, hunderway, hunknown, howned, hsuffice⟩ := h
  rw [hp] at hunderway howned hsuffice
  exact ⟨hclosed, fun j => by simpa using hunderway j, hunknown, howned.2,
    Suffice.mono hsuffice fun m hm => hm.elim (fun hm => hm) fun hm => hm ▸ hi⟩

/-- An id is started: it owns its unknown markers, and they are all that it lacks. -/
lemma Orderly.begin {markers : List UInt32} (h : Orderly d id s)
    (hp : s.pending = .visit i :: rest) (hi : ¬ s.Started i) (hn : d.needs i = .ok markers) :
    Orderly d id ⟨s.known, s.underway.insert i,
      (markers.filter (· ∉ s.known)).map .visit ++ .spell i :: rest⟩ := by
  obtain ⟨hclosed, hunderway, hunknown, howned, hsuffice⟩ := h
  rw [hp] at hunderway howned hsuffice
  obtain ⟨hknown, hfresh⟩ : i ∉ s.known ∧ i ∉ s.underway := not_or.mp hi
  refine ⟨hclosed, fun j => ?_, fun j hj => ?_, ?_, (suffice_visits _).mpr ⟨?_, ?_⟩⟩
  · have := hunderway j
    grind
  · have := hunknown j
    grind
  · -- the id itself belongs where its task did
    refine Owned.visits howned fun m hm j hj => ?_
    obtain rfl : i = j := by simpa [toSpell] using hj
    exact points_iff.mpr ⟨markers, hn, (List.mem_filter.mp hm).1⟩
  · refine provided_iff.mpr ⟨markers, hn, fun m hm => ?_⟩
    by_cases hk : m ∈ s.known <;> simp [hk, hm]
  · exact Suffice.mono hsuffice fun m hm => hm.imp_left .inl

/-- An id that is next to be spelled out is under way, and provided for. -/
lemma Orderly.spell (h : Orderly d id s) (hp : s.pending = .spell i :: rest) :
    i ∈ s.underway ∧ d.Provided (· ∈ s.known) i := by
  obtain ⟨-, hunderway, -, -, hsuffice⟩ := h
  rw [hp] at hunderway hsuffice
  have hi := hunderway i
  exact ⟨by grind, hsuffice.1⟩

lemma Orderly.finish (h : Orderly d id s) (hp : s.pending = .spell i :: rest) (text : String) :
    Orderly d id ⟨s.known.insert i text, s.underway.erase i, rest⟩ := by
  obtain ⟨hi, hready⟩ := h.spell hp
  obtain ⟨hclosed, hunderway, hunknown, howned, hsuffice⟩ := h
  rw [hp] at hunderway howned hsuffice
  refine ⟨hclosed.insert hready text, fun j => ?_, fun j hj => ?_, howned.2,
    Suffice.mono hsuffice.2 fun m hm => ?_⟩
  · have := hunderway j
    grind
  · have := hunknown j
    grind
  · grind

/-- **A turn leaves the tasks in order**, and forgets nothing. -/
lemma Orderly.next (h : Orderly d id s) (hs : Next d s s') : Orderly d id s' ∧ Keeps s s' := by
  obtain ⟨t, rest, hp, hstep⟩ := hs
  obtain ⟨i, rfl, hi, rfl⟩ | ⟨i, markers, rfl, hi, hn, rfl⟩ | ⟨i, text, rfl, -, rfl⟩ :=
    step_cases hstep
  · exact ⟨h.pass hp hi, fun _ _ hj => hj⟩
  · exact ⟨h.begin hp hi hn, fun _ _ hj => hj⟩
  · refine ⟨h.finish hp text, fun j other hj => ?_⟩
    have hunknown := h.unknown i (h.spell hp).1
    have hknown : j ∈ s.known := mem_known.mpr ⟨other, hj⟩
    grind

lemma Orderly.later (h : Orderly d id s) (hs : Later d s s') : Orderly d id s' ∧ Keeps s s' := by
  induction hs with
  | refl => exact ⟨h, fun _ _ hj => hj⟩
  | tail _ hn ih =>
    obtain ⟨hordered, hkeeps⟩ := ih.1.next hn
    exact ⟨hordered, ih.2.trans hkeeps⟩

/-! ### Where a search ends -/

/-- The search has no tasks left, or the next one fails. -/
inductive Ends (d : Dictionary) : Search → Except NameError Unit → Prop
  | idle {s : Search} (idle : s.pending = []) : Ends d s (.ok ())
  | fails {s : Search} {t : Task} {rest : List Task} {cause : NameError}
      (next : s.pending = t :: rest) (failed : step d { s with pending := rest } t = .error cause) :
      Ends d s (.error cause)

/-- A search has a last state, and its result is told by it. -/
lemma Turns.exists_last {turns : List Turn} {r : Known × Except NameError Unit}
    (h : Turns d s turns r) : ∃ last, Later d s last ∧ last.known = r.1 ∧ Ends d last r.2 := by
  induction h with
  | done idle => exact ⟨_, .refl, rfl, .idle idle⟩
  | fails next failed => exact ⟨_, .refl, rfl, .fails next failed⟩
  | goesOn next done _ _ ih =>
    obtain ⟨last, hlater, hlast⟩ := ih
    exact ⟨last, .head ⟨_, _, next, done⟩ hlater, hlast⟩

lemma exists_spelled {known : Known} {markers : List UInt32} (h : ∀ m ∈ markers, m ∈ known) :
    ∃ texts, Spelled known markers texts := by
  induction markers with
  | nil => exact ⟨[], .nil⟩
  | cons m markers ih =>
    obtain ⟨hm, hmarkers⟩ := List.forall_mem_cons.mp h
    obtain ⟨text, htext⟩ := mem_known.mp hm
    obtain ⟨texts, htexts⟩ := ih hmarkers
    exact ⟨text :: texts, .cons htext htexts⟩

lemma exists_spell {known : Known} (h : d.Provided (· ∈ known) i) :
    ∃ text, d.spell known i = .ok text := by
  obtain ⟨markers, hn, hmarkers⟩ := provided_iff.mp h
  obtain ⟨texts, htexts⟩ := exists_spelled hmarkers
  exact ⟨_, spell_eq hn htexts⟩

/-- A look at an id fails if the id is under way or has no complete entry. -/
lemma step_visit_error {cause : NameError} (h : step d s (.visit i) = .error cause) :
    i ∈ s.underway ∧ cause = .cycle i ∨ d.needs i = .error cause := by
  simp only [step] at h
  split at h
  · simp at h
  · split at h
    · next hu => exact .inl ⟨hu, (Except.error.inj h).symm⟩
    · split at h
      · next hn => exact .inr (hn.trans (congrArg Except.error (Except.error.inj h)))
      · simp at h

/-- Only a look at an id fails. -/
lemma Orderly.fails {t : Task} {cause : NameError} (h : Orderly d id s)
    (hp : s.pending = t :: rest) (hstep : step d { s with pending := rest } t = .error cause) :
    ∃ i, t = .visit i ∧ (i ∈ s.underway ∧ cause = .cycle i ∨ d.needs i = .error cause) := by
  cases t with
  | visit i => exact ⟨i, rfl, step_visit_error (s := { s with pending := rest }) hstep⟩
  | spell i =>
    obtain ⟨text, htext⟩ := exists_spell (h.spell hp).2
    simp [step, htext] at hstep

end Search

namespace Glossary

open Dictionary Search

variable {g : Glossary}

/-- A search ends with the text that is known then, or with the failure of a look at an id. -/
lemma resolve_ends (hclosed : g.dictionary.Closed g.known) (id : UInt32) :
    ∃ last, Later g.dictionary ⟨g.known, ∅, [.visit id]⟩ last ∧
      (g.resolve id).2 = { g with known := last.known } ∧
      ((last.pending = [] ∧ ∃ text, last.known[id]? = some text ∧ (g.resolve id).1 = .ok text) ∨
        ∃ i rest cause, last.pending = .visit i :: rest ∧ (g.resolve id).1 = .error cause ∧
          (i ∈ last.underway ∧ cause = .cycle i ∨ g.dictionary.needs i = .error cause)) := by
  obtain ⟨turns, hturns⟩ := exists_turns g.dictionary ⟨g.known, ∅, [.visit id]⟩
  obtain ⟨last, hlater, hknown, hends⟩ := hturns.exists_last
  have horderly := ((orderly_start hclosed id).later hlater).1
  refine ⟨last, hlater, ?_⟩
  unfold resolve
  rcases hrun : run g.dictionary ⟨g.known, ∅, [.visit id]⟩ with ⟨known, outcome⟩
  rw [hrun] at hknown hends
  subst hknown
  cases hends with
  | idle hidle =>
    have hid := horderly.suffice
    rw [hidle] at hid
    obtain ⟨text, htext⟩ := mem_known.mp hid
    exact ⟨rfl, .inl ⟨hidle, text, htext, by simp [htext]⟩⟩
  | fails hnext hfailed =>
    obtain ⟨i, rfl, hcause⟩ := horderly.fails hnext hfailed
    exact ⟨rfl, .inr ⟨i, _, _, hnext, rfl, hcause⟩⟩

lemma closed_after (hclosed : g.dictionary.Closed g.known) (ids : List UInt32) :
    g.dictionary.Closed (g.after ids).known := by
  induction ids generalizing g with
  | nil => exact hclosed
  | cons id ids ih =>
    obtain ⟨last, hlater, hg, -⟩ := resolve_ends hclosed id
    have hlast := ((orderly_start hclosed id).later hlater).1.closed
    have hafter : g.after (id :: ids) = (g.resolve id).2.after ids := rfl
    rw [hafter, hg]
    exact ih hlast

/-- **A search never lacks what it needs.** Whatever was resolved before, in every state of the search
for an id: the ids under way are those that are still to be spelled out, each once, and each is a
marker of the one that is spelled out after it; what a known id needs is known, and nothing known is
forgotten; an id that is spelled out next has a complete entry and known markers, so it gets its text;
and if no task is left, the id that is asked for is known. So the search ends with its text, or at a
look at an id that is under way or has no complete entry. -/
theorem resolve_orderly (d : Dictionary) (ids : List UInt32) (id : UInt32) :
    let g := Glossary.after { dictionary := d } ids
    let start : Search := ⟨g.known, ∅, [.visit id]⟩
    (∀ s, Later d start s →
      (∀ i, s.pending.count (.spell i) = if i ∈ s.underway then 1 else 0) ∧
      (toSpell s.pending).IsChain (fun upper lower => d.Points lower upper) ∧
      d.Closed s.known ∧ (∀ s', Later d s s' → Keeps s s') ∧
      (∀ i rest, s.pending = .spell i :: rest →
        d.Provided (· ∈ s.known) i ∧ ∃ text, d.spell s.known i = .ok text) ∧
      (s.pending = [] → id ∈ s.known)) ∧
    ∃ last, Later d start last ∧ (g.resolve id).2 = { g with known := last.known } ∧
      ((last.pending = [] ∧ ∃ text, last.known[id]? = some text ∧ (g.resolve id).1 = .ok text) ∨
        ∃ i rest cause, last.pending = .visit i :: rest ∧ (g.resolve id).1 = .error cause ∧
          (i ∈ last.underway ∧ cause = .cycle i ∨ d.needs i = .error cause)) := by
  intro g start
  have hd : g.dictionary = d := ((serves_start d).after ids).dictionary
  have hclosed : d.Closed g.known := closed_after (g := { dictionary := d }) (closed_empty d) ids
  refine ⟨fun s hs => ?_, hd ▸ resolve_ends (g := g) (hd.symm ▸ hclosed) id⟩
  have h := ((orderly_start hclosed id).later hs).1
  refine ⟨h.underway, h.owned.isChain, h.closed, fun s' hs' => (h.later hs').2, fun i rest hp => ?_,
    fun hp => ?_⟩
  · obtain ⟨-, hready⟩ := h.spell hp
    exact ⟨hready, exists_spell hready⟩
  · have hid := h.suffice
    rwa [hp] at hid

/-- An entry that refers back to itself behind a marker that does not, and one with the same marker. -/
def entangled : Dictionary :=
  #[⟨"int", []⟩, ⟨"char", []⟩, ⟨"v<\x00>", [1]⟩, ⟨"a<\x00,\x00>", [0, 3]⟩,
    ⟨"p<\x00,\x00,\x00>", [2, 0, 1]⟩]

/-- After a search that met a cycle when the first entry was known: `p` has no task for that entry and two
for the second, which is known when the later of them is taken up. -/
theorem resolve_orderly_entangled :
    let g := Glossary.after { dictionary := entangled } [3]
    ∃ s, Later entangled ⟨g.known, ∅, [.visit 4]⟩ s ∧
      s.pending = [.spell 1, .spell 2, .visit 1, .spell 4] ∧ 2 ∈ s.underway ∧
      entangled.Points 2 1 ∧ entangled.Points 4 2 ∧
      (∃ text, entangled.spell s.known 1 = .ok text) ∧
      (g.resolve 4).1 = .ok "p<v<char>,int,char>" ∧ 4 ∈ (g.resolve 4).2.known := by
  intro g
  have hknown : 0 ∈ g.known ∧ 1 ∉ g.known ∧ 2 ∉ g.known ∧ 4 ∉ g.known := by decide +kernel
  have hneeds : entangled.needs 4 = .ok [2, 0, 1] ∧ entangled.needs 2 = .ok [1] ∧
      entangled.needs 1 = .ok [] := by decide +kernel
  obtain ⟨h0, h1, h2, h4⟩ := hknown
  obtain ⟨hn4, hn2, hn1⟩ := hneeds
  let begun : Search := ⟨g.known, (∅ : Std.TreeSet UInt32).insert 4, [.visit 2, .visit 1, .spell 4]⟩
  let within : Search :=
    ⟨g.known, begun.underway.insert 2, [.visit 1, .spell 2, .visit 1, .spell 4]⟩
  let s : Search := ⟨g.known, within.underway.insert 1, [.spell 1, .spell 2, .visit 1, .spell 4]⟩
  have hlater : Later entangled ⟨g.known, ∅, [.visit 4]⟩ s := by
    refine .head (b := begun) ⟨_, _, rfl, ?_⟩
      (.head (b := within) ⟨_, _, rfl, ?_⟩ (.head ⟨_, _, rfl, ?_⟩ .refl))
    · simp [step, begun, h0, h1, h2, h4, hn4]
    · simp [step, begun, within, h1, h2, hn2]
    · simp [step, begun, within, s, h1, hn1]
  obtain ⟨hstates, last, -, hg, hlast⟩ := resolve_orderly entangled [3] 4
  obtain ⟨hunderway, hchain, -, -, hspell, -⟩ := hstates s hlater
  have htext : (g.resolve 4).1 = .ok "p<v<char>,int,char>" := by decide +kernel
  obtain ⟨h21, h42⟩ : entangled.Points 2 1 ∧ entangled.Points 4 2 := by
    simpa [toSpell, s] using hchain
  refine ⟨s, hlater, rfl, ?_, h21, h42, (hspell 1 _ rfl).2, htext, ?_⟩
  · have htwice := hunderway 2
    grind
  · obtain ⟨-, text, hknown, -⟩ | ⟨i, rest, cause, -, hcause, -⟩ := hlast
    · exact hg ▸ mem_known.mpr ⟨text, hknown⟩
    · exact absurd (htext.symm.trans hcause) (by simp)

end Glossary

end TemplateTrace
