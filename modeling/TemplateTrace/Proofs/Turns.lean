import TemplateTrace.Proofs.Reach
import Mathlib.Algebra.GroupWithZero.Nat
import Mathlib.Algebra.Order.BigOperators.Group.List
import Mathlib.Algebra.Order.Group.Nat

/-!
How long the search for a text goes on.

An id that has started is under way until it is known, and from then on it is known; so in one search
it starts once, and its markers are put before the other tasks once. Every turn takes a task off, and
the tasks that a start adds are an entry and its placeholders. So the turns are counted by the table,
and not by the text, in which a name that is shared can occur exponentially often.
-/

namespace TemplateTrace

/-- The most turns that a search takes: one for the id it is for, and those that the start of each
entry adds. -/
def Dictionary.turnBound (d : Dictionary) : Nat :=
  1 + (d.toList.map fun e => 1 + e.placeholders).sum

namespace Search

/-- One turn of the search: the task that is carried out, and the tasks that it puts before those
that are left. -/
structure Turn where
  task : Task
  added : List Task

/-- The turn puts the markers of the id before the other tasks. -/
def Turn.starts (id : UInt32) (t : Turn) : Bool := t.task = .visit id && !t.added.isEmpty

/-- The turn adds nothing, or it starts an id: it adds markers that the id needs, and the id itself to
be spelled out. -/
def Turn.AddsNeeds (d : Dictionary) (t : Turn) : Prop :=
  t.added = [] ∨ ∃ (id : UInt32) (markers unknown : List UInt32), t.task = .visit id ∧
    d.needs id = .ok markers ∧ unknown.Sublist markers ∧ t.added = unknown.map .visit ++ [.spell id]

/-- These are the turns from here on, and the search ends so. A turn that fails is the last one. -/
inductive Turns (d : Dictionary) : Search → List Turn → Known × Except NameError Unit → Prop
  | done {s : Search} (idle : s.pending = []) : Turns d s [] (s.known, .ok ())
  | fails {s : Search} {t : Task} {rest : List Task} {cause : NameError}
      (next : s.pending = t :: rest) (failed : step d { s with pending := rest } t = .error cause) :
      Turns d s [⟨t, []⟩] (s.known, .error cause)
  | goesOn {s s' : Search} {t : Task} {rest added : List Task} {turns : List Turn}
      {r : Known × Except NameError Unit} (next : s.pending = t :: rest)
      (done : step d { s with pending := rest } t = .ok s') (put : s'.pending = added ++ rest)
      (later : Turns d s' turns r) : Turns d s (⟨t, added⟩ :: turns) r

variable {d : Dictionary} {s s' : Search} {t : Task} {id : UInt32}

/-! ### One turn -/

/-- Only a start adds tasks: the markers that are not known, and the id itself to be spelled out. -/
lemma added_of_step {added : List Task} (hs : Search.step d s t = .ok s')
    (hp : s'.pending = added ++ s.pending) :
    added = [] ∨ ∃ i markers, t = .visit i ∧ ¬ s.Started i ∧ s'.Started i ∧
      d.needs i = .ok markers ∧ added = (markers.filter (· ∉ s.known)).map .visit ++ [.spell i] := by
  obtain ⟨i, -, -, rfl⟩ | ⟨i, markers, rfl, hi, hn, rfl⟩ | ⟨i, text, -, -, rfl⟩ := step_cases hs
  · exact .inl (by simpa using hp)
  · refine .inr ⟨i, markers, rfl, hi, .inr (by simp), hn, ?_⟩
    have hput : added ++ s.pending =
        ((markers.filter (· ∉ s.known)).map .visit ++ [.spell i]) ++ s.pending := by
      rw [← hp, List.append_assoc, List.singleton_append]
    exact List.append_cancel_right hput
  · exact .inl (by simpa using hp)

/-! ### All turns -/

/-- The search ends, and its turns can be told. -/
lemma exists_turns (d : Dictionary) (s : Search) : ∃ turns, Turns d s turns (run d s) := by
  induction hm : s.remaining d using Nat.strong_induction_on generalizing s with
  | _ n ih =>
    subst hm
    rcases hp : s.pending with _ | ⟨t, rest⟩
    · exact ⟨[], run_of_pending_nil hp ▸ .done hp⟩
    rw [run_of_pending_cons hp]
    cases hs : step d { s with pending := rest } t with
    | error cause => exact ⟨_, .fails hp hs⟩
    | ok s' =>
      obtain ⟨turns, hturns⟩ := ih _ (remaining_lt hp hs) s' rfl
      obtain ⟨added, hadded⟩ : ∃ added, s'.pending = added ++ rest := by
        obtain ⟨i, -, -, rfl⟩ | ⟨i, markers, -, -, -, rfl⟩ | ⟨i, text, -, -, rfl⟩ := step_cases hs
        · exact ⟨[], rfl⟩
        · exact ⟨(markers.filter (· ∉ s.known)).map .visit ++ [.spell i], by simp⟩
        · exact ⟨[], rfl⟩
      exact ⟨_, .goesOn hp hs hadded hturns⟩

variable {turns : List Turn} {r : Known × Except NameError Unit}

lemma Turns.countP_starts_of_started (h : Turns d s turns r) (hid : s.Started id) :
    turns.countP (·.starts id) = 0 := by
  induction h with
  | done => rfl
  | fails => simp [Turn.starts]
  | @goesOn s s' t rest added turns r next done put later ih =>
    rw [List.countP_cons, ih (hid.step done)]
    rcases added_of_step done put with rfl | ⟨i, markers, rfl, hi, -⟩
    · simp [Turn.starts]
    · have hne : i ≠ id := by
        rintro rfl
        exact hi hid
      simp [Turn.starts, hne]

lemma Turns.countP_starts_le (h : Turns d s turns r) (id : UInt32) :
    turns.countP (·.starts id) ≤ 1 := by
  induction h with
  | done => simp
  | fails => simp [Turn.starts]
  | @goesOn s s' t rest added turns r next done put later ih =>
    rw [List.countP_cons]
    rcases added_of_step done put with rfl | ⟨i, markers, rfl, -, hi, -⟩
    · simpa [Turn.starts] using ih
    · by_cases hne : i = id
      · subst hne
        rw [later.countP_starts_of_started hi]
        split <;> simp
      · simpa [Turn.starts, hne] using ih

lemma Turns.addsNeeds (h : Turns d s turns r) : ∀ t ∈ turns, t.AddsNeeds d := by
  induction h with
  | done => simp
  | fails => simp [Turn.AddsNeeds]
  | goesOn next done put _ ih =>
    refine List.forall_mem_cons.mpr ⟨(added_of_step done put).imp_right ?_, ih⟩
    rintro ⟨i, markers, rfl, -, -, hn, rfl⟩
    exact ⟨i, markers, _, rfl, hn, List.filter_sublist, rfl⟩

/-! ### The bound -/

/-- The tasks that the start of the entry at the place adds, as long as its id has not started. -/
def due (d : Dictionary) (s : Search) (i : Nat) : Nat :=
  if s.Started (.ofNat i) then 0 else 1 + d[i]?.elim 0 DictionaryEntry.placeholders

/-- The tasks that are left, and those that are still to come. -/
def ahead (d : Dictionary) (s : Search) : Nat :=
  s.pending.length + ((List.range d.size).map (due d s)).sum

lemma due_le (h : ∀ id, s.Started id → s'.Started id) (i : Nat) : due d s' i ≤ due d s i := by
  unfold due
  by_cases hs : s.Started (.ofNat i)
  · simp [hs, h]
  · rw [if_neg hs]
    split <;> simp

lemma sum_due_le (h : ∀ id, s.Started id → s'.Started id) (places : List Nat) :
    (places.map (due d s')).sum ≤ (places.map (due d s)).sum :=
  List.sum_le_sum fun i _ => due_le h i

/-- What an id adds when it starts is no longer to come. -/
lemma sum_due_start {markers : List UInt32} (h : ∀ id, s.Started id → s'.Started id)
    (hn : d.needs id = .ok markers) (hs : ¬ s.Started id) (hs' : s'.Started id) :
    ((List.range d.size).map (due d s')).sum + (1 + markers.length) ≤
      ((List.range d.size).map (due d s)).sum := by
  obtain ⟨e, he, -, hl⟩ := Dictionary.needs_eq_ok hn
  have hmem : id.toNat ∈ List.range d.size := List.mem_range.mpr (Dictionary.lt_size_of_getElem? he)
  have hbefore : due d s id.toNat = 1 + markers.length := by simp [due, hs, he, hl]
  have hafter : due d s' id.toNat = 0 := by simp [due, hs']
  have hothers := sum_due_le (d := d) h ((List.range d.size).erase id.toNat)
  rw [← List.sum_map_erase (due d s') hmem, ← List.sum_map_erase (due d s) hmem, hbefore, hafter]
  omega

/-- A turn brings the end nearer by one task. -/
lemma ahead_lt {rest : List Task} (hp : s.pending = t :: rest)
    (hs : step d { s with pending := rest } t = .ok s') : s'.ahead d < s.ahead d := by
  have hstarted : ∀ id, s.Started id → s'.Started id := fun _ h => h.step hs
  have hsum := sum_due_le (d := d) hstarted (List.range d.size)
  simp only [ahead, hp, List.length_cons]
  obtain ⟨i, -, -, rfl⟩ | ⟨i, markers, -, hi, hn, rfl⟩ | ⟨i, text, -, -, rfl⟩ := step_cases hs
  · simp only at hsum ⊢
    omega
  · have hstart := sum_due_start hstarted hn hi (.inr (by simp))
    have := List.length_filter_le (fun m => decide (m ∉ s.known)) markers
    simp only [List.length_append, List.length_map, List.length_cons] at hstart ⊢
    omega
  · simp only at hsum ⊢
    omega

lemma Turns.length_le (h : Turns d s turns r) : turns.length ≤ s.ahead d := by
  induction h with
  | done => simp
  | fails next =>
    simp only [ahead, next, List.length_cons, List.length_nil]
    omega
  | goesOn next done _ _ ih =>
    have := ahead_lt next done
    simp only [List.length_cons]
    omega

lemma ahead_start_le (d : Dictionary) (known : Known) (id : UInt32) :
    ahead d ⟨known, ∅, [.visit id]⟩ ≤ d.turnBound := by
  have hentries : (List.range d.size).map (fun i => 1 + d[i]?.elim 0 DictionaryEntry.placeholders) =
      d.toList.map fun e => 1 + e.placeholders := by
    refine List.ext_getElem (by simp) fun i h₁ h₂ => ?_
    have hi : i < d.size := by simpa using h₁
    simp [hi]
  rw [Dictionary.turnBound, ← hentries]
  refine Nat.add_le_add_left (List.sum_le_sum fun i _ => ?_) 1
  unfold due
  split <;> simp

end Search

/-! ### A text that is much longer than its search -/

namespace Dictionary

/-- A character, and entries that each stand for two times the one before. -/
def doubling (n : Nat) : Dictionary :=
  (⟨"x", []⟩ :: (List.range n).map fun k => ⟨"\x00\x00", [.ofNat k, .ofNat k]⟩).toArray

variable {n k : Nat}

lemma getElem?_doubling_succ (h : k < n) :
    (doubling n)[k + 1]? = some ⟨"\x00\x00", [.ofNat k, .ofNat k]⟩ := by
  simp [doubling, List.getElem?_range h]

lemma placeholders_pair (markers : List UInt32) :
    (⟨"\x00\x00", markers⟩ : DictionaryEntry).placeholders = 2 := by
  simp [DictionaryEntry.placeholders, placeholder]

lemma turnBound_doubling (n : Nat) : (doubling n).turnBound = 3 * n + 2 := by
  have hx : (⟨"x", []⟩ : DictionaryEntry).placeholders = 0 := by decide
  simp only [turnBound, doubling, List.map_cons, List.map_map, Function.comp_def, hx,
    placeholders_pair, List.sum_cons, List.map_const', List.sum_replicate, List.length_range,
    Nat.nsmul_eq_mul]
  omega

lemma expand_doubling {id : UInt32} (hid : id.toNat = k) (hk : k ≤ n) (path : List UInt32)
    (hpath : ∀ i ∈ path, k < i.toNat) :
    (doubling n).expand path id = .ok (String.ofList (List.replicate (2 ^ k) 'x')) := by
  induction k generalizing id path with
  | zero =>
    have hmem : id ∉ path := fun h => absurd (hpath id h) (by omega)
    have hentry : (doubling n)[id.toNat]? = some ⟨"x", []⟩ := by simp [hid, doubling]
    have hneeds : (doubling n).needs id = .ok [] :=
      needs_eq_ok_iff.mpr ⟨_, hentry, by decide, rfl⟩
    have hcut : "x".toList.splitOn placeholder = [['x']] := by decide
    have htext : (doubling n).splice id [] = "x" := by
      simp only [splice, hentry, Option.elim_some, DictionaryEntry.splice, hcut]
      rfl
    rw [expand_of_not_mem hmem, hneeds]
    simp only [expandAll_nil, htext]
    rfl
  | succ k ih =>
    have hmem : id ∉ path := fun h => absurd (hpath id h) (by omega)
    have hentry : (doubling n)[id.toNat]? = some ⟨"\x00\x00", [.ofNat k, .ofNat k]⟩ := by
      rw [hid]
      exact getElem?_doubling_succ hk
    have hneeds : (doubling n).needs id = .ok [.ofNat k, .ofNat k] :=
      needs_eq_ok_iff.mpr ⟨_, hentry, by simp [placeholders_pair], by simp [placeholders_pair]⟩
    have hcut : "\x00\x00".toList.splitOn placeholder = [[], [], []] := by decide
    have htext (text : String) :
        (doubling n).splice id [text, text] = String.ofList (text.toList ++ text.toList) := by
      simp only [splice, hentry, Option.elim_some, DictionaryEntry.splice, hcut]
      simp [weave]
    have hlt : k < UInt32.size := by
      have := id.toNat_lt_size
      omega
    have hbelow := ih (UInt32.toNat_ofNat_of_lt' hlt) (by omega) (id :: path)
      (List.forall_mem_cons.mpr ⟨by omega, fun i hi => Nat.lt_of_succ_lt (hpath i hi)⟩)
    rw [expand_of_not_mem hmem, hneeds]
    simp only [expandAll_cons, hbelow, expandAll_nil, htext, String.toList_ofList,
      ← List.replicate_add, Nat.pow_succ, Nat.mul_two]

end Dictionary

namespace Glossary

open Dictionary

/-- **A search takes few turns.** Whatever the dictionary is like and whatever is known, the search
for an id ends: it starts no id twice, a start adds no more than what the id needs, and there is at
most one turn for each entry and each placeholder, and one more. The texts may be exponentially
longer. -/
theorem resolve_turns (g : Glossary) (id n : UInt32) :
    (∃ turns known outcome,
      Search.Turns g.dictionary ⟨g.known, ∅, [.visit id]⟩ turns (known, outcome) ∧
      g.resolve id =
        (outcome.bind fun _ => known[id]?.elim (.error (.cycle id)) .ok, { g with known }) ∧
      (∀ i, turns.countP (·.starts i) ≤ 1) ∧ (∀ t ∈ turns, t.AddsNeeds g.dictionary) ∧
      turns.length ≤ g.dictionary.turnBound) ∧
    (doubling n.toNat).turnBound = 3 * n.toNat + 2 ∧
    (resolve { dictionary := doubling n.toNat } n).1 =
      .ok (String.ofList (List.replicate (2 ^ n.toNat) 'x')) := by
  obtain ⟨turns, hturns⟩ := Search.exists_turns g.dictionary ⟨g.known, ∅, [.visit id]⟩
  have hlength := hturns.length_le.trans (Search.ahead_start_le g.dictionary g.known id)
  refine ⟨⟨turns, _, _, hturns, ?_, hturns.countP_starts_le, hturns.addsNeeds, hlength⟩,
    turnBound_doubling _, ?_⟩
  · unfold resolve
    rcases Search.run g.dictionary ⟨g.known, ∅, [.visit id]⟩ with ⟨known, cause | ⟨⟩⟩ <;> rfl
  · have htext := expand_doubling rfl (Nat.le_refl n.toNat) [] (by simp)
    rw [(serves_start _).resolve_eq n, htext]

end Glossary

end TemplateTrace
