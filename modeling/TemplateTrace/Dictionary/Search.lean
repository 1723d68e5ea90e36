import TemplateTrace.Dictionary
import Std.Data.TreeMap
import Std.Data.TreeSet

/-!
Resolving an id by depth-first search on an explicit list of tasks. What was found out is kept and
used again, also when the search fails, so a name that is shared is spelled out once. Every step
takes a task off the list, and the tasks that it adds are paid for by an id that is started once,
so the number of steps is bounded by the size of the table.
-/

namespace TemplateTrace

abbrev Known := Std.TreeMap UInt32 String

/-- What is left to do: look at an id, or spell it out once its markers are known. -/
inductive Task
  | visit (id : UInt32)
  | spell (id : UInt32)
  deriving DecidableEq

/-- The state of a search: the ids whose expansion has started and not ended are under way. -/
structure Search where
  known : Known
  underway : Std.TreeSet UInt32
  pending : List Task

/-- The text of an id whose markers are all known. The markers are looked up from left to right, and
after the last of them it is noticed that a placeholder has none. -/
def Dictionary.spell (d : Dictionary) (known : Known) (id : UInt32) :
    Except NameError String := do
  let e ← d.entry id
  let texts ← (e.markers.take e.placeholders).mapM fun m =>
    (known[m]?.elim (.error (.cycle m)) .ok : Except _ _)
  if texts.length < e.placeholders then .error (.missingMarker id texts.length)
  else .ok (String.ofList (DictionaryEntry.fill e.marked.toList texts))

/-- The most tasks that the start of an id adds. -/
def Dictionary.width (d : Dictionary) : Nat :=
  1 + (d.toList.map DictionaryEntry.placeholders).max?.getD 0

namespace Search

/-- Carries out one task; `s` holds the tasks that come after it. -/
def step (d : Dictionary) (s : Search) : Task → Except NameError Search
  | .visit id =>
    if id ∈ s.known then .ok s
    else if id ∈ s.underway then .error (.cycle id)
    else match d.needs id with
      | .error e => .error e
      | .ok markers =>
        let unknown := markers.filter (· ∉ s.known)
        .ok { s with
          underway := s.underway.insert id
          pending := unknown.map .visit ++ .spell id :: s.pending }
  | .spell id =>
    match d.spell s.known id with
    | .error e => .error e
    | .ok text =>
      .ok { s with known := s.known.insert id text, underway := s.underway.erase id }

def Started (s : Search) (id : UInt32) : Prop := id ∈ s.known ∨ id ∈ s.underway

instance (s : Search) (id : UInt32) : Decidable (s.Started id) :=
  inferInstanceAs (Decidable (id ∈ s.known ∨ id ∈ s.underway))

variable {d : Dictionary} {s s' : Search} {t : Task} {id : UInt32}

/-- What a task can do: pass over an id that is known, start one that has not started, or spell one
out. -/
theorem step_cases (h : step d s t = .ok s') :
    (∃ id, t = .visit id ∧ id ∈ s.known ∧ s' = s) ∨
    (∃ id markers, t = .visit id ∧ ¬ s.Started id ∧ d.needs id = .ok markers ∧
      s' = ⟨s.known, s.underway.insert id,
        (markers.filter (· ∉ s.known)).map .visit ++ .spell id :: s.pending⟩) ∨
    (∃ id text, t = .spell id ∧ d.spell s.known id = .ok text ∧
      s' = ⟨s.known.insert id text, s.underway.erase id, s.pending⟩) := by
  cases t with
  | visit id =>
    simp only [step] at h
    split at h
    · next hk => exact .inl ⟨id, rfl, hk, (Except.ok.inj h).symm⟩
    · next hk =>
      split at h
      · simp at h
      · next hu =>
        split at h
        · simp at h
        · next markers hn =>
          exact .inr (.inl ⟨id, markers, rfl, by simp [Started, hk, hu], hn, (Except.ok.inj h).symm⟩)
  | spell id =>
    simp only [step] at h
    split at h
    · simp at h
    · next text htext => exact .inr (.inr ⟨id, text, rfl, htext, (Except.ok.inj h).symm⟩)

theorem Started.step {rest : List Task} (h : s.Started id)
    (hs : step d { s with pending := rest } t = .ok s') : s'.Started id := by
  obtain ⟨i, -, -, rfl⟩ | ⟨i, markers, -, -, -, rfl⟩ | ⟨i, text, -, -, rfl⟩ := step_cases hs
  · exact h
  · exact h.imp_right fun hu => by simp [hu]
  · by_cases hi : i = id
    · exact .inl (by simp [hi])
    · unfold Started at h ⊢
      grind

/-! ### The search ends -/

def unstarted (d : Dictionary) (s : Search) : List Nat :=
  (List.range d.size).filter fun i => ¬ s.Started (.ofNat i)

theorem unstarted_eq_filter (h : ∀ id, s.Started id → s'.Started id) :
    s'.unstarted d = (s.unstarted d).filter fun i => ¬ s'.Started (.ofNat i) := by
  rw [unstarted, unstarted, List.filter_filter]
  congr 1
  funext i
  have := h (.ofNat i)
  by_cases hs : s.Started (.ofNat i) <;> simp [hs, this]

theorem length_unstarted_le (h : ∀ id, s.Started id → s'.Started id) :
    (s'.unstarted d).length ≤ (s.unstarted d).length := by
  rw [unstarted_eq_filter h]
  exact List.length_filter_le _ _

theorem length_unstarted_lt (h : ∀ id, s.Started id → s'.Started id) (hsize : id.toNat < d.size)
    (hs : ¬ s.Started id) (hs' : s'.Started id) :
    (s'.unstarted d).length < (s.unstarted d).length := by
  rw [unstarted_eq_filter h]
  exact List.length_filter_lt_length_iff_exists.2
    ⟨id.toNat, by simp [unstarted, hsize, hs], by simp [hs']⟩

theorem length_lt_width {markers : List UInt32} (h : d.needs id = .ok markers) :
    markers.length < d.width := by
  obtain ⟨e, he, -, hl⟩ := Dictionary.needs_eq_ok h
  have hmem : e.placeholders ∈ d.toList.map DictionaryEntry.placeholders :=
    List.mem_map_of_mem (Array.mem_toList_iff.2 (Array.mem_of_getElem? he))
  have := List.le_max?_getD_of_mem (k := 0) hmem
  unfold Dictionary.width
  omega

/-- A bound on the steps that are left. -/
def remaining (d : Dictionary) (s : Search) : Nat :=
  s.pending.length + (s.unstarted d).length * d.width

theorem remaining_lt {rest : List Task} (hp : s.pending = t :: rest)
    (hs : step d { s with pending := rest } t = .ok s') : s'.remaining d < s.remaining d := by
  have hstarted : ∀ id, s.Started id → s'.Started id := fun _ h => h.step hs
  have hle := Nat.mul_le_mul_right d.width (length_unstarted_le (d := d) hstarted)
  simp only [remaining, hp, List.length_cons]
  obtain ⟨i, -, -, rfl⟩ | ⟨i, markers, -, hi, hn, rfl⟩ | ⟨i, text, -, -, rfl⟩ := step_cases hs
  · simp only at hle ⊢
    omega
  · -- the tasks that come are fewer than what the id that starts leaves room for
    obtain ⟨e, he, -, -⟩ := Dictionary.needs_eq_ok hn
    have hlt := length_unstarted_lt hstarted (Array.getElem?_eq_some_iff.1 he).1 hi (.inr (by simp))
    have hroom := Nat.mul_le_mul_right d.width hlt
    have := length_lt_width hn
    have := List.length_filter_le (fun m => decide (m ∉ s.known)) markers
    simp only [Nat.succ_mul, List.length_append, List.length_map, List.length_cons] at hroom ⊢
    omega
  · simp only at hle ⊢
    omega

/-- Works through the tasks, and stops at the first failure. What became known is kept. -/
def run (d : Dictionary) (s : Search) : Known × Except NameError Unit :=
  match hp : s.pending with
  | [] => (s.known, .ok ())
  | t :: rest =>
    match hs : step d { s with pending := rest } t with
    | .error e => (s.known, .error e)
    | .ok s' =>
      have := remaining_lt hp hs
      run d s'
termination_by s.remaining d

end Search

structure Glossary where
  dictionary : Dictionary
  known : Known := ∅

namespace Glossary

/-- The text of an id, and the glossary for the next one. -/
def resolve (g : Glossary) (id : UInt32) : Except NameError String × Glossary :=
  match Search.run g.dictionary ⟨g.known, ∅, [.visit id]⟩ with
  | (known, .error e) => (.error e, { g with known })
  | (known, .ok ()) => (known[id]?.elim (.error (.cycle id)) .ok, { g with known })

end Glossary

end TemplateTrace
