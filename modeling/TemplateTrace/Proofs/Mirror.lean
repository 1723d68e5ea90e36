import TemplateTrace.Proofs.Reach
import Mathlib.Data.Set.Function

/-!
Dictionaries that say the same under other ids.

The search for a text asks only whether ids are the same, and what each of them needs. So if the ids
that can be reached are found in another dictionary under other ids, different ones for different
ones, and need there what they need here under its other id, the outcome is the same: the same text,
or the same cause for the other id.
-/

namespace TemplateTrace

def NameError.renumber (ids : UInt32 → UInt32) : NameError → NameError
  | outOfRange id size => outOfRange (ids id) size
  | missingMarker id p => missingMarker (ids id) p
  | cycle id => cycle (ids id)

namespace Dictionary

/-- The entries of the set are in the other dictionary, under other ids. -/
structure Mirrors (d d' : Dictionary) (ids : UInt32 → UInt32) (S : Set UInt32) : Prop where
  needs : ∀ i ∈ S, d'.needs (ids i) = ((d.needs i).map (·.map ids)).mapError (·.renumber ids)
  splice : ∀ i ∈ S, d'.splice (ids i) = d.splice i
  closed : ∀ i ∈ S, ∀ m, d.Points i m → m ∈ S
  injOn : Set.InjOn ids S

variable {d d' : Dictionary} {ids : UInt32 → UInt32} {S : Set UInt32}

lemma expandAll_map {path path' markers : List UInt32}
    (h : ∀ m ∈ markers, d'.expand path' (ids m) = (d.expand path m).mapError (·.renumber ids)) :
    d'.expandAll path' (markers.map ids) =
      (d.expandAll path markers).mapError (·.renumber ids) := by
  induction markers with
  | nil => simp [Except.mapError]
  | cons m markers ih =>
    obtain ⟨hm, hmarkers⟩ := List.forall_mem_cons.mp h
    rw [List.map_cons, expandAll_cons, expandAll_cons, hm, ih hmarkers]
    cases d.expand path m with
    | error cause => rfl
    | ok text => cases d.expandAll path markers <;> rfl

/-- **Recursion has the same outcome in the mirror**, along the path of the other ids. -/
lemma Mirrors.expand_eq (h : d.Mirrors d' ids S) {path : List UInt32} {id : UInt32}
    (hpath : ∀ i ∈ path, i ∈ S) (hid : id ∈ S) :
    d'.expand (path.map ids) (ids id) = (d.expand path id).mapError (·.renumber ids) := by
  -- each id that is expanded leaves fewer places of the table off the path
  induction hm : d.unvisited path using Nat.strong_induction_on generalizing path id with
  | _ n ih =>
    subst hm
    by_cases hp : id ∈ path
    · rw [expand_of_mem hp, expand_of_mem (List.mem_map_of_mem hp)]
      rfl
    have hp' : ids id ∉ path.map ids := by
      intro hmem
      obtain ⟨i, hi, heq⟩ := List.mem_map.mp hmem
      exact hp (h.injOn (hpath i hi) hid heq ▸ hi)
    rw [expand_of_not_mem hp, expand_of_not_mem hp', h.needs id hid]
    cases hn : d.needs id with
    | error cause => rfl
    | ok markers =>
      obtain ⟨e, he, -⟩ := needs_eq_ok hn
      have hpath' : ∀ i ∈ id :: path, i ∈ S := List.forall_mem_cons.mpr ⟨hid, hpath⟩
      have hmarkers : d'.expandAll ((id :: path).map ids) (markers.map ids) =
          (d.expandAll (id :: path) markers).mapError (·.renumber ids) :=
        expandAll_map fun m hm => ih _ (unvisited_cons_lt hp (lt_size_of_getElem? he)) hpath'
          (h.closed id hid m (points_iff.mpr ⟨markers, hn, hm⟩)) rfl
      rw [List.map_cons] at hmarkers
      simp only [Except.map, Except.mapError, hmarkers, h.splice id hid]
      cases d.expandAll (id :: path) markers <;> rfl

end Dictionary

end TemplateTrace
