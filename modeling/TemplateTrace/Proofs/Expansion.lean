import TemplateTrace.Dictionary
import Mathlib.Data.Finset.Card
import Mathlib.Tactic.Common

/-!
The text of an id by plain recursion. Nothing is kept from one id to the next: every marker is
expanded anew, and all that is known is the path of the ids whose expansion has not ended. An id
that is met on its own path has no text.
-/

namespace TemplateTrace

/-- Puts the texts between the parts, in order. -/
def weave : List (List Char) → List String → List Char
  | part :: parts, text :: texts => part ++ text.toList ++ weave parts texts
  | parts, _ => parts.flatten

namespace DictionaryEntry

/-- The marked name, cut at its placeholders, with the texts in the gaps. -/
def splice (e : DictionaryEntry) (texts : List String) : String :=
  String.ofList (weave (e.marked.toList.splitOn placeholder) texts)

lemma fill_eq_weave (cs : List Char) (texts : List String)
    (h : texts.length = cs.count placeholder) :
    fill cs texts = weave (cs.splitOn placeholder) texts := by
  induction cs generalizing texts with
  | nil => simp [fill, weave, List.length_eq_zero_iff.mp h]
  | cons c cs ih =>
    rw [List.splitOn_cons_eq_if_modifyHead]
    rcases hs : cs.splitOn placeholder with _ | ⟨part, parts⟩
    · exact absurd hs (List.splitOn_ne_nil _ _)
    by_cases hc : c = placeholder
    · subst hc
      cases texts with
      | nil => simp at h
      | cons text texts => simp [fill, weave, ih texts (by simpa using h), hs]
    · have hrest := ih texts (by simpa [List.count_cons, hc] using h)
      cases texts <;> simp_all [fill, weave]

end DictionaryEntry

namespace Dictionary

/-- How many places of the table are not on the path. -/
def unvisited (d : Dictionary) (path : List UInt32) : Nat :=
  {i ∈ Finset.range d.size | UInt32.ofNat i ∉ path}.card

lemma unvisited_cons_lt {d : Dictionary} {path : List UInt32} {id : UInt32} (hp : id ∉ path)
    (hid : id.toNat < d.size) : d.unvisited (id :: path) < d.unvisited path := by
  refine Finset.card_lt_card (Finset.ssubset_iff_of_subset ?_ |>.mpr ⟨id.toNat, ?_, ?_⟩)
  · intro i hi
    simp only [Finset.mem_filter, List.mem_cons, not_or] at hi ⊢
    exact ⟨hi.1, hi.2.2⟩
  · simpa [hid] using hp
  · simp

lemma lt_size_of_getElem? {d : Dictionary} {i : Nat} {e : DictionaryEntry} (h : d[i]? = some e) :
    i < d.size := (Array.getElem?_eq_some_iff.mp h).1

mutual

/-- The text of the id, reached along the path. -/
def expand (d : Dictionary) (path : List UInt32) (id : UInt32) : Except NameError String :=
  if _hp : id ∈ path then .error (.cycle id)
  else match _he : d[id.toNat]? with
    | none => .error (.outOfRange id d.size)
    | some e =>
      if e.markers.length < e.placeholders then .error (.missingMarker id e.markers.length)
      else match d.expandAll (id :: path) (e.markers.take e.placeholders) with
        | .error cause => .error cause
        | .ok texts => .ok (e.splice texts)
termination_by (d.unvisited path, 0)
decreasing_by exact Prod.Lex.left _ _ (unvisited_cons_lt _hp (lt_size_of_getElem? _he))

/-- The texts of the ids from left to right, or the first failure. -/
def expandAll (d : Dictionary) (path : List UInt32) : List UInt32 → Except NameError (List String)
  | [] => .ok []
  | id :: ids =>
    match d.expand path id with
    | .error cause => .error cause
    | .ok text =>
      match d.expandAll path ids with
      | .error cause => .error cause
      | .ok texts => .ok (text :: texts)
termination_by ids => (d.unvisited path, ids.length + 1)

end

variable {d : Dictionary} {path : List UInt32} {id : UInt32}

/-- The text of an id whose markers have the texts. -/
def splice (d : Dictionary) (id : UInt32) (texts : List String) : String :=
  d[id.toNat]?.elim "" (·.splice texts)

lemma expand_of_mem (h : id ∈ path) : d.expand path id = .error (.cycle id) := by
  rw [expand, dif_pos h]

/-- Off its path, an id fails as its entry does, or takes the texts of what the entry needs. -/
lemma expand_of_not_mem (h : id ∉ path) : d.expand path id =
    match d.needs id with
    | .error cause => .error cause
    | .ok markers =>
      match d.expandAll (id :: path) markers with
      | .error cause => .error cause
      | .ok texts => .ok (d.splice id texts) := by
  rw [expand, dif_neg h]
  unfold needs entry splice
  split
  · next he => simp [he]
  · next e he =>
    simp only [he]
    split <;> rfl

@[simp] lemma expandAll_nil : d.expandAll path [] = .ok [] := by rw [expandAll]

lemma expandAll_cons (ids : List UInt32) : d.expandAll path (id :: ids) =
    match d.expand path id with
    | .error cause => .error cause
    | .ok text =>
      match d.expandAll path ids with
      | .error cause => .error cause
      | .ok texts => .ok (text :: texts) := by rw [expandAll]

end Dictionary

end TemplateTrace
