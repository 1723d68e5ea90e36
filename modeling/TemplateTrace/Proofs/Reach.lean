import TemplateTrace.Proofs.Resolution
import Mathlib.Logic.Relation

/-!
Which ids have a text, and what a failure says.

An entry points to the markers that its placeholders take. An id has a text if every id that can be
reached from it has an entry with enough markers, and none of them can reach itself.

Every id on the path of the recursion reaches the id at hand, so an id that is met on its own path
reaches itself. Conversely, where the recursion succeeds, it also succeeds at every id that can be
reached, along a longer path; so what is reached is not on the path that it is reached by.
-/

namespace TemplateTrace

open Relation

namespace Dictionary

/-- The id is in the table, and its entry has a marker for every placeholder. -/
def Complete (d : Dictionary) (id : UInt32) : Prop :=
  ∃ e, d[id.toNat]? = some e ∧ e.placeholders ≤ e.markers.length

/-- The marker stands for a placeholder of the complete entry. -/
def Points (d : Dictionary) (id marker : UInt32) : Prop :=
  ∃ e, d[id.toNat]? = some e ∧ e.placeholders ≤ e.markers.length ∧
    marker ∈ e.markers.take e.placeholders

/-- From the one id the other can be reached, in no steps or more. -/
def Reaches (d : Dictionary) : UInt32 → UInt32 → Prop := ReflTransGen d.Points

/-- From the one id the other can be reached, in one step or more. -/
def Leads (d : Dictionary) : UInt32 → UInt32 → Prop := TransGen d.Points

variable {d : Dictionary} {path : List UInt32} {id marker : UInt32}

lemma complete_iff : d.Complete id ↔ ∃ markers, d.needs id = .ok markers := by
  simp only [needs_eq_ok_iff, Complete]
  grind

lemma points_iff : d.Points id marker ↔ ∃ markers, d.needs id = .ok markers ∧ marker ∈ markers := by
  simp only [needs_eq_ok_iff, Points]
  grind

end Dictionary

/-- What the failure to resolve the id says is so. -/
def NameError.Holds (d : Dictionary) (id : UInt32) : NameError → Prop
  | .outOfRange i n => d.Reaches id i ∧ n = d.size ∧ n ≤ i.toNat
  | .missingMarker i p => d.Reaches id i ∧
      ∃ e, d[i.toNat]? = some e ∧ e.markers.length = p ∧ p < e.placeholders
  | .cycle i => d.Reaches id i ∧ d.Leads i i

namespace Dictionary

variable {d : Dictionary} {path : List UInt32} {id marker : UInt32} {cause : NameError}

/-! ### Failures -/

lemma holds_of_needs (h : d.needs id = .error cause) : cause.Holds d id := by
  unfold needs entry at h
  cases he : d[id.toNat]? with
  | none =>
    obtain rfl : NameError.outOfRange id d.size = cause := by simpa [he] using h
    exact ⟨.refl, rfl, by simpa using he⟩
  | some e =>
    by_cases hlt : e.markers.length < e.placeholders
    · obtain rfl : NameError.missingMarker id e.markers.length = cause := by simpa [he, hlt] using h
      exact ⟨.refl, e, he, rfl, hlt⟩
    · simp [he, hlt] at h

/-- What is so of a marker is so of the id that points to it. -/
lemma holds_of_points (h : d.Points id marker) (hc : cause.Holds d marker) :
    cause.Holds d id := by
  cases cause with
  | outOfRange i n => exact ⟨.head h hc.1, hc.2⟩
  | missingMarker i p => exact ⟨.head h hc.1, hc.2⟩
  | cycle i => exact ⟨.head h hc.1, hc.2⟩

lemma exists_of_expandAll_error {ids : List UInt32} (h : d.expandAll path ids = .error cause) :
    ∃ i ∈ ids, d.expand path i = .error cause := by
  induction ids with
  | nil => simp at h
  | cons i ids ih =>
    rw [expandAll_cons] at h
    cases hi : d.expand path i with
    | error cause' =>
      obtain rfl : cause' = cause := by simpa [hi] using h
      exact ⟨i, by simp, hi⟩
    | ok text =>
      cases hs : d.expandAll path ids with
      | error cause' =>
        obtain rfl : cause' = cause := by simpa [hi, hs] using h
        obtain ⟨j, hj, he⟩ := ih hs
        exact ⟨j, by simp [hj], he⟩
      | ok texts => simp [hi, hs] at h

/-- **A failure is true**, if everything on the path leads to the id. -/
lemma holds_of_expand (hp : ∀ i ∈ path, d.Leads i id) (h : d.expand path id = .error cause) :
    cause.Holds d id := by
  -- each id that is expanded leaves fewer places of the table off the path
  induction hm : d.unvisited path using Nat.strong_induction_on generalizing path id with
  | _ n ih =>
    subst hm
    by_cases hid : id ∈ path
    · obtain rfl : NameError.cycle id = cause := by simpa [expand_of_mem hid] using h
      exact ⟨.refl, hp id hid⟩
    rw [expand_of_not_mem hid] at h
    cases hn : d.needs id with
    | error cause' =>
      obtain rfl : cause' = cause := by simpa [hn] using h
      exact holds_of_needs hn
    | ok markers =>
      cases hs : d.expandAll (id :: path) markers with
      | ok texts => simp [hn, hs] at h
      | error cause' =>
        obtain rfl : cause' = cause := by simpa [hn, hs] using h
        obtain ⟨e, he, -⟩ := needs_eq_ok hn
        obtain ⟨m, hm, herr⟩ := exists_of_expandAll_error hs
        have hpoint : d.Points id m := points_iff.mpr ⟨markers, hn, hm⟩
        refine holds_of_points hpoint
          (ih _ (unvisited_cons_lt hid (lt_size_of_getElem? he)) (fun i hi => ?_) herr rfl)
        rcases List.mem_cons.mp hi with rfl | hi
        · exact .single hpoint
        · exact .tail (hp i hi) hpoint

/-! ### Successes -/

/-- Recursion along the path gives the id a text. -/
def Expands (d : Dictionary) (path : List UInt32) (id : UInt32) : Prop :=
  ∃ text, d.expand path id = .ok text

/-- Every id has its text, and there are no other texts. -/
lemma of_expandAll_ok {ids : List UInt32} {texts : List String}
    (h : d.expandAll path ids = .ok texts) :
    texts.length = ids.length ∧ (∀ i ∈ ids, d.Expands path i) ∧
      ∀ text ∈ texts, ∃ i ∈ ids, d.expand path i = .ok text := by
  induction ids generalizing texts with
  | nil =>
    obtain rfl : [] = texts := by simpa using h
    simp
  | cons i ids ih =>
    rw [expandAll_cons] at h
    cases hi : d.expand path i with
    | error cause => simp [hi] at h
    | ok text =>
      cases hs : d.expandAll path ids with
      | error cause => simp [hi, hs] at h
      | ok rest =>
        obtain rfl : text :: rest = texts := by simpa [hi, hs] using h
        obtain ⟨hlen, hids, htexts⟩ := ih hs
        refine ⟨by simp [hlen], ?_, ?_⟩
        · exact List.forall_mem_cons.mpr ⟨⟨text, hi⟩, hids⟩
        · refine List.forall_mem_cons.mpr ⟨⟨i, by simp, hi⟩, fun t ht => ?_⟩
          obtain ⟨j, hj, he⟩ := htexts t ht
          exact ⟨j, by simp [hj], he⟩

lemma of_expand_ok {text : String} (h : d.expand path id = .ok text) :
    id ∉ path ∧ ∃ markers texts, d.needs id = .ok markers ∧
      d.expandAll (id :: path) markers = .ok texts ∧ text = d.splice id texts := by
  by_cases hid : id ∈ path
  · simp [expand_of_mem hid] at h
  rw [expand_of_not_mem hid] at h
  cases hn : d.needs id with
  | error cause => simp [hn] at h
  | ok markers =>
    cases hs : d.expandAll (id :: path) markers with
    | error cause => simp [hn, hs] at h
    | ok texts => exact ⟨hid, markers, texts, rfl, hs, by simpa [hn, hs, eq_comm] using h⟩

lemma Expands.not_mem (h : d.Expands path id) : id ∉ path := (of_expand_ok h.choose_spec).1

lemma Expands.complete (h : d.Expands path id) : d.Complete id := by
  obtain ⟨-, markers, -, hn, -⟩ := of_expand_ok h.choose_spec
  exact complete_iff.mpr ⟨markers, hn⟩

lemma Expands.of_points (h : d.Expands path id) (hp : d.Points id marker) :
    d.Expands (id :: path) marker := by
  obtain ⟨-, markers, texts, hn, hs, -⟩ := of_expand_ok h.choose_spec
  obtain ⟨markers', hn', hm⟩ := points_iff.mp hp
  obtain rfl : markers = markers' := by simpa [hn] using hn'
  exact (of_expandAll_ok hs).2.1 marker hm

/-- What is reached has a text along a path that goes on from the one before. -/
lemma Expands.of_reaches {i : UInt32} (h : d.Expands path id) (hr : d.Reaches id i) :
    ∃ path', path ⊆ path' ∧ d.Expands path' i := by
  induction hr with
  | refl => exact ⟨path, List.Subset.refl _, h⟩
  | tail _ hp ih =>
    obtain ⟨path', hsub, he⟩ := ih
    exact ⟨_, List.subset_cons_of_subset _ hsub, he.of_points hp⟩

lemma Expands.not_leads (h : d.Expands path id) : ¬ d.Leads id id := by
  intro hl
  obtain ⟨m, hp, hr⟩ := TransGen.head'_iff.mp hl
  obtain ⟨path', hsub, he⟩ := (h.of_points hp).of_reaches hr
  exact he.not_mem (hsub (by simp))

/-- **An id has a text** if all that is reached is complete and nothing reached reaches itself. -/
lemma expands_iff : d.Expands [] id ↔ ∀ i, d.Reaches id i → d.Complete i ∧ ¬ d.Leads i i := by
  constructor
  · intro h i hr
    obtain ⟨path', -, he⟩ := h.of_reaches hr
    exact ⟨he.complete, he.not_leads⟩
  · intro h
    cases he : d.expand [] id with
    | ok text => exact ⟨text, he⟩
    | error cause =>
      have hc : cause.Holds d id := holds_of_expand (by simp) he
      cases cause with
      | outOfRange i n =>
        obtain ⟨hr, rfl, hle⟩ := hc
        obtain ⟨e, hi, -⟩ := (h i hr).1
        exact absurd (lt_size_of_getElem? hi) (Nat.not_lt.mpr hle)
      | missingMarker i p =>
        obtain ⟨hr, e, hi, rfl, hlt⟩ := hc
        obtain ⟨e', hi', hle⟩ := (h i hr).1
        obtain rfl := Option.some.inj (hi.symm.trans hi')
        exact absurd hlt (Nat.not_lt.mpr hle)
      | cycle i => exact absurd hc.2 (h i hc.1).2

/-! ### No placeholder is left -/

lemma not_mem_fill {cs : List Char} {texts : List String}
    (hlen : texts.length = cs.count placeholder) (ht : ∀ t ∈ texts, placeholder ∉ t.toList) :
    placeholder ∉ DictionaryEntry.fill cs texts := by
  induction cs generalizing texts with
  | nil => simp [DictionaryEntry.fill]
  | cons c cs ih =>
    by_cases hc : c = placeholder
    · subst hc
      rcases texts with _ | ⟨t, ts⟩
      · simp at hlen
      · have hrest : placeholder ∉ DictionaryEntry.fill cs ts :=
          ih (by simpa using hlen) fun t ht' => ht t (by simp [ht'])
        simp [DictionaryEntry.fill, ht t, hrest]
    · have hrest := ih (by simpa [List.count_cons, hc] using hlen) ht
      rcases texts with _ | ⟨t, ts⟩ <;>
        simp [DictionaryEntry.fill, hc, hrest, Ne.symm hc]

lemma not_mem_splice {markers : List UInt32} {texts : List String}
    (hn : d.needs id = .ok markers) (hlen : texts.length = markers.length)
    (ht : ∀ t ∈ texts, placeholder ∉ t.toList) : placeholder ∉ (d.splice id texts).toList := by
  obtain ⟨e, he, -, hl⟩ := needs_eq_ok hn
  have hcount : texts.length = e.marked.toList.count placeholder := hlen.trans hl
  have hfill := not_mem_fill hcount ht
  rw [DictionaryEntry.fill_eq_weave _ _ hcount] at hfill
  simpa [splice, he, DictionaryEntry.splice] using hfill

lemma not_mem_of_expand {text : String} (h : d.expand path id = .ok text) :
    placeholder ∉ text.toList := by
  induction hm : d.unvisited path using Nat.strong_induction_on generalizing path id text with
  | _ n ih =>
    subst hm
    obtain ⟨hid, markers, texts, hn, hs, rfl⟩ := of_expand_ok h
    obtain ⟨e, he, -⟩ := needs_eq_ok hn
    obtain ⟨hlen, -, htexts⟩ := of_expandAll_ok hs
    refine not_mem_splice hn hlen fun t ht => ?_
    obtain ⟨i, -, hi⟩ := htexts t ht
    exact ih _ (unvisited_cons_lt hid (lt_size_of_getElem? he)) hi rfl

end Dictionary

namespace Glossary

open Dictionary

/-- **An id is resolved exactly if all that it reaches is complete and nothing there reaches
itself**, and then no placeholder is left in its text; a failure to resolve it is always true. -/
theorem resolve_iff_reach (d : Dictionary) (ids : List UInt32) (id : UInt32) :
    let r := ((Glossary.after { dictionary := d } ids).resolve id).1
    ((∃ text, r = .ok text) ↔ ∀ i, d.Reaches id i → d.Complete i ∧ ¬ d.Leads i i) ∧
      (∀ text, r = .ok text → placeholder ∉ text.toList) ∧
      ∀ cause, r = .error cause → cause.Holds d id := by
  rw [((serves_start d).after ids).resolve_eq id]
  exact ⟨expands_iff, fun _ => not_mem_of_expand, fun _ => holds_of_expand (by simp)⟩

/-- Markers that are shared and repeated, surplus markers, and a cycle that two ids enter. -/
def sharedAndCyclic : Dictionary :=
  #[⟨"int", []⟩, ⟨"v<\x00>", [0, 3]⟩, ⟨"p<\x00,\x00,\x00>", [1, 0, 1]⟩, ⟨"a<\x00>", [4]⟩,
    ⟨"b<\x00>", [3]⟩]

theorem resolve_iff_reach_shared :
    let g := Glossary.after { dictionary := sharedAndCyclic } [3]
    (g.resolve 2).1 = .ok "p<v<int>,int,v<int>>" ∧
      (∀ i, sharedAndCyclic.Reaches 2 i → ¬ sharedAndCyclic.Leads i i) ∧
      placeholder ∉ "p<v<int>,int,v<int>>".toList ∧
      (g.resolve 4).1 = .error (.cycle 4) ∧ sharedAndCyclic.Leads 4 4 := by
  have hshared : ((Glossary.after { dictionary := sharedAndCyclic } [3]).resolve 2).1 =
      .ok "p<v<int>,int,v<int>>" := by decide +kernel
  have hcyclic : ((Glossary.after { dictionary := sharedAndCyclic } [3]).resolve 4).1 =
      .error (.cycle 4) := by decide +kernel
  obtain ⟨hiff, htext, -⟩ := resolve_iff_reach sharedAndCyclic [3] 2
  obtain ⟨-, -, hcause⟩ := resolve_iff_reach sharedAndCyclic [3] 4
  exact ⟨hshared, fun i hi => (hiff.mp ⟨_, hshared⟩ i hi).2, htext _ hshared, hcyclic,
    (hcause _ hcyclic).2⟩

end Glossary

end TemplateTrace
