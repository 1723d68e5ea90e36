import TemplateTrace.Proofs.Mirror

/-!
What a text depends on.

The search for the text of an id comes only to ids that can be reached from it, and takes nothing
from an entry but the marked name and a marker for each placeholder. So a dictionary of the same size
that has the same there is a mirror in which every id stays what it is, and resolves the id in the
same way. What else the two dictionaries hold, and what was resolved before in either, is not seen.
-/

namespace TemplateTrace

@[simp] lemma NameError.renumber_self (cause : NameError) : cause.renumber (fun i => i) = cause := by
  cases cause <;> rfl

namespace Dictionary

/-- The other dictionary has as many entries, and for the ids that are reached it has the same
marked names with the same markers for the placeholders, or as few of them. An entry that lacks
markers leads nowhere, so nothing is asked of the ids that only such an entry names. -/
structure AgreesFrom (d d' : Dictionary) (id : UInt32) : Prop where
  size : d'.size = d.size
  entry : ∀ i e, d.Reaches id i → d[i.toNat]? = some e → ∃ e', d'[i.toNat]? = some e' ∧
    e'.marked = e.marked ∧ e'.markers.take e.placeholders = e.markers.take e.placeholders

variable {d d' : Dictionary} {id i : UInt32}

/-- The first markers tell whether there are enough of them, and if not, how many there are. -/
lemma length_of_take_eq {ms ms' : List UInt32} {k : Nat} (h : ms'.take k = ms.take k) :
    (ms'.length < k ↔ ms.length < k) ∧ (ms.length < k → ms'.length = ms.length) := by
  have hlen := congrArg List.length h
  rw [List.length_take, List.length_take] at hlen
  omega

lemma AgreesFrom.getElem?_eq_none (h : d.AgreesFrom d' id) (hi : d[i.toNat]? = none) :
    d'[i.toNat]? = none := by
  rw [Array.getElem?_eq_none_iff] at hi ⊢
  rwa [h.size]

lemma AgreesFrom.needs_eq (h : d.AgreesFrom d' id) (hr : d.Reaches id i) :
    d'.needs i = d.needs i := by
  unfold needs Dictionary.entry
  cases he : d[i.toNat]? with
  | none => rw [h.getElem?_eq_none he, h.size]
  | some e =>
    obtain ⟨e', he', hmarked, htake⟩ := h.entry i e hr he
    have hplaces : e'.placeholders = e.placeholders := by
      rw [DictionaryEntry.placeholders, hmarked, DictionaryEntry.placeholders]
    obtain ⟨hfew, hcount⟩ := length_of_take_eq htake
    simp only [he', hplaces, htake, hfew]
    split
    · next hlt => rw [hcount hlt]
    · rfl

lemma AgreesFrom.splice_eq (h : d.AgreesFrom d' id) (hr : d.Reaches id i) :
    d'.splice i = d.splice i := by
  funext texts
  unfold splice
  cases he : d[i.toNat]? with
  | none => rw [h.getElem?_eq_none he]
  | some e =>
    obtain ⟨e', he', hmarked, -⟩ := h.entry i e hr he
    simp [he', DictionaryEntry.splice, hmarked]

/-- Where the dictionaries agree, each mirrors the other without renumbering. -/
lemma AgreesFrom.mirrors (h : d.AgreesFrom d' id) :
    d.Mirrors d' (fun i => i) {i | d.Reaches id i} where
  needs i hi := by
    rw [h.needs_eq hi]
    cases d.needs i <;> simp [Except.map, Except.mapError]
  splice i hi := h.splice_eq hi
  closed i hi m hm := Relation.ReflTransGen.tail hi hm
  injOn := Function.injective_id.injOn

lemma AgreesFrom.expand_eq (h : d.AgreesFrom d' id) : d'.expand [] id = d.expand [] id := by
  have hmirror : d'.expand [] id = (d.expand [] id).mapError (·.renumber fun i => i) :=
    h.mirrors.expand_eq (List.forall_mem_nil _) Relation.ReflTransGen.refl
  rw [hmirror]
  cases d.expand [] id <;> simp [Except.mapError]

/-- What is reached from a set of ids that leads to itself is in the set. -/
lemma mem_of_reaches {S : List UInt32} (hid : id ∈ S)
    (hS : ∀ j ∈ S, d[j.toNat]?.elim [] (fun e => e.markers.take e.placeholders) ⊆ S)
    (h : d.Reaches id i) : i ∈ S := by
  induction h with
  | refl => exact hid
  | tail _ hp ih =>
    obtain ⟨e, he, -, hm⟩ := hp
    exact hS _ ih (by simpa [he] using hm)

end Dictionary

namespace Glossary

open Dictionary

/-- **Resolution is local**: dictionaries that agree where the id leads give it the same text or the
same failure, whatever was resolved before in either. -/
theorem resolve_eq_of_agreesFrom {d d' : Dictionary} {id : UInt32} (h : d.AgreesFrom d' id)
    (ids ids' : List UInt32) :
    ((Glossary.after { dictionary := d } ids).resolve id).1 =
      ((Glossary.after { dictionary := d' } ids').resolve id).1 := by
  rw [((serves_start d).after ids).resolve_eq, ((serves_start d').after ids').resolve_eq,
    h.expand_eq]

/-- As `sharedAndCyclic` up to the third entry, but for surplus markers; then an entry that lacks its
marker and one whose marker is out of range, in place of the cycle. -/
def sharedAndBroken : Dictionary :=
  #[⟨"int", [4, 4]⟩, ⟨"v<\x00>", [0, 0, 9]⟩, ⟨"p<\x00,\x00,\x00>", [1, 0, 1]⟩, ⟨"a<\x00>", []⟩,
    ⟨"c<\x00>", [9]⟩]

/-- The same text, after a cycle was met in one dictionary and both broken entries in the other. -/
theorem resolve_eq_of_agreesFrom_shared :
    sharedAndCyclic.AgreesFrom sharedAndBroken 2 ∧
      ((Glossary.after { dictionary := sharedAndCyclic } [4]).resolve 2).1 =
        ((Glossary.after { dictionary := sharedAndBroken } [3, 4]).resolve 2).1 ∧
      ((Glossary.after { dictionary := sharedAndBroken } [3, 4]).resolve 2).1 =
        .ok "p<v<int>,int,v<int>>" := by
  have hclosed : ∀ j ∈ ([0, 1, 2] : List UInt32),
      sharedAndCyclic[j.toNat]?.elim [] (fun e => e.markers.take e.placeholders) ⊆
        ([0, 1, 2] : List UInt32) := by
    -- one member at a time, as `decide` may take the quantifier for one over all ids
    simp only [List.forall_mem_cons, List.not_mem_nil, false_imp_iff, implies_true, and_true]
    decide +kernel
  have hagrees : sharedAndCyclic.AgreesFrom sharedAndBroken 2 := by
    refine ⟨rfl, fun i e hr he => ?_⟩
    have hi : i ∈ ([0, 1, 2] : List UInt32) := mem_of_reaches (by simp) hclosed hr
    simp only [List.mem_cons, List.not_mem_nil, or_false] at hi
    rcases hi with rfl | rfl | rfl <;> obtain rfl := Option.some.inj he <;>
      exact ⟨_, rfl, rfl, by decide⟩
  have hsame := resolve_eq_of_agreesFrom hagrees [4] [3, 4]
  have htext : ((Glossary.after { dictionary := sharedAndCyclic } [4]).resolve 2).1 =
      .ok "p<v<int>,int,v<int>>" := by decide +kernel
  exact ⟨hagrees, hsame, hsame.symm.trans htext⟩

end Glossary

end TemplateTrace
