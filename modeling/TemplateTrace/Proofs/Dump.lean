import TemplateTrace.Disk
import TemplateTrace.Proofs.Recording
import TemplateTrace.Session

/-!
What a dump tells.

The text of a dump is read back as the document that it was written from, so dumps are the same text
only if they are the same document. The document has a member for everything that an evaluation
holds. A column that is not known is written as a number that is no column, and kinds have different
names, so from each member that part of the evaluation can be told.
-/

namespace TemplateTrace

namespace Json

lemma string_inj {s t : String} : string s = string t ↔ s = t := by simp [string]

lemma nat_inj {m n : Nat} : nat m = nat n ↔ m = n := by simp [nat]

lemma map_nat_inj {ms ns : List Nat} : ms.map nat = ns.map nat ↔ ms = ns := by
  have hnat : Function.Injective nat := fun _ _ => nat_inj.mp
  exact (List.map_injective_iff.mpr hnat).eq_iff

/-- Documents that are written as the same text are the same. -/
lemma pretty_inj {v w : Json} (hv : v.Integral) (hw : w.Integral) :
    v.pretty = w.pretty ↔ v = w := by
  constructor
  · intro h
    have hread : ofText? v.pretty = some v := ofText?_write hv _
    have hread' : ofText? w.pretty = some w := ofText?_write hw _
    rw [h, hread'] at hread
    exact (Option.some.inj hread).symm
  · exact congrArg pretty

end Json

open Json

lemma Kind.name_injective : Function.Injective Kind.name := by
  intro k k' h
  have hread : ofName? k'.name = some k := h ▸ ofName?_name k
  rw [ofName?_name] at hread
  exact (Option.some.inj hread).symm

namespace Place

/-- The number that stands for a column that is not known is no column. -/
lemma column_inj {c c' : Option UInt32} :
    (c.elim (-1) fun c => (c.toNat : Int)) = c'.elim (-1) (fun c => (c.toNat : Int)) ↔ c = c' := by
  have hnone (c : UInt32) : (-1 : Int) ≠ c.toNat := by omega
  rcases c with _ | c <;> rcases c' with _ | c'
  · simp
  · simp [hnone c']
  · simp [(hnone c).symm]
  · simp [UInt32.toNat_inj]

lemma toJson_inj {p q : Place} : p.toJson = q.toJson ↔ p = q := by
  obtain ⟨file, line, column⟩ := p
  obtain ⟨file', line', column'⟩ := q
  simp [toJson, record, string_inj, nat_inj, column_inj, UInt32.toNat_inj]

lemma integral_toJson (p : Place) : p.toJson.Integral := by
  simp [toJson, string, nat, Integral.text, Integral.integer]

end Place

namespace Frame

lemma toJson_inj {f g : Frame} : f.toJson = g.toJson ↔ f = g := by
  obtain ⟨⟨kind, name, place⟩, ⟨children⟩⟩ := f
  obtain ⟨⟨kind', name', place'⟩, ⟨children'⟩⟩ := g
  have hmembers : toJson ⟨⟨kind, name, place⟩, ⟨children⟩⟩ =
      toJson ⟨⟨kind', name', place'⟩, ⟨children'⟩⟩ ↔
      name = name' ∧ kind = kind' ∧ place = place' ∧ children = children' := by
    simp [toJson, record, string_inj, Place.toJson_inj, Kind.name_injective.eq_iff, map_nat_inj]
  rw [hmembers]
  constructor
  · rintro ⟨rfl, rfl, rfl, rfl⟩
    rfl
  · rintro ⟨⟩
    exact ⟨rfl, rfl, rfl, rfl⟩

lemma toJson_injective : Function.Injective toJson := fun _ _ => toJson_inj.mp

lemma integral_toJson (f : Frame) : f.toJson.Integral := by
  simp [toJson, string, Integral.text, f.instantiation.place.integral_toJson, nat, Integral.integer]

end Frame

namespace Evaluation

lemma toJson_inj {e e' : Evaluation} : e.toJson = e'.toJson ↔ e = e' := by
  obtain ⟨rootName, result, ⟨frames⟩, ⟨roots⟩⟩ := e
  obtain ⟨rootName', result', ⟨frames'⟩, ⟨roots'⟩⟩ := e'
  have hframes : frames.map Frame.toJson = frames'.map Frame.toJson ↔ frames = frames' :=
    (List.map_injective_iff.mpr Frame.toJson_injective).eq_iff
  simp [toJson, record, string_inj, map_nat_inj, hframes]

lemma integral_toJson (e : Evaluation) : e.toJson.Integral := by
  simp [toJson, string, Integral.text, Frame.integral_toJson, nat, Integral.integer]

/-- Dumps are the same text only if nothing in the evaluations differs. -/
lemma dump_inj {e e' : Evaluation} : e.dump = e'.dump ↔ e = e' := by
  rw [dump, dump, pretty_inj e.integral_toJson e'.integral_toJson, toJson_inj]

end Evaluation

namespace Session

lemma run_dump (s : Settings) (r : Request) (disk : Disk) :
    ((dump s r : StateM Disk _).run disk).1 =
      ((load s r : StateM Disk _).run disk).1.map (·.dump) := rfl

lemma exists_load_of_dump {s : Settings} {r : Request} {disk : Disk} {text : String}
    (h : ((dump s r : StateM Disk _).run disk).1 = .ok text) :
    ∃ e, ((load s r : StateM Disk _).run disk).1 = .ok e ∧ e.dump = text := by
  rw [run_dump] at h
  cases hload : ((load s r : StateM Disk _).run disk).1 with
  | error trouble =>
    rw [hload] at h
    simp [Except.map] at h
  | ok e =>
    rw [hload] at h
    exact ⟨e, rfl, Except.ok.inj h⟩

/-- **A dump leaves nothing out.** Dumps are the same text only if the evaluations are the same, in
their labels, their roots, and every frame with its name, kind, place and children. So if two
requests are answered with the same dump, whatever the files and the settings, they have loaded the
same evaluation. -/
theorem load_eq_of_dump_eq :
    (∀ e e' : Evaluation, e.dump = e'.dump ↔ e = e') ∧
      ∀ (disk disk' : Disk) (s s' : Settings) (r r' : Request) (text : String),
        ((dump s r : StateM Disk _).run disk).1 = .ok text →
        ((dump s' r' : StateM Disk _).run disk').1 = .ok text →
        ∃ e, ((load s r : StateM Disk _).run disk).1 = .ok e ∧
          ((load s' r' : StateM Disk _).run disk').1 = .ok e := by
  refine ⟨fun e e' => Evaluation.dump_inj, fun disk disk' s s' r r' text h h' => ?_⟩
  obtain ⟨e, hload, he⟩ := exists_load_of_dump h
  obtain ⟨e', hload', he'⟩ := exists_load_of_dump h'
  have hsame : e = e' := Evaluation.dump_inj.mp (he.trans he'.symm)
  exact ⟨e, hload, hsame ▸ hload'⟩

/-- One trace as arrays and as objects, and with the full tree asked for by the request and by the
settings; a column that is not known, and the last of all columns. -/
theorem load_eq_of_dump_eq_respelled :
    let disk (text : String) : Disk := ⟨[({ names := ["t.json"] }, .file text.toUTF8)]⟩
    let arrays := "[[[[[[0,[\"f\"],[1]]],[null,[]]]]]]"
    let objects := "\x7b\"traces\":[\x7b\"entries\":[\x7b\"begin\":\x7b\"kind\":0,\"name\":" ++
      "\x7b\"name\":\"f\"\x7d,\"location\":\x7b\"file_id\":2\x7d\x7d\x7d,\x7b\"end\":\x7b\x7d\x7d]\x7d]\x7d"
    let request : Request := { path := "t.json", full := true }
    let request' : Request := { path := "t.json" }
    let frame (column : Option UInt32) : Frame := ⟨⟨.templateInstantiation, "f", "", 0, column⟩, #[]⟩
    let e (column : Option UInt32) : Evaluation := ⟨"<root>", "", #[frame column], #[0]⟩
    (∃ text, ((dump {} request : StateM Disk _).run (disk arrays)).1 = .ok text ∧
      ((dump { full := true } request' : StateM Disk _).run (disk objects)).1 = .ok text ∧
      ∃ e, ((load {} request : StateM Disk _).run (disk arrays)).1 = .ok e ∧
        ((load { full := true } request' : StateM Disk _).run (disk objects)).1 = .ok e) ∧
    (e none).dump ≠ (e (some 4294967295)).dump := by
  intro disk arrays objects request request' frame e
  obtain ⟨hinj, hsame⟩ := load_eq_of_dump_eq
  have harrays : ((load {} request : StateM Disk _).run (disk arrays)).1 = .ok (e none) := by
    decide +kernel
  have hobjects : ((load { full := true } request' : StateM Disk _).run (disk objects)).1 =
      .ok (e none) := by decide +kernel
  have hdump : ((dump {} request : StateM Disk _).run (disk arrays)).1 = .ok (e none).dump := by
    rw [run_dump, harrays]
    rfl
  have hdump' : ((dump { full := true } request' : StateM Disk _).run (disk objects)).1 =
      .ok (e none).dump := by
    rw [run_dump, hobjects]
    rfl
  refine ⟨⟨_, hdump, hdump', hsame _ _ _ _ _ _ _ hdump hdump'⟩, fun h => ?_⟩
  exact absurd ((hinj _ _).mp h) (by decide)

end Session

end TemplateTrace
