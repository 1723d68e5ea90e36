import TemplateTrace.Proofs.Disk
import TemplateTrace.Proofs.Toml.Lines
import TemplateTrace.Settings

/-!
Settings that are saved are loaded again.

The text of a settings file has a header or one setting to a line, a string on several lines included.
Each is read by itself, so the settings are read as they are written whatever strings they hold; only a
width that TOML has no integer for is not written at all.
-/

namespace TemplateTrace

open Toml

namespace Settings

variable {s : Settings} {path text : String} {d d' : Disk}

/-! ### The text -/

/-- The statements that settings are written as. -/
def statements (s : Settings) : List Statement :=
  [.header ["display"], .pair ["width"] (.integer s.width), .pair ["full_mode"] (.boolean s.full),
    .header ["trace"], .pair ["strict"] (.boolean s.strict),
    .pair ["root_name"] (.string s.rootName), .pair ["evaluation_result"] (.string s.result)]

/-- Every line is read as the statement that it was written from. -/
lemma readsAs_toChars (h : isInteger s.width) : ReadsAs s.toChars 8 s.statements := by
  have hdisplay : ReadsAs "[display]\n".toList 1 [.header ["display"]] :=
    readsAs_header (by decide : IsBareKey "display")
  have htrace : ReadsAs "\n[trace]\n".toList 2 [.header ["trace"]] :=
    readsAs_newline.append (readsAs_header (by decide : IsBareKey "trace"))
  have hwidth := readsAs_line (by decide : IsBareKey "width") (readsLine_integer h)
  have hfull := readsAs_line (by decide : IsBareKey "full_mode") (readsLine_boolean s.full)
  have hstrict := readsAs_line (by decide : IsBareKey "strict") (readsLine_boolean s.strict)
  have hroot := readsAs_line (by decide : IsBareKey "root_name") (readsLine_quote s.rootName)
  have hresult := readsAs_line (by decide : IsBareKey "evaluation_result")
    (readsLine_quote s.result)
  exact (((((hdisplay.append hwidth).append hfull).append htrace).append hstrict).append
    hroot).append hresult

lemma ofStatements?_statements (s : Settings) :
    (ofStatements? s.statements).bind ofToml? = some s := rfl

lemma length_line (name : String) (value : List Char) :
    (line name value).length = name.toList.length + value.length + 4 := by
  simp only [line, List.length_append, List.length_cons, List.length_nil]
  omega

/-- There are characters enough for the lines. -/
lemma length_toChars (s : Settings) : 8 ≤ s.toChars.length := by
  have hname : "evaluation_result".toList.length = 17 := rfl
  unfold toChars
  rw [List.length_append, length_line, hname]
  omega

/-- **Settings are read as they are written.** -/
lemma ofText_toChars (h : isInteger s.width) : ofText (String.ofList s.toChars) = .ok s := by
  obtain ⟨n, hn⟩ := Nat.exists_eq_add_of_le' (length_toChars s)
  have hmark : dropMark s.toChars = s.toChars := rfl
  have hstatements : statements? (n + 1 + 8) s.toChars = some s.statements := by
    have hread := readsAs_toChars h (n + 1) []
    have hend : statements? (n + 1) [] = some [] := rfl
    simpa [hend] using hread
  have hread : ofText? (String.ofList s.toChars) = ofStatements? s.statements := by
    have hsteps : s.toChars.length + 1 = n + 1 + 8 := by omega
    simp only [ofText?, String.toList_ofList, hmark, hsteps, hstatements]
    rfl
  rw [ofText, hread, ofStatements?_statements]

lemma isInteger_iff (n : Nat) : isInteger n ↔ n ≤ 2 ^ 63 - 1 := by
  have hmin : Int64.minValue.toInt ≤ n := by
    have : Int64.minValue.toInt ≤ 0 := by decide
    omega
  have hmax : Int64.maxValue.toInt = 2 ^ 63 - 1 := by decide
  simp only [isInteger, hmin, hmax, decide_true, Bool.true_and, decide_eq_true_eq]
  omega

lemma toText_eq (h : s.width ≤ 2 ^ 63 - 1) : s.toText = .ok (String.ofList s.toChars) :=
  if_pos ((isInteger_iff s.width).mpr h)

/-! ### The file -/

/-- What is saved is written to the file. -/
lemma save_of_toText (h : s.toText = .ok text) (path : String) (d : Disk) :
    (save s path : StateM Disk _).run d =
      ((d.write path text).1.mapError Failure.file, (d.write path text).2) := by
  simp only [save, h, StateT.run_bind, Storage.run_write, pure_bind]
  cases (d.write path text).1 <;> rfl

lemma write_of_save (h : s.toText = .ok text)
    (hsave : (save s path : StateM Disk _).run d = (.ok (), d')) :
    d.write path text = (.ok (), d') := by
  rw [save_of_toText h] at hsave
  generalize d.write path text = answer at hsave
  obtain ⟨_ | _, disk⟩ := answer <;> cases hsave
  rfl

/-- Either nothing is saved, or a text is put where the path leads, if no directory is there. -/
lemma save_cases (h : s.width ≤ 2 ^ 63 - 1) (path : String) (d : Disk) :
    (∃ failure, (save s path : StateM Disk _).run d = (.error failure, d)) ∨
    ∃ p text, d.locate path = .ok p ∧ d.entryAt p ≠ some .directory ∧
      (save s path : StateM Disk _).run d = (.ok (), d.put p (.file text)) := by
  rw [save_of_toText (toText_eq h)]
  obtain ⟨e, hw⟩ | ⟨p, hp, hdirectory, hw⟩ := d.write_cases path (String.ofList s.toChars)
  · rw [hw]
    exact .inl ⟨_, rfl⟩
  · rw [hw]
    exact .inr ⟨p, _, hp, hdirectory, rfl⟩

lemma save_of_toText_error {failure : Failure} (h : s.toText = .error failure) (path : String)
    (d : Disk) : (save s path : StateM Disk _).run d = (.error failure, d) := by
  simp only [save, h]
  rfl

lemma fromUTF8?_toUTF8 (text : String) : String.fromUTF8? text.toUTF8 = some text :=
  dif_pos text.isValidUTF8

/-- What is loaded is read from the file. -/
lemma load_of_read (h : d.read path = .ok text.toUTF8) :
    (load path : StateM Disk _).run d = (ofText text, d) := by
  have hread : (Storage.readText path : StateM Disk _).run d = (.ok text, d) := by
    simp only [Storage.readText, StateT.run_bind, Storage.run_read, h, pure_bind, fromUTF8?_toUTF8]
    rfl
  simp only [load, StateT.run_bind, hread]
  rfl

lemma load_of_save (h : s.width ≤ 2 ^ 63 - 1)
    (hsave : (save s path : StateM Disk _).run d = (.ok (), d')) :
    (load path : StateM Disk _).run d' = (.ok s, d') := by
  have hwrite := write_of_save (toText_eq h) hsave
  rw [load_of_read (Disk.read_of_write hwrite), ofText_toChars ((isInteger_iff s.width).mpr h)]

/-- **Settings are loaded as they were saved**, whatever characters are in their strings, unless TOML
has no integer for their width; then they are not saved, and the disk stays as it is. -/
theorem load_save (s : Settings) (path : String) (d : Disk) :
    (s.width ≤ 2 ^ 63 - 1 →
      ∃ text, s.toText = .ok text ∧ ofText text = .ok s ∧
        (save s path : StateM Disk _).run d =
          ((d.write path text).1.mapError Failure.file, (d.write path text).2) ∧
        ∀ d', (save s path : StateM Disk _).run d = (.ok (), d') →
          d'.read path = .ok text.toUTF8 ∧ (load path : StateM Disk _).run d' = (.ok s, d')) ∧
    (2 ^ 63 - 1 < s.width →
      ∃ description, (save s path : StateM Disk _).run d = (.error (.settings description), d)) := by
  constructor
  · intro hwidth
    have htext := toText_eq hwidth
    have hread := ofText_toChars ((isInteger_iff s.width).mpr hwidth)
    refine ⟨String.ofList s.toChars, htext, hread, save_of_toText htext path d, fun d' hd' => ?_⟩
    exact ⟨Disk.read_of_write (write_of_save htext hd'), load_of_save hwidth hd'⟩
  · intro hwidth
    have hinteger : ¬ isInteger s.width := by
      rw [isInteger_iff]
      omega
    exact ⟨_, save_of_toText_error (if_neg hinteger) path d⟩

theorem load_save_escaped :
    let s : Settings :=
      { width := 2 ^ 63 - 1, full := true, rootName := "\"\"\"\\\x01", result := "\r\n\t'''ü" }
    (∃ d, (save s "metatrace.toml" : StateM Disk _).run {} = (.ok (), d) ∧
      (load "metatrace.toml" : StateM Disk _).run d = (.ok s, d)) ∧
    ∃ description, (save { s with width := 2 ^ 63 } "metatrace.toml" : StateM Disk _).run {} =
      (.error (.settings description), {}) := by
  intro s
  refine ⟨?_, (load_save { s with width := 2 ^ 63 } "metatrace.toml" {}).2 (by decide)⟩
  obtain ⟨text, -, -, hsave, hload⟩ :=
    (load_save s "metatrace.toml" {}).1 (Nat.le_refl (2 ^ 63 - 1))
  have hwrite : Disk.write {} "metatrace.toml" text =
      (.ok (), Disk.put {} { names := ["metatrace.toml"] } (.file text.toUTF8)) := rfl
  rw [hwrite] at hsave
  exact ⟨_, hsave, (hload _ hsave).2⟩

end Settings

end TemplateTrace
