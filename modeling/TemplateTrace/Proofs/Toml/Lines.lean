import TemplateTrace.Proofs.Toml.Quoting
import TemplateTrace.Settings
import Mathlib.Data.List.TakeDrop
import Mathlib.Tactic.IntervalCases

/-!
A line is read as the statement that it was written from: the header of a table, or a name with a
string, a number or a truth value.

What stands in a line has nothing in it that a line, a name or a word could end with, so each is read
up to where it was written to.
-/

namespace TemplateTrace

namespace Toml

variable {c : Char} {word rest : List Char} {name : String} {v : Toml}

/-! ### Words -/

lemma endsValue_of_isAlphanum (h : c.isAlphanum) : endsValue c = false := by
  by_contra hc
  simp only [endsValue, isBlank, Bool.not_eq_false, Bool.or_eq_true, decide_eq_true_eq] at hc
  rcases hc with (((((((rfl | rfl) | rfl) | rfl) | rfl) | rfl) | rfl)) | rfl <;> simp at h

/-- A word goes on to the end of the line. -/
lemma span_word (h : ∀ c ∈ word, c.isAlphanum) (rest : List Char) :
    span (word ++ '\n' :: rest) = (word, '\n' :: rest) := by
  have hword : ∀ c ∈ word, (!endsValue c) = true := fun c hc => by
    rw [endsValue_of_isAlphanum (h c hc)]
    rfl
  have hend : (!endsValue '\n') = false := rfl
  have hspan : (word ++ '\n' :: rest).span (!endsValue ·) = (word, '\n' :: rest) := by
    rw [List.span_eq_takeWhile_dropWhile, List.takeWhile_append_of_pos hword,
      List.dropWhile_append_of_pos hword, List.takeWhile_cons, List.dropWhile_cons, hend]
    simp
  simp only [span, hspan]
  rfl

lemma isDigit_of_isDigit (h : c.isDigit) : Digits.isDigit 10 c = true := by
  have hle : '0' ≤ c ∧ c ≤ '9' := by
    simpa [Char.isDigit, Char.le_def] using h
  have hlt : c.toNat - 48 < 10 := by
    have : c.toNat ≤ 57 := hle.2
    omega
  simpa [Digits.isDigit, Digits.value?, hle] using hlt

lemma ungroup_digits {ds : List Char} (hne : ds ≠ []) (h : ∀ d ∈ ds, d.isDigit) :
    ungroup 10 ds = some ds := by
  induction ds with
  | nil => exact absurd rfl hne
  | cons d ds ih =>
    obtain ⟨hd, hds⟩ := List.forall_mem_cons.mp h
    rcases ds with _ | ⟨e, ds⟩
    · simp [ungroup, isDigit_of_isDigit hd]
    · have he : e ≠ '_' := by
        rintro rfl
        exact absurd (hds '_' (by simp)) (by decide)
      rw [ungroup]
      · simp [isDigit_of_isDigit hd, ih (by simp) hds]
      · simp
      · simpa using he

/-- A number is read from its digits. -/
lemma integer?_toDigits {n : Nat} (h : isInteger n) :
    integer? (Nat.toDigits 10 n) = some (.integer n) := by
  by_cases hn : n = 0
  · subst hn
    rfl
  obtain ⟨k, ds, hpos, hk, hds, hdigits⟩ := Digits.toDigits_eq_cons hn
  have hungroup : ungroup 10 (Nat.toDigits 10 n) = some (Nat.toDigits 10 n) :=
    ungroup_digits (by simp [hds]) fun d hd => Nat.isDigit_of_mem_toDigits (by decide) (by decide) hd
  have hwhole : wholeDigits (Nat.toDigits 10 n) = some (Nat.toDigits 10 n) := by
    rw [wholeDigits, hungroup, hds]
    interval_cases k <;> rfl
  -- the first digit is not zero, so no letter for another base can follow it
  have hfirst : integer? (Nat.toDigits 10 n) =
      (wholeDigits (Nat.toDigits 10 n)).bind fun digits =>
        if isInteger (Digits.number 10 digits) then some (.integer (Digits.number 10 digits))
        else none := by
    rw [hds]
    interval_cases k <;> simp [integer?, signed, sign, Nat.digitChar, Option.bind_map]
  rw [hfirst, hwhole]
  simp [Digits.number_toDigits, h]

/-! ### Values -/

/-- The value is read from what is written, up to the end of the line. -/
structure ReadsLine (written : List Char) (v : Toml) : Prop where
  begins : ∀ rest, dropBlanks (written ++ rest) = written ++ rest
  read : ∀ rest, read? (written ++ '\n' :: rest) = some (v, '\n' :: rest)

lemma dropBlanks_cons (h : isBlank c = false) : dropBlanks (c :: rest) = c :: rest := by
  simp [dropBlanks, h]

/-- A word is read as it is by itself. -/
lemma readsLine_word (hne : word ≠ []) (hword : word.all (·.isAlphanum))
    (hv : (if word = "true".toList then some (.boolean true)
      else if word = "false".toList then some (.boolean false)
      else (integer? word).or ((float? word).or (date? word))) = some v) : ReadsLine word v := by
  have h : ∀ c ∈ word, c.isAlphanum := List.all_eq_true.mp hword
  have hscalar (rest : List Char) : scalar? (word ++ '\n' :: rest) = some (v, '\n' :: rest) := by
    simp only [scalar?, span_word h]
    split_ifs at hv ⊢
    all_goals
      rw [hv]
      rfl
  obtain ⟨c, word, rfl⟩ := List.exists_cons_of_ne_nil hne
  have hc : c.isAlphanum := h c (by simp)
  have hother (d : Char) (hd : d.isAlphanum = false) : c ≠ d := by
    rintro rfl
    simp [hc] at hd
  constructor
  · have hends := endsValue_of_isAlphanum hc
    simp only [endsValue, Bool.or_eq_false_iff] at hends
    exact fun rest => dropBlanks_cons hends.1.1.1.1.1.1
  · intro rest
    rw [read?, List.cons_append, value?]
    · simpa [hother '"' (by decide), hother '\'' (by decide)] using hscalar rest
    · simpa using hother '[' (by decide)
    · simpa using hother '\x7b' (by decide)

lemma readsLine_boolean (b : Bool) : ReadsLine (toString b).toList (.boolean b) := by
  cases b <;> exact readsLine_word (by decide) (by decide) rfl

lemma readsLine_integer {n : Nat} (h : isInteger n) :
    ReadsLine (toString n).toList (.integer n) := by
  have hdigits (d : Char) (hd : d ∈ Nat.toDigits 10 n) : d.isDigit :=
    Nat.isDigit_of_mem_toDigits (by decide) (by decide) hd
  have hother (word : List Char) (hw : word.all (·.isDigit) = false) :
      Nat.toDigits 10 n ≠ word := fun he => by
    rw [← he, List.all_eq_true.mpr hdigits] at hw
    cases hw
  have hwritten : (toString n).toList = Nat.toDigits 10 n := Nat.toList_repr
  rw [hwritten]
  have hword : (Nat.toDigits 10 n).all (·.isAlphanum) :=
    List.all_eq_true.mpr fun d hd => by simp [Char.isAlphanum, hdigits d hd]
  refine readsLine_word (by simp) hword ?_
  rw [if_neg (hother _ (by decide)), if_neg (hother _ (by decide)), integer?_toDigits h]
  rfl

lemma readsLine_quote (text : String) : ReadsLine (quote text.toList) (.string text) := by
  have hfirst : ∃ body, quote text.toList = '"' :: body ∨ quote text.toList = '\'' :: body := by
    cases hq : Quoting.choose text.toList <;> simp [quote, hq, Quoting.quotes]
  obtain ⟨body, hbody⟩ := hfirst
  constructor
  · intro rest
    rcases hbody with hb | hb <;> rw [hb] <;> exact dropBlanks_cons rfl
  · intro rest
    have hread := quoted?_quote text.toList rest
    rcases hbody with hb | hb <;> rw [hb, List.cons_append] at hread ⊢ <;>
      simp [read?, value?, hread]

/-! ### Statements -/

/-- A key that needs no quotes. -/
def IsBareKey (name : String) : Prop := name ≠ "" ∧ name.toList.all isBare

instance : Decidable (IsBareKey name) := inferInstanceAs (Decidable (_ ∧ _))

lemma IsBareKey.exists_cons (h : IsBareKey name) :
    ∃ c key, name.toList = c :: key ∧ isBare c ∧ ∀ d ∈ key, isBare d := by
  obtain ⟨c, key, hc⟩ := List.exists_cons_of_ne_nil (l := name.toList) (by simpa using h.1)
  have hall := h.2
  rw [hc, List.all_cons, Bool.and_eq_true, List.all_eq_true] at hall
  exact ⟨c, key, hc, hall⟩

lemma isBare_ne {d : Char} (h : isBare c) (hd : isBare d = false) : c ≠ d := by
  rintro rfl
  simp [h] at hd

/-- A name alone is a key, and the blanks after it are dropped. -/
lemma key?_bare {sep d : Char} {tail : List Char} (hname : IsBareKey name)
    (hsep : isBare sep = false) (hdrop : dropBlanks (sep :: rest) = d :: tail) (hdot : d ≠ '.') :
    key? (limit - 1) (name.toList ++ sep :: rest) = some ([name], d :: tail) := by
  obtain ⟨c, key, hc, hbare, hkey⟩ := hname.exists_cons
  have hblank : isBlank c = false := by
    simp [isBlank, isBare_ne hbare (d := ' ') rfl, isBare_ne hbare (d := '\t') rfl]
  have hpart : keyPart? (c :: key ++ sep :: rest) = some (name, sep :: rest) := by
    rw [List.cons_append, keyPart?, List.takeWhile_append_of_pos hkey,
      List.dropWhile_append_of_pos hkey]
    simp [isBare_ne hbare (d := '"') rfl, isBare_ne hbare (d := '\'') rfl, hbare, hsep, ← hc]
  have hlimit : limit - 1 = 78 + 1 := rfl
  rw [hc, hlimit, key?, List.cons_append, dropBlanks_cons hblank, ← List.cons_append, hpart]
  simp [hdrop, hdot]

lemma lineEnd?_newline (rest : List Char) : lineEnd? ('\n' :: rest) = some rest := by
  simp [lineEnd?, dropBlanks_cons (c := '\n') rfl, newline]

/-- A line that begins like a statement is read as one. -/
lemma statements?_cons {s : Statement} {text : List Char} (hc : isBare c ∨ c = '[')
    (h : statement? (c :: text) = some (s, '\n' :: rest)) (n : Nat) :
    statements? (n + 1) (c :: text) = (statements? n rest).map (s :: ·) := by
  have hother (d : Char) (hd : isBare d = false) (hbracket : d ≠ '[') : c ≠ d := by
    rintro rfl
    simp [hd, hbracket] at hc
  have hblank : isBlank c = false := by
    simp [isBlank, hother ' ' rfl (by decide), hother '\t' rfl (by decide)]
  have hline : lineEnd? (c :: text) = none := by
    rw [lineEnd?, dropBlanks_cons hblank]
    have hnewline : newline (c :: text) = none :=
      newline_of_ne (hother '\n' rfl (by decide)) (hother '\r' rfl (by decide))
    simpa [hother '#' rfl (by decide)] using hnewline
  rw [statements?, dropBlanks_cons hblank]
  simp [hline, h, lineEnd?_newline, Option.map_eq_bind]

/-- What is written is read as the statements, in so many lines, and what comes after it by itself. -/
def ReadsAs (written : List Char) (lines : Nat) (ss : List Statement) : Prop :=
  ∀ (n : Nat) (rest : List Char),
    statements? (n + lines) (written ++ rest) = (statements? n rest).map (ss ++ ·)

lemma ReadsAs.append {written written' : List Char} {lines lines' : Nat} {ss ss' : List Statement}
    (h : ReadsAs written lines ss) (h' : ReadsAs written' lines' ss') :
    ReadsAs (written ++ written') (lines' + lines) (ss ++ ss') := by
  intro n rest
  rw [List.append_assoc, ← Nat.add_assoc, h, h', Option.map_map]
  simp [Function.comp_def]

lemma readsAs_newline : ReadsAs ['\n'] 1 [] := by
  intro n rest
  rw [List.singleton_append, statements?, dropBlanks_cons rfl]
  simp [lineEnd?_newline]

lemma readsAs_header (hname : IsBareKey name) :
    ReadsAs ('[' :: name.toList ++ [']', '\n']) 1 [.header [name]] := by
  intro n rest
  have hkey : key? (limit - 1) (name.toList ++ ']' :: '\n' :: rest) =
      some ([name], ']' :: '\n' :: rest) :=
    key?_bare hname rfl rfl (by decide)
  have hsingle (tail : List Char) : name.toList ++ ']' :: '\n' :: rest ≠ '[' :: tail := by
    obtain ⟨c, key, hc, hbare, -⟩ := hname.exists_cons
    simp [hc, isBare_ne hbare (d := '[') rfl]
  have hread : statement? ('[' :: (name.toList ++ ']' :: '\n' :: rest)) =
      some (.header [name], '\n' :: rest) := by
    rw [statement?]
    · simp [hkey]
    · simpa using hsingle
  simpa using statements?_cons (.inr rfl) hread n

lemma readsAs_line {written : List Char} (hname : IsBareKey name) (h : ReadsLine written v) :
    ReadsAs (Settings.line name written) 1 [.pair [name] v] := by
  intro n rest
  have hkey : key? (limit - 1) (name.toList ++ ' ' :: '=' :: ' ' :: (written ++ '\n' :: rest)) =
      some ([name], '=' :: ' ' :: (written ++ '\n' :: rest)) :=
    key?_bare hname rfl rfl (by decide)
  have hvalue : dropBlanks (' ' :: (written ++ '\n' :: rest)) = written ++ '\n' :: rest :=
    h.begins ('\n' :: rest)
  obtain ⟨c, key, hc, hbare, -⟩ := hname.exists_cons
  have hread : statement? (c :: (key ++ ' ' :: '=' :: ' ' :: (written ++ '\n' :: rest))) =
      some (.pair [name] v, '\n' :: rest) := by
    rw [hc, List.cons_append] at hkey
    rw [statement?]
    · simp [hkey, hvalue, h.read]
    · simp [isBare_ne hbare (d := '[') rfl]
    · simp [isBare_ne hbare (d := '[') rfl]
  simpa [Settings.line, hc] using statements?_cons (.inl hbare) hread n

end Toml

end TemplateTrace
