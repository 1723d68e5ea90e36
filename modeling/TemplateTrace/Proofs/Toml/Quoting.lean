import TemplateTrace.Toml.Quoted
import TemplateTrace.Toml.Writer
import Mathlib.Data.List.Basic
import Mathlib.Tactic.Common

/-!
A quoted string is read back.

With escapes between the quotes any string can be told. As it is, a string stands between single
quotes only if its characters may stand there and its runs of quotes are too short to close it. On
several lines up to two quotes need no escape, and whether they belong to the string or close it is
seen by the character after them; so the quotes of a run wait until that character is known.
-/

namespace TemplateTrace

namespace Toml

variable {c : Char} {found text rest : List Char}

/-! ### Escapes -/

lemma hexNumber_upper {m : Nat} (hm : m < 16) (value n : Nat) :
    hexNumber value (n + 1) (Digits.upper m :: text) = hexNumber (16 * value + m) n text := by
  simp [hexNumber, Digits.value?_upper hm]

/-- A character below the 256th is told by the last two digits of its code. -/
lemma escape_code (h : c.toNat < 256) :
    escape ('u' :: '0' :: '0' :: Digits.upper (c.toNat / 16) :: Digits.upper (c.toNat % 16) ::
      rest) = some (c, rest) := by
  have h0 : Digits.upper 0 = '0' := rfl
  have hnumber : hexNumber 0 4 ('0' :: '0' :: Digits.upper (c.toNat / 16) ::
      Digits.upper (c.toNat % 16) :: rest) = some (c.toNat, rest) := by
    rw [← h0, hexNumber_upper (by decide), hexNumber_upper (by decide),
      hexNumber_upper (by omega), hexNumber_upper (by omega), hexNumber]
    simp [Nat.div_add_mod]
  have hvalid : c.toNat.isValidChar := c.valid
  simp [escape, ofCode, hnumber, hvalid]

lemma newline_of_ne (hn : c ≠ '\n') (hr : c ≠ '\r') : newline (c :: text) = none := by
  unfold newline
  split <;> simp_all

/-- What follows the backslash of an escape is no end of a line. -/
lemma newline_of_escape {p : Char × List Char} (h : escape text = some p) :
    newline (text.dropWhile isBlank) = none := by
  rcases text with _ | ⟨l, text⟩
  · rfl
  have hletter (hl : letterEscape l = none) : l = 'u' ∨ l = 'U' := by
    by_contra hne
    rw [not_or] at hne
    simp [escape, hne, hl] at h
  have hblank : isBlank l = false := by
    by_contra hb
    simp only [isBlank, Bool.not_eq_false, Bool.or_eq_true, decide_eq_true_eq] at hb
    rcases hb with rfl | rfl <;> exact absurd (hletter rfl) (by decide)
  rw [List.dropWhile_cons, hblank]
  refine newline_of_ne ?_ ?_ <;> rintro rfl <;> exact absurd (hletter rfl) (by decide)

lemma toNat_lt_of_not_isPlain (h : ¬ isPlain c) : c.toNat < 256 := by
  simp only [isPlain, Bool.or_eq_true, Bool.and_eq_true, decide_eq_true_eq, not_or, not_and,
    not_not] at h
  by_cases hle : ' ' ≤ c
  · rw [h.2 hle]
    decide
  · have hlt : c.toNat < 32 := Char.not_le.mp hle
    omega

/-- What is written for a character, unless it is a quote that needs no escape: the character as it
is, or an escape that stands for it. -/
lemma escapeChar_cases (lines : Bool) {free run : Nat} (h : c = '"' → free ≤ run) :
    (escapeChar lines free run c = [c] ∧ c ≠ '"' ∧ c ≠ '\\' ∧ (isPlain c ∨ lines ∧ c = '\n')) ∨
    ∃ e, escapeChar lines free run c = '\\' :: e ∧ ∀ rest, escape (e ++ rest) = some (c, rest) := by
  unfold escapeChar
  split
  · exact .inr ⟨['"'], by simp [h rfl], fun _ => rfl⟩
  · exact .inr ⟨['\\'], rfl, fun _ => rfl⟩
  · cases lines
    · exact .inr ⟨['n'], rfl, fun _ => rfl⟩
    · exact .inl ⟨rfl, by decide, by decide, .inr ⟨rfl, rfl⟩⟩
  · exact .inr ⟨['b'], rfl, fun _ => rfl⟩
  · exact .inr ⟨['t'], rfl, fun _ => rfl⟩
  · exact .inr ⟨['f'], rfl, fun _ => rfl⟩
  · exact .inr ⟨['r'], rfl, fun _ => rfl⟩
  · next hquote hbackslash _ _ _ _ _ =>
    by_cases hp : isPlain c
    · exact .inl ⟨by simp [hp], hquote, hbackslash, .inl hp⟩
    · exact .inr ⟨_, if_neg hp, fun _ => escape_code (toNat_lt_of_not_isPlain hp)⟩

/-! ### Double quotes on one line -/

lemma basic_close : basic found ('"' :: rest) = some (String.ofList found.reverse, rest) := by
  rw [basic]

lemma basic_escape (h : escape text = some (c, rest)) :
    basic found ('\\' :: text) = basic (c :: found) rest := by
  rw [basic]
  split <;> simp_all

lemma basic_plain (hquote : c ≠ '"') (hbackslash : c ≠ '\\') (hc : isPlain c) :
    basic found (c :: rest) = basic (c :: found) rest := by
  rw [basic]
  · simp [hc]
  · simpa using hquote
  · simpa using hbackslash

lemma basic_escapeText (found text rest : List Char) :
    basic found (escapeText false 0 0 text ++ '"' :: rest) =
      some (String.ofList (found.reverse ++ text), rest) := by
  induction text generalizing found with
  | nil => simp [escapeText, basic_close]
  | cons c text ih =>
    have hrun : (if c = '"' then if 0 < 0 then 0 + 1 else 0 else 0) = 0 := by simp
    rw [escapeText, hrun, List.append_assoc]
    obtain ⟨hw, hquote, hbackslash, hc⟩ | ⟨e, hw, he⟩ :=
      escapeChar_cases (c := c) false (fun _ => Nat.le_refl 0)
    · rw [hw, List.singleton_append, basic_plain hquote hbackslash (by simpa using hc), ih]
      simp
    · rw [hw, List.cons_append, basic_escape (he _), ih]
      simp

/-! ### The end of a string of several lines -/

/-- Quotes that waited belong to the string if it is closed after them. -/
lemma closeLines_eq {quote : Char} {run : Nat} (hrun : run ≤ 2) (hc : c ≠ quote) :
    closeLines quote found (List.replicate run quote ++ c :: rest) =
      (String.ofList (found.reverse ++ List.replicate run quote), c :: rest) := by
  have hcases : run = 0 ∨ run = 1 ∨ run = 2 := by omega
  rcases hcases with rfl | rfl | rfl <;> simp [closeLines, hc, List.take_succ_cons]

/-- The quotes that close a string come after those that waited. -/
lemma replicate_append_closing (quote : Char) (run : Nat) (rest : List Char) :
    List.replicate run quote ++ quote :: quote :: quote :: rest =
      quote :: quote :: quote :: (List.replicate run quote ++ rest) := by
  have hthree : [quote, quote, quote] = List.replicate 3 quote := rfl
  calc List.replicate run quote ++ quote :: quote :: quote :: rest
      = List.replicate run quote ++ List.replicate 3 quote ++ rest := by simp [← hthree]
    _ = List.replicate 3 quote ++ List.replicate run quote ++ rest := by
      rw [List.replicate_append_replicate, Nat.add_comm, List.replicate_append_replicate]
    _ = quote :: quote :: quote :: (List.replicate run quote ++ rest) := by simp [← hthree]

/-- Quotes that waited belong to the string if another character follows, for a reader that takes
in a quote that no two quotes follow. -/
lemma read_quotes {α : Type} {quote : Char} {read : List Char → List Char → α} {run : Nat}
    (hread : ∀ found rest, (∀ tail, rest ≠ quote :: quote :: tail) →
      read found (quote :: rest) = read (quote :: found) rest)
    (hrun : run ≤ 2) (hc : c ≠ quote) (found rest : List Char) :
    read found (List.replicate run quote ++ c :: rest) =
      read (List.replicate run quote ++ found) (c :: rest) := by
  have hcases : run = 0 ∨ run = 1 ∨ run = 2 := by omega
  rcases hcases with rfl | rfl | rfl
  · rfl
  · exact hread _ _ (by simp [hc])
  · exact (hread _ _ (by simp [hc])).trans (hread _ _ (by simp [hc]))

/-! ### Double quotes on several lines -/

lemma basicLines_escape (h : escape text = some (c, rest)) :
    basicLines found ('\\' :: text) = basicLines (c :: found) rest := by
  rw [basicLines]
  split
  · next hn => simp [newline_of_escape h] at hn
  · split <;> simp_all

lemma basicLines_plain (hquote : c ≠ '"') (hbackslash : c ≠ '\\') (hc : isPlain c ∨ c = '\n') :
    basicLines found (c :: rest) = basicLines (c :: found) rest := by
  have hreturn : c ≠ '\r' := by
    rintro rfl
    exact absurd hc (by decide)
  rw [basicLines]
  · simp [hc]
  · simp [hquote]
  · simp [hbackslash]
  · simp [hreturn]

lemma basicLines_quote (found rest : List Char) (h : ∀ tail, rest ≠ '"' :: '"' :: tail) :
    basicLines found ('"' :: rest) = basicLines ('"' :: found) rest := by
  have hplain : isPlain '"' = true := rfl
  rw [basicLines]
  · simp [hplain]
  · simpa using h
  · simp
  · simp

lemma basicLines_close {run : Nat} (hrun : run ≤ 2) (hc : c ≠ '"') :
    basicLines found (List.replicate run '"' ++ '"' :: '"' :: '"' :: c :: rest) =
      some (String.ofList (found.reverse ++ List.replicate run '"'), c :: rest) := by
  rw [replicate_append_closing, basicLines, closeLines_eq hrun hc]

lemma basicLines_escapeText (run : Nat) (hrun : run ≤ 2) (found text rest : List Char)
    (hc : c ≠ '"') :
    basicLines found (List.replicate run '"' ++
        (escapeText true 2 run text ++ '"' :: '"' :: '"' :: c :: rest)) =
      some (String.ofList (found.reverse ++ (List.replicate run '"' ++ text)), c :: rest) := by
  induction text generalizing found run with
  | nil => simpa [escapeText] using basicLines_close hrun hc
  | cons d text ih =>
    rw [escapeText]
    by_cases hwaits : d = '"' ∧ run < 2
    · obtain ⟨rfl, hlt⟩ := hwaits
      have := ih (run + 1) hlt found
      simpa [escapeChar, hlt, List.replicate_succ'] using this
    · have hquote : d = '"' → 2 ≤ run := fun hd => Nat.not_lt.mp fun hlt => hwaits ⟨hd, hlt⟩
      have hrun' : (if d = '"' then if run < 2 then run + 1 else 0 else 0) = 0 := by
        split
        · next hd => simp [Nat.not_lt.mpr (hquote hd)]
        · rfl
      have hnext := ih 0 (by omega) (d :: (List.replicate run '"' ++ found))
      rw [hrun', List.append_assoc]
      obtain ⟨hw, hd, hbackslash, hplain⟩ | ⟨e, hw, he⟩ := escapeChar_cases true hquote
      · rw [hw, List.singleton_append, read_quotes basicLines_quote hrun hd,
          basicLines_plain hd hbackslash (by simpa using hplain)]
        simpa using hnext
      · rw [hw, List.cons_append, read_quotes basicLines_quote hrun (by decide), basicLines_escape (he _)]
        simpa using hnext

/-! ### Single quotes -/

/-- Nothing between single quotes is an escape, so on one line no quote can stand there. -/
lemma literal_text (found text rest : List Char) (h : ∀ c ∈ text, c ≠ '\'' ∧ isPlain c) :
    literal found (text ++ '\'' :: rest) = some (String.ofList (found.reverse ++ text), rest) := by
  induction text generalizing found with
  | nil => simp [literal]
  | cons c text ih =>
    obtain ⟨⟨hquote, hplain⟩, htext⟩ := List.forall_mem_cons.mp h
    have hnext := ih (c :: found) htext
    rw [List.cons_append, literal]
    · simpa [hplain] using hnext
    · simpa using hquote

lemma literalLines_plain (hquote : c ≠ '\'') (hc : isPlain c ∨ c = '\n') :
    literalLines found (c :: rest) = literalLines (c :: found) rest := by
  have hreturn : c ≠ '\r' := by
    rintro rfl
    exact absurd hc (by decide)
  rw [literalLines]
  · simp [hc]
  · simp [hquote]
  · simp [hreturn]

lemma literalLines_quote (found rest : List Char) (h : ∀ tail, rest ≠ '\'' :: '\'' :: tail) :
    literalLines found ('\'' :: rest) = literalLines ('\'' :: found) rest := by
  have hplain : isPlain '\'' = true := rfl
  rw [literalLines]
  · simp [hplain]
  · simpa using h
  · simp

lemma literalLines_close {run : Nat} (hrun : run ≤ 2) (hc : c ≠ '\'') :
    literalLines found (List.replicate run '\'' ++ '\'' :: '\'' :: '\'' :: c :: rest) =
      some (String.ofList (found.reverse ++ List.replicate run '\''), c :: rest) := by
  rw [replicate_append_closing, literalLines, closeLines_eq hrun hc]

lemma literalLines_text (run : Nat) (found text rest : List Char) (hc : c ≠ '\'')
    (hruns : longestRun '\'' run text ≤ 2) (h : ∀ c ∈ text, isPlain c ∨ c = '\n') :
    literalLines found (List.replicate run '\'' ++
        (text ++ '\'' :: '\'' :: '\'' :: c :: rest)) =
      some (String.ofList (found.reverse ++ (List.replicate run '\'' ++ text)), c :: rest) := by
  induction text generalizing found run with
  | nil =>
    rw [longestRun] at hruns
    simpa using literalLines_close hruns hc
  | cons d text ih =>
    obtain ⟨hplain, htext⟩ := List.forall_mem_cons.mp h
    rw [longestRun] at hruns
    by_cases hd : d = '\''
    · subst hd
      have := ih (run + 1) found (by simpa using hruns) htext
      simpa [List.replicate_succ'] using this
    · rw [if_neg hd] at hruns
      have hnext := ih 0 (d :: (List.replicate run '\'' ++ found)) (by omega) htext
      rw [List.cons_append, read_quotes literalLines_quote (by omega) hd,
        literalLines_plain hd hplain]
      simpa using hnext

/-! ### The way to quote -/

lemma le_longestRun (c : Char) (run : Nat) (text : List Char) : run ≤ longestRun c run text := by
  induction text generalizing run with
  | nil => exact Nat.le_refl run
  | cons d text ih =>
    rw [longestRun]
    split
    · exact Nat.le_of_succ_le (ih (run + 1))
    · exact Nat.le_max_left ..

lemma not_mem_of_longestRun_eq_zero (h : longestRun c 0 text = 0) : c ∉ text := by
  induction text with
  | nil => simp
  | cons d text ih =>
    rw [longestRun] at h
    split at h
    · have := le_longestRun c (0 + 1) text
      omega
    · next hd => simp [ih (by omega), Ne.symm hd]

/-- Without control characters, all but the ends of lines may stand between quotes. -/
lemma plain_of_not_control (h : text.any isControl = false) :
    ∀ c ∈ text, isPlain c ∨ c = '\n' := by
  intro c hc
  have hcontrol : isControl c = false := by simpa using List.any_eq_false.mp h c hc
  by_cases hp : isPlain c
  · exact .inl hp
  · exact .inr (by simpa [isControl, hp] using hcontrol)

namespace Quoting

lemma of_choose_eq_literal (h : choose text = literal) :
    text ≠ [] ∧ ∀ c ∈ text, c ≠ '\'' ∧ isPlain c := by
  have hcontrol : text.any isControl = false ∧ '\n' ∉ text ∧ longestRun '\'' 0 text = 0 := by
    unfold choose at h
    grind
  obtain ⟨hcontrol, hnewline, hsingle⟩ := hcontrol
  constructor
  · rintro rfl
    exact absurd h (by decide)
  · intro c hc
    have hquote : c ≠ '\'' := fun he => not_mem_of_longestRun_eq_zero hsingle (he ▸ hc)
    have hline : c ≠ '\n' := fun he => hnewline (he ▸ hc)
    exact ⟨hquote, (plain_of_not_control hcontrol c hc).resolve_right hline⟩

lemma of_choose_eq_literalLines (h : choose text = literalLines) :
    longestRun '\'' 0 text ≤ 2 ∧ ∀ c ∈ text, isPlain c ∨ c = '\n' := by
  have hcontrol : text.any isControl = false ∧ longestRun '\'' 0 text ≤ 2 := by
    unfold choose at h
    grind
  exact ⟨hcontrol.2, plain_of_not_control hcontrol.1⟩

end Quoting

/-! ### Strings -/

lemma newline_of_plain (h : isPlain c) : newline (c :: rest) = none := by
  refine newline_of_ne ?_ ?_ <;> rintro rfl <;> exact absurd h (by decide)

/-- The line end that is put before a string of several lines is the one that is dropped. -/
lemma dropFirstNewline_append (text body : List Char) (h : '\n' ∉ text → newline body = none) :
    dropFirstNewline ((if '\n' ∈ text then ['\n'] else []) ++ body) = body := by
  by_cases hn : '\n' ∈ text
  · simp [hn, dropFirstNewline, newline]
  · simp [hn, dropFirstNewline, h hn]

lemma newline_escapeText (h : '\n' ∉ text) (rest : List Char) :
    newline (escapeText true 2 0 text ++ '"' :: rest) = none := by
  rcases text with _ | ⟨d, text⟩
  · exact newline_of_plain rfl
  · rw [escapeText, List.append_assoc]
    by_cases hd : d = '"'
    · subst hd
      exact newline_of_plain rfl
    · obtain ⟨hw, -, -, hplain⟩ | ⟨e, hw, -⟩ :=
        escapeChar_cases true fun he => absurd he hd
      · rw [hw]
        exact newline_of_plain (hplain.resolve_right fun hn => h (by simp [hn.2]))
      · rw [hw]
        exact newline_of_plain rfl

lemma newline_text (h : ∀ c ∈ text, isPlain c ∨ c = '\n') (hn : '\n' ∉ text) (rest : List Char) :
    newline (text ++ '\'' :: rest) = none := by
  rcases text with _ | ⟨d, text⟩
  · exact newline_of_plain rfl
  · exact newline_of_plain ((h d (by simp)).resolve_right fun hd => hn (by simp [hd]))

/-- Text with escapes does not begin with a quote. -/
lemma escapeText_ne_quotes (text tail rest : List Char) :
    escapeText false 0 0 text ++ '"' :: '\n' :: rest ≠ '"' :: '"' :: tail := by
  rcases text with _ | ⟨d, text⟩
  · simp [escapeText]
  · rw [escapeText]
    obtain ⟨hw, hd, -⟩ | ⟨e, hw, -⟩ :=
      escapeChar_cases (c := d) false (fun _ => Nat.le_refl 0)
    · simp [hw, hd]
    · simp [hw]

/-- **A string is read as it is quoted**, whatever characters it has, if its line ends after it. -/
theorem quoted?_quote (text rest : List Char) :
    quoted? (quote text ++ '\n' :: rest) = some (String.ofList text, '\n' :: rest) := by
  cases hq : Quoting.choose text with
  | basic =>
    have hread : quoted? ('"' :: (escapeText false 0 0 text ++ '"' :: '\n' :: rest)) =
        basic [] (escapeText false 0 0 text ++ '"' :: '\n' :: rest) := by
      rw [quoted?]
      · rfl
      · simpa using fun tail => escapeText_ne_quotes text tail rest
      · simp
    simpa [quote, hq, Quoting.quotes, hread] using basic_escapeText [] text ('\n' :: rest)
  | literal =>
    obtain ⟨hne, hplain⟩ := Quoting.of_choose_eq_literal hq
    have hread : quoted? ('\'' :: (text ++ '\'' :: '\n' :: rest)) =
        literal [] (text ++ '\'' :: '\n' :: rest) := by
      obtain ⟨c, text, rfl⟩ := List.exists_cons_of_ne_nil hne
      have hc : c ≠ '\'' := (hplain c (by simp)).1
      rw [quoted?]
      · rfl
      · simp
      · simp [hc]
    simpa [quote, hq, Quoting.quotes, hread] using literal_text [] text ('\n' :: rest) hplain
  | basicLines =>
    have hdrop := dropFirstNewline_append text _ fun hn =>
      newline_escapeText hn ('"' :: '"' :: '\n' :: rest)
    have hread := basicLines_escapeText 0 (by decide) [] text rest (show '\n' ≠ '"' by decide)
    simpa [quote, hq, Quoting.quotes, quoted?, hdrop] using hread
  | literalLines =>
    obtain ⟨hruns, hplain⟩ := Quoting.of_choose_eq_literalLines hq
    have hdrop := dropFirstNewline_append text _ fun hn =>
      newline_text hplain hn ('\'' :: '\'' :: '\n' :: rest)
    have hread := literalLines_text 0 [] text rest (show '\n' ≠ '\'' by decide) hruns hplain
    simpa [quote, hq, Quoting.quotes, quoted?, hdrop] using hread

end Toml

end TemplateTrace
