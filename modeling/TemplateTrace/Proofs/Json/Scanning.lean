import TemplateTrace.Json.Token
import Mathlib.Data.List.Basic
import Mathlib.Tactic.FinCases
import Mathlib.Tactic.IntervalCases

/-!
The tokens that are found in a written document.

A document is scanned from left to right, so it is enough to know for each of its parts what tokens
the part adds to those before it, whatever comes behind. Only a number depends on what comes behind:
it goes on until something else follows. What follows a number here is a comma, a bracket, or a line
break, none of which a number goes on with.
-/

namespace TemplateTrace

namespace Json

/-- Every number in the document is a plain integer. -/
inductive Integral : Json → Prop
  | null : Integral .null
  | bool (value : Bool) : Integral (.bool value)
  | integer (value : Int) : Integral (.number (.integer value))
  | text (value : Text) : Integral (.text value)
  | array {items : List Json} (h : ∀ v ∈ items, Integral v) : Integral (.array items)
  | object {members : List (Text × Json)} (h : ∀ m ∈ members, Integral m.2) :
    Integral (.object members)

@[simp]
lemma integral_array_iff {items : List Json} :
    (Json.array items).Integral ↔ ∀ v ∈ items, v.Integral := ⟨fun | .array h => h, .array⟩

@[simp]
lemma integral_record_iff {members : List (String × Json)} :
    (Json.record members).Integral ↔ ∀ m ∈ members, m.2.Integral := by
  constructor
  · rintro (_ | _ | _ | _ | _ | h) m hm
    exact h _ (List.mem_map_of_mem hm)
  · exact fun h => .object (List.forall_mem_map.mpr h)

mutual

/-- The tokens that a document is written with. -/
def tokens : Json → List Token
  | .text t => [.text t]
  | .array [] => [.beginArray, .endArray]
  | .array (v :: vs) => .beginArray :: (tokens v ++ itemTokens vs ++ [.endArray])
  | .object [] => [.beginObject, .endObject]
  | .object (m :: ms) => .beginObject :: (memberTokens m ++ moreTokens ms ++ [.endObject])
  | v => [.value v]

/-- The tokens of the items after the first. -/
def itemTokens : List Json → List Token
  | [] => []
  | v :: vs => .comma :: (tokens v ++ itemTokens vs)

def memberTokens : Text × Json → List Token
  | (key, v) => .text key :: .colon :: tokens v

/-- The tokens of the members after the first. -/
def moreTokens : List (Text × Json) → List Token
  | [] => []
  | m :: ms => .comma :: (memberTokens m ++ moreTokens ms)

end

/-! ### Scanning -/

/-- What a scan finds that goes on with the text. -/
def Scan.read (s : Scan) (text : List Char) : Option (List Token) := (run s text).bind finish

/-- The tokens that are found in the text after others, the latest of these first. -/
def readFrom (before : List Token) (text : List Char) : Option (List Token) :=
  Scan.read ⟨before, .between⟩ text

lemma tokens?_eq_readFrom (text : List Char) : tokens? text = readFrom [] text := rfl

/-- A number that is followed by this ends where it stands. -/
def Ends (rest : List Char) : Prop := ∀ c ∈ rest.head?, c ∈ [',', ']', '\x7d', '\n']

namespace Scan

lemma read_cons {s s' : Scan} {c : Char} (text : List Char) (h : step s c = some s') :
    read s (c :: text) = read s' text := by
  rw [read, run_cons, h, Option.bind_some, read]

lemma read_append {s s' : Scan} {text : List Char} (rest : List Char) (h : run s text = some s') :
    read s (text ++ rest) = read s' rest := by
  rw [read, run_append, h, Option.bind_some, read]

end Scan

lemma readFrom_cons {ts : List Token} {s : Scan} {c : Char} (text : List Char)
    (h : Scan.start ts c = some s) : readFrom ts (c :: text) = s.read text :=
  Scan.read_cons text h

lemma readFrom_emit {ts : List Token} {t : Token} {c : Char} (text : List Char)
    (h : Scan.start ts c = some (.emit ts t)) : readFrom ts (c :: text) = readFrom (t :: ts) text :=
  readFrom_cons text h

/-! ### Numbers -/

lemma Stage.next_digit {d : Char} (h : d.isDigit) : next .whole d = some .whole := by
  simp [next, h]

lemma Stage.next_minus_digit {k : Nat} (hpos : 0 < k) (hk : k < 10) :
    next .minus k.digitChar = some .whole := by
  interval_cases k <;> rfl

namespace Scan

lemma start_digit (ts : List Token) {k : Nat} (hpos : 0 < k) (hk : k < 10) :
    start ts k.digitChar = some ⟨ts, .number .whole [k.digitChar]⟩ := by
  interval_cases k <;> rfl

lemma step_number {stage stage' : Stage} {c : Char} (ts : List Token) (written : List Char)
    (h : stage.next c = some stage') :
    step ⟨ts, .number stage written⟩ c = some ⟨ts, .number stage' (c :: written)⟩ := by
  simp [step, h]

lemma run_digits (ts : List Token) (written ds : List Char) (h : ∀ d ∈ ds, d.isDigit) :
    run ⟨ts, .number .whole written⟩ ds = some ⟨ts, .number .whole (ds.reverse ++ written)⟩ := by
  induction ds generalizing written with
  | nil => rfl
  | cons d ds ih =>
    obtain ⟨hd, hds⟩ := List.forall_mem_cons.mp h
    rw [run_cons, step_number ts written (Stage.next_digit hd), Option.bind_some, ih _ hds,
      List.reverse_cons, List.append_assoc, List.singleton_append]

/-- A number that has no more than its digits ends where something else follows. -/
lemma read_number {stage : Stage} (hs : stage = .zero ∨ stage = .whole) (ts : List Token)
    (written : List Char) {rest : List Char} (h : Ends rest) :
    read ⟨ts, .number stage written⟩ rest = readFrom (number stage written :: ts) rest := by
  have hcomplete : stage.complete = true := by rcases hs with rfl | rfl <;> rfl
  cases rest with
  | nil => simp [read, readFrom, finish, hcomplete]
  | cons c rest =>
    have hc : c ∈ [',', ']', '\x7d', '\n'] := h c rfl
    have hnext : stage.next c = none := by
      rcases hs with rfl | rfl <;> fin_cases hc <;> rfl
    have hstep : step ⟨ts, .number stage written⟩ c = start (number stage written :: ts) c := by
      simp [step, hnext, hcomplete]
    rw [read, run_cons, hstep, readFrom, read, run_cons]
    rfl

lemma read_digits (ts : List Token) (written : List Char) {ds rest : List Char}
    (hds : ∀ d ∈ ds, d.isDigit) (h : Ends rest) :
    read ⟨ts, .number .whole written⟩ (ds ++ rest) =
      readFrom (.value (.number (.ofWritten .whole (written.reverse ++ ds))) :: ts) rest := by
  rw [read_append rest (run_digits ts written ds hds), read_number (.inr rfl) ts _ h, number,
    List.reverse_append, List.reverse_reverse]

end Scan

namespace Number

lemma ofWritten_cons {c : Char} (h : c ≠ '-') (ds : List Char) :
    ofWritten .whole (c :: ds) = .integer (Digits.number 10 (c :: ds)) := by
  simp only [ofWritten]
  split <;> simp_all

lemma ofWritten_minus_cons {c : Char} (h : c ≠ '0') (ds : List Char) :
    ofWritten .whole ('-' :: c :: ds) = .integer (-(Digits.number 10 (c :: ds) : Int)) := by
  simp only [ofWritten]
  split <;> simp_all

lemma write_natCast (n : Nat) : (integer n).write = Nat.toDigits 10 n := Nat.toList_repr

lemma write_negSucc (n : Nat) :
    (integer (.negSucc n)).write = '-' :: Nat.toDigits 10 (n + 1) := by
  simp [write, Int.repr]

end Number

lemma readFrom_toDigits {n : Nat} (hn : n ≠ 0) (ts : List Token) {rest : List Char}
    (h : Ends rest) :
    readFrom ts (Nat.toDigits 10 n ++ rest) =
      readFrom (.value (.number (.integer n)) :: ts) rest := by
  obtain ⟨k, ds, hpos, hk, hds, hdigits⟩ := Digits.toDigits_eq_cons hn
  have hminus : k.digitChar ≠ '-' := by interval_cases k <;> decide
  rw [hds, List.cons_append, readFrom_cons _ (Scan.start_digit ts hpos hk),
    Scan.read_digits ts _ hdigits h, List.reverse_singleton, List.singleton_append,
    Number.ofWritten_cons hminus, ← hds, Digits.number_toDigits]

lemma readFrom_minus_toDigits {n : Nat} (hn : n ≠ 0) (ts : List Token) {rest : List Char}
    (h : Ends rest) :
    readFrom ts ('-' :: (Nat.toDigits 10 n ++ rest)) =
      readFrom (.value (.number (.integer (-n))) :: ts) rest := by
  obtain ⟨k, ds, hpos, hk, hds, hdigits⟩ := Digits.toDigits_eq_cons hn
  have hzero : k.digitChar ≠ '0' := by interval_cases k <;> decide
  have hstart : Scan.start ts '-' = some ⟨ts, .number .minus ['-']⟩ := rfl
  have hnumber := Number.ofWritten_minus_cons hzero ds
  rw [← hds, Digits.number_toDigits, hds] at hnumber
  rw [hds, readFrom_cons _ hstart, List.cons_append,
    Scan.read_cons _ (Scan.step_number ts _ (Stage.next_minus_digit hpos hk)),
    Scan.read_digits ts _ hdigits h, ← hnumber]
  rfl

/-- A number is read as it is written, with its sign or without. -/
lemma readFrom_integer (ts : List Token) (n : Int) {rest : List Char} (h : Ends rest) :
    readFrom ts ((Number.integer n).write ++ rest) =
      readFrom (.value (.number (.integer n)) :: ts) rest := by
  rcases n with (_ | n) | n
  · exact Scan.read_number (.inl rfl) ts ['0'] h
  · rw [Int.ofNat_eq_natCast, Number.write_natCast, readFrom_toDigits n.succ_ne_zero ts h]
  · rw [Number.write_negSucc, List.cons_append, readFrom_minus_toDigits n.succ_ne_zero ts h]
    rfl

/-! ### Texts -/

namespace Piece

/-- The piece that a written character is read as: a control character without a short escape is
read as its code. -/
def ofChar (c : Char) : Piece :=
  if c < ' ' ∧ c ∉ ['\x08', '\t', '\n', '\x0c', '\r'] then .unit c.toNat else .char c

lemma join_ofChar (found : List Char) (c : Char) (ps : List Piece) :
    join found (ofChar c :: ps) = join (c :: found) ps := by
  unfold ofChar
  split
  case isTrue h =>
    have hc : c.toNat < 32 := h.1
    have hlow : isLow c.toNat = false := by simp [isLow]; omega
    have hhigh : isHigh c.toNat = false := by simp [isHigh]; omega
    rw [join.eq_def]
    simp [hlow, hhigh]
  case isFalse => rfl

lemma join_map_ofChar (found cs : List Char) :
    join found (cs.map ofChar) = some (String.ofList (found.reverse ++ cs)) := by
  induction cs generalizing found with
  | nil => simp [join]
  | cons c cs ih =>
    rw [List.map_cons, join_ofChar, ih, List.reverse_cons, List.append_assoc,
      List.singleton_append]

end Piece

namespace Scan

lemma run_code (ts : List Token) (ps : List Piece) {n : Nat} (hn : n < 256) :
    run ⟨ts, .text ps⟩ ['\\', 'u', '0', '0', Digits.lower (n / 16), Digits.lower (n % 16)] =
      some ⟨ts, .text (.unit n :: ps)⟩ := by
  have h0 : Digits.value? '0' = some 0 := rfl
  simp [step, h0, Digits.value?_lower (show n / 16 < 16 by omega),
    Digits.value?_lower (show n % 16 < 16 by omega), Nat.div_add_mod]

lemma run_escapeChar (ts : List Token) (ps : List Piece) (c : Char) :
    run ⟨ts, .text ps⟩ (escapeChar c) = some ⟨ts, .text (.ofChar c :: ps)⟩ := by
  unfold escapeChar
  split
  -- Without an escape of its own, a character below the blank is written as its code.
  case h_8 h1 h2 _ _ _ _ _ =>
    split
    case isTrue h =>
      have hcode : c.toNat < 32 := h
      rw [run_code ts ps (by omega), Piece.ofChar, if_pos ⟨h, by simp_all⟩]
    case isFalse h =>
      have hquote : c ≠ '"' := h1
      have hbackslash : c ≠ '\\' := h2
      have hpiece : Piece.ofChar c = .char c := if_neg fun hc => h hc.1
      simp [step, h, hquote, hbackslash, hpiece]
  all_goals rfl

lemma run_flatMap_escapeChar (ts : List Token) (ps : List Piece) (cs : List Char) :
    run ⟨ts, .text ps⟩ (cs.flatMap escapeChar) =
      some ⟨ts, .text ((cs.map Piece.ofChar).reverse ++ ps)⟩ := by
  induction cs generalizing ps with
  | nil => rfl
  | cons c cs ih =>
    rw [List.flatMap_cons, run_append, run_escapeChar, Option.bind_some, ih, List.map_cons,
      List.reverse_cons, List.append_assoc, List.singleton_append]

end Scan

/-- A text is read as it is written. -/
lemma readFrom_quote (ts : List Token) (t : Text) (rest : List Char) :
    readFrom ts (quote t ++ rest) = readFrom (.text t :: ts) rest := by
  have hstart : Scan.start ts '"' = some ⟨ts, .text []⟩ := rfl
  cases t with
  | none =>
    have hquote : quote none = ['"', '\\', 'u', 'd', '8', '0', '0', '"'] := by simp [quote]
    rw [hquote]
    rfl
  | some s =>
    have hstop (ps : List Piece) : Scan.step ⟨ts, .text ps⟩ '"' =
        some (Scan.emit ts (.text (Piece.join [] ps.reverse))) := rfl
    rw [quote, List.cons_append, List.append_assoc, readFrom_cons _ hstart,
      Scan.read_append _ (Scan.run_flatMap_escapeChar ts [] s.toList), List.singleton_append,
      Scan.read_cons _ (hstop _), List.append_nil, List.reverse_reverse, Piece.join_map_ofChar,
      List.reverse_nil, List.nil_append, String.ofList_toList]
    rfl

/-! ### Documents -/

lemma readFrom_newline (ts : List Token) (l : Layout) (rest : List Char) :
    readFrom ts (l.newline ++ rest) = readFrom ts rest := by
  have hblank (n : Nat) : readFrom ts (List.replicate n ' ' ++ rest) = readFrom ts rest := by
    induction n with
    | zero => rfl
    | succ n ih =>
      rw [List.replicate_succ, List.cons_append]
      exact ih
  cases l with
  | compact => rfl
  | spread level => exact hblank (2 * level)

lemma readFrom_colon (ts : List Token) (l : Layout) (rest : List Char) :
    readFrom ts (l.colon ++ rest) = readFrom (.colon :: ts) rest := by
  cases l <;> rfl

lemma Ends.cons {c : Char} (h : c ∈ [',', ']', '\x7d', '\n']) (rest : List Char) :
    Ends (c :: rest) := by
  rintro _ ⟨⟩
  exact h

lemma Ends.newline (l : Layout) {rest : List Char} (h : Ends rest) : Ends (l.newline ++ rest) := by
  cases l with
  | compact => exact h
  | spread level => exact .cons (by decide) _

lemma Ends.writeItems (l : Layout) (vs : List Json) {rest : List Char} (h : Ends rest) :
    Ends (Json.writeItems l vs ++ rest) := by
  cases vs with
  | nil => exact h
  | cons v vs => exact .cons (by decide) _

lemma Ends.writeMembers (l : Layout) (ms : List (Text × Json)) {rest : List Char} (h : Ends rest) :
    Ends (Json.writeMembers l ms ++ rest) := by
  cases ms with
  | nil => exact h
  | cons m ms => exact .cons (by decide) _

/-- What is written of the document is read as its tokens, whatever is before and behind it. -/
def Legible (v : Json) : Prop :=
  ∀ (l : Layout) (ts : List Token) {rest : List Char}, Ends rest →
    readFrom ts (write l v ++ rest) = readFrom ((tokens v).reverse ++ ts) rest

lemma readFrom_writeItems {vs : List Json} (hvs : ∀ v ∈ vs, Legible v) (l : Layout)
    (ts : List Token) {rest : List Char} (h : Ends rest) :
    readFrom ts (writeItems l vs ++ rest) = readFrom ((itemTokens vs).reverse ++ ts) rest := by
  induction vs generalizing ts with
  | nil => rfl
  | cons v vs ih =>
    obtain ⟨hv, hvs⟩ := List.forall_mem_cons.mp hvs
    have hcomma : Scan.start ts ',' = some (.emit ts .comma) := rfl
    rw [writeItems, List.cons_append, readFrom_emit _ hcomma, List.append_assoc,
      List.append_assoc, readFrom_newline, hv l _ (.writeItems l vs h), ih hvs]
    simp [itemTokens]

lemma readFrom_writeMember {m : Text × Json} (hm : Legible m.2) (l : Layout)
    (ts : List Token) {rest : List Char} (h : Ends rest) :
    readFrom ts (writeMember l m ++ rest) = readFrom ((memberTokens m).reverse ++ ts) rest := by
  obtain ⟨key, v⟩ := m
  rw [writeMember, List.append_assoc, List.append_assoc, readFrom_quote, readFrom_colon, hm l _ h]
  simp [memberTokens]

lemma readFrom_writeMembers {ms : List (Text × Json)} (hms : ∀ m ∈ ms, Legible m.2) (l : Layout)
    (ts : List Token) {rest : List Char} (h : Ends rest) :
    readFrom ts (writeMembers l ms ++ rest) = readFrom ((moreTokens ms).reverse ++ ts) rest := by
  induction ms generalizing ts with
  | nil => rfl
  | cons m ms ih =>
    obtain ⟨hm, hms⟩ := List.forall_mem_cons.mp hms
    have hcomma : Scan.start ts ',' = some (.emit ts .comma) := rfl
    rw [writeMembers, List.cons_append, readFrom_emit _ hcomma, List.append_assoc,
      List.append_assoc, readFrom_newline, readFrom_writeMember hm l _ (.writeMembers l ms h),
      ih hms]
    simp [moreTokens]

lemma legible_array {items : List Json} (h : ∀ v ∈ items, Legible v) : Legible (.array items) := by
  intro l ts rest _
  cases items with
  | nil => rfl
  | cons v vs =>
    obtain ⟨hv, hvs⟩ := List.forall_mem_cons.mp h
    have hopen : Scan.start ts '[' = some (.emit ts .beginArray) := rfl
    have hclose (us : List Token) : Scan.start us ']' = some (.emit us .endArray) := rfl
    have hend : Ends (l.newline ++ ']' :: rest) := .newline l (.cons (by decide) rest)
    simp only [write, List.cons_append, List.append_assoc, List.nil_append]
    rw [readFrom_emit _ hopen, readFrom_newline, hv _ _ (.writeItems l.deeper vs hend),
      readFrom_writeItems hvs _ _ hend, readFrom_newline, readFrom_emit _ (hclose _)]
    simp [tokens]

lemma legible_object {members : List (Text × Json)} (h : ∀ m ∈ members, Legible m.2) :
    Legible (.object members) := by
  intro l ts rest _
  cases members with
  | nil => rfl
  | cons m ms =>
    obtain ⟨hm, hms⟩ := List.forall_mem_cons.mp h
    have hopen : Scan.start ts '\x7b' = some (.emit ts .beginObject) := rfl
    have hclose (us : List Token) : Scan.start us '\x7d' = some (.emit us .endObject) := rfl
    have hend : Ends (l.newline ++ '\x7d' :: rest) := .newline l (.cons (by decide) rest)
    simp only [write, List.cons_append, List.append_assoc, List.nil_append]
    rw [readFrom_emit _ hopen, readFrom_newline,
      readFrom_writeMember hm _ _ (.writeMembers l.deeper ms hend),
      readFrom_writeMembers hms _ _ hend, readFrom_newline, readFrom_emit _ (hclose _)]
    simp [tokens]

lemma Integral.legible {v : Json} (h : Integral v) : Legible v := by
  induction h with
  | null => exact fun _ _ _ _ => rfl
  | bool value => cases value <;> exact fun _ _ _ _ => rfl
  | integer value => exact fun _ ts _ h => readFrom_integer ts value h
  | text value => exact fun _ ts rest _ => readFrom_quote ts value rest
  | array _ ih => exact legible_array ih
  | object _ ih => exact legible_object ih

/-- **What is written of a document is read as its tokens**, in either layout. -/
theorem tokens?_write {v : Json} (h : Integral v) (l : Layout) :
    tokens? (write l v) = some (tokens v) := by
  have hread := h.legible l [] (fun _ hc => nomatch hc : Ends [])
  rw [List.append_nil, List.append_nil] at hread
  rw [tokens?_eq_readFrom, hread, readFrom, Scan.read, Scan.run_nil, Option.bind_some, Scan.finish,
    List.reverse_reverse]

end Json

end TemplateTrace
