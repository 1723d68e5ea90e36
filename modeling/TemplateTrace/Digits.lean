/-!
Digits and the numbers they write, in the bases up to sixteen. The decimal digits of a number write
that number, and none of them is superfluous.
-/

namespace TemplateTrace

namespace Digits

/-- The value of a digit; letters in either case stand for ten to fifteen. -/
def value? (c : Char) : Option Nat :=
  if '0' ≤ c && c ≤ '9' then some (c.toNat - '0'.toNat)
  else if 'a' ≤ c && c ≤ 'f' then some (c.toNat - 'a'.toNat + 10)
  else if 'A' ≤ c && c ≤ 'F' then some (c.toNat - 'A'.toNat + 10)
  else none

def isDigit (base : Nat) (c : Char) : Bool := (value? c).any (· < base)

/-- The number that the digits write, the highest digit first. -/
def number (base : Nat) (digits : List Char) : Nat :=
  digits.foldl (fun n c => base * n + (value? c).getD 0) 0

/-- The digit of a value below sixteen, in lower case. -/
def lower (n : Nat) : Char := if n < 10 then Char.ofNat (48 + n) else Char.ofNat (87 + n)

/-- The digit of a value below sixteen, in upper case. -/
def upper (n : Nat) : Char := if n < 10 then Char.ofNat (48 + n) else Char.ofNat (55 + n)

theorem value?_lower {n : Nat} (h : n < 16) : value? (lower n) = some n := by
  have : ∀ n < 16, value? (lower n) = some n := by decide
  exact this n h

theorem value?_upper {n : Nat} (h : n < 16) : value? (upper n) = some n := by
  have : ∀ n < 16, value? (upper n) = some n := by decide
  exact this n h

/-! ### Decimal digits of a number -/

theorem value?_digitChar {n : Nat} (h : n < 10) : value? n.digitChar = some n := by
  have : ∀ n < 10, value? n.digitChar = some n := by decide
  exact this n h

theorem number_append_digit (ds : List Char) {n : Nat} (h : n < 10) :
    number 10 (ds ++ [n.digitChar]) = 10 * number 10 ds + n := by
  simp [number, value?_digitChar h]

theorem number_toDigits (n : Nat) : number 10 (Nat.toDigits 10 n) = n := by
  induction n using Nat.base_induction 10 (by decide) with
  | single m hm => simp [number, Nat.toDigits_of_lt_base hm, value?_digitChar hm]
  | digit m k hk hm ih =>
    rw [← Nat.toDigits_append_toDigits (by decide) hm hk, Nat.toDigits_of_lt_base hk,
      number_append_digit _ hk, ih]

/-- The first digit of a number is not zero, unless the number is. -/
theorem toDigits_eq_cons {n : Nat} (h : n ≠ 0) :
    ∃ k ds, 0 < k ∧ k < 10 ∧ Nat.toDigits 10 n = k.digitChar :: ds ∧ ∀ d ∈ ds, d.isDigit := by
  induction n using Nat.base_induction 10 (by decide) with
  | single m hm => exact ⟨m, [], Nat.pos_of_ne_zero h, hm, Nat.toDigits_of_lt_base hm, by simp⟩
  | digit m k hk hm ih =>
    obtain ⟨first, ds, hpos, hfirst, hds, hdigits⟩ := ih (Nat.ne_of_gt hm)
    refine ⟨first, ds ++ [k.digitChar], hpos, hfirst, ?_, ?_⟩
    · rw [← Nat.toDigits_append_toDigits (by decide) hm hk, Nat.toDigits_of_lt_base hk, hds,
        List.cons_append]
    · simpa [or_imp, forall_and, hk] using hdigits

end Digits

end TemplateTrace
