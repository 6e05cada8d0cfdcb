import Mathlib.Data.Nat.Digits.Defs

/-!
# Numerals

The numeral of a natural number in a base is the list of its digits, the highest one in front, each
written as a character. Where the characters of the digits can be told apart, a numeral is read back
(`readNumeral_numeral`), and it never begins with a zero (`numeral_head`). The number zero has the
empty numeral.
-/

set_option autoImplicit false
set_option relaxedAutoImplicit false

namespace SysresOs.Numeral

variable {α : Type*} {write : ℕ → α} {read : α → Option ℕ} {base n : ℕ}

/-- The numeral of a number, with the digits written by `write`. -/
def numeral (write : ℕ → α) (base n : ℕ) : List α := (Nat.digits base n).reverse.map write

/-- What a character adds to the value of the characters before it. -/
def readDigit (read : α → Option ℕ) (base : ℕ) (value : Option ℕ) (c : α) : Option ℕ := do
  let v ← value
  let d ← read c
  if d < base then some (base * v + d) else none

/-- The value of a list of characters, if all are digits in the base. -/
def readNumeral (read : α → Option ℕ) (base : ℕ) (l : List α) : Option ℕ :=
  l.foldl (readDigit read base) (some 0)

@[simp] theorem numeral_zero (write : ℕ → α) (base : ℕ) : numeral write base 0 = [] := by
  rw [numeral, Nat.digits_zero]
  rfl

/-- The last digit is the remainder. -/
theorem numeral_eq_append (write : ℕ → α) (hbase : 1 < base) (hn : 0 < n) :
    numeral write base n = numeral write base (n / base) ++ [write (n % base)] := by
  rw [numeral, Nat.digits_def' hbase hn, List.reverse_cons, List.map_append, ← numeral]
  rfl

/-- A numeral is read back. -/
theorem readNumeral_numeral (hbase : 1 < base) (hread : ∀ d < base, read (write d) = some d)
    (n : ℕ) : readNumeral read base (numeral write base n) = some n := by
  induction n using Nat.strong_induction_on with
  | _ n ih =>
    rcases Nat.eq_zero_or_pos n with rfl | hpos
    · rw [numeral_zero]
      rfl
    · have hdigit : n % base < base := Nat.mod_lt n (by omega)
      rw [numeral_eq_append write hbase hpos, readNumeral, List.foldl_append, ← readNumeral,
        ih _ (Nat.div_lt_self hpos hbase)]
      simp [readDigit, hread _ hdigit, hdigit, Nat.div_add_mod]

/-- A numeral begins with a digit that is not zero. -/
theorem numeral_head (write : ℕ → α) (hbase : 1 < base) (hn : 0 < n) :
    ∃ d, 0 < d ∧ d < base ∧ (numeral write base n).head? = some (write d) := by
  induction n using Nat.strong_induction_on with
  | _ n ih =>
    rw [numeral_eq_append write hbase hn]
    by_cases hlt : n < base
    · refine ⟨n, hn, hlt, ?_⟩
      rw [Nat.div_eq_of_lt hlt, Nat.mod_eq_of_lt hlt, numeral_zero]
      rfl
    · obtain ⟨d, hpos, hd, hhead⟩ := ih (n / base) (Nat.div_lt_self hn hbase)
        (Nat.div_pos (Nat.not_lt.mp hlt) (by omega))
      exact ⟨d, hpos, hd, by rw [List.head?_append, hhead]; rfl⟩

end SysresOs.Numeral
