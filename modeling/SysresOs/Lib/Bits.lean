import Mathlib.Data.Nat.Size
import Mathlib.Data.Nat.Bitwise
import Mathlib.Order.Bounds.Defs

/-!
# Rounding up to a power of two

The least power of two that is not below `n` is one more than the number whose bits are those of `n
- 1` with every bit below the highest one set. Such a number is reached by or-ing a number with
shifts of itself, by twice the distance each time (`Smeared.double`).
-/

set_option autoImplicit false
set_option relaxedAutoImplicit false

namespace SysresOs.Bits

/-- The bits of `y` are those of `m` and of its `w - 1` first right shifts. -/
def Smeared (m w y : ℕ) : Prop := ∀ i, y.testBit i = true ↔ ∃ j < w, m.testBit (i + j) = true

variable {m w y : ℕ}

theorem smeared_self (m : ℕ) : Smeared m 1 m := by
  intro i
  constructor
  · exact fun h ↦ ⟨0, by omega, h⟩
  · rintro ⟨j, hj, h⟩
    obtain rfl : j = 0 := by omega
    exact h

/-- Or-ing with a shift by the width reached so far doubles it. -/
theorem Smeared.double (h : Smeared m w y) : Smeared m (2 * w) (y ||| y >>> w) := by
  intro i
  rw [Nat.testBit_or, Bool.or_eq_true, Nat.testBit_shiftRight, h i, h (w + i)]
  constructor
  · rintro (⟨j, hj, hbit⟩ | ⟨j, hj, hbit⟩)
    · exact ⟨j, by omega, hbit⟩
    · refine ⟨w + j, by omega, ?_⟩
      rwa [show i + (w + j) = w + i + j by omega]
  · rintro ⟨j, hj, hbit⟩
    rcases lt_or_ge j w with hlt | hge
    · exact .inl ⟨j, hlt, hbit⟩
    · refine .inr ⟨j - w, by omega, ?_⟩
      rwa [show w + i + (j - w) = i + j by omega]

/-- All bits below the highest one are set exactly if no `w` consecutive bits below it are zero. -/
theorem Smeared.eq_iff (h : Smeared m w y) :
    y = 2 ^ m.size - 1 ↔ ∀ i < m.size, ∃ j < w, m.testBit (i + j) = true := by
  constructor
  · intro heq i hi
    rw [← h i, heq, Nat.testBit_two_pow_sub_one]
    exact decide_eq_true hi
  · intro hall
    refine Nat.eq_of_testBit_eq fun i ↦ ?_
    rw [Nat.testBit_two_pow_sub_one, Bool.eq_iff_iff, h i, decide_eq_true_iff]
    refine ⟨?_, hall i⟩
    rintro ⟨j, hj, hbit⟩
    by_contra hle
    have hlt : m < 2 ^ (i + j) := Nat.size_le.mp (by omega)
    rw [Nat.testBit_eq_false_of_lt hlt] at hbit
    exact nomatch hbit

/-- Once the width covers the number, all bits below its highest one are set. -/
theorem Smeared.eq (h : Smeared m w y) (hm : m < 2 ^ w) : y = 2 ^ m.size - 1 := by
  refine h.eq_iff.mpr fun i hi ↦ ?_
  have hsize : m.size ≤ w := Nat.size_le.mpr hm
  refine ⟨m.size - 1 - i, by omega, ?_⟩
  rw [show i + (m.size - 1 - i) = m.size - 1 by omega]
  have hlow : 2 ^ (m.size - 1) ≤ m := Nat.lt_size.mp (by omega)
  have hhigh : m < 2 ^ (m.size - 1 + 1) := Nat.size_le.mp (by omega)
  rw [Nat.testBit_eq_decide_div_mod_eq, decide_eq_true_iff]
  have hdiv : m / 2 ^ (m.size - 1) = 1 := by
    refine Nat.div_eq_of_lt_le ?_ ?_
    · rw [one_mul]
      exact hlow
    · rw [pow_succ] at hhigh
      omega
  rw [hdiv]

/-- Smearing sets no bit above the highest one. -/
theorem Smeared.lt (h : Smeared m w y) : y < 2 ^ m.size := by
  refine Nat.lt_pow_two_of_testBit y fun i hi ↦ Bool.eq_false_iff.mpr fun hbit ↦ ?_
  obtain ⟨j, -, hbit⟩ := (h i).mp hbit
  have hlt : m < 2 ^ (i + j) := Nat.size_le.mp (by omega)
  rw [Nat.testBit_eq_false_of_lt hlt] at hbit
  exact nomatch hbit

/-- The least power of two that is not below `n` has one more bit than `n - 1`. -/
theorem isLeast_two_pow {n : ℕ} (hpos : 0 < n) :
    IsLeast {p | (∃ k, p = 2 ^ k) ∧ n ≤ p} (2 ^ (n - 1).size) := by
  refine ⟨⟨⟨_, rfl⟩, ?_⟩, ?_⟩
  · have hlt := Nat.lt_size_self (n - 1)
    omega
  · rintro p ⟨⟨k, rfl⟩, hle⟩
    refine Nat.pow_le_pow_right (by decide) (Nat.size_le.mpr ?_)
    omega

end SysresOs.Bits
