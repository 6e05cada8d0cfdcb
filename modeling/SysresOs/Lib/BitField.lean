import Mathlib.Data.Nat.Bitwise
import Mathlib.Tactic.Ring

/-!
# Fields of a machine word

`span w hi lo` is the word of width `w` whose set bits are those from `lo` to `hi`, so that `x &&&
span w hi lo` keeps one field of `x`. `getLsbD_span` reads its bits and `toNat_and_span` says which
number the kept field is.
-/

set_option autoImplicit false
set_option relaxedAutoImplicit false

namespace SysresOs.BitField

variable {w hi lo : ℕ}

/-- The word whose set bits are those from `lo` to `hi`. -/
def span (w hi lo : ℕ) : BitVec w := BitVec.ofNat w (2 ^ (hi + 1) - 2 ^ lo)

theorem testBit_pow_sub_pow (h : lo ≤ hi) (i : ℕ) :
    (2 ^ (hi + 1) - 2 ^ lo).testBit i = decide (lo ≤ i ∧ i ≤ hi) := by
  have hsplit : 2 ^ (hi + 1) - 2 ^ lo = (2 ^ (hi + 1 - lo) - 1) * 2 ^ lo := by
    rw [Nat.sub_mul, one_mul, ← pow_add, Nat.sub_add_cancel (by omega)]
  rw [hsplit, Nat.testBit_mul_two_pow, Nat.testBit_two_pow_sub_one, ← Bool.decide_and]
  exact decide_eq_decide.mpr (by omega)

theorem getLsbD_span (h : lo ≤ hi) (i : ℕ) :
    (span w hi lo).getLsbD i = decide (i < w ∧ lo ≤ i ∧ i ≤ hi) := by
  rw [span, BitVec.getLsbD_ofNat, testBit_pow_sub_pow h, ← Bool.decide_and]

/-- The field of a word, as a number. -/
theorem toNat_and_span (x : BitVec w) (h : lo ≤ hi) :
    (x &&& span w hi lo).toNat = x.toNat % 2 ^ (hi + 1) / 2 ^ lo * 2 ^ lo := by
  refine Nat.eq_of_testBit_eq fun i ↦ ?_
  rw [Nat.testBit_mul_two_pow, Nat.testBit_div_two_pow, Nat.testBit_mod_two_pow]
  rw [BitVec.testBit_toNat, BitVec.testBit_toNat, BitVec.getLsbD_and, getLsbD_span h]
  rcases lt_or_ge i w with hi' | hi'
  · rcases lt_or_ge i lo with hlt | hle
    · simp [hi', Nat.not_le.mpr hlt]
    · rw [Nat.sub_add_cancel hle]
      simp only [hi', hle, true_and, decide_true, Bool.true_and, Bool.and_comm, Nat.lt_succ_iff]
  · rw [BitVec.getLsbD_of_ge x i hi', Bool.false_and]
    rcases lt_or_ge i lo with hlt | hle
    · simp [Nat.not_le.mpr hlt]
    · rw [Nat.sub_add_cancel hle, BitVec.getLsbD_of_ge x i hi', Bool.and_false, Bool.and_false]

end SysresOs.BitField
