import SysresOs.Lib.BitField
import SysresOs.Memory.Mmu

/-!
# Descriptors

The fields of a level-2 or level-3 entry that the walk looks at are its two low bits and the address
in its bits 47 to 12. The lemmas below say what the functions that edit an entry do to these two
fields.
-/

set_option autoImplicit false
set_option relaxedAutoImplicit false

namespace SysresOs.Mmu

open SysresOs.BitField

/-! ### Masks -/

theorem mask_eq_span {f t : ℕ} (h : t ≤ f) (hf : f < 64) : mask f t = span 64 f t := by
  have hpow : 2 ^ t ≤ 2 ^ f := Nat.pow_le_pow_right (by omega) h
  have hpow' : 2 ^ f ≤ 2 ^ 63 := Nat.pow_le_pow_right (by omega) (by omega)
  rw [mask, if_neg (by omega), maskFrom, span]
  apply BitVec.eq_of_toNat_eq
  have hone : (1#64 <<< t).toNat = 2 ^ t := by
    rw [BitVec.toNat_shiftLeft, BitVec.toNat_ofNat, Nat.shiftLeft_eq]
    omega
  rw [BitVec.toNat_sub, hone, BitVec.toNat_ofNat]
  split_ifs with hf'
  · subst hf'
    have hzero : (0 : Word).toNat = 0 := rfl
    rw [hzero]
    omega
  · have hlt : 2 ^ (f + 1) ≤ 2 ^ 63 := Nat.pow_le_pow_right (by omega) (by omega)
    rw [BitVec.toNat_shiftLeft, BitVec.toNat_ofNat, Nat.shiftLeft_eq]
    rw [pow_succ] at *
    omega

theorem getLsbD_mask {f t : ℕ} (h : t ≤ f) (hf : f < 64) (i : ℕ) :
    (mask f t).getLsbD i = decide (t ≤ i ∧ i ≤ f) := by
  rw [mask_eq_span h hf, getLsbD_span h]
  exact decide_eq_decide.mpr (by omega)

theorem toNat_and_mask (x : Word) {f t : ℕ} (h : t ≤ f) (hf : f < 64) :
    (x &&& mask f t).toNat = x.toNat % 2 ^ (f + 1) / 2 ^ t * 2 ^ t := by
  rw [mask_eq_span h hf, toNat_and_span x h]

theorem and_mask_eq_zero (x : Word) {f t : ℕ} (h : t ≤ f) (hf : f < 64) :
    x &&& mask f t = 0 ↔ x.toNat % 2 ^ (f + 1) / 2 ^ t = 0 := by
  rw [← BitVec.toNat_inj, toNat_and_mask x h hf]
  have hzero : (0 : Word).toNat = 0 := rfl
  rw [hzero, Nat.mul_eq_zero]
  exact or_iff_left (Nat.two_pow_pos t).ne'

theorem three_eq_mask : (3 : Word) = mask 1 0 := by decide

theorem one_eq_mask : (1 : Word) = mask 0 0 := by decide

theorem getLsbD_three (i : ℕ) : (3 : Word).getLsbD i = decide (i ≤ 1) := by
  rw [three_eq_mask, getLsbD_mask (by omega) (by omega)]
  simp

theorem getLsbD_bit (x : Word) {k i : ℕ} (h : i ≠ k) : ((x &&& 1) <<< k).getLsbD i = false := by
  rw [BitVec.getLsbD_shiftLeft, BitVec.getLsbD_and, one_eq_mask, getLsbD_mask (by omega) (by omega)]
  grind

theorem getLsbD_pair (x : Word) {k i : ℕ} (h : i < k ∨ k + 1 < i) :
    ((x &&& 3) <<< k).getLsbD i = false := by
  rw [BitVec.getLsbD_shiftLeft, BitVec.getLsbD_and, three_eq_mask,
    getLsbD_mask (by omega) (by omega)]
  grind

/-! ### The low bits -/

theorem isBlockEntry_iff (e : Word) :
    isBlockEntry e = true ↔ e.getLsbD 0 = true ∧ e.getLsbD 1 = true := by
  rw [isBlockEntry, decide_eq_true_iff, three_eq_mask]
  constructor
  · intro h
    have hbit (i : ℕ) : (e &&& mask 1 0).getLsbD i = (mask 1 0).getLsbD i := by rw [h]
    simp only [BitVec.getLsbD_and, getLsbD_mask (f := 1) (t := 0) (by omega) (by omega)] at hbit
    exact ⟨by simpa using hbit 0, by simpa using hbit 1⟩
  · rintro ⟨h0, h1⟩
    refine BitVec.eq_of_getLsbD_eq fun i hi ↦ ?_
    rw [BitVec.getLsbD_and, getLsbD_mask (by omega) (by omega)]
    rcases i with _ | _ | i
    · simp [h0]
    · simp [h1]
    · simp

theorem isBlockEntry_cleared (e : Word) : isBlockEntry (e &&& mask 63 1) = false := by
  rw [Bool.eq_false_iff, ne_eq, isBlockEntry_iff, BitVec.getLsbD_and,
    getLsbD_mask (by omega) (by omega)]
  simp

theorem isBlockEntry_or_three (e : Word) : isBlockEntry (e ||| 3) = true := by
  rw [isBlockEntry_iff]
  simp only [BitVec.getLsbD_or, getLsbD_three]
  simp

theorem isBlockEntry_withAttributes (e : Word) (ba : BlockAttributesSg1) :
    isBlockEntry (withAttributes e ba) = true := by
  rw [withAttributes]
  exact isBlockEntry_or_three _

/-! ### The address -/

/-- The address in an entry. -/
def entryAddress (e : Word) : Word := e &&& mask 47 12

/-- What an entry tells the walk: the address of a valid entry. -/
def pointer (e : Word) : Option Word := if isBlockEntry e then some (entryAddress e) else none

theorem pointer_eq_none {e : Word} : pointer e = none ↔ isBlockEntry e = false := by
  unfold pointer
  split_ifs with he <;> simp [he]

theorem isBlockEntry_congr {e e' : Word} (h : pointer e = pointer e') :
    isBlockEntry e = isBlockEntry e' := by
  rw [Bool.eq_iff_iff, ← Bool.not_eq_false, ← Bool.not_eq_false, ← pointer_eq_none,
    ← pointer_eq_none, h]

theorem getLsbD_entryAddress (e : Word) (i : ℕ) :
    (entryAddress e).getLsbD i = (e.getLsbD i && decide (12 ≤ i ∧ i ≤ 47)) := by
  rw [entryAddress, BitVec.getLsbD_and, getLsbD_mask (by omega) (by omega)]

theorem entryAddress_aligned (e : Word) : (entryAddress e).toNat % 0x1000 = 0 := by
  rw [entryAddress, toNat_and_mask e (by omega) (by omega)]
  omega

theorem entryAddress_lt (e : Word) : (entryAddress e).toNat < 2 ^ 48 := by
  rw [entryAddress, toNat_and_mask e (by omega) (by omega)]
  omega

/-- The address of a page is kept by an entry. -/
theorem entryAddress_of_page {pa : Word} (h : pa.toNat % 0x1000 = 0) (h' : pa.toNat < 2 ^ 48) :
    entryAddress pa = pa := by
  apply BitVec.eq_of_toNat_eq
  rw [entryAddress, toNat_and_mask pa (by omega) (by omega)]
  omega

theorem entryAddress_cleared (e : Word) : entryAddress (e &&& mask 63 1) = entryAddress e := by
  refine BitVec.eq_of_getLsbD_eq fun i hi ↦ ?_
  rw [getLsbD_entryAddress, getLsbD_entryAddress, BitVec.getLsbD_and,
    getLsbD_mask (by omega) (by omega)]
  grind

theorem entryAddress_or_three (e : Word) : entryAddress (e ||| 3) = entryAddress e := by
  refine BitVec.eq_of_getLsbD_eq fun i hi ↦ ?_
  rw [getLsbD_entryAddress, getLsbD_entryAddress, BitVec.getLsbD_or, getLsbD_three]
  grind

/-- The bits of an entry that its attributes set. -/
def attributes (bas1 : BlockAttributesSg1) : Word := withAttributes 0 bas1

theorem withAttributes_eq (e : Word) (ba : BlockAttributesSg1) :
    withAttributes e ba = entryAddress e ||| attributes ba := by
  have hzero : (0 : Word) &&& mask 47 12 = 0 := BitVec.zero_and
  have hor (x : Word) : 0 ||| x = x := BitVec.zero_or
  simp only [entryAddress, attributes, withAttributes, BitVec.or_assoc, hzero, hor]

theorem getLsbD_attributes (ba : BlockAttributesSg1) {i : ℕ} (h : 12 ≤ i) (h' : i ≤ 47) :
    (attributes ba).getLsbD i = false := by
  have hzero : (0 : Word) &&& mask 47 12 = 0 := BitVec.zero_and
  have hor (x : Word) : 0 ||| x = x := BitVec.zero_or
  simp only [attributes, withAttributes, hzero, hor, BitVec.getLsbD_or, getLsbD_three]
  simp (disch := omega) only [getLsbD_bit, getLsbD_pair, Bool.or_false, Bool.false_or]
  simp
  omega

theorem entryAddress_withAttributes (e : Word) (ba : BlockAttributesSg1) :
    entryAddress (withAttributes e ba) = entryAddress e := by
  refine BitVec.eq_of_getLsbD_eq fun i hi ↦ ?_
  rw [getLsbD_entryAddress, withAttributes_eq, BitVec.getLsbD_or, getLsbD_entryAddress]
  by_cases h : 12 ≤ i ∧ i ≤ 47
  · rw [getLsbD_attributes ba h.1 h.2]
    simp [h]
  · simp [h]

/-- An entry is written over an old one, of which it keeps nothing. -/
theorem withAttributes_init {old pa : Word} (ba : BlockAttributesSg1) (h : pa.toNat % 0x1000 = 0)
    (h' : pa.toNat < 2 ^ 36) :
    withAttributes ((old &&& (mask 63 48 ||| mask 11 0)) ||| (pa &&& mask 35 0)) ba =
      withAttributes pa ba := by
  have haddress : entryAddress ((old &&& (mask 63 48 ||| mask 11 0)) ||| (pa &&& mask 35 0)) =
      pa &&& mask 35 12 := by
    refine BitVec.eq_of_getLsbD_eq fun i hi ↦ ?_
    rw [getLsbD_entryAddress]
    simp (disch := omega) only [BitVec.getLsbD_or, BitVec.getLsbD_and, getLsbD_mask]
    grind
  have hpage : pa &&& mask 35 12 = pa := by
    apply BitVec.eq_of_toNat_eq
    rw [toNat_and_mask pa (by omega) (by omega)]
    omega
  rw [withAttributes_eq, haddress, hpage, withAttributes_eq pa, entryAddress_of_page h (by omega)]

end SysresOs.Mmu
