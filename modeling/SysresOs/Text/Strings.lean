import SysresOs.Lib.ByteMemory
import SysresOs.Memory.UserCopy

/-!
# Strings of bytes

The functions of `libk/string.c`, over a memory of bytes at the addresses of 64 bits. `memmove`
chooses the order in which it copies so that no byte of the source is overwritten before it is read
(`orderly_memmoveOrder`), however the two ranges overlap.
-/

set_option autoImplicit false
set_option relaxedAutoImplicit false

namespace SysresOs.Text

open SysresOs.ByteMemory

open SysresOs.Mmu (memmoveOrder)

/-- An address. -/
abbrev Address := BitVec 64

/-- A memory of bytes. -/
abbrev Bytes := Address → BitVec 8

/-! ### `memmove` -/

/-- The address of an element of an array of bytes. -/
def elementAt (array : Address) (i : ℕ) : Address := array + BitVec.ofNat 64 i

/-- `memmove`. -/
def memmove (m : Bytes) (pdst psrc : Address) (size : ℕ) : Bytes :=
  copyAlong m (elementAt pdst) (elementAt psrc) (memmoveOrder pdst psrc size)

section Memmove

variable {m : Bytes} {pdst psrc x : Address} {size i : ℕ}

theorem toNat_elementAt (array : Address) (h : array.toNat + i < 2 ^ 64) :
    (elementAt array i).toNat = array.toNat + i := by
  unfold elementAt
  bv_omega

theorem mem_memmoveOrder : i ∈ memmoveOrder pdst psrc size ↔ i < size := by
  unfold memmoveOrder
  split_ifs <;> simp

/-- No byte of the source is overwritten before it is read. -/
theorem orderly_memmoveOrder (hdst : pdst.toNat + size ≤ 2 ^ 64)
    (hsrc : psrc.toNat + size ≤ 2 ^ 64) :
    Orderly (elementAt pdst) (elementAt psrc) (memmoveOrder pdst psrc size) := by
  have hapart : ∀ i < size, ∀ j < size, (pdst < psrc ∧ i < j) ∨ (¬ pdst < psrc ∧ j < i) →
      elementAt pdst i ≠ elementAt psrc j ∧ elementAt pdst i ≠ elementAt pdst j := by
    intro i hi j hj horder
    have hdsti := toNat_elementAt (i := i) pdst (by omega)
    have hdstj := toNat_elementAt (i := j) pdst (by omega)
    have hsrcj := toNat_elementAt (i := j) psrc (by omega)
    rw [BitVec.lt_def] at horder
    refine ⟨fun heq ↦ ?_, fun heq ↦ ?_⟩
    · have hnat := congrArg BitVec.toNat heq
      omega
    · have hnat := congrArg BitVec.toNat heq
      omega
  unfold Orderly memmoveOrder
  split_ifs with hlt
  · refine List.pairwise_lt_range.imp_of_mem fun hi hj hij ↦ ?_
    exact hapart _ (List.mem_range.mp hi) _ (List.mem_range.mp hj) (.inl ⟨hlt, hij⟩)
  · refine List.pairwise_reverse.mpr (List.pairwise_lt_range.imp_of_mem fun hi hj hij ↦ ?_)
    exact hapart _ (List.mem_range.mp hj) _ (List.mem_range.mp hi) (.inr ⟨hlt, hij⟩)

/-- The destination holds what the source held, and every other byte is as before. -/
theorem memmove_spec (hdst : pdst.toNat + size ≤ 2 ^ 64) (hsrc : psrc.toNat + size ≤ 2 ^ 64) :
    (∀ i < size, memmove m pdst psrc size (elementAt pdst i) = m (elementAt psrc i)) ∧
      ∀ x : Address, x.toNat < pdst.toNat ∨ pdst.toNat + size ≤ x.toNat →
      memmove m pdst psrc size x = m x := by
  refine ⟨fun i hi ↦ ?_, fun x hx ↦ ?_⟩
  · exact copyAlong_of_mem (orderly_memmoveOrder hdst hsrc) (mem_memmoveOrder.mpr hi)
  · refine copyAlong_of_not_mem fun i hi heq ↦ ?_
    have hlt := mem_memmoveOrder.mp hi
    have hnat := toNat_elementAt (i := i) pdst (by omega)
    rw [heq] at hnat
    omega

/-- A memory in which every byte is the low byte of its address. -/
def lowBytes : Bytes := fun a ↦ a.setWidth 8

/-- The ranges overlap: eight bytes are moved up by one. -/
theorem memmove_spec_overlap :
    (∀ i < 8, memmove lowBytes 0x1001 0x1000 8 (elementAt 0x1001 i) =
      lowBytes (elementAt 0x1000 i)) ∧
      ∀ x : Address, x.toNat < (0x1001 : Address).toNat ∨ (0x1001 : Address).toNat + 8 ≤ x.toNat →
        memmove lowBytes 0x1001 0x1000 8 x = lowBytes x :=
  memmove_spec (by decide) (by decide)

end Memmove

end SysresOs.Text
