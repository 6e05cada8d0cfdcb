import SysresOs.Lib.ByteMemory
import Mathlib.Data.BitVec

/-!
# An address space of bytes

A memory at the addresses of `w` bits, which wrap around. Bytes are written from an address on, and
words of 64 bits are stored in little-endian order: `loadWord_storeWord` reads a word back, and
`write_of_not_within` says that a write leaves every address outside its range alone.
-/

set_option autoImplicit false
set_option relaxedAutoImplicit false

namespace SysresOs.AddressSpace

open SysresOs.ByteMemory (toBytes ofBytes)

variable {w : ℕ}

/-- The bytes at the addresses. -/
abbrev Bytes (w : ℕ) := BitVec w → BitVec 8

/-- The address is one of `n` from `base` on. -/
def Within (base : BitVec w) (n : ℕ) (a : BitVec w) : Prop := (a - base).toNat < n

instance (base : BitVec w) (n : ℕ) (a : BitVec w) : Decidable (Within base n a) := Nat.decLt _ _

section Access

variable (m : Bytes w) (a : BitVec w)

/-- Writing bytes from an address on. -/
def write (bytes : List (BitVec 8)) : Bytes w := fun x ↦ (bytes[(x - a).toNat]?).getD (m x)

/-- The `n` bytes from an address on. -/
def read (n : ℕ) : List (BitVec 8) := (List.range n).map fun i ↦ m (a + BitVec.ofNat w i)

/-- The word at an address. -/
def loadWord : BitVec 64 := BitVec.ofNat 64 (ofBytes (read m a 8))

/-- Storing a word at an address. -/
def storeWord (v : BitVec 64) : Bytes w := write m a (toBytes 8 v.toNat)

end Access

variable {m m' : Bytes w} {a b x : BitVec w} {n k : ℕ} {v : BitVec 64} {bytes : List (BitVec 8)}

/-- The offset of an address in a range. -/
theorem toNat_add_sub (a : BitVec w) {i : ℕ} (hi : i < 2 ^ w) :
    (a + BitVec.ofNat w i - a).toNat = i := by
  rw [BitVec.add_comm, BitVec.add_sub_cancel, BitVec.toNat_ofNat, Nat.mod_eq_of_lt hi]

theorem within_add (a : BitVec w) {i : ℕ} (hi : i < n) (hn : n ≤ 2 ^ w) :
    Within a n (a + BitVec.ofNat w i) := by
  rw [Within, toNat_add_sub a (hi.trans_le hn)]
  exact hi

/-- A range in a longer one. -/
theorem Within.of_add {o : ℕ} (h : Within (a + BitVec.ofNat w o) k x) (hle : o + k ≤ n)
    (hn : n ≤ 2 ^ w) : Within a n x := by
  unfold Within at h ⊢
  have hsum : x - a = x - (a + BitVec.ofNat w o) + BitVec.ofNat w o := by ring
  rw [hsum, BitVec.toNat_add, BitVec.toNat_ofNat, Nat.add_mod_mod, Nat.mod_eq_of_lt (by omega)]
  omega

theorem write_of_not_within (h : ¬ Within a bytes.length x) : write m a bytes x = m x := by
  rw [write, List.getElem?_eq_none (Nat.le_of_not_lt h), Option.getD_none]

/-- What is written is read back. -/
theorem read_write (hsize : bytes.length ≤ 2 ^ w) :
    read (write m a bytes) a bytes.length = bytes := by
  refine List.ext_getElem (by simp [read]) fun i hi hi' ↦ ?_
  have hoffset := toNat_add_sub a (hi'.trans_le hsize)
  have hbyte : write m a bytes (a + BitVec.ofNat w i) = bytes[i] := by
    rw [write, hoffset, List.getElem?_eq_getElem hi', Option.getD_some]
  simpa [read] using hbyte

theorem read_congr (h : ∀ i < n, m' (a + BitVec.ofNat w i) = m (a + BitVec.ofNat w i)) :
    read m' a n = read m a n :=
  List.map_congr_left fun i hi ↦ h i (List.mem_range.mp hi)

theorem loadWord_congr (h : ∀ i < 8, m' (a + BitVec.ofNat w i) = m (a + BitVec.ofNat w i)) :
    loadWord m' a = loadWord m a := by
  rw [loadWord, read_congr h, ← loadWord]

theorem loadWord_storeWord (hw : 3 ≤ w) : loadWord (storeWord m a v) a = v := by
  have hsize : (toBytes 8 v.toNat).length ≤ 2 ^ w := by
    rw [ByteMemory.length_toBytes]
    exact Nat.pow_le_pow_right (n := 2) Nat.two_pos hw
  have hread := read_write (m := m) (a := a) hsize
  rw [ByteMemory.length_toBytes] at hread
  rw [loadWord, storeWord, hread, ByteMemory.ofBytes_toBytes v.isLt, BitVec.ofNat_toNat,
    BitVec.setWidth_eq]

theorem storeWord_of_not_within (h : ¬ Within a 8 x) : storeWord m a v x = m x := by
  refine write_of_not_within ?_
  rwa [ByteMemory.length_toBytes]

/-! ### Patches -/

/-- Bytes for an address, if there are any. -/
abbrev Patch (w : ℕ) := Option (BitVec w × List (BitVec 8))

/-- The patch has a byte for an address. -/
def Patch.Covers : Patch w → BitVec w → Prop
  | none, _ => False
  | some (address, bytes), a => Within address bytes.length a

/-- The memory after the bytes are stored. -/
def Patch.store : Patch w → Bytes w → Bytes w
  | none, m => m
  | some (address, bytes), m => write m address bytes

theorem Patch.store_of_not_covers {patch : Patch w} (h : ¬ patch.Covers x) :
    patch.store m x = m x := by
  cases patch with
  | none => rfl
  | some _ => exact write_of_not_within h

end SysresOs.AddressSpace
