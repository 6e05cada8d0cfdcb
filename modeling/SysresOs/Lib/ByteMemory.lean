import Mathlib.Tactic.Ring
import Mathlib.Data.Nat.ModEq

/-!
# A memory of bytes

Integers are stored in little-endian order. `load_store` reads an integer back, and
`load_store_of_disjoint` says that a store leaves every other place alone.
-/

set_option autoImplicit false
set_option relaxedAutoImplicit false

namespace SysresOs.ByteMemory

/-- A memory of bytes. -/
abbrev Memory := ℕ → BitVec 8

/-- The `n` low bytes of an integer. -/
def toBytes : ℕ → ℕ → List (BitVec 8)
  | 0, _ => []
  | n + 1, v => BitVec.ofNat 8 v :: toBytes n (v / 256)

/-- The integer with the given bytes. -/
def ofBytes : List (BitVec 8) → ℕ
  | [] => 0
  | b :: l => b.toNat + 256 * ofBytes l

@[simp] theorem length_toBytes (n v : ℕ) : (toBytes n v).length = n := by
  induction n generalizing v with
  | zero => rfl
  | succ n ih => rw [toBytes, List.length_cons, ih]

theorem ofBytes_toBytes {n v : ℕ} (hv : v < 256 ^ n) : ofBytes (toBytes n v) = v := by
  induction n generalizing v with
  | zero =>
    rw [pow_zero] at hv
    exact (Nat.lt_one_iff.mp hv).symm
  | succ n ih =>
    have hdiv : v / 256 < 256 ^ n := by
      rw [pow_succ'] at hv
      exact Nat.div_lt_of_lt_mul hv
    rw [toBytes, ofBytes, ih hdiv, BitVec.toNat_ofNat]
    exact Nat.mod_add_div v 256

theorem toBytes_ofBytes (l : List (BitVec 8)) : toBytes l.length (ofBytes l) = l := by
  induction l with
  | nil => rfl
  | cons b l ih =>
    have hdiv : (b.toNat + 256 * ofBytes l) / 256 = ofBytes l := by omega
    have hlow : BitVec.ofNat 8 (b.toNat + 256 * ofBytes l) = b := by
      rw [← BitVec.toNat_inj, BitVec.toNat_ofNat]
      omega
    rw [List.length_cons, ofBytes, toBytes, hdiv, hlow, ih]

section Access

variable (m : Memory) (a n : ℕ)

/-- The `n` bytes from an address on. -/
def read : List (BitVec 8) := (List.range n).map fun i ↦ m (a + i)

/-- Writing bytes from an address on. -/
def write (bytes : List (BitVec 8)) : Memory := fun x ↦
  if a ≤ x then (bytes[x - a]?).getD (m x) else m x

/-- The integer of `n` bytes at an address. -/
def load : ℕ := ofBytes (read m a n)

/-- Storing an integer of `n` bytes at an address. -/
def store (v : ℕ) : Memory := write m a (toBytes n v)

/-- Copying bytes one by one, from the first on. -/
def copy (dst src : ℕ) : ℕ → Memory
  | 0 => m
  | i + 1 => write (copy dst src i) (dst + i) [copy dst src i (src + i)]

end Access

variable {m m' : Memory} {a b n k v x : ℕ}

theorem write_of_not_mem {bytes : List (BitVec 8)} (hx : x < a ∨ a + bytes.length ≤ x) :
    write m a bytes x = m x := by
  unfold write
  split_ifs with hle
  · rw [List.getElem?_eq_none (by omega), Option.getD_none]
  · rfl

theorem read_write (bytes : List (BitVec 8)) : read (write m a bytes) a bytes.length = bytes := by
  refine List.ext_getElem (by simp [read]) fun i hi hi' ↦ ?_
  simp [read, write, hi']

theorem write_nil (m : Memory) (a : ℕ) : write m a [] = m := by
  funext x
  simp [write]

/-- Writing byte by byte. -/
theorem write_cons (m : Memory) (a : ℕ) (c : BitVec 8) (bytes : List (BitVec 8)) :
    write (write m a [c]) (a + 1) bytes = write m a (c :: bytes) := by
  funext x
  unfold write
  rcases Nat.lt_trichotomy x a with hlt | rfl | hgt
  · rw [if_neg (by omega), if_neg (by omega), if_neg (by omega)]
  · rw [if_neg (by omega), if_pos le_rfl, if_pos le_rfl, Nat.sub_self]
    rfl
  · obtain ⟨k, rfl⟩ : ∃ k, x = a + 1 + k := ⟨x - (a + 1), by omega⟩
    have hk : a + 1 + k - a = k + 1 := by omega
    rw [if_pos (by omega), if_pos (by omega), if_pos (by omega), Nat.add_sub_cancel_left, hk,
      List.getElem?_cons_succ]
    rfl

theorem store_of_not_mem (hx : x < a ∨ a + n ≤ x) : store m a n v x = m x :=
  write_of_not_mem (by rwa [length_toBytes])

theorem load_congr (h : ∀ x, a ≤ x → x < a + n → m' x = m x) : load m' a n = load m a n := by
  unfold load read
  refine congrArg ofBytes (List.map_congr_left fun i hi ↦ ?_)
  have hlt := List.mem_range.mp hi
  exact h (a + i) (by omega) (by omega)

theorem ofBytes_lt (l : List (BitVec 8)) : ofBytes l < 256 ^ l.length := by
  induction l with
  | nil => decide
  | cons b l ih =>
    have hb := b.isLt
    rw [ofBytes, List.length_cons, pow_succ]
    omega

theorem load_lt (m : Memory) (a n : ℕ) : load m a n < 256 ^ n := by
  have hlt := ofBytes_lt (read m a n)
  rwa [read, List.length_map, List.length_range] at hlt

/-- Storing what is there changes nothing. -/
theorem store_load (m : Memory) (a n : ℕ) : store m a n (load m a n) = m := by
  have hbytes := toBytes_ofBytes (read m a n)
  rw [read, List.length_map, List.length_range, ← read] at hbytes
  rw [store, load, hbytes]
  funext x
  unfold write read
  split_ifs with hx
  · rcases lt_or_ge (x - a) n with hlt | hge
    · have hsum : a + (x - a) = x := by omega
      simp [hlt, hsum]
    · simp [hge]
  · rfl

/-- A store is read back. -/
theorem load_store (hv : v < 256 ^ n) : load (store m a n v) a n = v := by
  have hread := read_write (m := m) (a := a) (toBytes n v)
  rw [length_toBytes] at hread
  rw [load, store, hread, ofBytes_toBytes hv]

/-- A store leaves every other place alone. -/
theorem load_store_of_disjoint (h : b + k ≤ a ∨ a + n ≤ b) :
    load (store m a n v) b k = load m b k :=
  load_congr fun x hx hx' ↦ store_of_not_mem (by omega)

theorem copy_of_not_mem {dst src : ℕ} (hx : x < dst ∨ dst + n ≤ x) : copy m dst src n x = m x := by
  induction n with
  | zero => rfl
  | succ n ih =>
    rw [copy, write_of_not_mem (by rw [List.length_singleton]; omega)]
    exact ih (by omega)

/-- What is copied to another place is what was there before. -/
theorem copy_of_mem {dst src i : ℕ} (hapart : dst + n ≤ src ∨ src + n ≤ dst) (hi : i < n) :
    copy m dst src n (dst + i) = m (src + i) := by
  induction n with
  | zero => omega
  | succ n ih =>
    have hread : ∀ j ≤ n, copy m dst src n (src + j) = m (src + j) :=
      fun j hj ↦ copy_of_not_mem (by omega)
    rw [copy]
    rcases Nat.lt_succ_iff_lt_or_eq.mp hi with hlt | rfl
    · rw [write_of_not_mem (by rw [List.length_singleton]; omega)]
      exact ih (by omega) hlt
    · rw [write, if_pos le_rfl, Nat.sub_self, List.getElem?_cons_zero, Option.getD_some]
      exact hread i le_rfl

section Order

variable {ι α β : Type*} [DecidableEq α] {p : α → β} {dst src : ι → α} {order : List ι}

/-- Copying from the places `src i` to the places `dst i`, for the indices of a list in their
order. -/
def copyAlong (p : α → β) (dst src : ι → α) (order : List ι) : α → β :=
  order.foldl (fun p i ↦ Function.update p (dst i) (p (src i))) p

/-- No place is read or written again after it has been written. -/
def Orderly (dst src : ι → α) (order : List ι) : Prop :=
  order.Pairwise fun i j ↦ dst i ≠ src j ∧ dst i ≠ dst j

theorem copyAlong_of_not_mem {x : α} (hx : ∀ i ∈ order, dst i ≠ x) :
    copyAlong p dst src order x = p x := by
  induction order generalizing p with
  | nil => rfl
  | cons i order ih =>
    obtain ⟨hfirst, hrest⟩ := List.forall_mem_cons.mp hx
    exact (ih hrest).trans (Function.update_of_ne hfirst.symm _ _)

/-- In such an order every place gets what was at its source before the first copy. -/
theorem copyAlong_of_mem (h : Orderly dst src order) {i : ι} (hi : i ∈ order) :
    copyAlong p dst src order (dst i) = p (src i) := by
  induction order generalizing p with
  | nil => exact absurd hi List.not_mem_nil
  | cons j order ih =>
    obtain ⟨hfirst, hrest⟩ := List.pairwise_cons.mp h
    change copyAlong (Function.update p (dst j) (p (src j))) dst src order (dst i) = p (src i)
    rcases List.mem_cons.mp hi with rfl | hmem
    · rw [copyAlong_of_not_mem fun k hk ↦ (hfirst k hk).2.symm, Function.update_self]
    · rw [ih hrest hmem, Function.update_of_ne (hfirst i hmem).1.symm]

end Order

end SysresOs.ByteMemory
