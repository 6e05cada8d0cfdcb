import SysresOs.Lib.Bits
import SysresOs.Lib.Outcome
import SysresOs.Memory.Alloc
import SysresOs.Memory.Blocks
import Mathlib.Tactic.SplitIfs

/-!
# The blocks of the heap
-/

set_option autoImplicit false
set_option relaxedAutoImplicit false

namespace SysresOs.Memory

open SysresOs.ByteMemory SysresOs.Bits SysresOs.Outcome SysresOs.Trace

/-! ### Integers -/

theorem add64_eq {a b : ℕ} (h : a + b < 2 ^ 64) : add64 a b = a + b := Nat.mod_eq_of_lt h

theorem sub64_eq {a b : ℕ} (h : b ≤ a) (ha : a < 2 ^ 64) : sub64 a b = a - b := by
  unfold sub64
  omega

theorem toInt32_eq {n : ℤ} (h : 0 ≤ n) (h' : n < 2 ^ 31) : toInt32 n = n := by
  unfold toInt32
  rw [Int.bmod_eq_of_le (by omega) (by omega)]

theorem toInt32_bounds (n : ℤ) : -2 ^ 31 ≤ toInt32 n ∧ toInt32 n < 2 ^ 31 := by
  have hlow := Int.le_bmod (x := n) (m := 2 ^ 32) (by decide)
  have hhigh := Int.bmod_lt (x := n) (m := 2 ^ 32) (by decide)
  unfold toInt32
  omega

theorem ofInt32_natCast {n : ℕ} (h : n < 2 ^ 31) : ofInt32 n = n := by
  unfold ofInt32
  omega

/-- The shifts smear the bits of `n - 1` over 32 places. -/
theorem nextPowerOf2_smeared {n : ℕ} (hpos : 0 < n) (h64 : n < 2 ^ 64) :
    ∃ y, Smeared (n - 1) 32 y ∧ nextPowerOf2 n = add64 y 1 := by
  have hsub : sub64 n 1 = n - 1 := sub64_eq hpos h64
  refine ⟨_, (smeared_self (n - 1)).double.double.double.double.double, ?_⟩
  unfold nextPowerOf2
  rw [hsub]

theorem nextPowerOf2_eq {n : ℕ} (hpos : 0 < n) (hle : n ≤ 2 ^ 32) :
    nextPowerOf2 n = 2 ^ (n - 1).size := by
  obtain ⟨y, hsmear, hround⟩ := nextPowerOf2_smeared hpos (by omega)
  have heq := hsmear.eq (by omega)
  have hsize : (n - 1).size ≤ 32 := Nat.size_le.mpr (by omega)
  have hpow : 2 ^ (n - 1).size ≤ 2 ^ 32 := Nat.pow_le_pow_right (by omega) hsize
  have hone : 1 ≤ 2 ^ (n - 1).size := Nat.one_le_two_pow
  rw [hround, add64_eq (by omega)]
  omega

/-- The blocks of requests have sizes that are multiples of the header size, and are large
enough. -/
theorem blockSize_spec {n : ℕ} (h : n ≤ maxRequest) :
    n ≤ blockSize n ∧ 32 ∣ blockSize n ∧ blockSize n + 32 ≤ 2 ^ 30 ∧ (blockSize n = 0 → n = 0) := by
  unfold maxRequest at h
  have hadd : add64 n ablockSize = n + 32 := add64_eq (by unfold ablockSize; omega)
  have hsize : (n + 31).size ≤ 30 := Nat.size_le.mpr (by omega)
  have hlow : 5 ≤ (n + 31).size := by
    have hmono : Nat.size 31 ≤ (n + 31).size := Nat.size_le_size (by omega)
    exact le_trans (by decide) hmono
  have hlt : n + 31 < 2 ^ (n + 31).size := Nat.lt_size_self _
  have hpow : 2 ^ (n + 31).size ≤ 2 ^ 30 := Nat.pow_le_pow_right (by omega) hsize
  have hdvd : 32 ∣ 2 ^ (n + 31).size := Nat.pow_dvd_pow 2 hlow
  have hblock : blockSize n = 2 ^ (n + 31).size - 32 := by
    unfold blockSize
    rw [hadd, nextPowerOf2_eq (by omega) (by omega), show n + 32 - 1 = n + 31 by omega, ablockSize]
    exact sub64_eq (by omega) (by omega)
  rw [hblock]
  exact ⟨by omega, by omega, by omega, by omega⟩

/-! ### Headers -/

/-- Headers at multiples of their size do not overlap: an assignment to a field changes this field
of this header only. -/
theorem load_store_header {m : Memory} {a c v : ℕ} (ha : 32 ∣ a) (hc : 32 ∣ c) {off n off' n' : ℕ}
    (hoff : off + n ≤ 32) (hoff' : off' + n' ≤ 32)
    (hne : a ≠ c ∨ off + n ≤ off' ∨ off' + n' ≤ off) :
    load (store m (c + off) n v) (a + off') n' = load m (a + off') n' := by
  refine load_store_of_disjoint ?_
  obtain ⟨i, rfl⟩ := ha
  obtain ⟨j, rfl⟩ := hc
  omega

/-- The header at an address. -/
def headerAt (m : Memory) (a : ℕ) : Header :=
  ⟨load m a 8, load m (a + 8) 8, load m (a + 16) 8, load m (a + 24) 4⟩

/-- The memory is changed in the headers at the given addresses only. -/
def SameBut (touched : List ℕ) (m m' : Memory) : Prop :=
  ∀ x, (∀ c ∈ touched, x < c ∨ c + 32 ≤ x) → m' x = m x

theorem SameBut.refl (touched : List ℕ) (m : Memory) : SameBut touched m m := fun _ _ ↦ rfl

theorem SameBut.trans {t : List ℕ} {m₁ m₂ m₃ : Memory} (h : SameBut t m₁ m₂)
    (h' : SameBut t m₂ m₃) : SameBut t m₁ m₃ := fun x hx ↦ (h' x hx).trans (h x hx)

theorem SameBut.mono {t t' : List ℕ} {m m' : Memory} (h : SameBut t m m') (ht : t ⊆ t') :
    SameBut t' m m' := fun x hx ↦ h x fun c hc ↦ hx c (ht hc)

/-- A header depends on its own bytes only. -/
theorem headerAt_congr {m m' : Memory} {a : ℕ} (hbytes : ∀ x, a ≤ x → x < a + 32 → m' x = m x) :
    headerAt m' a = headerAt m a := by
  unfold headerAt
  rw [load_congr fun x hx hx' ↦ hbytes x (by omega) (by omega),
    load_congr fun x hx hx' ↦ hbytes x (by omega) (by omega),
    load_congr fun x hx hx' ↦ hbytes x (by omega) (by omega),
    load_congr fun x hx hx' ↦ hbytes x (by omega) (by omega)]

theorem SameBut.header {t : List ℕ} {m m' : Memory} (h : SameBut t m m') {a : ℕ} (ha : 32 ∣ a)
    (ht : ∀ c ∈ t, 32 ∣ c ∧ c ≠ a) : headerAt m' a = headerAt m a := by
  refine headerAt_congr fun x hx hx' ↦ h x fun c hc ↦ ?_
  obtain ⟨hdvd, hne⟩ := ht c hc
  omega

namespace AllocState

variable {s : AllocState} {a c v : ℕ}

theorem size_eq : s.size a = (headerAt s.memory a).size := rfl
theorem next_eq : s.next a = (headerAt s.memory a).next := rfl
theorem prev_eq : s.prev a = (headerAt s.memory a).prev := rfl
theorem free_eq : s.free a = (headerAt s.memory a).free := rfl

/-- A store to one field of a header leaves all headers as they are, but for this field. -/
theorem headerAt_store (m : Memory) (off n v : ℕ) (ha : 32 ∣ a) (hc : 32 ∣ c)
    (hoff : off + n ≤ 32) : (a ≠ c → headerAt (store m (c + off) n v) a = headerAt m a) ∧
      ∀ off' n', off' + n' ≤ 32 → off + n ≤ off' ∨ off' + n' ≤ off →
        load (store m (c + off) n v) (a + off') n' = load m (a + off') n' := by
  have hload : ∀ off' n', off' + n' ≤ 32 → a ≠ c ∨ off + n ≤ off' ∨ off' + n' ≤ off →
      load (store m (c + off) n v) (a + off') n' = load m (a + off') n' :=
    fun off' n' hoff' hne ↦ load_store_header ha hc hoff hoff' hne
  refine ⟨fun hne ↦ Header.ext ?_ ?_ ?_ ?_,
    fun off' n' hoff' hne ↦ hload off' n' hoff' (Or.inr hne)⟩
  · exact hload 0 8 (by omega) (Or.inl hne)
  · exact hload 8 8 (by omega) (Or.inl hne)
  · exact hload 16 8 (by omega) (Or.inl hne)
  · exact hload 24 4 (by omega) (Or.inl hne)

theorem header_setSize (ha : 32 ∣ a) (hc : 32 ∣ c) (hv : v < 2 ^ 64) :
    headerAt (s.setSize c v).memory a =
      if a = c then { headerAt s.memory a with size := v } else headerAt s.memory a := by
  obtain ⟨hother, hfield⟩ := headerAt_store s.memory 0 8 v ha hc (by omega)
  split_ifs with h
  · subst h
    exact Header.ext (load_store hv) (hfield 8 8 (by omega) (by omega))
      (hfield 16 8 (by omega) (by omega)) (hfield 24 4 (by omega) (by omega))
  · exact hother h

theorem header_setNext (ha : 32 ∣ a) (hc : 32 ∣ c) (hv : v < 2 ^ 64) :
    headerAt (s.setNext c v).memory a =
      if a = c then { headerAt s.memory a with next := v } else headerAt s.memory a := by
  obtain ⟨hother, hfield⟩ := headerAt_store s.memory 8 8 v ha hc (by omega)
  split_ifs with h
  · subst h
    exact Header.ext (hfield 0 8 (by omega) (by omega)) (load_store hv)
      (hfield 16 8 (by omega) (by omega)) (hfield 24 4 (by omega) (by omega))
  · exact hother h

theorem header_setPrev (ha : 32 ∣ a) (hc : 32 ∣ c) (hv : v < 2 ^ 64) :
    headerAt (s.setPrev c v).memory a =
      if a = c then { headerAt s.memory a with prev := v } else headerAt s.memory a := by
  obtain ⟨hother, hfield⟩ := headerAt_store s.memory 16 8 v ha hc (by omega)
  split_ifs with h
  · subst h
    exact Header.ext (hfield 0 8 (by omega) (by omega)) (hfield 8 8 (by omega) (by omega))
      (load_store hv) (hfield 24 4 (by omega) (by omega))
  · exact hother h

theorem header_setFree (ha : 32 ∣ a) (hc : 32 ∣ c) (hv : v < 2 ^ 32) :
    headerAt (s.setFree c v).memory a =
      if a = c then { headerAt s.memory a with free := v } else headerAt s.memory a := by
  obtain ⟨hother, hfield⟩ := headerAt_store s.memory 24 4 v ha hc (by omega)
  split_ifs with h
  · subst h
    exact Header.ext (hfield 0 8 (by omega) (by omega)) (hfield 8 8 (by omega) (by omega))
      (hfield 16 8 (by omega) (by omega)) (load_store hv)
  · exact hother h

/-- A store to a header changes the memory in this header only. -/
theorem sameBut_store (m : Memory) (off n v : ℕ) {t : List ℕ} (hoff : off + n ≤ 32) (hc : c ∈ t) :
    SameBut t m (store m (c + off) n v) := fun x hx ↦ by
  have hout := hx c hc
  exact store_of_not_mem (by omega)

theorem sameBut_setSize {t : List ℕ} (hc : c ∈ t) : SameBut t s.memory (s.setSize c v).memory :=
  sameBut_store _ 0 8 v (by omega) hc

theorem sameBut_setNext {t : List ℕ} (hc : c ∈ t) : SameBut t s.memory (s.setNext c v).memory :=
  sameBut_store _ 8 8 v (by omega) hc

theorem sameBut_setPrev {t : List ℕ} (hc : c ∈ t) : SameBut t s.memory (s.setPrev c v).memory :=
  sameBut_store _ 16 8 v (by omega) hc

theorem sameBut_setFree {t : List ℕ} (hc : c ∈ t) : SameBut t s.memory (s.setFree c v).memory :=
  sameBut_store _ 24 4 v (by omega) hc

end AllocState

end SysresOs.Memory
