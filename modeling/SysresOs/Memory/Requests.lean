import SysresOs.Memory.Session
import Mathlib.Order.Bounds.Basic

/-!
# Requests of any size

The size of a request is rounded by `next_power_of_2`, in which the shift by half the width of
`size_t` is missing, and `ksbrk` gets the rounded size as an `int`. A request of more than `2 ^ 30 -
32` bytes can therefore be answered with a block for which the heap has not grown.
`kmallocInside_iff` says for which requests this does not happen: a request that is not too large is
served within the heap, and one that is too large is harmless when it is rounded to nothing, or when
the assertions of `extend_heap` and `ksbrk` catch it.
-/

set_option autoImplicit false
set_option relaxedAutoImplicit false

namespace SysresOs.Memory

open SysresOs.ByteMemory SysresOs.Bits SysresOs.Outcome SysresOs.Trace

variable {s s' : AllocState} {σ σ' : Session} {bs : List Block} {n p : ℕ}

/-- A request is answered with `NULL` or with bytes that are all inside the heap, or an assertion
fails. -/
def KmallocInside (s : AllocState) (n : ℕ) : Prop :=
  (∃ which, kmalloc s n = .error (.assertion which)) ∨
    ∃ s' p, kmalloc s n = .ok (s', p) ∧
      (p = 0 ∨ s'.heapBegin ≤ p ∧ (p : ℤ) + n ≤ s'.heapBegin + s'.endOffset)

/-- The increment of the break for a request, when it is an `int`. -/
def increment (n : ℕ) : ℤ := toInt32 (add64 (blockSize n) ablockSize)

/-- The request is not too large, or it is rounded to nothing, or the break would move down, or it
is above `HEAP_MAX` before or after it is moved. -/
def RequestFits (s : AllocState) (n : ℕ) : Prop :=
  n ≤ maxRequest ∨ blockSize n = 0 ∨ increment n < 0 ∨ heapMax < s.heapBegin + s.endOffset ∨
    heapMax < toInt32 (s.heapBegin + s.endOffset + increment n)

/-! ### Rounding -/

/-- Rounding goes up, unless it goes round. -/
theorem nextPowerOf2_ge (hpos : 0 < n) (h64 : n < 2 ^ 64) :
    nextPowerOf2 n = 0 ∨ n ≤ nextPowerOf2 n := by
  have hsub : sub64 n 1 = n - 1 := sub64_eq hpos h64
  have hsmear : ∀ a k : ℕ, n - 1 ≤ a → a < 2 ^ 64 → n - 1 ≤ a ||| a >>> k ∧
      a ||| a >>> k < 2 ^ 64 := by
    intro a k hle hlt
    refine ⟨hle.trans Nat.left_le_or, Nat.or_lt_two_pow hlt ?_⟩
    exact lt_of_le_of_lt (Nat.shiftRight_le a k) hlt
  unfold nextPowerOf2
  rw [hsub]
  have h1 := hsmear (n - 1) 1 le_rfl (by omega)
  have h2 := hsmear _ 2 h1.1 h1.2
  have h3 := hsmear _ 4 h2.1 h2.2
  have h4 := hsmear _ 8 h3.1 h3.2
  obtain ⟨hle, hlt⟩ := hsmear _ 16 h4.1 h4.2
  unfold add64
  dsimp only
  omega

/-- The rounding is to the least power of two unless 32 consecutive bits below the highest one of `n
- 1` are zero. -/
theorem nextPowerOf2_isLeast_iff (hpos : 1 ≤ n) (hle : n ≤ 2 ^ 63) :
    IsLeast {p | (∃ k, p = 2 ^ k) ∧ n ≤ p} (nextPowerOf2 n) ↔
      ∀ i < (n - 1).size, ∃ j < 32, (n - 1).testBit (i + j) = true := by
  obtain ⟨y, hsmear, hround⟩ := nextPowerOf2_smeared hpos (by omega)
  rw [← hsmear.eq_iff]
  have hsize : (n - 1).size ≤ 63 := Nat.size_le.mpr (by omega)
  have hpow : 2 ^ (n - 1).size ≤ 2 ^ 63 := Nat.pow_le_pow_right (by decide) hsize
  have hone : 1 ≤ 2 ^ (n - 1).size := Nat.one_le_two_pow
  have hlt := hsmear.lt
  have hleast := isLeast_two_pow (n := n) hpos
  rw [hround, add64_eq (by omega)]
  constructor
  · intro hrounded
    have heq := hrounded.unique hleast
    omega
  · intro heq
    rw [heq, Nat.sub_add_cancel hone]
    exact hleast

/-- Rounding `2 ^ 31` gives itself. -/
theorem nextPowerOf2_isLeast_iff_exact :
    IsLeast {p | (∃ k, p = 2 ^ k) ∧ 2 ^ 31 ≤ p} (nextPowerOf2 (2 ^ 31)) ↔
      ∀ i < (2 ^ 31 - 1).size, ∃ j < 32, (2 ^ 31 - 1).testBit (i + j) = true :=
  nextPowerOf2_isLeast_iff (by decide) (by decide)

/-- `2 ^ 32 + 1` is rounded to `2 ^ 33 - 1`. -/
theorem not_nextPowerOf2_isLeast :
    ¬ IsLeast {p | (∃ k, p = 2 ^ k) ∧ 2 ^ 32 + 1 ≤ p} (nextPowerOf2 (2 ^ 32 + 1)) := by
  rintro ⟨⟨⟨k, hk⟩, -⟩, -⟩
  have hvalue : nextPowerOf2 (2 ^ 32 + 1) = 2 ^ 33 - 1 := by decide
  rw [hvalue] at hk
  rcases Nat.eq_zero_or_pos k with rfl | hpos
  · exact absurd hk (by decide)
  · have heven : 2 ∣ 2 ^ k := dvd_pow_self 2 hpos.ne'
    omega

/-- A request that is too large is rounded to nothing, or to more than the heap can have. -/
theorem blockSize_large (hn : maxRequest < n) (h64 : n < 2 ^ 64) (hne : blockSize n ≠ 0) :
    maxRequest < blockSize n := by
  unfold maxRequest at hn ⊢
  by_cases hwrap : n + 32 < 2 ^ 64
  · have hadd : add64 n ablockSize = n + 32 := add64_eq hwrap
    have hge := nextPowerOf2_ge (n := n + 32) (by omega) hwrap
    have hlt : nextPowerOf2 (n + 32) < 2 ^ 64 := Nat.mod_lt _ (by decide)
    have hblock : blockSize n = sub64 (nextPowerOf2 (n + 32)) 32 := by
      rw [blockSize, hadd, ablockSize]
    rw [hblock] at hne ⊢
    unfold sub64 at hne ⊢
    omega
  · obtain ⟨m, hm⟩ : ∃ m, n + 32 = m + 2 ^ 64 := ⟨n + 32 - 2 ^ 64, by omega⟩
    have hadd : add64 n ablockSize = m := by
      unfold add64 ablockSize
      omega
    have hsmall : ∀ m < 32, sub64 (nextPowerOf2 m) 32 = 0 ∨ 2 ^ 30 ≤ sub64 (nextPowerOf2 m) 32 := by
      decide
    have hblock : blockSize n = sub64 (nextPowerOf2 m) 32 := by rw [blockSize, hadd, ablockSize]
    rw [hblock] at hne ⊢
    rcases hsmall m (by omega) with hzero | hle
    · exact absurd hzero hne
    · omega

/-- A request for half the range of an `int` turns the increment of the break negative. -/
theorem increment_neg (hn : maxRequest < n) (hle : n ≤ 2 ^ 31 - 32) : increment n < 0 := by
  unfold maxRequest at hn
  have hadd : add64 n ablockSize = n + 32 := add64_eq (by unfold ablockSize; omega)
  have hsize : (n + 31).size = 31 := by
    have hle : (n + 31).size ≤ 31 := Nat.size_le.mpr (by omega)
    have hlt : 30 < (n + 31).size := Nat.lt_size.mpr (by omega)
    omega
  have hblock : blockSize n = 2 ^ 31 - 32 := by
    rw [blockSize, hadd, nextPowerOf2_eq (by omega) (by omega), show n + 32 - 1 = n + 31 by omega,
      hsize]
    decide
  rw [increment, hblock]
  decide

/-! ### Stops -/

/-- The end of the heap, as `ksbrk` computes it. -/
theorem Tiled.end_eq (h : Tiled s bs) :
    (s.heapBegin : ℤ) + s.endOffset = (s.heapBegin + span bs : ℕ) := by
  rw [h.break_eq]
  rfl

/-- The heap grows for a request, or the assertion of `ksbrk` fails. -/
theorem extendHeap_increment (h : Tiled s bs) (hinc : 0 ≤ increment n) :
    extendHeap s (lastStart 0 s.heapBegin bs) (blockSize n) =
      if heapMax < s.heapBegin + s.endOffset ∨
        heapMax < toInt32 (s.heapBegin + s.endOffset + increment n)
      then .error (.assertion .heapOverflow)
      else .ok (appendBlock { s with endOffset := toInt32 (span bs + increment n) }
        (lastStart 0 s.heapBegin bs) (s.heapBegin + span bs) (blockSize n),
        s.heapBegin + span bs) := by
  rw [h.end_eq]
  exact extendHeap_eq h rfl hinc

/-- `extendHeap` fails when the break would move down. -/
theorem extendHeap_negative (h : Tiled s bs) {last size : ℕ}
    (hneg : toInt32 (add64 size ablockSize) < 0) :
    ∃ which, extendHeap s last size = .error (.assertion which) := by
  have hbound := h.bound
  obtain ⟨inc, hinc⟩ : ∃ inc, inc = toInt32 (add64 size ablockSize) := ⟨_, rfl⟩
  have hlow := (toInt32_bounds (add64 size ablockSize)).1
  have hres : toInt32 (s.endOffset + s.heapBegin) = (s.heapBegin + span bs : ℕ) := by
    rw [h.break_eq, toInt32_eq (by omega) (by omega)]
    omega
  unfold extendHeap
  rw [assert_pos h.positive, ok_bind, ksbrk_zero h, ← hinc]
  rw [← hinc] at hneg hlow
  by_cases hmax : heapMax < (s.heapBegin + span bs : ℕ)
  · rw [if_pos hmax]
    exact ⟨_, rfl⟩
  rw [if_neg hmax, ok_bind]
  dsimp only
  unfold ksbrk
  simp only [hres]
  by_cases hmax' : toInt32 ((s.heapBegin + span bs : ℕ) + inc) > heapMax
  · rw [if_pos hmax', error_bind]
    exact ⟨_, rfl⟩
  have hne : ¬ s.heapBegin + span bs = ofInt32 (toInt32 ((s.heapBegin + span bs : ℕ) + inc)) := by
    have hsum :
        toInt32 ((s.heapBegin + span bs : ℕ) + inc) = (s.heapBegin + span bs : ℕ) + inc := by
      unfold toInt32
      rw [Int.bmod_eq_of_le (by omega) (by omega)]
    rw [hsum]
    unfold ofInt32
    omega
  rw [if_neg hmax', if_pos hneg, ok_bind]
  dsimp only
  rw [assert_neg hne, error_bind]
  exact ⟨_, rfl⟩

theorem ksbrk_avoids (increment : ℤ) : Avoids (ksbrk s increment) (· = .diverges) := by
  unfold ksbrk
  dsimp only
  exact Avoids.ite (fun _ ↦ Avoids.error (by simp)) fun _ ↦ Avoids.ite (fun _ ↦ Avoids.ok) fun _ ↦
    Avoids.ok

theorem extendHeap_avoids (last size : ℕ) : Avoids (extendHeap s last size) (· = .diverges) := by
  unfold extendHeap
  refine Avoids.bind (assert_avoids nofun) fun _ _ ↦ Avoids.bind (ksbrk_avoids _) fun _ _ ↦ ?_
  refine Avoids.bind (ksbrk_avoids _) fun _ _ ↦ Avoids.bind (assert_avoids nofun) fun _ _ ↦ ?_
  refine Avoids.ite (fun _ ↦ Avoids.ok) fun _ ↦ Avoids.ite (fun _ ↦ ?_) fun _ ↦ ?_
  · refine Avoids.bind (assert_avoids nofun) fun _ _ ↦ Avoids.bind Avoids.ok fun _ _ ↦ ?_
    exact Avoids.bind (assert_avoids nofun) fun _ _ ↦ Avoids.ok
  · refine Avoids.bind Avoids.ok fun _ _ ↦ ?_
    exact Avoids.bind (assert_avoids nofun) fun _ _ ↦ Avoids.ok

theorem trimBlock_avoids (block size : ℕ) : Avoids (trimBlock s block size) (· = .diverges) := by
  unfold trimBlock
  refine Avoids.ite (fun _ ↦ ?_) fun _ ↦ Avoids.ok
  unfold splitBlock
  refine Avoids.bind (assert_avoids nofun) fun _ _ ↦ Avoids.ite (fun _ ↦ ?_) fun _ ↦ Avoids.ok
  exact Avoids.ite (fun _ ↦ Avoids.ok) fun _ ↦ Avoids.ok

/-- On a tiled heap the search for a block comes to its end. -/
theorem kmalloc_avoids (h : Tiled s bs) (n : ℕ) : Avoids (kmalloc s n) (· = .diverges) := by
  rcases kmalloc_cases h n with ⟨-, hrun⟩ | ⟨-, -, hrun⟩ | ⟨-, l, b, r, -, -, hrun⟩
  · rw [hrun]
    exact Avoids.ok
  · rw [hrun]
    exact Avoids.bind (extendHeap_avoids _ _) fun _ _ ↦ Avoids.ite (fun _ ↦ Avoids.ok) fun _ ↦
      Avoids.ok
  · rw [hrun]
    exact Avoids.bind (trimBlock_avoids _ _) fun _ _ ↦ Avoids.ok

/-! ### Which requests are served within the heap -/

/-- A request that is not too large is. -/
theorem kmallocInside_of_le (h : HeapInvariant s bs) (hn : n ≤ maxRequest) : KmallocInside s n := by
  cases hcall : kmalloc s n with
  | error stop =>
    cases stop with
    | assertion which => exact Or.inl ⟨which, hcall⟩
    | diverges => exact absurd rfl (kmalloc_avoids h.toTiled n _ hcall)
  | ok r =>
    refine Or.inr ⟨r.1, r.2, hcall, ?_⟩
    rcases kmalloc_spec h hn r hcall with ⟨-, rfl⟩ | ⟨bs', halloc⟩
    · exact Or.inl rfl
    · obtain ⟨k, hle, hused⟩ := halloc.used_eq
      have hp : used r.1.heapBegin bs' r.2 = some k := by
        rw [halloc.heapBegin_eq, hused, Function.update_self]
      have hbounds := used_bounds hp
      have hsize := (blockSize_spec hn).1
      have hend := halloc.invariant.end_eq
      exact Or.inr ⟨by omega, by omega⟩

/-- A request that is too large fits no block, so that the heap would have to grow. -/
theorem kmalloc_large (h : Tiled s bs) (hn : maxRequest < n) (h64 : n < 2 ^ 64)
    (hne : blockSize n ≠ 0) :
    kmalloc s n = (extendHeap s (lastStart 0 s.heapBegin bs) (blockSize n) >>= fun r ↦
      if r.2 = 0 then .ok (r.1, 0)
      else .ok ({ r.1 with globalBase := if bs = [] then r.2 else r.1.globalBase },
        add64 r.2 ablockSize)) := by
  have hlarge := blockSize_large hn h64 hne
  unfold maxRequest at hlarge
  have hbound := h.bound
  have hpos := h.positive
  rcases kmalloc_cases h n with ⟨hzero, -⟩ | ⟨-, -, hrun⟩ | ⟨-, l, b, r, rfl, hb, -⟩
  · exact absurd hzero hne
  · exact hrun
  · have hle := hb.2
    simp only [span_append, span_cons] at hbound
    omega

/-- The new end of the heap is below the end of the block. -/
theorem increment_lt (hn : maxRequest < n) (hinc : 0 ≤ increment n) : increment n < n + 32 := by
  by_contra hge
  have hsmall := (toInt32_bounds (add64 (blockSize n) ablockSize)).2
  have hneg := increment_neg hn (by unfold increment at hge; omega)
  omega

/-- Adding to an `int` that is not negative gives at most the sum. -/
theorem toInt32_add_le {a b : ℤ} (ha : 0 ≤ a) (hb : 0 ≤ b) : toInt32 (a + b) ≤ a + b := by
  rcases lt_or_ge (a + b) (2 ^ 31) with hlt | hge
  · rw [toInt32_eq (by omega) hlt]
  · exact ((toInt32_bounds (a + b)).2.trans_le hge).le

/-- A request that is too large and is not caught is answered with bytes outside the heap. -/
theorem kmalloc_outside (h : Tiled s bs) (h64 : n < 2 ^ 64) (hfits : ¬ RequestFits s n) :
    ∃ s' p, kmalloc s n = .ok (s', p) ∧ p ≠ 0 ∧ (s'.heapBegin : ℤ) + s'.endOffset < p + n := by
  unfold RequestFits at hfits
  simp only [not_or, not_le, not_lt] at hfits
  obtain ⟨hn, hne, hinc, hend, hmoved⟩ := hfits
  have hbound := h.bound
  have hpos := h.positive
  have hrun := kmalloc_large h hn h64 hne
  rw [extendHeap_increment h hinc, if_neg (not_or.mpr ⟨not_lt.mpr hend, not_lt.mpr hmoved⟩),
    ok_bind] at hrun
  have hbelow := increment_lt hn hinc
  have hmod : toInt32 (span bs + increment n) ≤ span bs + increment n :=
    toInt32_add_le (Int.natCast_nonneg _) hinc
  generalize increment n = inc at *
  generalize blockSize n = size at *
  have hadd : add64 (s.heapBegin + span bs) ablockSize = s.heapBegin + span bs + 32 :=
    add64_eq (by unfold ablockSize; omega)
  obtain ⟨hbegin, hoffset⟩ := appendBlock_fields { s with endOffset := toInt32 (span bs + inc) }
    (lastStart 0 s.heapBegin bs) (s.heapBegin + span bs) size
  dsimp only at hrun hbegin hoffset
  rw [if_neg (by omega), hadd] at hrun
  refine ⟨_, _, hrun, by omega, ?_⟩
  dsimp only
  rw [hbegin, hoffset]
  push_cast
  omega

/-- A request that is too large and is caught changes nothing, or it stops the program. -/
theorem kmalloc_caught (h : Tiled s bs) (hn : maxRequest < n) (h64 : n < 2 ^ 64)
    (hfits : RequestFits s n) :
    kmalloc s n = .ok (s, 0) ∨ ∃ which, kmalloc s n = .error (.assertion which) := by
  by_cases hne : blockSize n = 0
  · refine Or.inl ?_
    unfold kmalloc
    rw [if_pos hne]
  have hcaught : ∃ which, extendHeap s (lastStart 0 s.heapBegin bs) (blockSize n) =
      .error (.assertion which) := by
    rcases lt_or_ge (increment n) 0 with hneg | hpos
    · exact extendHeap_negative h hneg
    · rw [extendHeap_increment h hpos]
      rcases hfits with hfits | hfits | hfits | hfits
      · omega
      · exact absurd hfits hne
      · omega
      · rw [if_pos hfits]
        exact ⟨_, rfl⟩
  obtain ⟨which, hstop⟩ := hcaught
  refine Or.inr ⟨which, ?_⟩
  rw [kmalloc_large h hn h64 hne, hstop, error_bind]

theorem kmallocInside_iff_of_invariant (h : HeapInvariant s bs) (h64 : n < 2 ^ 64) :
    KmallocInside s n ↔ RequestFits s n := by
  constructor
  · intro hinside
    by_contra hfits
    obtain ⟨s', p, hcall, hne, hout⟩ := kmalloc_outside h.toTiled h64 hfits
    rcases hinside with ⟨which, hstop⟩ | ⟨s₁, p₁, hcall₁, hrange⟩
    · rw [hcall] at hstop
      cases hstop
    · rw [hcall] at hcall₁
      obtain ⟨rfl, rfl⟩ := Prod.mk.inj (Except.ok.inj hcall₁)
      rcases hrange with hnull | ⟨-, hle⟩
      · exact hne hnull
      · omega
  · intro hfits
    rcases Nat.lt_or_ge maxRequest n with hn | hn
    · exact (kmalloc_caught h.toTiled hn h64 hfits).elim
        (fun hnull ↦ Or.inr ⟨s, 0, hnull, Or.inl rfl⟩) Or.inl
    · exact kmallocInside_of_le h hn

/-- A reallocation for a size that is too large asks for another block. -/
theorem krealloc_large {k : ℕ} (h : Tiled s bs) (hp : used s.heapBegin bs p = some k)
    (hn : maxRequest < n) (hfits : RequestFits s (blockSize n)) (h64 : n < 2 ^ 64) :
    krealloc s p n = .ok (s, 0) ∨ ∃ which, krealloc s p n = .error (.assertion which) := by
  obtain ⟨hne, hsize, -⟩ := h.size_used hp
  have hbound := h.bound
  have hup := used_bounds hp
  have hmax : maxRequest = 2 ^ 30 - 32 := rfl
  unfold krealloc
  rw [if_neg hne]
  dsimp only
  rw [hsize, if_neg (by omega)]
  have hstay : ¬ (s.next (getBlockPtr p) ≠ 0 ∧ s.free (s.next (getBlockPtr p)) ≠ 0 ∧
      n ≤ add64 (add64 (s.size (s.next (getBlockPtr p))) ablockSize) k) := by
    rintro ⟨hnext, -, hle⟩
    obtain ⟨l, r, rfl, rfl⟩ := used_eq_some.mp hp
    rw [h.getBlockPtr_eq] at hnext hle
    cases r with
    | nil => exact hnext (by rw [AllocState.next_eq, h.header, link_nil])
    | cons c r =>
      simp only [span_append, span_cons] at hbound
      rw [h.size_next, ablockSize, add64_eq (a := c.size) (by omega), add64_eq (by omega)] at hle
      omega
  rw [if_neg hstay]
  have hcaught : kmalloc s (blockSize n) = .ok (s, 0) ∨
      ∃ which, kmalloc s (blockSize n) = .error (.assertion which) := by
    by_cases hzero : blockSize n = 0
    · refine Or.inl ?_
      rw [hzero]
      unfold kmalloc
      rw [if_pos (by decide)]
    · exact kmalloc_caught h (blockSize_large hn h64 hzero) (Nat.mod_lt _ (by decide)) hfits
  rcases hcaught with hnull | ⟨which, hstop⟩
  · refine Or.inl ?_
    rw [hnull, ok_bind]
    rfl
  · refine Or.inr ⟨which, ?_⟩
    rw [hstop, error_bind]

/-! ### Runs of requests of any size -/

/-- The steps of a program whose requests may be of any size that a `size_t` holds. -/
inductive AnyStep : Session → Call → Session → Prop
  | modest {σ σ' : Session} {c : Call} (h : CallStep σ c σ') : AnyStep σ c σ'
  | malloc {s s' : AllocState} {live : ℕ → Option ℕ} {size ptr : ℕ} (h64 : size < 2 ^ 64)
      (h : kmalloc s size = .ok (s', ptr)) :
      AnyStep ⟨s, live⟩ (.malloc size) ⟨s', Session.returned live ptr size⟩
  | reallocNull {s s' : AllocState} {live : ℕ → Option ℕ} {size ptr : ℕ} (h64 : size < 2 ^ 64)
      (h : krealloc s 0 size = .ok (s', ptr)) :
      AnyStep ⟨s, live⟩ (.realloc 0 size) ⟨s', Session.returned live ptr size⟩
  | realloc {s s' : AllocState} {live : ℕ → Option ℕ} {old size ptr : ℕ} (h64 : size < 2 ^ 64)
      (hold : (live old).isSome) (h : krealloc s old size = .ok (s', ptr)) :
      AnyStep ⟨s, live⟩ (.realloc old size)
        ⟨s', if ptr = 0 then live else Session.returned (Function.update live old none) ptr size⟩

/-- The request of a call, if it makes one of `kmalloc`, is one that is served within the heap. -/
def CallFits (s : AllocState) : Call → Prop
  | .malloc size => RequestFits s size
  | .realloc ptr size =>
    if ptr = 0 then RequestFits s size else size ≤ maxRequest ∨ RequestFits s (blockSize size)
  | _ => True

/-- The runs of requests of any size of which each fits when it is made. -/
abbrev FittingRun : List (Transition Session Call) → Session → Prop :=
  Run FreshHeap fun σ c σ' ↦ AnyStep σ c σ' ∧ CallFits σ.heap c

theorem SessionInvariant.malloc_any {live : ℕ → Option ℕ} (h : SessionInvariant ⟨s, live⟩ bs)
    (h64 : n < 2 ^ 64) (hfits : RequestFits s n) (hcall : kmalloc s n = .ok (s', p)) :
    ∃ bs', SessionInvariant ⟨s', Session.returned live p n⟩ bs' := by
  rcases Nat.lt_or_ge maxRequest n with hn | hn
  · rcases kmalloc_caught h.toTiled hn h64 hfits with hnull | ⟨which, hstop⟩
    · obtain ⟨rfl, rfl⟩ := Prod.mk.inj (Except.ok.inj (hcall.symm.trans hnull))
      exact ⟨bs, by rwa [Session.returned, if_pos rfl]⟩
    · rw [hstop] at hcall
      cases hcall
  · exact h.malloc hn hcall

theorem SessionInvariant.any_step {c : Call} (h : SessionInvariant σ bs) (hstep : AnyStep σ c σ')
    (hfits : CallFits σ.heap c) : ∃ bs', SessionInvariant σ' bs' := by
  cases hstep with
  | modest hstep => exact h.step hstep
  | malloc h64 hcall => exact h.malloc_any h64 hfits hcall
  | reallocNull h64 hcall =>
    rw [krealloc, if_pos rfl] at hcall
    exact h.malloc_any h64 (by simpa [CallFits] using hfits) hcall
  | @realloc s s' live old size ptr h64 hold hcall =>
    obtain ⟨-, k, -, hused, -⟩ := h.used_of_live hold
    rcases Nat.lt_or_ge maxRequest size with hn | hn
    · rw [CallFits, if_neg (h.size_used hused).1] at hfits
      have hfits' := hfits.resolve_left (by omega)
      rcases krealloc_large h.toTiled hused hn hfits' h64 with hnull | ⟨which, hstop⟩
      · obtain ⟨rfl, rfl⟩ := Prod.mk.inj (Except.ok.inj (hcall.symm.trans hnull))
        exact ⟨bs, by rwa [if_pos rfl]⟩
      · rw [hstop] at hcall
        cases hcall
    · exact h.realloc hn hold hcall

theorem FittingRun.invariant {history : List (Transition Session Call)}
    (hrun : FittingRun history σ) : ∃ bs, SessionInvariant σ bs :=
  Run.state_invariant (I := fun σ ↦ ∃ bs, SessionInvariant σ bs) (fun _ h ↦ ⟨[], .fresh h⟩)
    (fun _ _ _ ⟨_, h⟩ hstep ↦ h.any_step hstep.1 hstep.2) hrun

/-- In every state that is reached by requests that fit, the next request is served within the heap
exactly when it fits. -/
theorem FittingRun.kmallocInside_iff {history : List (Transition Session Call)}
    (hrun : FittingRun history σ) (h64 : n < 2 ^ 64) :
    KmallocInside σ.heap n ↔ RequestFits σ.heap n := by
  obtain ⟨bs, hinv⟩ := hrun.invariant
  exact kmallocInside_iff_of_invariant hinv.toHeapInvariant h64

/-- The next request finds two blocks in use and a free one between them. -/
theorem FittingRun.kmallocInside_iff_three : ∃ history s, FittingRun history ⟨s, liveTwo⟩ ∧
    history.length = 4 ∧ s.free (getBlockPtr 0x1060) = 1 ∧
      (KmallocInside s 0x80000000 ↔ RequestFits s 0x80000000) := by
  obtain ⟨s₁, s₂, s₃, s₄, h⟩ := exists_threeBlocks
  have hfits {s : AllocState} {n : ℕ} (hn : n ≤ maxRequest) : CallFits s (.malloc n) := .inl hn
  have hrun :
    FittingRun _ ⟨s₄, liveTwo⟩ := .next (.next (.next (.next (.start freshHeap_smallSession)
    ⟨.modest (.malloc (by decide) h.first), hfits (by decide)⟩)
    ⟨.modest (.malloc (by decide) h.second), hfits (by decide)⟩)
    ⟨.modest (.malloc (by decide) h.third), hfits (by decide)⟩)
    ⟨.modest (.free (by decide) h.released), trivial⟩
  have h64 : 0x80000000 < 2 ^ 64 := by omega
  have hinside := FittingRun.kmallocInside_iff hrun h64
  exact ⟨_, s₄, hrun, rfl, h.free, hinside⟩

/-- A request for `2 ^ 32 - 32` bytes, the first of a program, is answered with a pointer, and the
heap has not grown at all. -/
theorem not_kmallocInside_large :
    FreshHeap smallSession ∧ ¬ KmallocInside smallSession.heap (2 ^ 32 - 32) := by
  refine ⟨freshHeap_smallSession, ?_⟩
  have hresult : (kmalloc smallSession.heap (2 ^ 32 - 32)).toOption.map
      (fun r ↦ (r.2, r.1.heapBegin, r.1.endOffset)) = some (0x1020, 0x1000, 0) := by decide +kernel
  rintro (⟨which, hstop⟩ | ⟨s', p, hcall, hrange⟩)
  · rw [hstop] at hresult
    cases hresult
  · rw [hcall] at hresult
    obtain ⟨hp, hbegin, hend⟩ : p = 0x1020 ∧ s'.heapBegin = 0x1000 ∧ s'.endOffset = 0 := by
      simpa [Except.toOption] using hresult
    omega

end SysresOs.Memory
