import SysresOs.Memory.Requests

/-!
# Giving pages back

`ksbrk` with a negative increment gives pages back to the memory manager, counted from the page of
the old end of the heap downwards. When the old end is at the beginning of a page, this page is not
in the heap; when the new end is inside a page, the page is given back although the heap still has
it. `freesDropped_iff` says that the pages given back are those that the heap has left exactly when
the old end is inside a page and the new end is not.
-/

set_option autoImplicit false
set_option relaxedAutoImplicit false

namespace SysresOs.Memory

variable {s : AllocState}

/-- The page that an address is in. -/
def pageOf (a : ℕ) : ℕ := a / granule

/-- The calls of `usr_free_virtual_page` that `ksbrk` makes. -/
def freeCalls (s : AllocState) (increment : ℤ) : List ℕ :=
  match ksbrk s increment with
  | .ok (s', _) => s'.freeRequests.drop s.freeRequests.length
  | .error _ => []

/-- The pages that a range of addresses intersects. -/
def pagesOf (first last : ℤ) : Set ℕ := {page | ∃ a : ℕ, first ≤ a ∧ a < last ∧ pageOf a = page}

/-- The pages that are given back are those that are in the old heap and not in the new one. -/
def FreesDropped (s : AllocState) (increment : ℤ) : Prop :=
  {page | ∃ a ∈ freeCalls s increment, pageOf a = page} =
    pagesOf s.heapBegin (s.heapBegin + s.endOffset) \
      pagesOf s.heapBegin (s.heapBegin + s.endOffset + increment)

theorem mem_pagesOf {first last : ℤ} (hfirst : (granule : ℤ) ∣ first) (page : ℕ) :
    page ∈ pagesOf first last ↔ first ≤ page * granule ∧ page * granule < last := by
  unfold pagesOf pageOf
  have hgranule : granule = 4096 := rfl
  rw [hgranule] at *
  have hdvd : (4096 : ℤ) ∣ first := by exact_mod_cast hfirst
  constructor
  · rintro ⟨a, hle, hlt, rfl⟩
    push_cast
    omega
  · rintro ⟨hle, hlt⟩
    exact ⟨page * 4096, by push_cast; exact hle, by push_cast; exact hlt, by omega⟩

/-- The pages that are freed, when the new end of the heap is not above `HEAP_MAX`: from that of the
old end down to that of the new end, or to the one above if the old end is at the beginning of a
page. -/
theorem mem_freeCalls {old new : ℕ} (hold : s.heapBegin + s.endOffset = old) (h31 : old < 2 ^ 31)
    {increment : ℤ} (hnew : (old : ℤ) + increment = new) (hneg : increment < 0)
    (hmax : (new : ℤ) ≤ heapMax) (page : ℕ) : (∃ a ∈ freeCalls s increment, pageOf a = page) ↔
      page ≤ pageOf old ∧ (pageOf new < page ∨ pageOf new = page ∧ old % granule ≠ 0) := by
  have hgranule : granule = 4096 := rfl
  have hres : toInt32 (s.endOffset + s.heapBegin) = old := by
    rw [add_comm, hold, toInt32_eq (by omega) (by omega)]
  have hmoved : toInt32 (old + increment) = new := by
    rw [hnew, toInt32_eq (by omega) (by omega)]
  have hpages : pagesToFree old increment = pageOf old - pageOf new + if old % granule = 0 then 0
      else 1 := by
    unfold pagesToFree pageOf
    rw [hmoved, Int.tdiv_eq_ediv_of_nonneg (by omega), Int.tdiv_eq_ediv_of_nonneg (by omega),
      Int.tmod_eq_emod_of_nonneg (by omega), hgranule]
    have hmod : ((old : ℤ) % ((4096 : ℕ) : ℤ) = 0) = (old % 4096 = 0) := by
      rw [eq_iff_iff]
      omega
    rw [if_congr (iff_of_eq hmod) rfl rfl, toInt32_eq]
    · omega
    · split_ifs <;> omega
    · split_ifs <;> omega
  have hcalls : freeCalls s increment = (List.range (pagesToFree old increment).toNat).map fun i ↦
      old - i * granule := by
    unfold freeCalls ksbrk
    simp only [hres, hmoved, gt_iff_lt, if_neg (not_lt.mpr hmax), if_pos hneg]
    rw [List.drop_left]
    refine List.map_congr_left fun i hi ↦ ?_
    have hlt := List.mem_range.mp hi
    rw [hpages] at hlt
    unfold pageOf at hlt
    rw [hgranule] at *
    have hle : i * 4096 ≤ old := by
      split_ifs at hlt <;> omega
    rw [toInt32_eq (by push_cast; omega) (by push_cast; omega)]
    unfold ofInt32
    push_cast
    omega
  rw [hcalls, hpages]
  simp only [List.mem_map, List.mem_range]
  unfold pageOf
  rw [hgranule]
  constructor
  · rintro ⟨a, ⟨i, hi, rfl⟩, rfl⟩
    split_ifs at hi <;> omega
  · rintro ⟨hle, hge⟩
    refine ⟨_, ⟨old / 4096 - page, ?_, rfl⟩, ?_⟩
    · split_ifs <;> omega
    · omega

/-- The end of the heap may be moved down to any place in the heap. The pages that are given back
are those that the heap leaves exactly when the old end is inside a page and the new end is at the
beginning of one, or when nothing is given back, since the new end is above `HEAP_MAX`, and no page
is left. -/
theorem freesDropped_iff {increment : ℤ} (hbegin : granule ∣ s.heapBegin) (hpos : 0 ≤ s.endOffset)
    (h31 : s.heapBegin + s.endOffset < 2 ^ 31) (hneg : increment < 0)
    (hnew : 0 ≤ s.endOffset + increment) : FreesDropped s increment ↔
      if s.heapBegin + s.endOffset + increment ≤ heapMax then
        ¬ (granule : ℤ) ∣ s.heapBegin + s.endOffset ∧
        (granule : ℤ) ∣ s.heapBegin + s.endOffset + increment
      else (s.heapBegin + s.endOffset + increment + granule - 1) / granule =
        (s.heapBegin + s.endOffset + granule - 1) / granule := by
  obtain ⟨old, hold⟩ : ∃ old : ℕ, s.heapBegin + s.endOffset = old :=
    ⟨(s.heapBegin + s.endOffset).toNat, by omega⟩
  obtain ⟨new, hnewEq⟩ : ∃ new : ℕ, (old : ℤ) + increment = new :=
    ⟨(old + increment).toNat, by omega⟩
  have hgranule : (granule : ℤ) = 4096 := rfl
  have hgranule' : granule = 4096 := rfl
  have hdvd : (granule : ℤ) ∣ s.heapBegin := by exact_mod_cast hbegin
  unfold FreesDropped
  rw [hold, hnewEq, Set.ext_iff]
  simp only [Set.mem_ofPred_eq, Set.mem_sdiff, mem_pagesOf hdvd]
  by_cases hmax : (new : ℤ) ≤ heapMax
  · rw [if_pos hmax]
    simp only [mem_freeCalls hold (by omega) hnewEq hneg hmax]
    unfold pageOf
    rw [hgranule, hgranule'] at *
    refine ⟨fun hpages ↦ ⟨fun haligned ↦ ?_, ?_⟩, fun ⟨hold', hnew'⟩ page ↦ ?_⟩
    · -- the page that begins at the old end
      have hpage := hpages (old / 4096)
      push_cast at hpage
      omega
    · -- the page that the new end is in
      by_contra hinside
      have hpage := hpages (new / 4096)
      have hpage' := hpages (old / 4096)
      push_cast at hpage hpage'
      omega
    · omega
  · rw [if_neg hmax]
    have hnone : freeCalls s increment = [] := by
      have hres : toInt32 (s.endOffset + s.heapBegin) = old := by
        rw [add_comm, hold, toInt32_eq (by omega) (by omega)]
      have hmoved : toInt32 (old + increment) = new := by
        rw [hnewEq, toInt32_eq (by omega) (by omega)]
      unfold freeCalls ksbrk
      simp only [hres, hmoved, gt_iff_lt, if_pos (not_le.mp hmax)]
    simp only [hnone, List.not_mem_nil, false_and, exists_false, false_iff]
    rw [hgranule] at *
    clear hmax hnone h31
    refine ⟨fun hpages ↦ ?_, fun hsame page ↦ ?_⟩
    · -- the page that begins at the new end, or behind it
      have hpage := hpages ((new + 4095) / 4096)
      push_cast at hpage
      omega
    · omega

/-- The end moves from inside a page to the beginning of one. -/
theorem freesDropped_iff_inside : ∃ s : AllocState, FreesDropped s (-4097) :=
  ⟨⟨fun _ ↦ 0, 0x1000, 0x1001, 0x1000, []⟩,
    (freesDropped_iff (by decide) (by decide) (by decide) (by decide) (by decide)).mpr (by decide)⟩

/-- The heap ends at the beginning of a page and shrinks by a page: this page is given back, and so
is not the one that the heap has left. -/
theorem not_freesDropped_aligned : ∃ s : AllocState, s.heapBegin = 0x1000 ∧ s.endOffset = 0x2000 ∧
    freeCalls s (-0x1000) = [0x3000] ∧ ¬ FreesDropped s (-0x1000) := by
  refine ⟨⟨fun _ ↦ 0, 0x1000, 0x2000, 0x1000, []⟩,
    rfl, rfl, by decide, fun hsame ↦ ?_⟩
  have hfreed : 3 ∈ pagesOf 0x1000 (0x1000 + 0x2000) := by
    have hmem := (Set.ext_iff.mp hsame 3).mp ⟨0x3000, by decide, by decide⟩
    exact hmem.1
  have hbelow := ((mem_pagesOf (by decide) 3).mp hfreed).2
  exact absurd hbelow (by decide)

end SysresOs.Memory
