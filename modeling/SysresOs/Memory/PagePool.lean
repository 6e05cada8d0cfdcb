import SysresOs.Memory.Zone

/-!
# The pool of free pages

`init_physical_memory_map` fills the map with the pages from `id_paging_size` on and skips some that
belong to peripherals: entry `i` is the page number `poolPage q i`, where `q` is the number of the
first page (`initPhysicalMemoryMap_map`). The map is used as a stack. `getNewPage_eq` and
`freeVirtualPage_eq` say what taking a page from it and giving one back do.
-/

set_option autoImplicit false
set_option relaxedAutoImplicit false

namespace SysresOs.Mmu

open SysresOs.Loop SysresOs.Outcome

/-! ### The initial map -/

/-- The number of pages skipped in the first `n` rounds, from the page `q` on: the timer page, then
`GPIO_BASE`, then `GPIO_BASE + 0x15000`. The page `GPIO_BASE + 0x1000` is not tested, since the
round that skips `GPIO_BASE` stores it. -/
def skipped (q n : ℕ) : ℕ :=
  if n + q ≤ 0x3f00b then 0 else if n + q < 0x3f200 then 1 else if n + q + 1 < 0x3f215 then 2 else 3

/-- The page that round `i` stores. -/
def poolPage (q i : ℕ) : ℕ := i + q + skipped q (i + 1)

theorem skipped_le (q n : ℕ) : skipped q n ≤ 3 := by
  unfold skipped
  split_ifs <;> omega

theorem skipped_mono (q : ℕ) {n m : ℕ} (h : n ≤ m) : skipped q n ≤ skipped q m := by
  unfold skipped
  split_ifs <;> omega

theorem poolPage_lt {q i j : ℕ} (h : i < j) : poolPage q i < poolPage q j := by
  have hmono := skipped_mono q (show i + 1 ≤ j + 1 by omega)
  unfold poolPage
  omega

theorem poolPage_injective (q : ℕ) : Function.Injective (poolPage q) :=
  StrictMono.injective fun _ _ h ↦ poolPage_lt h

variable {id : Word} {q n d : ℕ}

theorem toNat_pageToFill (hq : id.toNat = 0x1000 * q) (hid : q ≤ 0x3f000) (hn : n < 0x40000)
    (hd : d ≤ 3) :
    (pageToFill id (BitVec.ofNat 32 n) (BitVec.ofNat 32 d)).toNat = 0x1000 * (n + d + q) := by
  have hgranule : (0x1000 : BitVec 32).toNat = 0x1000 := rfl
  rw [pageToFill, BitVec.toNat_add, BitVec.toNat_setWidth, BitVec.toNat_mul, BitVec.toNat_add,
    BitVec.toNat_ofNat, BitVec.toNat_ofNat, hgranule, hq]
  omega

theorem skipPeripheral_eq (hq : id.toNat = 0x1000 * q) (hid : q ≤ 0x3f000) (hn : n < 0x40000) :
    skipPeripheral id (BitVec.ofNat 32 n) (BitVec.ofNat 32 (skipped q n)) =
      BitVec.ofNat 32 (skipped q (n + 1)) := by
  have hpage := toNat_pageToFill hq hid hn (skipped_le q n)
  have heq (c : Word) : pageToFill id (BitVec.ofNat 32 n) (BitVec.ofNat 32 (skipped q n)) = c ↔
      0x1000 * (n + skipped q n + q) = c.toNat := by
    rw [← BitVec.toNat_inj, hpage]
  have hgpio : gpioBase.toNat = 0x1000 * 0x3f200 := rfl
  have hgpio' : (gpioBase + 0x1000).toNat = 0x1000 * 0x3f201 := rfl
  have hgpio'' : (gpioBase + 0x15000).toNat = 0x1000 * 0x3f215 := rfl
  have htimer : timerIrqPage.toNat = 0x1000 * 0x3f00b := rfl
  have hstep : skipped q (n + 1) = if n + skipped q n + q = 0x3f200 ∨
      n + skipped q n + q = 0x3f201 ∨
      n + skipped q n + q = 0x3f215 ∨ n + skipped q n + q = 0x3f00b then skipped q n + 1
      else skipped q n := by
    unfold skipped
    split_ifs <;> omega
  simp only [skipPeripheral, heq, hgpio, hgpio', hgpio'', htimer,
    Nat.mul_right_inj (show 0x1000 ≠ 0 by decide)]
  rw [hstep]
  split_ifs
  · exact (BitVec.ofNat_add _ _).symm
  · rfl

variable {s : MmuState}

/-- The map after `n` rounds from the page `q` on. -/
def filledMap (map : ℕ → BitVec 32) (q n : ℕ) : ℕ → BitVec 32 := fun i ↦
  if i < n then BitVec.ofNat 32 (0x1000 * poolPage q i) else map i

theorem deltaAfter_eq (hq : id.toNat = 0x1000 * q) (hid : q ≤ 0x3f000) (hn : n < 0x40000) :
    deltaAfter id n = BitVec.ofNat 32 (skipped q n) := by
  induction n with
  | zero =>
    have hskipped : skipped q 0 = 0 := by
      unfold skipped
      rw [if_pos (by omega)]
    rw [deltaAfter, hskipped]
    rfl
  | succ n ih => rw [deltaAfter, ih (by omega), skipPeripheral_eq hq hid (by omega)]

theorem fillMap_eq (hhead : s.physicalMemoryMap.head = 0) (hq : s.idPagingSize.toNat = 0x1000 * q)
    (hid : q ≤ 0x3f000) (hn : n < 0x40000) :
    fillMap n s = { s with physicalMemoryMap :=
      { s.physicalMemoryMap with map := filledMap s.physicalMemoryMap.map q n } } := by
  refine forUpTo_invariant (I := fun (k : ℕ) (t : MmuState) ↦ t = { s with physicalMemoryMap :=
    { s.physicalMemoryMap with map := filledMap s.physicalMemoryMap.map q k } }) rfl ?_
  rintro i hi t rfl
  have hindex : (s.physicalMemoryMap.head + BitVec.ofNat 32 i).toNat = i := by
    have hzero : (0 : BitVec 32).toNat = 0 := rfl
    rw [hhead, BitVec.toNat_add, hzero, BitVec.toNat_ofNat]
    omega
  have hvalue : (pageToFill s.idPagingSize (BitVec.ofNat 32 i)
      (BitVec.ofNat 32 (skipped q (i + 1)))).setWidth 32 =
      BitVec.ofNat 32 (0x1000 * poolPage q i) := by
    have hle := skipped_le q (i + 1)
    apply BitVec.eq_of_toNat_eq
    rw [BitVec.toNat_setWidth, toNat_pageToFill hq hid (by omega) hle, BitVec.toNat_ofNat, poolPage]
    omega
  have hmap : Function.update (filledMap s.physicalMemoryMap.map q i) i
      (BitVec.ofNat 32 (0x1000 * poolPage q i)) = filledMap s.physicalMemoryMap.map q (i + 1) := by
    funext j
    rw [Function.update_apply, filledMap, filledMap]
    by_cases hj : j = i
    · rw [if_pos hj, if_pos (by omega), hj]
    · rw [if_neg hj]
      exact if_congr (by omega) rfl rfl
  dsimp only
  rw [deltaAfter_eq hq hid (by omega), hindex, hvalue, hmap]

theorem poolSize_eq (hq : id.toNat = 0x1000 * q) (hid : q ≤ 0x3f000) :
    poolSize id = 0x3fffd - q := by
  have hram : ramSize.toNat = 0x40000000 := rfl
  have hgranule : granule.toNat = 0x1000 := rfl
  have hthree : (3 : Word).toNat = 3 := rfl
  have hdiv : ((ramSize - id) / granule).toNat = 0x40000 - q := by
    rw [BitVec.toNat_udiv, BitVec.toNat_sub, hram, hgranule, hq]
    omega
  rw [poolSize, BitVec.toNat_sub, hdiv, hthree]
  omega

theorem clearCounters_eq (s : MmuState) (first rounds : ℕ) (hrounds : first + rounds ≤ 0x40000) :
    ∃ counters, clearCounters first rounds s = { s with counters := counters } ∧
      ∀ pa : Word, first ≤ pa.toNat / 0x1000 → pa.toNat / 0x1000 < first + rounds →
        getBindCounter { s with counters := counters } pa = 0 := by
  have hgranule : granule.toNat = 0x1000 := rfl
  refine forUpTo_invariant (I := fun (k : ℕ) (t : MmuState) ↦ ∃ counters,
    t = { s with counters := counters } ∧
      ∀ pa : Word, first ≤ pa.toNat / 0x1000 → pa.toNat / 0x1000 < first + k →
        getBindCounter { s with counters := counters } pa = 0)
    ⟨s.counters, rfl, fun pa _ _ ↦ by omega⟩ ?_
  rintro i hi t ⟨counters, rfl, hzero⟩
  refine ⟨_, rfl, fun pa hlow hhigh ↦ ?_⟩
  have hpage : (BitVec.ofNat 64 (first + i) * granule).toNat / 0x1000 = first + i := by
    rw [BitVec.toNat_mul, BitVec.toNat_ofNat, hgranule]
    omega
  have hset := getBindCounter_setBindCounter { s with counters := counters }
    (BitVec.ofNat 64 (first + i) * granule) pa 0
  rw [hpage] at hset
  refine hset.trans ?_
  split_ifs with hpa
  · rfl
  · exact hzero pa hlow (by omega)

/-- What `init_physical_memory_map` does: it fills the map, and clears the counters of all pages
from `id_paging_size` on. -/
theorem initPhysicalMemoryMap_eq (L : Layout) (hq : s.idPagingSize.toNat = 0x1000 * q)
    (hid : q ≤ 0x3f000) :
    ∃ counters, initPhysicalMemoryMap L s =
      { resetMap L s with
        counters := counters
        physicalMemoryMap :=
          { (resetMap L s).physicalMemoryMap with
            map := filledMap s.physicalMemoryMap.map q (0x3fffd - q) } } ∧
      ∀ pa : Word, q ≤ pa.toNat / 0x1000 → pa.toNat < 0x40000000 →
        getBindCounter { resetMap L s with counters := counters } pa = 0 := by
  have hfirst : (s.idPagingSize / granule).toNat = q := by
    have hgranule : granule.toNat = 0x1000 := rfl
    rw [BitVec.toNat_udiv, hq, hgranule]
    omega
  obtain ⟨rounds, hrounds⟩ : ∃ rounds, 512 * 512 - q = rounds := ⟨_, rfl⟩
  obtain ⟨n, hn⟩ : ∃ n, 0x3fffd - q = n := ⟨_, rfl⟩
  obtain ⟨counters, hcounters, hzero⟩ := clearCounters_eq (resetMap L s) q rounds (by omega)
  refine ⟨counters, ?_, fun pa hlow hram ↦ hzero pa hlow (by omega)⟩
  rw [initPhysicalMemoryMap, hfirst, poolSize_eq hq hid, hn, hrounds, hcounters]
  exact fillMap_eq rfl hq hid (by omega)

/-! ### Taking a page and giving one back -/

variable {L : Layout} {va pa e : Word}

/-- The next free page. -/
def nextFreePage (s : MmuState) : Word :=
  (s.physicalMemoryMap.map s.physicalMemoryMap.head.toNat).setWidth 64

/-- The state after the next free page is taken from the map. -/
def pageTaken (s : MmuState) : MmuState :=
  { s with physicalMemoryMap :=
    { s.physicalMemoryMap with head := s.physicalMemoryMap.head + 1 } }

theorem getUnboundPhysicalPage_eq (h : s.physicalMemoryMap.head < s.physicalMemoryMap.size) :
    getUnboundPhysicalPage s = .ok (pageTaken s, nextFreePage s) := by
  rw [getUnboundPhysicalPage, assert_pos h]
  rfl

/-- `get_new_page` for a page whose level-2 entry is not in its own table. -/
theorem getNewPage_apart (perm cache : Word) (hconf : Configured L s)
    (hroot : Rooted s.lvl2TableAddress)
    (hapart : RowApart s.words s.lvl2TableAddress (page va / 512))
    (hhead : s.physicalMemoryMap.head < s.physicalMemoryMap.size) (hva : va.toNat < 2 ^ 30)
    (haligned : (nextFreePage s).toNat % 0x1000 = 0) (hram : (nextFreePage s).toNat < 0x40000000) :
    getNewPage s va perm cache = .ok (bound (pageTaken s) (page va) (nextFreePage s)
      (withAttributes (nextFreePage s) (newBlockAttributesSg1 perm cache)), 0) := by
  rw [getNewPage, getUnboundPhysicalPage_eq hhead, ok_bind]
  exact bindAddress_apart (s := pageTaken s) _ hroot hva haligned (by omega)
    (fun hid ↦ hconf.counter_lt hid hram) hapart

/-- `get_new_page` on a page of the tables. -/
theorem getNewPage_eq (perm cache : Word) (hconf : Configured L s)
    (hdir : Directory s.words s.lvl2TableAddress)
    (hhead : s.physicalMemoryMap.head < s.physicalMemoryMap.size) (hva : va.toNat < 0x3fe00000)
    (haligned : (nextFreePage s).toNat % 0x1000 = 0) (hram : (nextFreePage s).toNat < 0x40000000) :
    getNewPage s va perm cache = .ok (bound (pageTaken s) (page va) (nextFreePage s)
      (withAttributes (nextFreePage s) (newBlockAttributesSg1 perm cache)), 0) := by
  have hindex : page va / 512 < 511 := by
    unfold page
    omega
  exact getNewPage_apart perm cache hconf hdir.rooted (hdir.rowApart hindex) hhead
    (by omega) haligned hram

/-- The state after a page is unbound that was the only one bound to its physical page. -/
def pageFreed (s : MmuState) (v : ℕ) (pa : Word) : MmuState :=
  { setBindCounter s pa 0 with
    words := invalidate s.words s.lvl2TableAddress v
    physicalMemoryMap := { s.physicalMemoryMap with
      head := s.physicalMemoryMap.head - 1
      map := Function.update s.physicalMemoryMap.map (s.physicalMemoryMap.head - 1).toNat
        (pa.setWidth 32) } }

theorem decrAndFreePhysicalPage_eq (s : MmuState) (pa : Word) (hcounter : getBindCounter s pa = 1)
    (hhead : 0 < s.physicalMemoryMap.head) (haligned : pa.toNat % 0x1000 = 0) :
    decrAndFreePhysicalPage s pa =
      .ok { setBindCounter s pa 0 with physicalMemoryMap := { s.physicalMemoryMap with
        head := s.physicalMemoryMap.head - 1
        map := Function.update s.physicalMemoryMap.map (s.physicalMemoryMap.head - 1).toNat
          (pa.setWidth 32) } } := by
  have hgranule : pa % granule = 0 := by
    apply BitVec.eq_of_toNat_eq
    rw [BitVec.toNat_umod]
    exact haligned
  have hone : decrementBindCounter s pa = setBindCounter s pa 0 := by
    rw [decrementBindCounter, hcounter]
    rfl
  have hzero : getBindCounter (setBindCounter s pa 0) pa = 0 := by
    rw [getBindCounter_setBindCounter, if_pos rfl]
  have hhead' : 0 < (setBindCounter s pa 0).physicalMemoryMap.head := hhead
  rw [decrAndFreePhysicalPage]
  dsimp only
  rw [hone, if_pos hzero, freePhysicalPage, assert_pos hhead',
    assert_pos hgranule, assert_pos hzero]
  rfl

/-- `free_virtual_page` on a page whose physical page is bound nowhere else. -/
theorem freeVirtualPage_eq (hroot : Rooted s.lvl2TableAddress) (hva : va.toNat < 2 ^ 30)
    (hleaf : leaf s.words s.lvl2TableAddress (page va) = some e)
    (hid : s.idPagingSize ≤ entryAddress e) (hcounter : getBindCounter s (entryAddress e) = 1)
    (hhead : 0 < s.physicalMemoryMap.head) :
    freeVirtualPage s va = .ok (pageFreed s (page va) (entryAddress e), 0) := by
  have hpresent := (leaf_eq_some hleaf).1
  have hfree := decrAndFreePhysicalPage_eq
    { s with words := invalidate s.words s.lvl2TableAddress (page va) } (entryAddress e) hcounter
    hhead (entryAddress_aligned e)
  rw [freeVirtualPage, getAddressSg1_lvl3 hroot hva hleaf, setInvalidEntry_lvl3 hroot hva hpresent]
  dsimp only
  rw [assert_pos hid, ok_bind, hfree, errorCode_lvl3 hroot hva hpresent]
  rfl

end SysresOs.Mmu
