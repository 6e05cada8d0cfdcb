import SysresOs.Memory.Paging
import SysresOs.Memory.Translation

/-!
# The table zone

Every process has `0x200000` bytes of the table zone: its level-2 table, and after it the 511
level-3 tables that `populate_lvl2_table` gives the entries 0 to 510. So the tables of a process are
a directory (`populateWords_directory`), and the tables of two processes share no place.
-/

set_option autoImplicit false
set_option relaxedAutoImplicit false

namespace SysresOs.Mmu

open SysresOs.Loop SysresOs.Outcome

open SysresOs.Proc (Pid kernelPid)

/-! ### Table entries -/

/-- The value that `init_table_entry_sg1` gives an entry. -/
def populatedEntry (old inner : Word) : Word :=
  let entry := ((old &&& (mask 63 48 ||| mask 11 0)) ||| (inner &&& mask 35 0)) &&& mask 58 0
  let entry := entry ||| (newTableAttributesSg1.nsTable &&& 1) <<< 63
  let entry := entry ||| (newTableAttributesSg1.apTable &&& 3) <<< 61
  let entry := entry ||| (newTableAttributesSg1.uxnTable &&& 1) <<< 60
  let entry := entry ||| (newTableAttributesSg1.pxnTable &&& 1) <<< 59
  entry ||| 3

theorem isTableEntry_populatedEntry (old inner : Word) :
    isTableEntry (populatedEntry old inner) = true :=
  isBlockEntry_or_three _

theorem entryAddress_populatedEntry {old inner : Word} (h : inner.toNat % 0x1000 = 0)
    (h' : inner.toNat < 2 ^ 36) : entryAddress (populatedEntry old inner) = inner := by
  have hinner : inner &&& mask 35 12 = inner := by
    apply BitVec.eq_of_toNat_eq
    rw [toNat_and_mask inner (by omega) (by omega)]
    omega
  have hbits : entryAddress (populatedEntry old inner) = inner &&& mask 35 12 := by
    refine BitVec.eq_of_getLsbD_eq fun i hi ↦ ?_
    rw [getLsbD_entryAddress, populatedEntry]
    by_cases hi' : 12 ≤ i ∧ i ≤ 47
    · simp (disch := omega) only [BitVec.getLsbD_or, BitVec.getLsbD_and, getLsbD_mask,
        getLsbD_three, getLsbD_bit, getLsbD_pair, Bool.or_false]
      grind
    · simp (disch := omega) only [BitVec.getLsbD_and, getLsbD_mask]
      grind
  rw [hbits, hinner]

theorem initTableEntrySg1_eq (s : MmuState) (entry inner : Word) :
    initTableEntrySg1 s entry inner = s.setWord entry (populatedEntry (s.word entry) inner) := by
  simp only [initTableEntrySg1, setTableAttributesSg1, MmuState.setWord, MmuState.word,
    Function.update_self, Function.update_idem, populatedEntry]

/-! ### `populate_lvl2_table` -/

/-- The words after the first `k` level-2 entries of a root point to the tables after the level-2
table. -/
def populateWords (w : ℕ → Word) (root : Word) (k : ℕ) : ℕ → Word := fun n ↦
  if root.toNat ≤ n ∧ n < root.toNat + 8 * k ∧ (n - root.toNat) % 8 = 0 then
    populatedEntry (w n) (BitVec.ofNat 64 (root.toNat + 0x1000 * ((n - root.toNat) / 8 + 1)))
  else w n

variable {w : ℕ → Word} {root : Word} {i k n : ℕ}

theorem populateWords_of_not_mem (h : n < root.toNat ∨ root.toNat + 8 * k ≤ n) :
    populateWords w root k n = w n := if_neg (by omega)

theorem populateWords_lvl2 (hi : i < k) :
    populateWords w root k (lvl2Place root i) =
      populatedEntry (w (lvl2Place root i)) (BitVec.ofNat 64 (root.toNat + 0x1000 * (i + 1))) := by
  have hindex : (lvl2Place root i - root.toNat) / 8 = i := by
    unfold lvl2Place
    omega
  rw [populateWords, if_pos (by unfold lvl2Place; omega), hindex]

/-- A root whose `0x200000` bytes lie in the memory that an entry can address. -/
structure ZoneRoot (root : Word) : Prop where
  aligned : root.toNat % 0x200000 = 0
  bounded : root.toNat + 0x200000 ≤ 2 ^ 36

theorem ZoneRoot.rooted (h : ZoneRoot root) : Rooted root := by
  have haligned := h.aligned
  have hbounded := h.bounded
  constructor <;> omega

/-- The address of the tables of a process, as `c_init_mmu` computes it. -/
def Layout.zoneRoot (L : Layout) (pid : Pid) : Word :=
  L.mmuTablesStart + BitVec.ofNat 64 pid.val * 512 * granule

theorem Layout.toNat_zoneRoot (L : Layout) (pid : Pid) :
    (L.zoneRoot pid).toNat = L.mmuTablesStart.toNat + 0x200000 * pid.val := by
  have hbelow := L.below_peripherals
  have hpid : pid.val < 32 := pid.isLt
  have hgranule : granule.toNat = 0x1000 := rfl
  have hrow : (512 : Word).toNat = 512 := rfl
  rw [zoneRoot, BitVec.toNat_add, BitVec.toNat_mul, BitVec.toNat_mul, BitVec.toNat_ofNat, hgranule,
    hrow]
  omega

/-- The number of level-2 entries below the table zone. -/
def Layout.lowTables (L : Layout) : ℕ := L.mmuTablesStart.toNat / 0x200000

/-- The number of level-2 entries below `__end`. -/
def Layout.kernelTables (L : Layout) : ℕ := L.lowTables + 33

theorem Layout.toNat_mmuTablesStart (L : Layout) :
    L.mmuTablesStart.toNat = 0x200000 * L.lowTables := by
  have haligned := L.mmuTablesStart_aligned
  unfold lowTables
  omega

theorem Layout.toNat_endAddr_tables (L : Layout) :
    L.endAddr.toNat = 0x200000 * L.kernelTables ∧ L.kernelTables ≤ 504 := by
  have hend := L.toNat_endAddr
  have hstart := L.toNat_mmuTablesStart
  have hbelow := L.below_peripherals
  unfold kernelTables
  omega

theorem Layout.zoneRoot_zone (L : Layout) (pid : Pid) : ZoneRoot (L.zoneRoot pid) := by
  have hbelow := L.below_peripherals
  have haligned := L.mmuTablesStart_aligned
  have hpid : pid.val < 32 := pid.isLt
  have hroot := L.toNat_zoneRoot pid
  constructor <;> omega

theorem Layout.zoneRoot_kernel (L : Layout) : L.zoneRoot kernelPid = L.mmuTablesStart := by
  apply BitVec.eq_of_toNat_eq
  rw [L.toNat_zoneRoot]
  rfl

theorem Layout.zoneRoot_inj (L : Layout) {p q : Pid} : L.zoneRoot p = L.zoneRoot q ↔ p = q := by
  rw [← BitVec.toNat_inj, L.toNat_zoneRoot, L.toNat_zoneRoot, Fin.ext_iff]
  omega

theorem populateLvl2Table_eq {s : MmuState} (h : ZoneRoot s.lvl2TableAddress) :
    populateLvl2Table s (s.lvl2TableAddress + granule) =
      .ok { s with words := populateWords s.words s.lvl2TableAddress 511 } := by
  have haligned := h.aligned
  have hbounded := h.bounded
  have hgranule : granule.toNat = 0x1000 := rfl
  have hroot : s.lvl2TableAddress % granule = 0 := by
    apply BitVec.eq_of_toNat_eq
    rw [BitVec.toNat_umod, hgranule]
    exact (by omega : s.lvl2TableAddress.toNat % 0x1000 = 0)
  have hlvl3 : (s.lvl2TableAddress + granule) % granule = 0 := by
    apply BitVec.eq_of_toNat_eq
    rw [BitVec.toNat_umod, BitVec.toNat_add, hgranule]
    exact (by omega : (s.lvl2TableAddress.toNat + 0x1000) % 2 ^ 64 % 0x1000 = 0)
  have hloop (k : ℕ) (hk : k ≤ 511) : forUpTo k (fun i t ↦
      initTableEntrySg1 t (t.lvl2TableAddress + BitVec.ofNat 64 i * 8)
        (s.lvl2TableAddress + granule + BitVec.ofNat 64 i * granule)) s =
      { s with words := populateWords s.words s.lvl2TableAddress k } := by
    induction k with
    | zero =>
      have hnone : populateWords s.words s.lvl2TableAddress 0 = s.words :=
        funext fun n ↦ populateWords_of_not_mem (by omega)
      rw [forUpTo, hnone]
    | succ k ih =>
      have hplace :
          (s.lvl2TableAddress + BitVec.ofNat 64 k * 8).toNat = lvl2Place s.lvl2TableAddress k := by
        have height : (8 : Word).toNat = 8 := rfl
        rw [BitVec.toNat_add, BitVec.toNat_mul, BitVec.toNat_ofNat, height, lvl2Place]
        omega
      have hinner : s.lvl2TableAddress + granule + BitVec.ofNat 64 k * granule =
          BitVec.ofNat 64 (s.lvl2TableAddress.toNat + 0x1000 * (k + 1)) := by
        apply BitVec.eq_of_toNat_eq
        rw [BitVec.toNat_add, BitVec.toNat_add, BitVec.toNat_mul, hgranule, BitVec.toNat_ofNat,
          BitVec.toNat_ofNat]
        omega
      rw [forUpTo, ih (by omega), initTableEntrySg1_eq]
      simp only [MmuState.setWord, MmuState.word, hplace, hinner]
      refine congrArg (fun words ↦ { s with words := words }) (funext fun n ↦ ?_)
      rw [Function.update_apply]
      split_ifs with hn
      · rw [hn, populateWords_of_not_mem (by unfold lvl2Place; omega),
          populateWords_lvl2 (by omega)]
      · unfold lvl2Place at hn
        unfold populateWords
        exact if_congr (by omega) rfl rfl
  rw [populateLvl2Table, assert_pos hroot, assert_pos hlvl3]
  exact congrArg Except.ok (hloop 511 le_rfl)

theorem table_populateWords (h : ZoneRoot root) (hi : i < 511) :
    table (populateWords w root 511) root i = root.toNat + 0x1000 * (i + 1) := by
  have haligned := h.aligned
  have hbounded := h.bounded
  have hinner : (BitVec.ofNat 64 (root.toNat + 0x1000 * (i + 1))).toNat =
      root.toNat + 0x1000 * (i + 1) := by
    rw [BitVec.toNat_ofNat]
    omega
  rw [table, populateWords_lvl2 hi, entryAddress_populatedEntry (by omega) (by omega), hinner]

theorem present_populateWords (hi : i < 511) :
    present (populateWords w root 511) root i = true := by
  rw [present, populateWords_lvl2 hi, isTableEntry_populatedEntry]

/-- The last entry is not populated. -/
theorem present_populateWords_last :
    present (populateWords w root 511) root 511 = present w root 511 := by
  have hword : populateWords w root 511 (lvl2Place root 511) = w (lvl2Place root 511) :=
    populateWords_of_not_mem (.inr le_rfl)
  rw [present, hword, present]

/-- The tables that `populate_lvl2_table` sets up, whatever was in the memory before. -/
theorem populateWords_directory (h : ZoneRoot root) :
    Directory (populateWords w root 511) root where
  rooted := h.rooted
  distinct i hi j hj heq := by
    rw [table_populateWords h hi, table_populateWords h hj] at heq
    omega
  apart i hi := by
    rw [table_populateWords h hi]
    omega

/-! ### A populated table -/

/-- The layout of a small image. -/
def sampleLayout : Layout where
  dataStart := 0x6000
  mmuTablesStart := 0x200000
  dataStart_aligned := by decide
  dataStart_le := by decide
  mmuTablesStart_aligned := by decide
  below_peripherals := by decide

/-- The kernel's tables as `populate_lvl2_table` leaves them in zeroed memory, with all counters at
one value. -/
def sampleTables (counter : BitVec 8) : MmuState where
  words := populateWords (fun _ ↦ 0) sampleLayout.mmuTablesStart 511
  counters := fun _ ↦ counter
  pages := fun _ ↦ 0
  physicalMemoryMap := ⟨fun _ ↦ 0, 0, 0x100000, sampleLayout.endAddr / granule,
    sampleLayout.physicalMemoryMap + 0x100000⟩
  lvl2TableAddress := sampleLayout.mmuTablesStart
  idPagingSize := sampleLayout.endAddr
  ttbr0El1 := sampleLayout.mmuTablesStart

theorem sampleTables_configured (counter : BitVec 8) :
    Configured sampleLayout (sampleTables counter) :=
  ⟨rfl, rfl, rfl⟩

theorem sampleTables_directory (counter : BitVec 8) :
    Directory (sampleTables counter).words (sampleTables counter).lvl2TableAddress :=
  populateWords_directory ⟨by decide, by decide⟩

/-- Tables populated in zeroed memory map no page. -/
theorem leaf_populateWords_zero (h : ZoneRoot root) {v : ℕ} (hv : v < 512 * 512) :
    leaf (populateWords (fun _ ↦ 0) root 511) root v = none := by
  rcases Nat.lt_or_ge (v / 512) 511 with hindex | hindex
  · have hword : populateWords (fun _ ↦ 0) root 511
        (lvl3Place (populateWords (fun _ ↦ 0) root 511) root v) = 0 := by
      rw [lvl3Place, table_populateWords h hindex]
      exact populateWords_of_not_mem (by omega)
    rw [leaf, hword, if_neg]
    exact fun hvalid ↦ absurd hvalid.2 (by decide)
  · refine leaf_eq_none_of_absent ?_
    rw [show v / 512 = 511 by omega, present_populateWords_last, present]
    decide

theorem present_sampleTables_last (counter : BitVec 8) :
    present (sampleTables counter).words (sampleTables counter).lvl2TableAddress 511 = false := by
  refine present_populateWords_last.trans ?_
  rw [present]
  decide

theorem leaf_sampleTables (counter : BitVec 8) {v : ℕ} (hv : v < 512 * 512) :
    leaf (sampleTables counter).words (sampleTables counter).lvl2TableAddress v = none :=
  leaf_populateWords_zero ⟨by decide, by decide⟩ hv

end SysresOs.Mmu
