import SysresOs.Memory.ForkedPage

/-!
# A write to a shared page

`handle_shared_page_write` maps the new page at `PAGE_RES_1` in the tables of the faulting process,
as `lvl2_table_address` says, but copies through the tables of `TTBR0_EL1`, which the entry code has
set to those of the kernel. There `PAGE_RES_1` is not mapped, so the copy faults
(`handleSharedPageWrite_faults`) and no process ever gets a copy of a shared page.
-/

set_option autoImplicit false
set_option relaxedAutoImplicit false

namespace SysresOs.Mmu

open SysresOs.Outcome

open SysresOs.Proc (Pid kernelPid)

variable {L : Layout} {s : MmuState} {pid : Pid} {va e : Word} {n : ℕ} {lowerLvl : Bool}

/-- A write fault of a process at a page that it shares: `lvl2_table_address` has the tables of the
process, `TTBR0_EL1` those of the kernel, which map nothing at `PAGE_RES_1`, and a page is free. The
level-2 entries of the process from `n` on are its own, with that of the stack among them. -/
structure SharedFault (L : Layout) (s : MmuState) (pid : Pid) (n : ℕ) (va e : Word) : Prop where
  configured : Configured L s
  process : pid ≠ kernelPid
  root : s.lvl2TableAddress = L.zoneRoot pid
  hardwareRoot : s.ttbr0El1 &&& mask 47 1 = L.mmuTablesStart
  kernelTables : ZoneTables s.words L.mmuTablesStart 0
  processTables : ZoneTables s.words s.lvl2TableAddress n
  own : n ≤ 504
  reserved : leaf s.words L.mmuTablesStart (page pageRes1) = none
  range : va.toNat < 2 ^ 30
  mapped : leaf s.words s.lvl2TableAddress (page va) = some e
  shared : 1 < getBindCounter s (entryAddress e)
  free : s.physicalMemoryMap.head < s.physicalMemoryMap.size
  freeAligned : (nextFreePage s).toNat % 0x1000 = 0
  freeRam : (nextFreePage s).toNat < 0x40000000

/-- The call ends, and the process has a writable copy of the page: the next free page is mapped for
it with the bytes of the page that was shared, whose own bytes are kept, and so are the mappings of
all other processes. -/
def CopiesSharedPage (L : Layout) (s : MmuState) (pid : Pid) (va e : Word) (lowerLvl : Bool) :
    Prop :=
  ∃ s' e', handleSharedPageWrite va lowerLvl s = .ok s' ∧
    leaf s'.words s.lvl2TableAddress (page va) = some e' ∧ entryAddress e' = nextFreePage s ∧
    e' &&& 1#64 <<< 7 = 0 ∧
    (∀ i : Word, i < granule → s'.pages (nextFreePage s + i) = s.pages (entryAddress e + i) ∧
      s'.pages (entryAddress e + i) = s.pages (entryAddress e + i)) ∧
    ∀ other ≠ pid, ∀ v < 512 * 512, leaf s'.words (L.zoneRoot other) v =
    leaf s.words (L.zoneRoot other) v

theorem SharedFault.apart (h : SharedFault L s pid n va e) :
    s.lvl2TableAddress ≠ L.mmuTablesStart := by
  rw [h.root, ← L.zoneRoot_kernel]
  exact fun heq ↦ h.process (L.zoneRoot_inj.mp heq)

/-- After the new page is mapped for the process, the kernel still maps nothing at `PAGE_RES_1`. -/
theorem SharedFault.kernelTranslation (h : SharedFault L s pid n va e) {t : MmuState}
    {new : Word} (write : Bool)
    (hwords : t.words = bindWords s.words s.lvl2TableAddress (page pageRes1) new)
    (hhardware : t.ttbr0El1 = s.ttbr0El1) : kernelTranslation t pageRes1 write = none := by
  have haligned := h.kernelTables.zone.aligned
  have haligned' := h.processTables.zone.aligned
  have hapart : s.lvl2TableAddress.toNat ≠ L.mmuTablesStart.toNat :=
    fun heq ↦ h.apart (BitVec.eq_of_toNat_eq heq)
  have hkeep (a : ℕ) (ha : L.mmuTablesStart.toNat ≤ a)
      (ha' : a < L.mmuTablesStart.toNat + 0x200000) : t.words a = s.words a := by
    rw [hwords]
    exact h.processTables.bindWords_of_not_mem h.own (by decide)
      (offRow_of_outside (by decide) (by omega))
  have hleaf : leaf t.words L.mmuTablesStart (page pageRes1) = none := by
    rw [h.kernelTables.leaf_congr (by omega) (by decide) (hkeep _ ?_ ?_) (hkeep _ ?_ ?_),
      h.reserved]
    all_goals
      have hpage : page pageRes1 < 511 * 512 := by decide
      simp only [lvl2Place, zonePlace]
      omega
  have hroot : t.ttbr0El1 &&& mask 47 1 = L.mmuTablesStart := by rw [hhardware, h.hardwareRoot]
  refine kernelTranslation_eq_none write ?_ (by decide) ?_
  · rw [hroot]
    exact h.kernelTables.zone.rooted
  · rw [hroot]
    exact hleaf

/-- The copy stops with a fault of the kernel. -/
theorem handleSharedPageWrite_faults (h : SharedFault L s pid n va e) (lowerLvl : Bool) :
    ∃ addr, handleSharedPageWrite va lowerLvl s = .error (.kernelFault addr) := by
  have hroot := h.processTables.zone.rooted
  have hrow : RowApart s.words s.lvl2TableAddress (page pageRes1 / 512) :=
    h.processTables.rowApart h.own (by decide)
  -- the counter of the shared page goes down
  obtain ⟨phys, hphys⟩ : ∃ phys, phys = entryAddress e + (va &&& mask 11 0) := ⟨_, rfl⟩
  have hwalk := getPhysicalAddress_eq hroot h.range h.mapped
  rw [← hphys] at hwalk
  have hcount : 1 < getBindCounter s phys := by
    have hlt := entryAddress_lt e
    have haligned := entryAddress_aligned e
    have hoffset : phys.toNat = (entryAddress e).toNat + va.toNat % 0x1000 := by
      rw [hphys, BitVec.toNat_add, toNat_and_mask va (by omega) (by omega)]
      omega
    rw [getBindCounter_congr (show phys.toNat / 0x1000 = (entryAddress e).toNat / 0x1000 by omega)]
    exact h.shared
  have hpos : 0 < getBindCounter s phys := by
    rw [BitVec.lt_def] at hcount ⊢
    exact (Nat.zero_le 1).trans_lt hcount
  obtain ⟨s₁, hs₁⟩ : ∃ s₁, s₁ = decrementBindCounter s phys := ⟨_, rfl⟩
  have hconf₁ : Configured L s₁ := by
    rw [hs₁]
    exact ⟨h.configured.idPagingSize, h.configured.bindCounter, h.configured.bindCounterOffset⟩
  -- a new page is mapped at `PAGE_RES_1`, for the process
  have hget : getNewPage s₁ pageRes1 (kernelPage ||| accessFlagSet) normalWtNt = _ :=
    getNewPage_apart _ _ hconf₁ (hs₁ ▸ hroot) (hs₁ ▸ hrow) (hs₁ ▸ h.free) (by decide)
      (hs₁ ▸ h.freeAligned) (hs₁ ▸ h.freeRam)
  obtain ⟨new, hnew⟩ : ∃ new, new = withAttributes (nextFreePage s₁)
    (newBlockAttributesSg1 (kernelPage ||| accessFlagSet) normalWtNt) := ⟨_, rfl⟩
  rw [← hnew] at hget
  obtain ⟨s₂, hs₂⟩ : ∃ s₂, s₂ = bound (pageTaken s₁) (page pageRes1) (nextFreePage s₁) new :=
    ⟨_, rfl⟩
  rw [← hs₂] at hget
  have hwords : s₂.words = bindWords s.words s.lvl2TableAddress (page pageRes1) new := by
    rw [hs₂, hs₁]
    rfl
  have hroot₂ : s₂.lvl2TableAddress = s.lvl2TableAddress := by
    rw [hs₂, hs₁]
    rfl
  have hleaf : leaf s₂.words s₂.lvl2TableAddress (page pageRes1) = some new := by
    rw [hwords, hroot₂]
    exact hrow.leaf_bindWords (hnew ▸ isBlockEntry_withAttributes _ _)
  have hwalk₂ := getPhysicalAddress_eq (hroot₂ ▸ hroot) (by decide) hleaf
  -- the copy goes through the tables of the kernel
  have hnone : kernelTranslation s₂ pageRes1 true = none := by
    refine h.kernelTranslation true hwords ?_
    rw [hs₂, hs₁]
    rfl
  have hmove : ∃ addr, memmovePage s₂ pageRes1 (va &&& mask 63 12) =
      .error (.kernelFault addr) := by
    rw [memmovePage, hnone]
    cases Mmu.kernelTranslation s₂ (va &&& mask 63 12) false with
    | none => exact ⟨_, rfl⟩
    | some src => exact ⟨_, rfl⟩
  obtain ⟨addr, hmove⟩ := hmove
  refine ⟨addr, ?_⟩
  rw [handleSharedPageWrite, hwalk, ok_bind]
  dsimp only
  rw [assert_pos hpos, ok_bind, if_pos hcount, ← hs₁, hget, ok_bind]
  dsimp only
  rw [assert_pos rfl, ok_bind, hwalk₂, ok_bind, hmove]
  rfl

theorem not_copiesSharedPage (h : SharedFault L s pid n va e) (lowerLvl : Bool) :
    ¬ CopiesSharedPage L s pid va e lowerLvl := by
  rintro ⟨s', e', hok, -⟩
  obtain ⟨addr, hfault⟩ := handleSharedPageWrite_faults h lowerLvl
  exact nomatch hfault.symm.trans hok

/-! ### A shared page of the heap -/

/-- The entry of a page after a fork. -/
def sampleEntry : Word := withAttributes 0x5000000 forkedAttributes

/-- The tables of the kernel and of the process 2 in zeroed memory, where a page of the heap is
shared. -/
def sampleShared : MmuState :=
  { sampleTables 2 with
    words := zoneWrite (populateWords (sampleTables 2).words (sampleLayout.zoneRoot 2) 511)
      (sampleLayout.zoneRoot 2) (page 0x8000000) sampleEntry
    physicalMemoryMap := { (sampleTables 2).physicalMemoryMap with map := fun _ ↦ 0x5001000 }
    lvl2TableAddress := sampleLayout.zoneRoot 2 }

theorem sampleShared_fault : SharedFault sampleLayout sampleShared 2 0 0x8000000 sampleEntry := by
  have hzone := sampleLayout.zoneRoot_zone 2
  have hkernel : ZoneRoot sampleLayout.mmuTablesStart := ⟨by decide, by decide⟩
  have hne : sampleLayout.mmuTablesStart ≠ sampleLayout.zoneRoot 2 := by decide
  have htables : ZoneTables (sampleTables 2).words sampleLayout.mmuTablesStart 0 :=
    .ofPopulate hkernel
  constructor
  case configured => exact ⟨rfl, rfl, rfl⟩
  case process => decide
  case root => rfl
  case hardwareRoot => decide
  case kernelTables => exact (htables.populate hzone hne).write hzone (by decide)
  case processTables => exact (ZoneTables.ofPopulate hzone).write hzone (by decide)
  case own => decide
  case reserved =>
    refine ((htables.populate hzone hne).leaf_zoneWrite hzone (by decide) (by decide)
      (by decide)).trans ?_
    rw [if_neg fun h ↦ hne h.1, htables.leaf_populate hzone hne (by decide) (by decide)]
    exact leaf_sampleTables 2 (by decide)
  case range => decide
  case mapped =>
    refine ((ZoneTables.ofPopulate hzone).leaf_zoneWrite hzone (by decide) (by decide)
      (by decide)).trans ?_
    rw [if_pos ⟨rfl, rfl⟩, if_pos ⟨present_populateWords (by decide),
      isBlockEntry_withAttributes _ _⟩]
  case shared => exact (by decide : (1 : BitVec 8) < 2)
  case free => decide
  case freeAligned => decide
  case freeRam => decide

theorem not_copiesSharedPage_sampleShared :
    ¬ CopiesSharedPage sampleLayout sampleShared 2 0x8000000 sampleEntry true :=
  not_copiesSharedPage sampleShared_fault true

/-- The process 2 writes to the shared page, and the kernel faults. -/
theorem handleSharedPageWrite_sampleShared :
    (∃ addr, handleSharedPageWrite 0x8000000 true sampleShared = .error (.kernelFault addr)) ∧
      ¬ CopiesSharedPage sampleLayout sampleShared 2 0x8000000 sampleEntry true := by
  obtain ⟨addr, hfault⟩ := handleSharedPageWrite_faults sampleShared_fault true
  refine ⟨⟨addr, hfault⟩, ?_⟩
  rintro ⟨s', e', hok, -⟩
  exact nomatch hfault.symm.trans hok

end SysresOs.Mmu
