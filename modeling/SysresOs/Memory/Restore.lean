import SysresOs.Memory.Bystander

/-!
# What a fork and an exit leave

`Undone` is the memory in which an exit has undone the fork of the process: the free map, the bind
counters and the translations of the other processes are back, and the user part of the tables of
the process is empty. The exit does this exactly when the tables of the other processes are kept
(`undoes_iff`). After the boot and any number of forks these are at stake only in the last level-2
entries (`ForkRun.undoes_iff_last`).
-/

set_option autoImplicit false
set_option relaxedAutoImplicit false

namespace SysresOs.Mmu

open SysresOs.Outcome

open SysresOs.Proc (Pid SystemState kernelPid initPid)

variable {L : Layout} {sys : SystemState} {live : Finset Pid} {pid q : Pid} {s t u : MmuState}
  {p p' asid : Word}

/-- The memory `u` after the exit of a process, whose fork began in the memory `s`. -/
structure Undone (L : Layout) (live : Finset Pid) (pid : Pid) (s u : MmuState) : Prop where
  map : u.physicalMemoryMap = s.physicalMemoryMap
  counter : ∀ pa : Word, pa.toNat / 0x1000 ∉ gpioPages → getBindCounter u pa = getBindCounter s pa
  unmapped : ∀ va : Word, s.idPagingSize ≤ va → va < gpioBase →
    leaf u.words (L.zoneRoot pid) (page va) = none
  translation : ∀ q ∈ live, ∀ va, translate u.words (L.zoneRoot q) va =
    translate s.words (L.zoneRoot q) va

/-- `process_exit`, run right after `c_init_mmu` with `TTBR0_EL1` switched to the process, undoes
the fork. -/
def Undoes (L : Layout) (sys : SystemState) (live : Finset Pid) (pid : Pid) (asid : Word)
    (s : MmuState) : Prop :=
  ∃ t u, cInitMmu L sys pid s = .ok t ∧ processExit pid { t with ttbr0El1 := asid } = .ok u ∧
    Undone L live pid s u

/-- The fork and the exit of a process run to their ends. -/
theorem Forkable.exists_exitedFork (h : Forkable L sys live pid s p p')
    (hmanager : pid ≠ memManagerPid) (hkernel : kernelPid ∈ live)
    (htimer : getBindCounter s timerIrqPage ≠ 0)
    (hasid : BitVec.ofNat 64 pid.val = (asid &&& mask 63 48) >>> 48) :
    ∃ t u, cInitMmu L sys pid s = .ok t ∧ processExit pid { t with ttbr0El1 := asid } = .ok u ∧
      ExitedFork L sys live pid s t u p p' asid ∧ u.physicalMemoryMap = s.physicalMemoryMap := by
  obtain ⟨t, hinit, ht⟩ := cInitMmu_forked h.forkReady
  obtain ⟨u, hexit, hu, hmap⟩ := h.processExit_forked ht htimer hmanager hasid
  exact ⟨t, u, hinit, hexit, ⟨h, hmanager, hkernel, ht, hu⟩, hmap⟩

/-- The fork is undone as far as the tables of the live processes are kept. -/
theorem ExitedFork.undone_iff (h : ExitedFork L sys live pid s t u p p' asid)
    (hmap : u.physicalMemoryMap = s.physicalMemoryMap) : Undone L live pid s u ↔
      ∀ q ∈ live, TablesKept L s pid (L.zoneRoot (getParentPid sys pid)) q := by
  constructor
  · exact fun hundone q hq ↦ (h.translate_iff hq).mp (hundone.translation q hq)
  · intro hkept
    constructor
    case map => exact hmap
    case counter => exact fun pa hgpio ↦ h.ready.counter_exited h.forked h.exited hgpio
    case unmapped =>
      intro va habove hlt
      obtain ⟨hend, -⟩ := L.toNat_endAddr_tables
      have hgpio : gpioBase.toNat = 0x3f200000 := rfl
      rw [h.ready.configured.idPagingSize, BitVec.le_def, hend] at habove
      rw [BitVec.lt_def, hgpio] at hlt
      refine leaf_eq_none_of_absent ?_
      rw [h.exited.present_eq _ (by unfold page; omega) (by unfold page; omega),
        if_pos (by unfold page; omega)]
    case translation => exact fun q hq ↦ (h.translate_iff hq).mpr (hkept q hq)

/-- `process_exit` stops for the memory manager. -/
theorem not_undoes_memManager : ¬ Undoes L sys live memManagerPid asid s := by
  rintro ⟨t, u, -, hexit, -⟩
  rw [processExit] at hexit
  obtain ⟨_, hassert, _⟩ := bind_eq_ok.mp hexit
  exact absurd (of_assert_ok hassert) (by decide)

theorem Forkable.undoes_iff_tablesKept (h : Forkable L sys live pid s p p')
    (hmanager : pid ≠ memManagerPid) (hkernel : kernelPid ∈ live)
    (htimer : getBindCounter s timerIrqPage ≠ 0)
    (hasid : BitVec.ofNat 64 pid.val = (asid &&& mask 63 48) >>> 48) :
    Undoes L sys live pid asid s ↔
      ∀ q ∈ live, TablesKept L s pid (L.zoneRoot (getParentPid sys pid)) q := by
  obtain ⟨t, u, hinit, hexit, hu, hmap⟩ := h.exists_exitedFork hmanager hkernel htimer hasid
  rw [← hu.undone_iff hmap]
  constructor
  · rintro ⟨t', u', hinit', hexit', hundone⟩
    obtain rfl := Except.ok.inj (hinit.symm.trans hinit')
    obtain rfl := Except.ok.inj (hexit.symm.trans hexit')
    exact hundone
  · exact fun hundone ↦ ⟨t, u, hinit, hexit, hundone⟩

/-- `process_exit` undoes the fork of a process other than the memory manager exactly when the
tables of the live processes hold nothing in the zone of the process that the fork and the exit
change. -/
theorem undoes_iff (h : Forkable L sys live pid s p p') (hkernel : kernelPid ∈ live)
    (htimer : getBindCounter s timerIrqPage ≠ 0)
    (hasid : BitVec.ofNat 64 pid.val = (asid &&& mask 63 48) >>> 48) :
    Undoes L sys live pid asid s ↔
      pid ≠ memManagerPid ∧ ∀ q ∈ live, TablesKept L s pid (L.zoneRoot (getParentPid sys pid))
      q := by
  by_cases hmanager : pid = memManagerPid
  · exact iff_of_false (hmanager ▸ not_undoes_memManager) fun hand ↦ hand.1 hmanager
  · rw [and_iff_right hmanager]
    exact h.undoes_iff_tablesKept hmanager hkernel htimer hasid

/-! ### Runs -/

/-- The memory after the boot over the words `w`: it holds them still in the zones of the other
processes, and the last level-2 entries of the first two are invalid. -/
theorem exists_forkRun (L : Layout) (w : ℕ → Word) : ∃ s, ForkRun L {kernelPid, initPid} s 4 ∧
    (∀ pid, pid ≠ kernelPid ∧ pid ≠ initPid → ∀ a, (L.zoneRoot pid).toNat ≤ a →
      a < (L.zoneRoot pid).toNat + 0x200000 → s.words a = w a) ∧
    ∀ q ∈ ({kernelPid, initPid} : Finset Pid), present s.words (L.zoneRoot q) 511 = false := by
  have hroot : L.mmuTablesStart &&& mask 47 1 = L.mmuTablesStart := by
    rw [← L.zoneRoot_kernel]
    exact forkSystem_root L kernelPid
  obtain ⟨s₀, s₁, s₂, hkernel, hinit, h⟩ := exists_booted L (forkSystem L)
    { sampleTables 0 with words := w, ttbr0El1 := L.mmuTablesStart }
  refine ⟨s₂, .boot hkernel hinit hroot, fun pid hpid a ha ha' ↦ h.frame hpid ha ha', fun q hq ↦ ?_⟩
  obtain ⟨-, hle⟩ := L.toNat_endAddr_tables
  rw [(h.present_eq hq (show 511 < 512 by omega)).1]
  exact decide_eq_false (by omega)

/-- After the boot and any number of forks, `process_exit` undoes the next fork of a process other
than the memory manager exactly when the tables that the last level-2 entries of the live processes
lead to hold nothing in its zone that the fork and the exit change. -/
theorem ForkRun.undoes_iff_last {n : ℕ} (h : ForkRun L live s n) (hchild : ChildOf L sys live pid)
    (hroom : 512 * L.kernelTables + n ≤ 0x3f006)
    (hasid : BitVec.ofNat 64 pid.val = (asid &&& mask 63 48) >>> 48) :
    Undoes L sys live pid asid s ↔ pid ≠ memManagerPid ∧
      ∀ q ∈ live, present s.words (L.zoneRoot q) 511 = true → ∀ j < 512, ∀ x,
        Rewritten L s pid (L.zoneRoot (getParentPid sys pid))
          (table s.words (L.zoneRoot q) 511 + 8 * j) x →
          pointer (s.words (table s.words (L.zoneRoot q) 511 + 8 * j)) = x := by
  obtain ⟨p, p', hready⟩ := h.settled.forkable hchild hroom
  have houtside := h.kernelOutside hchild.fresh
  by_cases hmanager : pid = memManagerPid
  · exact iff_of_false (hmanager ▸ not_undoes_memManager) fun hand ↦ hand.1 hmanager
  · rw [and_iff_right hmanager,
      hready.undoes_iff_tablesKept hmanager h.settled.kernelLive h.counter_timer_ne hasid]
    exact forall_congr' fun q ↦ forall_congr' fun hq ↦ hready.tablesKept_iff houtside hq

/-! ### Samples -/

theorem exists_childOf (L : Layout) {pid : Pid} (hpid : pid ∉ ({kernelPid, initPid} : Finset Pid)) :
    ChildOf L (forkSystem L) {kernelPid, initPid} pid :=
  childOf_forkSystem L (Finset.mem_insert_of_mem (Finset.mem_singleton_self _))
    (Finset.mem_insert_self _ _) hpid

/-- In zeroed memory the exit undoes the fork. -/
theorem undoes_zeroed : ∃ s p p', Forkable sampleLayout (forkSystem sampleLayout)
    {kernelPid, initPid} 3 s p p' ∧ Undoes sampleLayout (forkSystem sampleLayout)
    {kernelPid, initPid} 3 0x3000000000000 s := by
  obtain ⟨s, hrun, -, hlast⟩ := exists_forkRun sampleLayout fun _ ↦ 0
  obtain ⟨p, p', hready⟩ :=
    hrun.settled.forkable (exists_childOf sampleLayout (by decide : (3 : Pid) ∉ _)) (by decide)
  refine ⟨s, p, p', hready, ?_⟩
  refine (undoes_iff hready hrun.settled.kernelLive hrun.counter_timer_ne (by decide)).mpr
    ⟨by decide, fun q hq ↦ ?_⟩
  refine (hready.tablesKept_iff (hrun.kernelOutside hready.fresh) hq).mpr fun hpresent ↦ ?_
  rw [hlast q hq] at hpresent
  exact nomatch hpresent

/-- The words of a memory whose only one that is not zero is in the place of the last level-2 entry
of the process 3. It is a valid table entry that points to the level-3 table of the process 4 for
the pages from `GPIO_BASE` on. -/
def staleWords : ℕ → Word :=
  Function.update (fun _ ↦ 0) (lvl2Place (sampleLayout.zoneRoot 3) 511)
    (sampleLayout.zoneRoot 4 + 0x1000 * 506 ||| 3)

/-- After the boot over these words and the fork of the process 3, the fork and the exit of the
process 4 leave the process 3 with a mapping of `GPIO_BASE` that it did not have. -/
theorem not_undoes_staleWords : ∃ s t u, ForkRun sampleLayout {3, kernelPid, initPid} s 6 ∧
    cInitMmu sampleLayout (forkSystem sampleLayout) 4 s = .ok t ∧
    processExit 4 { t with ttbr0El1 := 0x4000000000000 } = .ok u ∧
    translate s.words (sampleLayout.zoneRoot 3) 0x3fe00000 = none ∧
    translate u.words (sampleLayout.zoneRoot 3) 0x3fe00000 = some gpioBase ∧
    ¬ Undoes sampleLayout (forkSystem sampleLayout) {3, kernelPid,
    initPid} 4 0x4000000000000 s := by
  obtain ⟨s₂, hboot, hwords, -⟩ := exists_forkRun sampleLayout staleWords
  have hchild :=
    exists_childOf sampleLayout (by decide : (3 : Pid) ∉ ({kernelPid, initPid} : Finset Pid))
  obtain ⟨p, p', hready⟩ := hboot.settled.forkable hchild (by decide)
  obtain ⟨s, hinit, hs⟩ := cInitMmu_forked hready.forkReady
  have hrun : ForkRun sampleLayout {3, kernelPid, initPid} s 6 :=
    .fork hboot hchild (by decide) hinit
  have hroot : (sampleLayout.zoneRoot 3).toNat = 0x800000 := by decide
  have hroot' : (sampleLayout.zoneRoot 4).toNat = 0xa00000 := by decide
  have hinitRoot : (sampleLayout.zoneRoot (getParentPid (forkSystem sampleLayout) 3)).toNat =
      0x400000 := by decide
  have hkernelRoot : sampleLayout.mmuTablesStart.toNat = 0x200000 := by decide
  have hlast : s.words (lvl2Place (sampleLayout.zoneRoot 3) 511) = sampleLayout.zoneRoot 4 +
      0x1000 * 506 ||| 3 := by
    rw [hs.lvl2_last hready.forkReady,
      hwords 3 (by decide) _ (by unfold lvl2Place; omega) (by unfold lvl2Place; omega),
      staleWords, Function.update_self]
  have hpresent : present s.words (sampleLayout.zoneRoot 3) 511 = true := by
    rw [present, hlast]
    decide
  have htable : table s.words (sampleLayout.zoneRoot 3) 511 + 8 * 0 =
      zonePlace (sampleLayout.zoneRoot 4) 0x3f200 := by
    rw [table, hlast]
    decide
  have hword : s.words (zonePlace (sampleLayout.zoneRoot 4) 0x3f200) = 0 := by
    have hplace : zonePlace (sampleLayout.zoneRoot 4) 0x3f200 = 0xbfa000 := by decide
    rw [hplace, hs.frame _ (by omega) (by omega) (by omega),
      hwords 4 (by decide) _ (by omega) (by omega), staleWords,
      Function.update_of_ne (by unfold lvl2Place; omega)]
  obtain ⟨q, q', hready'⟩ := hrun.settled.forkable
    (childOf_forkSystem sampleLayout (by decide) (by decide)
    (by decide : (4 : Pid) ∉ ({3, kernelPid, initPid} : Finset Pid))) (by decide)
  have hasid :
      BitVec.ofNat 64 (4 : Pid).val = ((0x4000000000000 : Word) &&& mask 63 48) >>> 48 := by decide
  obtain ⟨t, u, hinit', hexit, hu, -⟩ := hready'.exists_exitedFork (by decide)
    hrun.settled.kernelLive hrun.counter_timer_ne hasid
  -- the page `0x3fe00000` of the process 3 is the one of the entry for `GPIO_BASE` of the process 4
  have haddress : (0x3fe00000 : Word) = rowAddress 511 0 := by decide
  have hbefore : translate s.words (sampleLayout.zoneRoot 3) 0x3fe00000 = none := by
    rw [haddress, translate_rowAddress (by omega) (by omega) hpresent, htable, hword]
    rfl
  have hafter : translate u.words (sampleLayout.zoneRoot 3) 0x3fe00000 = some gpioBase := by
    have hrow :=
        hu.pointer_outside (a := lvl2Place (sampleLayout.zoneRoot 3) 511)
      (by unfold lvl2Place; omega)
    obtain ⟨hpresent', htable'⟩ := table_congr hrow hpresent
    rw [haddress, translate_rowAddress (by omega) (by omega) hpresent', htable', htable,
      hu.pointer_rewritten (.peripheral (by decide))]
    rfl
  refine ⟨s, t, u, hrun, hinit', hexit, hbefore, hafter, ?_⟩
  rintro ⟨t', u', hinit'', hexit'', hundone⟩
  obtain rfl := Except.ok.inj (hinit'.symm.trans hinit'')
  obtain rfl := Except.ok.inj (hexit.symm.trans hexit'')
  have hsame := hundone.translation 3 (by decide) 0x3fe00000
  rw [hbefore, hafter] at hsame
  cases hsame

end SysresOs.Mmu
