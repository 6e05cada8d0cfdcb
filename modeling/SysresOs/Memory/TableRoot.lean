import SysresOs.Memory.Restore
import SysresOs.Memory.Footprint
import SysresOs.Proc.Syscall

/-!
# The globals of the memory management

The functions of `mmu.c` edit the tables of the global `lvl2_table_address` and take pages from the
front of `physical_memory_map`. `c_init_mmu` leaves the first global at the tables of the new
process and takes two pages for its stack (`cInitMmu_globals`). The handlers of translation faults
and access flag faults set it to the tables of the process that has faulted,
`permission_fault_handler` takes it as it is, and `mem_manager_free_virtual_page` asserts that it is
that of the memory manager.
-/

set_option autoImplicit false
set_option relaxedAutoImplicit false

namespace SysresOs.Mmu

open SysresOs.Loop SysresOs.Outcome

open SysresOs.Proc (Pid SystemState AllocConf kernelPid initPid)

/-- The values of the two globals. -/
structure Globals (s : MmuState) (root : Word) (m : PhysicalMemoryMap) : Prop where
  root : s.lvl2TableAddress = root
  map : s.physicalMemoryMap = m

/-- The map without its first free page. -/
def PhysicalMemoryMap.rest (m : PhysicalMemoryMap) : PhysicalMemoryMap :=
  { m with head := m.head + 1 }

section Globals

variable {L : Layout} {sys : SystemState} {s : MmuState} {root va pa : Word} {m : PhysicalMemoryMap}

theorem Globals.refl (s : MmuState) : Globals s s.lvl2TableAddress s.physicalMemoryMap := ⟨rfl, rfl⟩

/-! ### Pages and tables -/

theorem initNewLvl3Table_globals (entry : Word) (h : Globals s root m) :
    Yields (initNewLvl3Table s entry) fun t ↦ Globals t root m :=
  .bind_any fun _ ↦ .ok <| forUpTo_invariant (I := fun (_ : ℕ) t ↦ Globals t root m) ⟨h.root, h.map⟩
    fun _ _ _ ht ↦ ⟨ht.root, ht.map⟩

theorem incrementBindCounter_globals (pa : Word) (h : Globals s root m) :
    Yields (incrementBindCounter s pa) fun t ↦ Globals t root m :=
  .bind_any fun _ ↦ .ok ⟨h.root, h.map⟩

theorem bindAddressWithin_globals {ba : BlockAttributesSg1} (calls : ℕ) (h : Globals s root m) :
    Yields (bindAddressWithin va pa ba calls s) fun r ↦ Globals r.1 root m := by
  induction calls generalizing s with
  | zero => exact .error
  | succ calls ih =>
    unfold bindAddressWithin
    refine Yields.ite (fun _ ↦ .ok h) fun _ ↦ ?_
    dsimp only
    refine Yields.ite (fun _ ↦ ?_) fun _ ↦ Yields.ite (fun _ ↦ ?_) fun _ ↦ .ok h
    · refine Yields.ite (fun _ ↦ ?_) fun _ ↦ .ok ⟨h.root, h.map⟩
      exact Yields.bind (incrementBindCounter_globals _ ⟨h.root, h.map⟩) fun t ht ↦ .ok ht
    · exact Yields.bind (initNewLvl3Table_globals _ h) fun t ht ↦ ih ht

theorem bindAddress_globals (va pa : Word) (ba : BlockAttributesSg1) (h : Globals s root m) :
    Yields (bindAddress s va pa ba) fun r ↦ Globals r.1 root m :=
  bindAddressWithin_globals 2 h

theorem getNewPage_globals (va perm cache : Word) (h : Globals s root m) :
    Yields (getNewPage s va perm cache) fun r ↦ Globals r.1 root m.rest ∧ m.head < m.size := by
  refine Yields.bind (P := fun r ↦ Globals r.1 root m.rest ∧ m.head < m.size) (fun r hr ↦ ?_) fun r
    hr ↦ ?_
  · obtain ⟨_, hassert, hr⟩ := bind_eq_ok.mp hr
    rw [← Except.ok.inj hr]
    refine ⟨⟨h.root, ?_⟩, ?_⟩
    · rw [PhysicalMemoryMap.rest, ← h.map]
    · rw [← h.map]
      exact of_decide_eq_true (of_assert_ok hassert)
  · exact fun t ht ↦ ⟨bindAddress_globals _ _ _ hr.1 t ht, hr.2⟩

theorem setInvalidPage_globals (va : Word) (h : Globals s root m) :
    Yields (setInvalidPage s va) fun t ↦ Globals t root m :=
  .bind_any fun _ ↦ .ok ⟨h.root, h.map⟩

theorem memmovePage_globals (dst src : Word) (h : Globals s root m) :
    Yields (memmovePage s dst src) fun t ↦ Globals t root m := by
  unfold memmovePage
  split
  · exact .error
  · exact .error
  · exact .ok ⟨h.root, h.map⟩

/-! ### A fork -/

/-- The page of a stack is copied to a new page. The tables of the kernel are the ones that are
edited in between. -/
theorem copyForkedPage_globals (page : Word) (h : Globals s root m) :
    Yields (copyForkedPage L sys page s) fun t ↦ Globals t root m.rest ∧ m.head < m.size := by
  unfold copyForkedPage
  refine .bind_any fun _ ↦ .bind_any fun physAddress ↦ .bind_any fun _ ↦ .bind_any fun _ ↦ ?_
  refine Yields.bind (bindAddress_globals _ _ _ ⟨rfl, h.map⟩) fun r hr ↦ .bind_any fun _ ↦ ?_
  refine Yields.bind (getNewPage_globals _ _ _ hr) fun r hr ↦ .bind_any fun _ ↦
    .bind_any fun newPhysAddress ↦ ?_
  refine Yields.bind (memmovePage_globals _ _ hr.1) fun t ht ↦ ?_
  refine Yields.bind (setInvalidPage_globals _ ⟨ht.root, ht.map⟩) fun t ht ↦ ?_
  refine Yields.bind (setInvalidPage_globals _ ht) fun t ht ↦ ?_
  exact Yields.bind (bindAddress_globals _ _ _ ⟨h.root, ht.map⟩) fun r ht ↦ .ok ⟨ht, hr.2⟩

theorem copyLvl2Entry_globals (parent : Word) (i : ℕ) (h : Globals s root m) :
    Yields (copyLvl2Entry parent i s) fun t ↦ Globals t root m := by
  unfold copyLvl2Entry
  refine Yields.ite (fun _ ↦ .ok ⟨h.root, h.map⟩) fun _ ↦ ?_
  refine forUpToM_yields (I := fun _ t ↦ Globals t root m) h fun j _ t ht ↦ ?_
  unfold copyLvl3Entry
  refine Yields.ite (fun _ ↦ .ok ⟨ht.root, ht.map⟩) fun _ ↦ Yields.ite (fun _ ↦ .ok ht) fun _ ↦ ?_
  refine incrementBindCounter_globals _ ?_
  split_ifs
  · exact ⟨ht.root, ht.map⟩
  · exact ⟨ht.root, ht.map⟩

theorem bindIdentity_globals (start stop : Word) (ba : ℕ → BlockAttributesSg1)
    (h : Globals s root m) : Yields (bindIdentity start stop ba s) fun t ↦ Globals t root m := by
  refine forUpToM_yields (I := fun _ t ↦ Globals t root m) h fun i _ t ht ↦ ?_
  exact Yields.bind (bindAddress_globals _ _ _ ht) fun r hr ↦ .ok hr

theorem mapTableZone_globals (ba : BlockAttributesSg1) (h : Globals s root m) :
    Yields (mapTableZone L ba s) fun t ↦ Globals t root m :=
  .bind_any fun _ ↦ bindIdentity_globals _ _ _ h

/-- The part of `process_init_copy_and_write` behind the tables of the kernel. -/
theorem copyRows_globals (parent : Word) (n k : ℕ) (h : Globals s root m) : Yields (do
    let s ← forUpToM n (fun i s ↦ copyLvl2Entry parent (k + i) s) s
    let s ← copyForkedPage L sys stackPage1 s
    copyForkedPage L sys stackPage2 s) fun t ↦
      Globals t root m.rest.rest ∧ m.head < m.size ∧ m.rest.head < m.size := by
  refine Yields.bind (P := fun t ↦ Globals t root m) ?_ fun t ht ↦ ?_
  · exact forUpToM_yields (I := fun _ t ↦ Globals t root m) h fun i _ t ht ↦
      copyLvl2Entry_globals _ _ ht
  · refine Yields.bind (copyForkedPage_globals _ ht) fun u hu v hv ↦ ?_
    obtain ⟨hglobals, hlt⟩ := copyForkedPage_globals _ hu.1 v hv
    exact ⟨hglobals, hu.2, hlt⟩

theorem processInitCopyAndWrite_globals (pid : Pid) (h : Globals s root m) :
    Yields (processInitCopyAndWrite L sys pid s) fun t ↦
      Globals t root m.rest.rest ∧ m.head < m.size ∧ m.rest.head < m.size := by
  unfold processInitCopyAndWrite
  refine .bind_any fun _ ↦ .bind_any fun _ ↦ ?_
  dsimp only
  have hkernel (n : ℕ) (f g : ℕ → Word) :
      Globals (forUpTo n (fun i t ↦ t.setWord (t.lvl2TableAddress + f i) (t.word (g i))) s) root
      m :=
    forUpTo_invariant (I := fun (_ : ℕ) t ↦ Globals t root m) h fun _ _ _ ht ↦ ⟨ht.root, ht.map⟩
  refine Yields.ite (fun _ ↦ ?_) fun _ ↦ ?_
  · exact Yields.bind (mapTableZone_globals _ (hkernel _ _ _)) fun t ht ↦ copyRows_globals _ _ _ ht
  · exact Yields.bind (P := fun t ↦ Globals t root m) (.ok (hkernel _ _ _)) fun t ht ↦
      copyRows_globals _ _ _ ht

theorem mapPeripheralPages_globals (h : Globals s root m) :
    Yields (mapPeripheralPages s) fun t ↦ Globals t root m := by
  refine Yields.bind (bindAddress_globals _ _ _ h) fun r hr ↦ ?_
  refine Yields.bind (bindAddress_globals _ _ _ hr) fun r hr ↦ ?_
  refine Yields.bind (bindAddress_globals _ _ _ hr) fun r hr ↦ ?_
  exact Yields.bind (bindAddress_globals _ _ _ hr) fun r hr ↦ .ok hr

/-- A fork leaves `lvl2_table_address` at the tables of the child, and takes two pages. -/
theorem cInitMmu_globals {pid : Pid} (hpid : pid ≠ kernelPid ∧ pid ≠ initPid)
    (h : s.physicalMemoryMap = m) : Yields (cInitMmu L sys pid s) fun t ↦
      Globals t (L.zoneRoot pid) m.rest.rest ∧ m.head < m.size ∧ m.rest.head < m.size := by
  unfold cInitMmu
  dsimp only
  refine Yields.bind (P := fun t ↦ Globals t (L.zoneRoot pid) m) ?_ fun t ht ↦ ?_
  · refine .bind_any fun _ ↦ .bind_any fun _ ↦ .ok ?_
    exact forUpTo_invariant (I := fun (_ : ℕ) t ↦ Globals t (L.zoneRoot pid) m) ⟨rfl, h⟩
      fun _ _ _ ht ↦ ⟨ht.root, ht.map⟩
  rw [if_neg (not_or_intro hpid.1 hpid.2)]
  refine Yields.bind (processInitCopyAndWrite_globals pid ht) fun u hu v hv ↦ ?_
  exact ⟨mapPeripheralPages_globals hu.1 v hv, hu.2⟩

/-! ### Faults and releases -/

/-- The handler of translation faults turns to the tables of the process. -/
theorem translationFaultHandler_root (alloc : AllocConf) (va : Word) (lowerEl : Bool) (pid : Pid) :
    Yields (translationFaultHandler sys alloc va lowerEl pid s) fun t ↦
      t.lvl2TableAddress = getLvl2AddressFromSysState sys pid :=
  .bind_any fun _ ↦ Yields.bind (getNewPage_globals _ _ _ ⟨rfl, rfl⟩) fun _ hr ↦ .ok hr.1.root

/-- So does the handler of access flag faults. -/
theorem accessFlagFaultLvl3Handler_root (va : Word) (pid : Pid) :
    Yields (accessFlagFaultLvl3Handler sys va pid s) fun t ↦
      t.lvl2TableAddress = getLvl2AddressFromSysState sys pid :=
  .bind_any fun _ ↦ .ok rfl

/-- The handler of permission faults does not. -/
theorem permissionFaultHandler_root (va : Word) (lowerLvl : Bool)
    (hroot : s.lvl2TableAddress = root) :
    Yields (permissionFaultHandler va lowerLvl s) fun t ↦ t.lvl2TableAddress = root := by
  refine .bind_any fun _ ↦ .bind_any fun _ ↦ ?_
  unfold handleSharedPageWrite
  refine .bind_any fun _ ↦ .bind_any fun _ ↦ ?_
  dsimp only
  refine Yields.ite (fun _ ↦ ?_) fun _ ↦ .bind_any fun _ ↦ .ok hroot
  refine Yields.bind (getNewPage_globals _ _ _ ⟨hroot, rfl⟩) fun r hr ↦ .bind_any fun _ ↦
    .bind_any fun _ ↦ ?_
  refine Yields.bind (memmovePage_globals _ _ hr.1) fun t ht ↦ ?_
  refine Yields.bind (setInvalidPage_globals _ ht) fun u hu ↦ ?_
  exact Yields.bind (bindAddress_globals _ _ _ hu) fun v hv ↦ .bind_any fun _ ↦ .ok hv.root

/-- The memory manager turns back to the tables that it has found. -/
theorem memManagerFreeVirtualPage_root (va : Word) (pid : Pid) (hroot : s.lvl2TableAddress = root) :
    Yields (memManagerFreeVirtualPage sys va pid s) fun r ↦ r.1.lvl2TableAddress = root :=
  .bind_any fun _ ↦ .bind_any fun _ ↦ .ok hroot

end Globals

end SysresOs.Mmu
