import SysresOs.Memory.Mmu

/-!
# Pages of the processes

The second half of `memory/mmu.c`, over the walk and `bind_address` of `Memory.Mmu`: the pool of
free physical pages, the set-up of the tables at boot and for a forked process, the handlers of page
faults, and the release of pages. A message on the serial line and the maintenance of caches change
no state of these functions and are left out, and so is `err.no`, which the functions set before
they stop or go on.
-/

set_option autoImplicit false
set_option relaxedAutoImplicit false

namespace SysresOs.Mmu

open SysresOs.Loop SysresOs.Outcome

open SysresOs.Proc (Pid SystemState AllocConf kernelPid initPid)

/-! ### The pool of free pages -/

/-- The page that a round of `init_physical_memory_map` looks at, with `delta` pages skipped. -/
def pageToFill (idPagingSize : Word) (i delta : BitVec 32) : Word :=
  ((i + delta) * 0x1000).setWidth 64 + idPagingSize

/-- The `switch` of `init_physical_memory_map` over the pages of the peripherals. -/
def skipPeripheral (idPagingSize : Word) (i delta : BitVec 32) : BitVec 32 :=
  let page := pageToFill idPagingSize i delta
  if page = gpioBase ∨ page = gpioBase + 0x1000 ∨ page = gpioBase + 0x15000 ∨
    page = timerIrqPage then
    delta + 1
  else delta

/-- The counter `delta` after some rounds of `init_physical_memory_map`. -/
def deltaAfter (idPagingSize : Word) : ℕ → BitVec 32
  | 0 => 0
  | n + 1 => skipPeripheral idPagingSize (BitVec.ofNat 32 n) (deltaAfter idPagingSize n)

/-- The second loop of `init_physical_memory_map`. -/
def fillMap (rounds : ℕ) (s : MmuState) : MmuState :=
  forUpTo rounds (fun n s ↦
    let i := BitVec.ofNat 32 n
    let page := pageToFill s.idPagingSize i (deltaAfter s.idPagingSize (n + 1))
    let m := s.physicalMemoryMap
    { s with physicalMemoryMap :=
      { m with map := Function.update m.map (m.head + i).toNat (page.setWidth 32) } }) s

/-- The number of entries that `init_physical_memory_map` writes. -/
def poolSize (idPagingSize : Word) : ℕ := ((ramSize - idPagingSize) / granule - 3).toNat

/-- The assignments to the fields of `physical_memory_map` in `init_physical_memory_map`. -/
def resetMap (L : Layout) (s : MmuState) : MmuState :=
  { s with physicalMemoryMap :=
    { s.physicalMemoryMap with
      head := 0
      size := 0x100000
      bindCounterOffset := s.idPagingSize / granule
      bindCounter := L.physicalMemoryMap + 0x100000 } }

/-- The first loop of `init_physical_memory_map`, from the page `first` on. -/
def clearCounters (first rounds : ℕ) (s : MmuState) : MmuState :=
  forUpTo rounds (fun i s ↦ setBindCounter s (BitVec.ofNat 64 (first + i) * granule) 0) s

/-- `init_physical_memory_map`. -/
def initPhysicalMemoryMap (L : Layout) (s : MmuState) : MmuState :=
  let first := (s.idPagingSize / granule).toNat
  fillMap (poolSize s.idPagingSize) (clearCounters first (512 * 512 - first) (resetMap L s))

/-- `get_unbound_physical_page`. -/
def getUnboundPhysicalPage (s : MmuState) : Except Stop (MmuState × Word) := do
  let m := s.physicalMemoryMap
  assert (.assertion .mapExhausted) (m.head < m.size)
  .ok ({ s with physicalMemoryMap := { m with
    head := m.head + 1 } }, (m.map m.head.toNat).setWidth 64)

/-- `get_new_page`. -/
def getNewPage (s : MmuState) (virtualAddress blockPerm cacheConfig : Word) :
    Except Stop (MmuState × Word) := do
  let (s, physicalAddress) ← getUnboundPhysicalPage s
  bindAddress s virtualAddress physicalAddress (newBlockAttributesSg1 blockPerm cacheConfig)

/-- `free_physical_page`. -/
def freePhysicalPage (s : MmuState) (physicalAddr : Word) : Except Stop MmuState := do
  let m := s.physicalMemoryMap
  assert (.assertion .mapFull) (0 < m.head)
  assert (.assertion .freedAligned) (physicalAddr % granule = 0)
  assert (.assertion .freedCount) (getBindCounter s physicalAddr = 0)
  .ok { s with physicalMemoryMap := { m with
    head := m.head - 1
    map := Function.update m.map (m.head - 1).toNat (physicalAddr.setWidth 32) } }

/-- `decr_and_free_physical_page`. -/
def decrAndFreePhysicalPage (s : MmuState) (physicalAddress : Word) : Except Stop MmuState :=
  let s := decrementBindCounter s physicalAddress
  if getBindCounter s physicalAddress = 0 then freePhysicalPage s physicalAddress else .ok s

/-- `free_virtual_page`. -/
def freeVirtualPage (s : MmuState) (virtualAddr : Word) : Except Stop (MmuState × Word) := do
  let lvl3Entry := getLvl3EntryPhysAddress s virtualAddr
  let physicalAddress := getAddressSg1 s lvl3Entry
  let s := setInvalidEntry s lvl3Entry
  assert (.assertion .freedBelow) (s.idPagingSize ≤ physicalAddress)
  let s ← decrAndFreePhysicalPage s physicalAddress
  .ok (s, errorCode lvl3Entry)

/-! ### Tables at boot -/

/-- `populate_lvl2_table`. -/
def populateLvl2Table (s : MmuState) (lvl3Address : Word) : Except Stop MmuState := do
  assert (.assertion .rootAligned) (s.lvl2TableAddress % granule = 0)
  assert (.assertion .lvl3Aligned) (lvl3Address % granule = 0)
  .ok (forUpTo (nTableEntries - 1) (fun i s ↦
    initTableEntrySg1 s (s.lvl2TableAddress + BitVec.ofNat 64 i * 8)
      (lvl3Address + BitVec.ofNat 64 i * granule)) s)

/-- `map_peripheral_pages`. -/
def mapPeripheralPages (s : MmuState) : Except Stop MmuState := do
  let ba := newBlockAttributesSg1 (ioPage ||| accessFlagSet) device
  let (s, _) ← bindAddress s gpioBase gpioBase ba
  let (s, _) ← bindAddress s (gpioBase + 0x1000) (gpioBase + 0x1000) ba
  let (s, _) ← bindAddress s (gpioBase + 0x15000) (gpioBase + 0x15000) ba
  let ba := newBlockAttributesSg1 (kernelPage ||| accessFlagSet) device
  let (s, _) ← bindAddress s timerIrqPage timerIrqPage ba
  .ok s

/-- A loop that binds the pages from one address up to another to themselves. -/
def bindIdentity (start stop : Word) (ba : ℕ → BlockAttributesSg1) (s : MmuState) :
    Except Stop MmuState :=
  forUpToM ((stop.toNat - start.toNat + 0xfff) / 0x1000) (fun i s ↦ do
    let physicalPnt := start + BitVec.ofNat 64 i * granule
    let (s, _) ← bindAddress s physicalPnt physicalPnt (ba i)
    .ok s) s

/-- `map_table_zone`. -/
def mapTableZone (L : Layout) (ba : BlockAttributesSg1) (s : MmuState) : Except Stop MmuState := do
  let nPages := ((s.idPagingSize - L.mmuTablesStart) / granule).toNat
  assert (.assertion .tableZone) (nPages % 512 = 0)
  bindIdentity L.mmuTablesStart s.idPagingSize
    (fun i ↦ { ba with continuousBit := if i > 16 * (nPages / 16) then 0 else 1 }) s

/-- `identity_paging`. -/
def identityPaging (L : Layout) (s : MmuState) : Except Stop MmuState := do
  let kernelBa := newBlockAttributesSg1 (kernelPage ||| accessFlagSet) normalWtNt
  let codeBa := newBlockAttributesSg1 (codePage ||| accessFlagSet) normalWtNt
  let dataBa := newBlockAttributesSg1 (dataPage ||| accessFlagSet) normalWtNt
  let s ← bindIdentity 0 L.dataStart (fun _ ↦ codeBa) s
  let s ← bindIdentity L.dataStart L.mmuTablesStart (fun _ ↦ dataBa) s
  let s ← mapTableZone L kernelBa s
  let currentTableIndex := (s.idPagingSize / granule % 512).toNat
  let first := (s.idPagingSize / (granule * 512)).toNat + if currentTableIndex = 0 then 0 else 1
  let s := forUpTo (512 - first) (fun i s ↦
    setInvalidEntry s (s.lvl2TableAddress + BitVec.ofNat 64 (first + i) * 8)) s
  if currentTableIndex ≠ 0 then
    forUpToM (512 - currentTableIndex) (fun i s ↦
      setInvalidPage s (s.idPagingSize + BitVec.ofNat 64 i * granule)) s
  else .ok s

/-- `check_identity_paging`. -/
def checkIdentityPaging (s : MmuState) : Except Stop MmuState :=
  forUpToM ((s.idPagingSize.toNat + 0xfff) / 0x1000) (fun i s ↦ do
    let physicalPnt := BitVec.ofNat 64 i * granule
    let lvl3Entry := getLvl3EntryPhysAddress s physicalPnt
    if errorCode lvl3Entry ≠ 0 then .error .abort
    else if !isBlockEntry (s.word lvl3Entry) then .error .abort
    else
      let physicalAddress ← getPhysicalAddress s physicalPnt
      if physicalAddress ≠ physicalPnt then .error .abort else .ok s) s

/-! ### The set-up of a forked process -/

/-- The physical page that the hardware finds for an access of the kernel, in the tables of
`TTBR0_EL1`: the entries must be valid and the access flag set, and for a write the page must not be
read-only. -/
def kernelTranslation (s : MmuState) (virtualAddr : Word) (write : Bool) : Option Word :=
  let lvl2Entry := (s.ttbr0El1 &&& mask 47 1) + 8#64 * ((virtualAddr &&& mask 29 21) >>> 21)
  let lvl3Entry := getAddressSg1 s lvl2Entry + 8#64 * ((virtualAddr &&& mask 20 12) >>> 12)
  let entry := s.word lvl3Entry
  if virtualAddr &&& mask 63 30 = 0 ∧ isTableEntry (s.word lvl2Entry) ∧ isBlockEntry entry ∧
      entry &&& 1#64 <<< 10 ≠ 0 ∧ (write → entry &&& 1#64 <<< 7 = 0) then
    some (entry &&& mask 47 12)
  else none

/-- `memmove((void *) dst, (void *) src, GRANULE)` between two pages, through the tables of
`TTBR0_EL1`. -/
def memmovePage (s : MmuState) (dst src : Word) : Except Stop MmuState :=
  match kernelTranslation s src false, kernelTranslation s dst true with
  | none, _ => .error (.kernelFault src)
  | some _, none => .error (.kernelFault dst)
  | some srcPage, some dstPage =>
    .ok { s with pages := fun a ↦
      if a - dstPage < granule then s.pages (srcPage + (a - dstPage)) else s.pages a }

/-- `copy_forked_page`. -/
def copyForkedPage (L : Layout) (sys : SystemState) (page : Word) (s : MmuState) :
    Except Stop MmuState := do
  assert (.assertion .forkedPageAligned) (page % granule = 0)
  let physAddress ← getPhysicalAddress s page
  assert (.assertion .forkedPageCount) (getBindCounter s physAddress = 2)
  let s := decrementBindCounter s physAddress
  let kernelLvl2TableAddr := getLvl2AddressFromSysState sys kernelPid
  assert (.assertion .kernelRoot) (L.mmuTablesStart = kernelLvl2TableAddr)
  let backupLvl2TableAddr := s.lvl2TableAddress
  let s := s.setRoot kernelLvl2TableAddr
  let kernelBa := newBlockAttributesSg1 (kernelPage ||| accessFlagSet) normalWtNt
  let (s, status) ← bindAddress s pageRes1 physAddress kernelBa
  assert (.assertion .forkedPageBound) (status = 0)
  let (s, status) ← getNewPage s pageRes2 (kernelPage ||| accessFlagSet) normalWtNt
  assert (.assertion .forkedPageBound) (status = 0)
  let newPhysAddress ← getPhysicalAddress s pageRes2
  let s ← memmovePage s pageRes2 pageRes1
  let usrBa := newBlockAttributesSg1 (userPage ||| accessFlagSet) normalWtNt
  let s := decrementBindCounter s physAddress
  let s := decrementBindCounter s newPhysAddress
  let s ← setInvalidPage s pageRes1
  let s ← setInvalidPage s pageRes2
  let s := s.setRoot backupLvl2TableAddr
  let (s, _) ← bindAddress s page newPhysAddress usrBa
  .ok s

/-- The body of the inner loop of `process_init_copy_and_write`, for the level-3 entry `j` of table
`i`. -/
def copyLvl3Entry (parentLvl2Entry lvl2Entry : Word) (i j : ℕ) (s : MmuState) :
    Except Stop MmuState :=
  let forked := newBlockAttributesSg1 (forkedPage ||| accessFlagSet) normalWtNt
  let parentLvl3Entry := getAddressSg1 s parentLvl2Entry + BitVec.ofNat 64 j * 8
  let lvl3Entry := getAddressSg1 s lvl2Entry + BitVec.ofNat 64 j * 8
  let virtualAddr := granule * BitVec.ofNat 64 (i * nTableEntries + j)
  if !isBlockEntry (s.word parentLvl3Entry) then .ok (setInvalidEntry s lvl3Entry)
  else if virtualAddr = timerIrqPage then .ok s
  else
    let s :=
      if virtualAddr ≠ stackPage1 ∧ virtualAddr ≠ stackPage2 then
        setBlockAndPageAttributesSg1 s parentLvl3Entry forked
      else s
    let s := s.setWord lvl3Entry (s.word parentLvl3Entry)
    incrementBindCounter s (getAddressSg1 s lvl3Entry)

/-- The body of the outer loop of `process_init_copy_and_write`, for the level-2 entry `i`. -/
def copyLvl2Entry (parentLvl2TableAddr : Word) (i : ℕ) (s : MmuState) : Except Stop MmuState :=
  let parentLvl2Entry := parentLvl2TableAddr + BitVec.ofNat 64 i * 8
  let lvl2Entry := s.lvl2TableAddress + BitVec.ofNat 64 i * 8
  if !isTableEntry (s.word parentLvl2Entry) then .ok (setInvalidEntry s lvl2Entry)
  else forUpToM nTableEntries (copyLvl3Entry parentLvl2Entry lvl2Entry i) s

/-- `GPIO_BASE / (GRANULE * N_TABLE_ENTRIES)`. -/
def nAvailableTables : ℕ := 505

/-- `process_init_copy_and_write`. -/
def processInitCopyAndWrite (L : Layout) (sys : SystemState) (pid : Pid) (s : MmuState) :
    Except Stop MmuState := do
  let parentLvl2TableAddr := getLvl2AddressFromSysState sys (getParentPid sys pid)
  assert (.assertion .idPagingAligned) (s.idPagingSize % (granule * 512) = 0)
  assert (.assertion .tablesAligned) (L.mmuTablesStart % (granule * 512) = 0)
  let nKernelTables :=
    ((if pid = memManagerPid then L.mmuTablesStart else s.idPagingSize) / (granule * 512)).toNat
  let s := forUpTo nKernelTables (fun i s ↦
    s.setWord (s.lvl2TableAddress + BitVec.ofNat 64 i * 8)
      (s.word (parentLvl2TableAddr + BitVec.ofNat 64 i * 8))) s
  let s ← if pid = memManagerPid then
      mapTableZone L (newBlockAttributesSg1 (dataPage ||| accessFlagSet) normalWtNt) s
    else .ok s
  let nKernelTables := (s.idPagingSize / (granule * 512)).toNat
  let s ← forUpToM (nAvailableTables - nKernelTables) (fun i s ↦
    copyLvl2Entry parentLvl2TableAddr (nKernelTables + i) s) s
  let s ← copyForkedPage L sys stackPage1 s
  copyForkedPage L sys stackPage2 s

/-- The tables of the kernel and of `init`: the identity and two stack pages. -/
def initIdentity (L : Layout) (s : MmuState) : Except Stop MmuState := do
  let s ← identityPaging L s
  let s ← checkIdentityPaging s
  let (s, _) ← getNewPage s stackPage1 (dataPage ||| accessFlagSet) normalWtNt
  let (s, _) ← getNewPage s stackPage2 (kernelPage ||| accessFlagSet) normalWtNt
  .ok s

/-- `c_init_mmu`. It leaves `lvl2_table_address` at the root of the new tables. -/
def cInitMmu (L : Layout) (sys : SystemState) (pid : Pid) (s : MmuState) :
    Except Stop MmuState := do
  let s := { s with idPagingSize := L.endAddr }
  let s := s.setRoot (L.mmuTablesStart + BitVec.ofNat 64 pid.val * 512 * granule)
  let s ← populateLvl2Table s (s.lvl2TableAddress + granule)
  let s ← if pid = kernelPid ∨ pid = initPid then
      initIdentity L (if pid = kernelPid then initPhysicalMemoryMap L s else s)
    else processInitCopyAndWrite L sys pid s
  mapPeripheralPages s

/-! ### Faults -/

/-- `translation_fault_handler`, with the globals of the allocator. -/
def translationFaultHandler (sys : SystemState) (alloc : AllocConf) (faultAddress : Word)
    (lowerEl : Bool) (pid : Pid) (s : MmuState) : Except Stop MmuState := do
  let s := s.setRoot (getLvl2AddressFromSysState sys pid)
  assert (.assertion .segFault) (alloc.heapBegin ≤ faultAddress ∧
    faultAddress < alloc.heapBegin + alloc.endOffset.signExtend 64)
  let perm := if lowerEl then userPage else kernelPage
  let (s, _) ← getNewPage s faultAddress (perm ||| accessFlagSet) normalWtNt
  .ok s

/-- `access_flag_fault_lvl3_handler`. -/
def accessFlagFaultLvl3Handler (sys : SystemState) (faultAddress : Word) (pid : Pid)
    (s : MmuState) : Except Stop MmuState :=
  setPageAccessFlag (s.setRoot (getLvl2AddressFromSysState sys pid)) faultAddress

/-- `handle_shared_page_write`. -/
def handleSharedPageWrite (faultAddress : Word) (lowerLvl : Bool) (s : MmuState) :
    Except Stop MmuState := do
  let physAddress ← getPhysicalAddress s faultAddress
  let cnt := getBindCounter s physAddress
  assert (.assertion .sharedPageCount) (0 < cnt)
  let ba :=
    newBlockAttributesSg1 ((if lowerLvl then userPage else kernelPage) ||| accessFlagSet) normalWtNt
  if 1 < cnt then do
    let s := decrementBindCounter s physAddress
    let (s, status) ← getNewPage s pageRes1 (kernelPage ||| accessFlagSet) normalWtNt
    assert (.assertion .sharedPageBound) (status = 0)
    let tempPhysAddress ← getPhysicalAddress s pageRes1
    let alignedFaultAddr := faultAddress &&& mask 63 12
    let s ← memmovePage s pageRes1 alignedFaultAddr
    let s ← setInvalidPage s pageRes1
    let (s, status) ← bindAddress s alignedFaultAddr tempPhysAddress ba
    assert (.assertion .sharedPageBound) (status = 0)
    .ok s
  else do
    let lvl3Entry := getLvl3EntryPhysAddress s faultAddress
    assert (.assertion .sharedPageWalk) (lvl3Entry &&& mask 5 0 = 0)
    .ok (setBlockAndPageAttributesSg1 s lvl3Entry ba)

/-- `permission_fault_handler`. -/
def permissionFaultHandler (faultAddress : Word) (lowerLvl : Bool) (s : MmuState) :
    Except Stop MmuState := do
  assert (.assertion .faultLevel) lowerLvl
  assert (.assertion .segFault) (!(faultAddress < s.idPagingSize ∨ gpioBase < faultAddress))
  handleSharedPageWrite faultAddress lowerLvl s

/-! ### Release -/

/-- `process_exit`. -/
def processExit (pid : Pid) (s : MmuState) : Except Stop MmuState := do
  assert (.assertion .exitPid) (pid ≠ kernelPid ∧ pid ≠ initPid ∧ pid ≠ memManagerPid)
  let nKernelTables := (s.idPagingSize / (granule * 512)).toNat
  let s ← forUpToM (nAvailableTables - nKernelTables) (fun i s ↦
    let lvl2Entry := s.lvl2TableAddress + BitVec.ofNat 64 (nKernelTables + i) * 8
    if !isTableEntry (s.word lvl2Entry) then .ok s
    else do
      let s ← forUpToM nTableEntries (fun j s ↦
        let lvl3Entry := getAddressSg1 s lvl2Entry + BitVec.ofNat 64 j * 8
        if !isBlockEntry (s.word lvl3Entry) then .ok s
        else do
          let s ← decrAndFreePhysicalPage s (getAddressSg1 s lvl3Entry)
          .ok (setInvalidEntry s lvl3Entry)) s
      .ok (setInvalidEntry s lvl2Entry)) s
  assert (.assertion .exitAsid) (BitVec.ofNat 64 pid.val = (s.ttbr0El1 &&& mask 63 48) >>> 48)
  .ok s

/-- `mem_manager_free_virtual_page`. -/
def memManagerFreeVirtualPage (sys : SystemState) (virtualAddr : Word) (pid : Pid) (s : MmuState) :
    Except Stop (MmuState × Word) := do
  let backupLvl2TableAddress := s.lvl2TableAddress
  assert (.assertion .managerRoot)
    (backupLvl2TableAddress = getLvl2AddressFromSysState sys memManagerPid)
  let (s, status) ← freeVirtualPage (s.setRoot (getLvl2AddressFromSysState sys pid)) virtualAddr
  .ok (s.setRoot backupLvl2TableAddress, status)

end SysresOs.Mmu
