import SysresOs.Lib.Loop
import SysresOs.Lib.Outcome
import SysresOs.Proc.State

/-!
# The memory management unit

`memory/mmu.c`: the translation tables of the processes, the map of free physical pages with its
bind counters, and the handlers of page faults. The linker script lays the table zone, the map, the
counters and the pages of the processes out one after the other, and each has its own memory below,
addressed as in the source. The tables that a function edits are those of the global
`lvl2_table_address`; the hardware translates with those of the register `TTBR0_EL1`.
-/

set_option autoImplicit false
set_option relaxedAutoImplicit false

namespace SysresOs.Mmu

open SysresOs.Loop SysresOs.Outcome

open SysresOs.Proc (Pid SystemState AllocConf kernelPid initPid)

/-! ### Words and masks -/

/-- `uint64_t`. -/
abbrev Word := BitVec 64

/-- `_MASK_`. -/
def maskFrom (f t : ℕ) : Word := (if f = 63 then 0 else 1#64 <<< (f + 1)) - 1#64 <<< t

/-- `MASK`: the bits from one position to another. -/
def mask (f t : ℕ) : Word := if f < t then maskFrom t f else maskFrom f t

/-! ### Constants -/

/-- `RAM_SIZE`. -/
def ramSize : Word := 0x40000000

/-- `GRANULE`. -/
def granule : Word := 0x1000

/-- `N_TABLE_ENTRIES`. -/
def nTableEntries : ℕ := 512

/-- `GPIO_BASE`. -/
def gpioBase : Word := 0x3f200000

/-- `TIMER_IRQ_PAGE`. -/
def timerIrqPage : Word := 0x3f00b000

/-- `STACK_PAGE_1`. -/
def stackPage1 : Word := gpioBase - granule

/-- `STACK_PAGE_2`. -/
def stackPage2 : Word := gpioBase - 2 * granule

/-- `STACK_END`. -/
def stackEnd : Word := gpioBase - 2 * granule

/-- `PAGE_RES_1`. -/
def pageRes1 : Word := stackEnd - granule

/-- `PAGE_RES_2`. -/
def pageRes2 : Word := stackEnd - 2 * granule

/-- `MEM_MANAGER_PID`. -/
def memManagerPid : Pid := 2

/-- The symbols of the linker script. The table zone has room for the tables of 32 processes, and
the whole image ends below the peripherals. -/
structure Layout where
  dataStart : Word
  mmuTablesStart : Word
  dataStart_aligned : dataStart.toNat % 0x1000 = 0
  dataStart_le : dataStart.toNat ≤ mmuTablesStart.toNat
  mmuTablesStart_aligned : mmuTablesStart.toNat % 0x200000 = 0
  below_peripherals : mmuTablesStart.toNat + 0x4200000 ≤ 0x3f000000

/-- `__physical_memory_map`. -/
def Layout.physicalMemoryMap (L : Layout) : Word := L.mmuTablesStart + 0x4000000

/-- `__end`: after the map and the counters, at the next multiple of `0x200000`. -/
def Layout.endAddr (L : Layout) : Word := L.physicalMemoryMap + 0x200000

/-! ### State -/

/-- The assertions of `mmu.c`. -/
inductive Assertion
  | setInvalidPage
  | setPageAccessFlag
  | newTable
  | counterAddress
  | walk
  | rootAligned
  | lvl3Aligned
  | tableZone
  | forkedPageAligned
  | forkedPageCount
  | kernelRoot
  | forkedPageBound
  | idPagingAligned
  | tablesAligned
  | mapExhausted
  | mapFull
  | freedAligned
  | freedCount
  | freedBelow
  | segFault
  | sharedPageCount
  | sharedPageBound
  | sharedPageWalk
  | faultLevel
  | exitPid
  | exitAsid
  | managerRoot
  deriving DecidableEq, Repr

/-- Why a path through `mmu.c` does not return. -/
inductive Stop
  /-- A failed `assert`, which calls `abort()`. -/
  | assertion (which : Assertion)
  /-- A call of `abort()` in `check_identity_paging`. -/
  | abort
  /-- The kernel itself touches an address that the tables of `TTBR0_EL1` do not give it. -/
  | kernelFault (addr : Word)
  /-- `bind_address` calls itself for ever. -/
  | diverges
  deriving DecidableEq, Repr

/-- `struct physical_memory_map_t`, with the array behind `map`. The field `bind_counter` is an
address. -/
structure PhysicalMemoryMap where
  map : ℕ → BitVec 32
  head : BitVec 32
  size : BitVec 32
  bindCounterOffset : Word
  bindCounter : Word

/-- The memory and the globals of `mmu.c`, and the register `TTBR0_EL1`. -/
structure MmuState where
  words : ℕ → Word
  counters : Word → BitVec 8
  pages : Word → BitVec 8
  physicalMemoryMap : PhysicalMemoryMap
  lvl2TableAddress : Word
  idPagingSize : Word
  ttbr0El1 : Word

namespace MmuState

variable (s : MmuState)

/-- `AT(addr)`. -/
def word (addr : Word) : Word := s.words addr.toNat

/-- An assignment to `AT(addr)`. -/
def setWord (addr value : Word) : MmuState :=
  { s with words := Function.update s.words addr.toNat value }

/-- An assignment to `lvl2_table_address`. -/
def setRoot (root : Word) : MmuState := { s with lvl2TableAddress := root }

end MmuState

/-- `get_lvl2_address_from_sys_state`. -/
def getLvl2AddressFromSysState (sys : SystemState) (pid : Pid) : Word :=
  (sys.procs pid).memConf.ttbr0El1 &&& mask 47 1

/-- `get_parent_pid`. -/
def getParentPid (sys : SystemState) (pid : Pid) : Pid := (sys.procs pid).parentPid

/-! ### Descriptors -/

/-- `block_attributes_sg1`. -/
structure BlockAttributesSg1 where
  uxn : Word
  pxn : Word
  continuousBit : Word
  dirtyBit : Word
  notGlobal : Word
  accessFlag : Word
  shareability : Word
  accessPermission : Word
  nonSecure : Word
  attrIndex : Word
  deriving DecidableEq, Repr

/-- `ACCESS_FLAG_SET`. -/
def accessFlagSet : Word := 0b10000

/-- `KERNEL_PAGE`. -/
def kernelPage : Word := 0b00000

/-- `USER_PAGE`. -/
def userPage : Word := 0b00001

/-- `CODE_PAGE`. -/
def codePage : Word := 0b00011

/-- `FORKED_PAGE`. -/
def forkedPage : Word := 0b00011

/-- `IO_PAGE`. -/
def ioPage : Word := 0b01001

/-- `DATA_PAGE`. -/
def dataPage : Word := 0b01001

/-- `DEVICE`. -/
def device : Word := 0

/-- `NORMAL_WT_NT`. -/
def normalWtNt : Word := 1

/-- `new_block_attributes_sg1`. -/
def newBlockAttributesSg1 (permConfig cacheConfig : Word) : BlockAttributesSg1 where
  uxn := permConfig >>> 3 &&& 1#64
  pxn := permConfig >>> 2 &&& 1#64
  continuousBit := 0
  dirtyBit := 0
  notGlobal := if permConfig &&& mask 3 0 = kernelPage ∨ permConfig &&& mask 3 0 = ioPage then 0
    else 1
  accessFlag := permConfig >>> 4 &&& 1#64
  shareability := 0
  accessPermission := permConfig &&& 0b11
  nonSecure := 1
  attrIndex := cacheConfig

/-- The value that `set_block_and_page_attributes_sg1` gives an entry. -/
def withAttributes (entr : Word) (bas1 : BlockAttributesSg1) : Word :=
  let entr := entr &&& mask 47 12
  let entr := entr ||| (bas1.uxn &&& 1) <<< 54
  let entr := entr ||| (bas1.pxn &&& 1) <<< 53
  let entr := entr ||| (bas1.continuousBit &&& 1) <<< 52
  let entr := entr ||| (bas1.dirtyBit &&& 1) <<< 51
  let entr := entr ||| (bas1.notGlobal &&& 1) <<< 11
  let entr := entr ||| (bas1.accessFlag &&& 1) <<< 10
  let entr := entr ||| (bas1.shareability &&& 3) <<< 8
  let entr := entr ||| (bas1.accessPermission &&& 3) <<< 6
  let entr := entr ||| (bas1.nonSecure &&& 1) <<< 5
  let entr := entr ||| (bas1.attrIndex &&& 1) <<< 2
  entr ||| 3

/-- `set_block_and_page_attributes_sg1`. -/
def setBlockAndPageAttributesSg1 (s : MmuState) (addr : Word) (bas1 : BlockAttributesSg1) :
    MmuState :=
  s.setWord addr (withAttributes (s.word addr) bas1)

/-- `init_block_and_page_entry_sg1`. -/
def initBlockAndPageEntrySg1 (s : MmuState) (entryAddr innerAddr : Word) (ba : BlockAttributesSg1) :
    MmuState :=
  let s := s.setWord entryAddr
    ((s.word entryAddr &&& (mask 63 48 ||| mask 11 0)) ||| (innerAddr &&& mask 35 0))
  setBlockAndPageAttributesSg1 s entryAddr ba

/-- `set_entry_access_flag`. -/
def setEntryAccessFlag (s : MmuState) (entryAddr : Word) : MmuState :=
  s.setWord entryAddr (s.word entryAddr ||| 1#64 <<< 10)

/-- `set_invalid_entry`. -/
def setInvalidEntry (s : MmuState) (entryAddr : Word) : MmuState :=
  s.setWord entryAddr (s.word entryAddr &&& mask 63 1)

/-- `set_identifier_table_entry`. -/
def setIdentifierTableEntry (s : MmuState) (entryAddr : Word) : MmuState :=
  s.setWord entryAddr (s.word entryAddr ||| 0b11)

/-- `table_attributes_sg1`. -/
structure TableAttributesSg1 where
  nsTable : Word
  apTable : Word
  uxnTable : Word
  pxnTable : Word
  deriving DecidableEq, Repr

/-- `new_table_attributes_sg1`. -/
def newTableAttributesSg1 : TableAttributesSg1 := ⟨1, 0, 0, 0⟩

/-- `set_table_attributes_sg1`. -/
def setTableAttributesSg1 (s : MmuState) (addr : Word) (ta1 : TableAttributesSg1) : MmuState :=
  let entry := s.word addr &&& mask 58 0
  let entry := entry ||| (ta1.nsTable &&& 1) <<< 63
  let entry := entry ||| (ta1.apTable &&& 3) <<< 61
  let entry := entry ||| (ta1.uxnTable &&& 1) <<< 60
  let entry := entry ||| (ta1.pxnTable &&& 1) <<< 59
  s.setWord addr (entry ||| 3)

/-- `init_table_entry_sg1`. -/
def initTableEntrySg1 (s : MmuState) (entryAddr innerAddr : Word) : MmuState :=
  let s := s.setWord entryAddr
    ((s.word entryAddr &&& (mask 63 48 ||| mask 11 0)) ||| (innerAddr &&& mask 35 0))
  setTableAttributesSg1 s entryAddr newTableAttributesSg1

/-- `get_address_sg1`. -/
def getAddressSg1 (s : MmuState) (entryAddr : Word) : Word := s.word entryAddr &&& mask 47 12

/-- `is_block_entry(entry, 3)`. -/
def isBlockEntry (entry : Word) : Bool := entry &&& mask 1 0 = 3

/-- `is_table_entry`. -/
def isTableEntry (entry : Word) : Bool := entry &&& mask 1 0 = 3

/-! ### The walk -/

/-- The error code in the low bits of a result of the walk. -/
def errorCode (addr : Word) : Word := addr &&& mask 2 0

/-- `get_lvl2_table_entry_phys_address`. -/
def getLvl2TableEntryPhysAddress (s : MmuState) (virtualAddr : Word) : Word :=
  if virtualAddr &&& mask 47 30 ≠ 0 then 2
  else if virtualAddr &&& mask 63 48 ≠ 0 then 1
  else if s.lvl2TableAddress &&& mask 16 0 ≠ 0 then 3
  else s.lvl2TableAddress + 8#64 * ((virtualAddr &&& mask 29 21) >>> 21)

/-- `get_lvl3_entry_phys_address`. -/
def getLvl3EntryPhysAddress (s : MmuState) (virtualAddr : Word) : Word :=
  let lvl2Entry := getLvl2TableEntryPhysAddress s virtualAddr
  if errorCode lvl2Entry ≠ 0 then lvl2Entry
  else if !isTableEntry (s.word lvl2Entry) then 5
  else getAddressSg1 s lvl2Entry + 8#64 * ((virtualAddr &&& mask 20 12) >>> 12)

/-- `set_invalid_page`. -/
def setInvalidPage (s : MmuState) (virtualAddr : Word) : Except Stop MmuState := do
  let lvl3Entry := getLvl3EntryPhysAddress s virtualAddr
  assert (.assertion .setInvalidPage) (errorCode lvl3Entry = 0)
  .ok (setInvalidEntry s lvl3Entry)

/-- `set_page_access_flag`. -/
def setPageAccessFlag (s : MmuState) (virtualAddr : Word) : Except Stop MmuState := do
  let lvl3Entry := getLvl3EntryPhysAddress s virtualAddr
  assert (.assertion .setPageAccessFlag) (errorCode lvl3Entry = 0)
  .ok (setEntryAccessFlag s lvl3Entry)

/-- `get_physical_address`. -/
def getPhysicalAddress (s : MmuState) (virtualAddr : Word) : Except Stop Word := do
  let lvl3Entry := getLvl3EntryPhysAddress s virtualAddr
  assert (.assertion .walk) (errorCode lvl3Entry = 0)
  .ok (getAddressSg1 s lvl3Entry + (virtualAddr &&& mask 11 0))

/-- `init_new_lvl3_table`. -/
def initNewLvl3Table (s : MmuState) (lvl2Entry : Word) : Except Stop MmuState := do
  let s := setIdentifierTableEntry s lvl2Entry
  assert (.assertion .newTable) (isTableEntry (s.word lvl2Entry))
  .ok (forUpTo 512 (fun i s ↦
    setInvalidEntry s (getAddressSg1 s lvl2Entry + BitVec.ofNat 64 i * 8)) s)

/-! ### Bind counters -/

/-- `get_bind_counter_address`. -/
def getBindCounterAddress (s : MmuState) (physicalAddr : Word) : Word :=
  s.physicalMemoryMap.bindCounter + physicalAddr / granule - s.physicalMemoryMap.bindCounterOffset

/-- `get_bind_counter`. -/
def getBindCounter (s : MmuState) (physicalAddr : Word) : BitVec 8 :=
  s.counters (getBindCounterAddress s physicalAddr)

/-- `set_bind_counter`. -/
def setBindCounter (s : MmuState) (physicalAddr : Word) (value : BitVec 8) : MmuState :=
  { s with counters := Function.update s.counters (getBindCounterAddress s physicalAddr) value }

/-- `increment_bind_counter`. -/
def incrementBindCounter (s : MmuState) (physicalAddr : Word) : Except Stop MmuState := do
  assert (.assertion .counterAddress) (getBindCounterAddress s physicalAddr < s.idPagingSize)
  .ok (setBindCounter s physicalAddr (getBindCounter s physicalAddr + 1))

/-- `decrement_bind_counter`. -/
def decrementBindCounter (s : MmuState) (physicalAddr : Word) : MmuState :=
  setBindCounter s physicalAddr (getBindCounter s physicalAddr - 1)

/-! ### Binding a page -/

/-- `bind_address`, with a bound on the number of its calls to itself. -/
def bindAddressWithin (virtualAddr physicalAddr : Word) (ba : BlockAttributesSg1) :
    ℕ → MmuState → Except Stop (MmuState × Word)
  | 0, _ => .error .diverges
  | calls + 1, s => do
    if physicalAddr &&& mask 11 0 ≠ 0 then .ok (s, 4)
    else
      let lvl3Entry := getLvl3EntryPhysAddress s virtualAddr
      if errorCode lvl3Entry = 0 then do
        let s := initBlockAndPageEntrySg1 s lvl3Entry physicalAddr ba
        let s ← if s.idPagingSize ≤ physicalAddr then incrementBindCounter s physicalAddr else .ok s
        .ok (s, 0)
      else if errorCode lvl3Entry = 5 then do
        let s ← initNewLvl3Table s (getLvl2TableEntryPhysAddress s virtualAddr)
        bindAddressWithin virtualAddr physicalAddr ba calls s
      else .ok (s, lvl3Entry)

/-- `bind_address`. A level-2 entry that is not a table entry after `init_new_lvl3_table` was
cleared by it, because it lies in the table it points to, and it will be so after every further
call. -/
def bindAddress (s : MmuState) (virtualAddr physicalAddr : Word) (ba : BlockAttributesSg1) :
    Except Stop (MmuState × Word) :=
  bindAddressWithin virtualAddr physicalAddr ba 2 s

end SysresOs.Mmu
