import SysresOs.Memory.Forkable
import SysresOs.Memory.SharedWrite

/-!
# Copies of the kernel to and from a process

`memmove` runs at exception level 1 with the tables of the process when `save_context` reads a
message and when `write_buff_svc` writes one. An access that the tables do not allow is a data
abort, which `c_sync_handler` hands to the handlers of `mmu.c`; the access is made again when the
handler returns. A page of the heap that is not mapped is mapped then, but the handler of a
permission fault asserts that the fault is from a process, so that the kernel stops at a page which
is read-only after a fork (`resolvesFaults_iff`).
-/

set_option autoImplicit false
set_option relaxedAutoImplicit false

namespace SysresOs.Mmu

open SysresOs.Outcome

open SysresOs.Proc (Pid SystemState AllocConf zeroDescriptor)

/-! ### Aborts -/

/-- What the walk of the hardware ends with. -/
inductive Abort
  /-- The address is none of the tables of `TTBR0_EL1`. -/
  | outside
  | lvl2
  | lvl3
  | accessFlag
  | permission
  deriving DecidableEq, Repr

/-- The fault status code of an abort. -/
def Abort.statusCode : Abort → Word
  | .outside => 0b000100
  | .lvl2 => 0b000110
  | .lvl3 => 0b000111
  | .accessFlag => 0b001011
  | .permission => 0b001111

/-- An access of the kernel in the tables of `TTBR0_EL1`: the abort that it raises, if any. -/
def kernelAbort (s : MmuState) (virtualAddr : Word) (write : Bool) : Option Abort :=
  let lvl2Entry := (s.ttbr0El1 &&& mask 47 1) + 8#64 * ((virtualAddr &&& mask 29 21) >>> 21)
  let lvl3Entry := getAddressSg1 s lvl2Entry + 8#64 * ((virtualAddr &&& mask 20 12) >>> 12)
  let entry := s.word lvl3Entry
  if virtualAddr &&& mask 63 30 ≠ 0 then some .outside
  else if !isTableEntry (s.word lvl2Entry) then some .lvl2
  else if !isBlockEntry entry then some .lvl3
  else if entry &&& 1#64 <<< 10 = 0 then some .accessFlag
  else if write ∧ entry &&& 1#64 <<< 7 ≠ 0 then some .permission
  else none

/-- A data abort without a change of the exception level, in `ESR_EL1`. -/
def abortEsr (abort : Abort) (write : Bool) : Word :=
  0x96000000 ||| (if write then 0x40 else 0) ||| abort.statusCode

/-- `data_abort_handler` and `instruction_abort_handler`, which make no difference between the
two. -/
def abortHandler (sys : SystemState) (alloc : AllocConf) (esrEl farEl : Word)
    (lowerEl : Bool) (pid : Pid) (s : MmuState) : Except Stop MmuState :=
  let faultStatusCode := esrEl &&& mask 5 0
  if faultStatusCode = 0b110 then translationFaultHandler sys alloc farEl lowerEl pid s
  else if faultStatusCode = 0b111 then translationFaultHandler sys alloc farEl lowerEl pid s
  else if faultStatusCode = 0b1011 then accessFlagFaultLvl3Handler sys farEl pid s
  else if faultStatusCode = 0b1111 then permissionFaultHandler farEl lowerEl s
  else .error .abort

/-- `c_sync_handler`. -/
def cSyncHandler (sys : SystemState) (alloc : AllocConf) (esrEl farEl : Word) (pid : Pid)
    (s : MmuState) : Except Stop MmuState :=
  let exceptionClass := (esrEl &&& 0xfc000000) >>> 26
  if exceptionClass = 0b100000 then abortHandler sys alloc esrEl farEl true pid s
  else if exceptionClass = 0b100001 then abortHandler sys alloc esrEl farEl false pid s
  else if exceptionClass = 0b100100 then abortHandler sys alloc esrEl farEl true pid s
  else if exceptionClass = 0b100101 then abortHandler sys alloc esrEl farEl false pid s
  else .error .abort

/-! ### Copies -/

/-- What stays the same while the kernel copies for a process. -/
structure CopyContext where
  layout : Layout
  sys : SystemState
  alloc : AllocConf
  pid : Pid

section Copies

variable (c : CopyContext)

/-- A data abort of the kernel: the handler runs with the tables of the kernel. -/
def takeAbort (abort : Abort) (va : Word) (write : Bool) (s : MmuState) : Except Stop MmuState := do
  let t ← cSyncHandler c.sys c.alloc (abortEsr abort write) va c.pid { s with
      ttbr0El1 := c.layout.mmuTablesStart }
  .ok { t with ttbr0El1 := s.ttbr0El1 }

/-- An access to one byte, which is made at most `n` times, with the aborts that it raises. -/
def access (va : Word) (write : Bool) : ℕ → MmuState → Except Stop (MmuState × List (Abort × Word))
  | 0, _ => .error .diverges
  | n + 1, s =>
    match kernelAbort s va write with
    | none => .ok (s, [])
    | some abort => do
      let t ← takeAbort c abort va write s
      let (u, aborts) ← access va write n t
      .ok (u, (abort, va) :: aborts)

/-- Accesses to bytes one after another. -/
def accesses (write : Bool) (n : ℕ) : List Word → MmuState →
    Except Stop (MmuState × List (Abort × Word))
  | [], s => .ok (s, [])
  | va :: vas, s => do
    let (t, aborts) ← access c va write n s
    let (u, rest) ← accesses write n vas t
    .ok (u, aborts ++ rest)

/-- The order in which `memmove` copies the bytes. -/
def memmoveOrder (pdst psrc : Word) (size : ℕ) : List ℕ :=
  if pdst < psrc then List.range size else (List.range size).reverse

/-- The accesses of `write_buff_svc` to the memory of the process, for the address and the size in
its buffer, which is at `buff`. -/
def writeBuffSvc (n : ℕ) (buff writeAddr : Word) (usedSize : ℕ) (s : MmuState) :
    Except Stop (MmuState × List (Abort × Word)) :=
  if writeAddr ≠ 0 then
    accesses c true n ((memmoveOrder writeAddr buff usedSize).map fun i ↦
    writeAddr + BitVec.ofNat 64 i) s
  else .ok (s, [])

end Copies

/-! ### One abort -/

section Aborts

variable {s : MmuState} {root va e : Word} {abort : Abort} {write : Bool} {sys : SystemState}
  {alloc : AllocConf} {pid : Pid}

/-- What the hardware finds, by the valid entry of the page. -/
theorem kernelAbort_eq (write : Bool) (hhardware : s.ttbr0El1 &&& mask 47 1 = root)
    (hroot : Rooted root) (hva : va.toNat < 2 ^ 30) : kernelAbort s va write =
      match leaf s.words root (page va) with
      | none => some (if present s.words root (page va / 512) then .lvl3 else .lvl2)
      | some e => if e &&& 1#64 <<< 10 = 0 then some .accessFlag
        else if write ∧ e &&& 1#64 <<< 7 ≠ 0 then some .permission else none := by
  subst hhardware
  obtain ⟨hentry, hlvl3⟩ := kernelTranslation_entries hroot hva
  have hlow : va &&& mask 63 30 = 0 := by
    rw [and_mask_eq_zero va (by omega) (by omega)]
    omega
  simp only [kernelAbort]
  rw [hentry, MmuState.word, hlvl3, if_neg (not_not.mpr hlow), leaf]
  change (if (!present s.words (s.ttbr0El1 &&& mask 47 1) (page va / 512)) = true then _ else _) = _
  cases hpresent : present s.words (s.ttbr0El1 &&& mask 47 1) (page va / 512) with
  | false => simp
  | true =>
    cases hblock : isBlockEntry (s.words (lvl3Place s.words (s.ttbr0El1 &&& mask 47 1) (page va)))
      with
    | false => simp
    | true => simp

/-- The handler of an abort of the kernel. -/
theorem cSyncHandler_abortEsr (sys : SystemState) (alloc : AllocConf) (abort : Abort)
    (write : Bool) (va : Word) (pid : Pid) (s : MmuState) :
    cSyncHandler sys alloc (abortEsr abort write) va pid s =
      match abort with
      | .outside => .error .abort
      | .lvl2 | .lvl3 => translationFaultHandler sys alloc va false pid s
      | .accessFlag => accessFlagFaultLvl3Handler sys va pid s
      | .permission => permissionFaultHandler va false s := by
  have hclass : (abortEsr abort write &&& 0xfc000000) >>> 26 = 0b100101 := by
    cases abort <;> cases write <;> rfl
  have hstatus : abortEsr abort write &&& mask 5 0 = abort.statusCode := by
    cases abort <;> cases write <;> rfl
  rw [cSyncHandler, hclass]
  simp only [abortHandler, hstatus]
  cases abort <;> rfl

/-- The kernel does not get over its own write to a read-only page. -/
theorem permissionFaultHandler_kernel (va : Word) (s : MmuState) :
    permissionFaultHandler va false s = .error (.assertion .faultLevel) := rfl

end Aborts

/-! ### States in which the kernel copies -/

/-- The address is in the heap. -/
def InHeap (alloc : AllocConf) (va : Word) : Prop :=
  alloc.heapBegin ≤ va ∧ va < alloc.heapBegin + alloc.endOffset.signExtend 64

/-- The address is in the heap or in a stack page of the process. -/
def UserAddress (alloc : AllocConf) (va : Word) : Prop := InHeap alloc va ∨ IsStackPage (page va)

/-- The process `c.pid` has the processor: its tables are in their zone, its stack pages are mapped,
its heap lies between the memory of the kernel and the peripherals, and the free entries of the map
are pages. -/
structure CopyReady (c : CopyContext) (s : MmuState) : Prop where
  configured : Configured c.layout s
  root : getLvl2AddressFromSysState c.sys c.pid = c.layout.zoneRoot c.pid
  hardware : s.ttbr0El1 = (c.sys.procs c.pid).memConf.ttbr0El1
  tables : ZoneTables s.words (c.layout.zoneRoot c.pid) c.layout.kernelTables
  stack : ∀ v, IsStackPage v → leaf s.words (c.layout.zoneRoot c.pid) v ≠ none
  heapBegin : c.layout.endAddr ≤ c.alloc.heapBegin
  heapEnd : (c.alloc.heapBegin + c.alloc.endOffset.signExtend 64).toNat ≤ 0x3f00b000
  free : ∀ i, s.physicalMemoryMap.head.toNat ≤ i → i < s.physicalMemoryMap.size.toNat →
    (s.physicalMemoryMap.map i).toNat % 0x1000 = 0 ∧ (s.physicalMemoryMap.map i).toNat < 0x40000000

/-- The process has the page mapped read-only. -/
def ReadOnly (c : CopyContext) (s : MmuState) (va : Word) : Prop :=
  ∃ e, leaf s.words (c.layout.zoneRoot c.pid) (page va) = some e ∧ e &&& 1#64 <<< 7 ≠ 0

/-- The pages of a list of addresses that are not mapped. -/
def missing (c : CopyContext) (s : MmuState) (vas : List Word) : Finset ℕ :=
  (vas.map page).toFinset.filter fun v ↦ leaf s.words (c.layout.zoneRoot c.pid) v = none

/-- The number of free entries of the map. -/
def freeEntries (s : MmuState) : ℕ :=
  s.physicalMemoryMap.size.toNat - s.physicalMemoryMap.head.toNat

/-- What a successful write to an address leaves. -/
structure Accessed (c : CopyContext) (s : MmuState) (va : Word) (t : MmuState) : Prop where
  ready : CopyReady c t
  mapped : leaf t.words (c.layout.zoneRoot c.pid) (page va) ≠ none
  writable : ¬ ReadOnly c t va
  kept : ∀ u, c.layout.kernelTables ≤ u / 512 → u < 511 * 512 → u ≠ page va →
    leaf t.words (c.layout.zoneRoot c.pid) u = leaf s.words (c.layout.zoneRoot c.pid) u
  free : freeEntries t + (if leaf s.words (c.layout.zoneRoot c.pid) (page va) = none then 1
    else 0) = freeEntries s

section Ready

variable {c : CopyContext} {s t : MmuState} {va e : Word} {n : ℕ}

theorem UserAddress.bounds (h : CopyReady c s) (hva : UserAddress c.alloc va) :
    va.toNat < 2 ^ 30 ∧ c.layout.kernelTables ≤ page va / 512 ∧ page va < 511 * 512 := by
  obtain ⟨hend, hle⟩ := c.layout.toNat_endAddr_tables
  have hbegin : c.layout.endAddr.toNat ≤ c.alloc.heapBegin.toNat := h.heapBegin
  have hheap := h.heapEnd
  unfold page
  rcases hva with ⟨hlow, hhigh⟩ | hstack
  · have hlow' : c.alloc.heapBegin.toNat ≤ va.toNat := hlow
    have hhigh' : va.toNat < (c.alloc.heapBegin + c.alloc.endOffset.signExtend 64).toNat := hhigh
    omega
  · unfold IsStackPage page at hstack
    omega

theorem CopyReady.kernelAbort_eq (h : CopyReady c s) (hva : va.toNat < 2 ^ 30) (write : Bool) :
    kernelAbort s va write =
      match leaf s.words (c.layout.zoneRoot c.pid) (page va) with
      | none =>
        some (if present s.words (c.layout.zoneRoot c.pid) (page va / 512) then .lvl3 else .lvl2)
      | some e => if e &&& 1#64 <<< 10 = 0 then some .accessFlag
        else if write ∧ e &&& 1#64 <<< 7 ≠ 0 then some .permission else none := by
  refine Mmu.kernelAbort_eq write ?_ h.tables.zone.rooted hva
  rw [h.hardware]
  exact h.root

/-- What a handler leaves that binds a page or sets its access flag. -/
structure Remapped (c : CopyContext) (s : MmuState) (va e : Word) (taken : BitVec 32)
    (t : MmuState) : Prop where
  leaf_eq : ∀ u, c.layout.kernelTables ≤ u / 512 → u < 511 * 512 →
    leaf t.words (c.layout.zoneRoot c.pid) u = if u = page va then some e
    else leaf s.words (c.layout.zoneRoot c.pid) u
  tables : ZoneTables t.words (c.layout.zoneRoot c.pid) c.layout.kernelTables
  hardware : t.ttbr0El1 = s.ttbr0El1
  idPagingSize : t.idPagingSize = s.idPagingSize
  map : t.physicalMemoryMap = { s.physicalMemoryMap with head := s.physicalMemoryMap.head + taken }

theorem isStackPage_bounds (L : Layout) {v : ℕ} (hv : IsStackPage v) :
    L.kernelTables ≤ v / 512 ∧ v < 511 * 512 := by
  obtain ⟨-, hle⟩ := L.toNat_endAddr_tables
  unfold IsStackPage at hv
  omega

/-- The state is again one in which the kernel copies. -/
theorem Remapped.ready {taken : BitVec 32} (h : CopyReady c s) (ht : Remapped c s va e taken t)
    (hhead : s.physicalMemoryMap.head.toNat ≤ (s.physicalMemoryMap.head + taken).toNat) :
    CopyReady c t where
  configured := by
    obtain ⟨hid, hcounter, hoffset⟩ := h.configured
    refine ⟨ht.idPagingSize.trans hid, ?_, ?_⟩
    · rw [ht.map]
      exact hcounter
    · rw [ht.map, ht.idPagingSize]
      exact hoffset
  root := h.root
  hardware := ht.hardware.trans h.hardware
  tables := ht.tables
  stack := by
    intro v hv
    obtain ⟨hrow, hlt⟩ := isStackPage_bounds c.layout hv
    rw [ht.leaf_eq v hrow hlt]
    split_ifs
    · exact Option.some_ne_none e
    · exact h.stack v hv
  heapBegin := h.heapBegin
  heapEnd := h.heapEnd
  free := by
    intro i hlow hhigh
    rw [ht.map] at hlow hhigh ⊢
    exact h.free i (hhead.trans hlow) hhigh

/-- The state in which the handlers look for the tables of the process. -/
def handlerState (c : CopyContext) (s : MmuState) : MmuState :=
  MmuState.setRoot { s with ttbr0El1 := c.layout.mmuTablesStart } (c.layout.zoneRoot c.pid)

/-- The handler of a translation fault in the heap gets a new page. -/
theorem takeAbort_translation (h : CopyReady c s) (hheap : InHeap c.alloc va) {abort : Abort}
    (habort : abort = .lvl2 ∨ abort = .lvl3) (write : Bool) : takeAbort c abort va write s = (do
      let (t, _) ← getNewPage (handlerState c s) va (kernelPage ||| accessFlagSet) normalWtNt
      .ok { t with ttbr0El1 := s.ttbr0El1 }) := by
  have hhandler : cSyncHandler c.sys c.alloc (abortEsr abort write) va c.pid
      { s with ttbr0El1 := c.layout.mmuTablesStart } = translationFaultHandler c.sys c.alloc
        va false c.pid { s with ttbr0El1 := c.layout.mmuTablesStart } := by
    rw [cSyncHandler_abortEsr]
    rcases habort with rfl | rfl <;> rfl
  have hassert : assert (Stop.assertion .segFault) (c.alloc.heapBegin ≤ va ∧
      va < c.alloc.heapBegin + c.alloc.endOffset.signExtend 64) = .ok () := assert_pos hheap
  rw [takeAbort, hhandler, translationFaultHandler, h.root, hassert, ok_bind]
  dsimp only
  rw [if_neg Bool.false_ne_true, ← handlerState]
  cases getNewPage (handlerState c s) va (kernelPage ||| accessFlagSet) normalWtNt <;> rfl

/-- A page of the heap is mapped when the kernel touches it. -/
theorem takeAbort_missing (h : CopyReady c s) (hheap : InHeap c.alloc va) {abort : Abort}
    (habort : abort = .lvl2 ∨ abort = .lvl3) (write : Bool)
    (hfree : s.physicalMemoryMap.head < s.physicalMemoryMap.size) :
    ∃ e t, takeAbort c abort va write s = .ok t ∧ Remapped c s va e 1 t ∧ e &&& 1#64 <<< 10 ≠ 0 ∧
      e &&& 1#64 <<< 7 = 0 := by
  obtain ⟨hva, hrow, hlt⟩ := UserAddress.bounds h (.inl hheap)
  obtain ⟨haligned, hram⟩ := h.free s.physicalMemoryMap.head.toNat le_rfl hfree
  have hnext : (nextFreePage (handlerState c s)).toNat =
      (s.physicalMemoryMap.map s.physicalMemoryMap.head.toNat).toNat := by
    rw [nextFreePage, BitVec.toNat_setWidth]
    have hlt := (s.physicalMemoryMap.map s.physicalMemoryMap.head.toNat).isLt
    exact Nat.mod_eq_of_lt (hlt.trans (by decide))
  have hnew : getNewPage (handlerState c s) va (kernelPage ||| accessFlagSet) normalWtNt =
      .ok (bound (pageTaken (handlerState c s)) (page va) (nextFreePage (handlerState c s))
        (withAttributes (nextFreePage (handlerState c s)) kernelAttributes), 0) :=
    getNewPage_apart _ _ ⟨h.configured.idPagingSize, h.configured.bindCounter,
      h.configured.bindCounterOffset⟩ h.tables.zone.rooted (h.tables.rowApart hrow (by omega)) hfree
      hva (by rw [hnext]; exact haligned) (by rw [hnext]; exact hram)
  have htake := takeAbort_translation h hheap habort write
  rw [hnew, ok_bind] at htake
  refine ⟨withAttributes (nextFreePage (handlerState c s)) kernelAttributes, _, htake,
    ⟨fun u hu hu' ↦ ?_, ?_, rfl, rfl, rfl⟩, ?_, ?_⟩
  · refine (h.tables.leaf_bindWords h.tables hrow hlt hu hu'
      (isBlockEntry_withAttributes _ _)).trans ?_
    exact if_congr (and_iff_right rfl) rfl rfl
  · exact h.tables.bind h.tables hrow hlt
  · rw [withAttributes_and _ _ _ (by decide)]
    decide
  · rw [withAttributes_and _ _ _ (by decide)]
    decide

/-- Without a free page the kernel stops. -/
theorem takeAbort_exhausted (h : CopyReady c s) (hheap : InHeap c.alloc va) {abort : Abort}
    (habort : abort = .lvl2 ∨ abort = .lvl3) (write : Bool)
    (hfree : ¬ s.physicalMemoryMap.head < s.physicalMemoryMap.size) :
    takeAbort c abort va write s = .error (.assertion .mapExhausted) := by
  have hassert :
      assert (Stop.assertion .mapExhausted) (s.physicalMemoryMap.head < s.physicalMemoryMap.size) =
      .error (.assertion .mapExhausted) := assert_neg hfree
  have hunbound :
      getUnboundPhysicalPage (handlerState c s) = .error (.assertion .mapExhausted) := by
    unfold getUnboundPhysicalPage handlerState MmuState.setRoot
    dsimp only
    rw [hassert]
    rfl
  rw [takeAbort_translation h hheap habort write]
  unfold getNewPage
  rw [hunbound]
  rfl

/-- The access flag of a page is set when the kernel touches the page. -/
theorem takeAbort_accessFlag (h : CopyReady c s) (hva : UserAddress c.alloc va)
    (hleaf : leaf s.words (c.layout.zoneRoot c.pid) (page va) = some e) (write : Bool) :
    ∃ t, takeAbort c .accessFlag va write s = .ok t ∧ Remapped c s va (e ||| 1#64 <<< 10) 0 t := by
  obtain ⟨hlow, hrow, hlt⟩ := hva.bounds h
  obtain ⟨hpresent, hword, hblock⟩ := leaf_eq_some hleaf
  have hrooted := h.tables.zone.rooted
  set s₁ := handlerState c s with hs₁
  have hpresent₁ : present s₁.words s₁.lvl2TableAddress (page va / 512) = true := hpresent
  have hplace :
      (getLvl3EntryPhysAddress s₁ va).toNat = zonePlace (c.layout.zoneRoot c.pid) (page va) :=
    (getLvl3EntryPhysAddress_eq hrooted hlow hpresent₁).trans (h.tables.lvl3Place_eq hrow hlt)
  have hentry : s₁.word (getLvl3EntryPhysAddress s₁ va) = e :=
    (word_lvl3 hrooted hlow hpresent₁).trans hword
  have hset : setPageAccessFlag s₁ va = .ok { s₁ with
      words := zoneWrite s.words (c.layout.zoneRoot c.pid) (page va) (e ||| 1#64 <<< 10) } := by
    have hcode : errorCode (getLvl3EntryPhysAddress s₁ va) = 0 :=
      errorCode_lvl3 hrooted hlow hpresent₁
    rw [setPageAccessFlag, assert_pos hcode, ok_bind, setEntryAccessFlag, MmuState.setWord, hentry,
      hplace]
    rfl
  have htake : takeAbort c .accessFlag va write s = .ok { s₁ with
      words := zoneWrite s.words (c.layout.zoneRoot c.pid) (page va) (e ||| 1#64 <<< 10)
      ttbr0El1 := s.ttbr0El1 } := by
    rw [takeAbort, cSyncHandler_abortEsr]
    dsimp only
    rw [accessFlagFaultLvl3Handler, h.root, ← handlerState, ← hs₁, hset]
    rfl
  refine ⟨_, htake, fun u hu hu' ↦ ?_, h.tables.write h.tables.zone hlt, rfl, rfl, ?_⟩
  · refine (h.tables.leaf_zoneWrite h.tables.zone hlt hu hu').trans ?_
    have hblock' : isBlockEntry (e ||| 1#64 <<< 10) = true := by
      rw [isBlockEntry_iff] at hblock ⊢
      simpa using hblock
    simp only [hpresent, hblock', true_and, and_self, if_true]
  · change s.physicalMemoryMap = { s.physicalMemoryMap with
      head := s.physicalMemoryMap.head + 0#32 }
    rw [BitVec.add_zero]

/-! ### One access -/

theorem access_of_none {write : Bool} (h : kernelAbort s va write = none) (n : ℕ) :
    access c va write (n + 1) s = .ok (s, []) := by
  rw [access, h]

theorem access_of_abort {write : Bool} {abort : Abort} (h : kernelAbort s va write = some abort)
    (ht : takeAbort c abort va write s = .ok t) {r : MmuState × List (Abort × Word)}
    (hr : access c va write n t = .ok r) :
    access c va write (n + 1) s = .ok (r.1, (abort, va) :: r.2) := by
  rw [access, h]
  dsimp only
  rw [ht, ok_bind, hr]
  rfl

/-- What a successful access does first. -/
theorem access_eq_ok {write : Bool} {r : MmuState × List (Abort × Word)}
    (h : access c va write n s = .ok r) :
    (kernelAbort s va write = none ∧ r = (s, [])) ∨ ∃ m abort t r', n = m + 1 ∧
      kernelAbort s va write = some abort ∧ takeAbort c abort va write s = .ok t ∧
      access c va write m t = .ok r' ∧ r = (r'.1, (abort, va) :: r'.2) := by
  cases n with
  | zero => exact nomatch h
  | succ m =>
    rw [access] at h
    cases habort : kernelAbort s va write with
    | none =>
      rw [habort] at h
      exact .inl ⟨rfl, (Except.ok.inj h).symm⟩
    | some abort =>
      rw [habort] at h
      obtain ⟨t, ht, h⟩ := bind_eq_ok.mp h
      obtain ⟨r', hr', h⟩ := bind_eq_ok.mp h
      exact .inr ⟨m, abort, t, r', rfl, rfl, ht, hr', (Except.ok.inj h).symm⟩

/-- More accesses to the same byte change nothing. -/
theorem access_mono {write : Bool} {r : MmuState × List (Abort × Word)}
    (h : access c va write n s = .ok r) (m : ℕ) : access c va write (n + m) s = .ok r := by
  induction n generalizing s r with
  | zero => exact nomatch h
  | succ n ih =>
    rw [Nat.succ_add]
    rcases access_eq_ok h with ⟨hnone, rfl⟩ | ⟨m', abort, t, r', hn, habort, ht, hr', rfl⟩
    · exact access_of_none hnone _
    · obtain rfl := Nat.succ.inj hn
      exact access_of_abort habort ht (ih hr')

/-- Accesses that raise no abort change nothing. -/
theorem accesses_of_none {write : Bool} {vas : List Word}
    (h : ∀ va ∈ vas, kernelAbort s va write = none) (n : ℕ) :
    accesses c write (n + 1) vas s = .ok (s, []) := by
  induction vas with
  | nil => rfl
  | cons va vas ih =>
    obtain ⟨hva, hvas⟩ := List.forall_mem_cons.mp h
    rw [accesses, access_of_none hva, ok_bind]
    dsimp only
    rw [ih hvas]
    rfl

theorem none_of_accesses {write : Bool} {vas : List Word}
    (h : accesses c write n vas s = .ok (t, [])) : ∀ va ∈ vas, kernelAbort s va write = none := by
  induction vas with
  | nil => exact fun _ hva ↦ (List.not_mem_nil hva).elim
  | cons va vas ih =>
    obtain ⟨r₁, hr₁, h⟩ := bind_eq_ok.mp h
    obtain ⟨r₂, hr₂, h⟩ := bind_eq_ok.mp h
    obtain ⟨rfl, haborts⟩ := Prod.mk.inj (Except.ok.inj h)
    obtain ⟨hfirst, hrest⟩ := List.append_eq_nil_iff.mp haborts
    rcases access_eq_ok hr₁ with ⟨hnone, rfl⟩ | ⟨m, abort, t', r', -, -, -, -, rfl⟩
    · have hlast : accesses c write n vas s = .ok (r₂.1, []) := by
        rw [← hrest]
        exact hr₂
      exact List.forall_mem_cons.mpr ⟨hnone, ih hlast⟩
    · exact nomatch hfirst

theorem Remapped.accessed {taken : BitVec 32} (h : CopyReady c s) (hva : UserAddress c.alloc va)
    (ht : Remapped c s va e taken t) (hwritable : e &&& 1#64 <<< 7 = 0)
    (hhead : s.physicalMemoryMap.head.toNat ≤ (s.physicalMemoryMap.head + taken).toNat)
    (hfree :
      freeEntries t + (if leaf s.words (c.layout.zoneRoot c.pid) (page va) = none then 1 else 0) =
      freeEntries s) : Accessed c s va t := by
  obtain ⟨-, hrow, hlt⟩ := hva.bounds h
  have hself : leaf t.words (c.layout.zoneRoot c.pid) (page va) = some e := by
    rw [ht.leaf_eq _ hrow hlt, if_pos rfl]
  refine ⟨ht.ready h hhead, ?_, ?_, fun u hu hu' hne ↦ ?_, hfree⟩
  · rw [hself]
    exact Option.some_ne_none e
  · rintro ⟨e', he', hbit⟩
    obtain rfl := Option.some.inj (hself.symm.trans he')
    exact hbit hwritable
  · rw [ht.leaf_eq u hu hu', if_neg hne]

/-- A page of the process that is not mapped is one of its heap. -/
theorem inHeap_of_missing (h : CopyReady c s) (hva : UserAddress c.alloc va)
    (hleaf : leaf s.words (c.layout.zoneRoot c.pid) (page va) = none) : InHeap c.alloc va :=
  hva.resolve_right fun hstack ↦ h.stack _ hstack hleaf

/-- The abort at a page that is not mapped. -/
theorem kernelAbort_missing (h : CopyReady c s) (hva : UserAddress c.alloc va) (write : Bool)
    (hleaf : leaf s.words (c.layout.zoneRoot c.pid) (page va) = none) :
    ∃ abort, kernelAbort s va write = some abort ∧ (abort = .lvl2 ∨ abort = .lvl3) := by
  rw [h.kernelAbort_eq (hva.bounds h).1, hleaf]
  refine ⟨_, rfl, ?_⟩
  split_ifs
  · exact .inr rfl
  · exact .inl rfl

/-- The access flag is no permission. -/
theorem and_permission_or_flag (e : Word) :
    (e ||| 1#64 <<< 10) &&& 1#64 <<< 7 = e &&& 1#64 <<< 7 := by
  rw [BitVec.and_or_distrib_right]
  have hapart : 1#64 <<< 10 &&& 1#64 <<< 7 = 0#64 := by decide
  rw [hapart, BitVec.or_zero]

theorem and_flag_or_flag (e : Word) : (e ||| 1#64 <<< 10) &&& 1#64 <<< 10 ≠ 0 := by
  intro hzero
  have hbit := congrArg (fun w : Word ↦ w.getLsbD 10) hzero
  simp at hbit

/-- A write succeeds at a page that is not read-only, if there is a free page for it where it is not
mapped. -/
theorem access_writes (h : CopyReady c s) (hva : UserAddress c.alloc va)
    (hwritable : ¬ ReadOnly c s va)
    (hfree : leaf s.words (c.layout.zoneRoot c.pid) (page va) = none →
      s.physicalMemoryMap.head < s.physicalMemoryMap.size) (n : ℕ) :
    ∃ r, access c va true (n + 2) s = .ok r ∧ Accessed c s va r.1 := by
  obtain ⟨hlow, hrow, hlt⟩ := hva.bounds h
  cases hleaf : leaf s.words (c.layout.zoneRoot c.pid) (page va) with
  | none =>
    obtain ⟨abort, habort, hkind⟩ := kernelAbort_missing h hva true hleaf
    obtain ⟨e, t, ht, hremapped, hflag, hbit⟩ :=
      takeAbort_missing h (inHeap_of_missing h hva hleaf) hkind true (hfree hleaf)
    have hless : s.physicalMemoryMap.head.toNat < s.physicalMemoryMap.size.toNat := hfree hleaf
    have hhead : (s.physicalMemoryMap.head + 1).toNat = s.physicalMemoryMap.head.toNat + 1 := by
      have hsize := s.physicalMemoryMap.size.isLt
      have hone : (1 : BitVec 32).toNat = 1 := rfl
      rw [BitVec.toNat_add, hone]
      omega
    have haccessed : Accessed c s va t := by
      refine hremapped.accessed h hva hbit (by omega) ?_
      rw [if_pos hleaf, freeEntries, freeEntries, hremapped.map, hhead]
      dsimp only
      omega
    have hagain : kernelAbort t va true = none := by
      rw [haccessed.ready.kernelAbort_eq hlow, hremapped.leaf_eq _ hrow hlt, if_pos rfl]
      dsimp only
      rw [if_neg hflag, if_neg fun hboth ↦ hboth.2 hbit]
    exact ⟨_, access_of_abort habort ht (access_of_none hagain n), haccessed⟩
  | some e =>
    have hbit : e &&& 1#64 <<< 7 = 0 := by
      by_contra hbit
      exact hwritable ⟨e, hleaf, hbit⟩
    by_cases hflag : e &&& 1#64 <<< 10 = 0
    · have habort : kernelAbort s va true = some .accessFlag := by
        rw [h.kernelAbort_eq hlow, hleaf]
        exact if_pos hflag
      obtain ⟨t, ht, hremapped⟩ := takeAbort_accessFlag h hva hleaf true
      have hbit' : (e ||| 1#64 <<< 10) &&& 1#64 <<< 7 = 0 := (and_permission_or_flag e).trans hbit
      have haccessed : Accessed c s va t := by
        have hhead : s.physicalMemoryMap.head + 0 = s.physicalMemoryMap.head := BitVec.add_zero _
        refine hremapped.accessed h hva hbit' (by rw [hhead]) ?_
        rw [if_neg (hleaf ▸ Option.some_ne_none e), freeEntries, freeEntries, hremapped.map, hhead]
        rfl
      have hagain : kernelAbort t va true = none := by
        rw [haccessed.ready.kernelAbort_eq hlow, hremapped.leaf_eq _ hrow hlt, if_pos rfl]
        dsimp only
        rw [if_neg (and_flag_or_flag e), if_neg fun hboth ↦ hboth.2 hbit']
      exact ⟨_, access_of_abort habort ht (access_of_none hagain n), haccessed⟩
    · have hnone : kernelAbort s va true = none := by
        rw [h.kernelAbort_eq hlow, hleaf]
        dsimp only
        rw [if_neg hflag, if_neg fun hboth ↦ hboth.2 hbit]
      refine ⟨_, access_of_none hnone (n + 1), h, ?_, hwritable, fun _ _ _ _ ↦ rfl, ?_⟩
      · rw [hleaf]
        exact Option.some_ne_none e
      · rw [if_neg (hleaf ▸ Option.some_ne_none e)]
        rfl

/-- A page at which the kernel does not get on with a write. -/
def Stuck (c : CopyContext) (s : MmuState) (va : Word) : Prop :=
  ReadOnly c s va ∨ (leaf s.words (c.layout.zoneRoot c.pid) (page va) = none ∧
    ¬ s.physicalMemoryMap.head < s.physicalMemoryMap.size)

/-- A write at such a page does not end, however often it is tried. -/
theorem not_access (h : CopyReady c s) (hva : UserAddress c.alloc va) (hstuck : Stuck c s va)
    (n : ℕ) (r : MmuState × List (Abort × Word)) : access c va true n s ≠ .ok r := by
  obtain ⟨hlow, hrow, hlt⟩ := hva.bounds h
  induction n generalizing s r with
  | zero => exact fun hok ↦ nomatch hok
  | succ n ih =>
    intro hok
    rcases hstuck with ⟨e, hleaf, hbit⟩ | ⟨hleaf, hfree⟩
    · by_cases hflag : e &&& 1#64 <<< 10 = 0
      · have habort : kernelAbort s va true = some .accessFlag := by
          rw [h.kernelAbort_eq hlow, hleaf]
          exact if_pos hflag
        obtain ⟨t, ht, hremapped⟩ := takeAbort_accessFlag h hva hleaf true
        have hhead : s.physicalMemoryMap.head + 0 = s.physicalMemoryMap.head := BitVec.add_zero _
        have hready : CopyReady c t := hremapped.ready h (by rw [hhead])
        rcases access_eq_ok hok with ⟨hnone, -⟩ | ⟨m, abort, t', r', hn, habort', ht', hr', -⟩
        · exact nomatch habort.symm.trans hnone
        · obtain rfl := Option.some.inj (habort.symm.trans habort')
          obtain rfl := Except.ok.inj (ht.symm.trans ht')
          obtain rfl := Nat.succ.inj hn
          refine ih hready (.inl ⟨e ||| 1#64 <<< 10, ?_, ?_⟩) r' hr'
          · rw [hremapped.leaf_eq _ hrow hlt, if_pos rfl]
          · rwa [and_permission_or_flag]
      · have habort : kernelAbort s va true = some .permission := by
          rw [h.kernelAbort_eq hlow, hleaf]
          dsimp only
          rw [if_neg hflag, if_pos ⟨rfl, hbit⟩]
        have herror : takeAbort c .permission va true s = .error (.assertion .faultLevel) := by
          rw [takeAbort, cSyncHandler_abortEsr]
          dsimp only
          rw [permissionFaultHandler_kernel]
          rfl
        rcases access_eq_ok hok with ⟨hnone, -⟩ | ⟨m, abort, t', r', -, habort', ht', -⟩
        · exact nomatch habort.symm.trans hnone
        · obtain rfl := Option.some.inj (habort.symm.trans habort')
          exact nomatch herror.symm.trans ht'
    · obtain ⟨abort, habort, hkind⟩ := kernelAbort_missing h hva true hleaf
      have herror := takeAbort_exhausted h (inHeap_of_missing h hva hleaf) hkind true hfree
      rcases access_eq_ok hok with ⟨hnone, -⟩ | ⟨m, abort', t', r', -, habort', ht', -⟩
      · exact nomatch habort.symm.trans hnone
      · obtain rfl := Option.some.inj (habort.symm.trans habort')
        exact nomatch herror.symm.trans ht'

/-- What a successful write says of the state before it, and what it leaves. -/
theorem access_spec (h : CopyReady c s) (hva : UserAddress c.alloc va)
    {r : MmuState × List (Abort × Word)} (hok : access c va true n s = .ok r) :
    ¬ Stuck c s va ∧ Accessed c s va r.1 := by
  have hstuck : ¬ Stuck c s va := fun hstuck ↦ not_access h hva hstuck n r hok
  rw [Stuck, not_or, not_and, not_not] at hstuck
  obtain ⟨r', hr', haccessed⟩ := access_writes h hva hstuck.1 hstuck.2 n
  obtain rfl := Except.ok.inj ((access_mono hok 2).symm.trans hr')
  exact ⟨fun hstuck ↦ not_access h hva hstuck n r hok, haccessed⟩

/-! ### Copies to the process -/

section Transfer

variable {vas : List Word} (haccessed : Accessed c s va t) (h : CopyReady c s)
  (hva : UserAddress c.alloc va)
include haccessed h

/-- A write changes no permission. -/
theorem Accessed.readOnly_iff (hwritable : ¬ ReadOnly c s va) {x : Word}
    (hx : UserAddress c.alloc x) : ReadOnly c t x ↔ ReadOnly c s x := by
  by_cases hpage : page x = page va
  · unfold ReadOnly at hwritable ⊢
    rw [hpage]
    exact iff_of_false haccessed.writable hwritable
  · obtain ⟨-, hrow, hlt⟩ := hx.bounds h
    rw [ReadOnly, haccessed.kept _ hrow hlt hpage, ReadOnly]

/-- A page that is mapped by a write is not missing any more. -/
theorem Accessed.card_missing (hvas : ∀ x ∈ vas, UserAddress c.alloc x) :
    (missing c s (va :: vas)).card = (missing c t vas).card +
      if leaf s.words (c.layout.zoneRoot c.pid) (page va) = none then 1 else 0 := by
  have hnotMem : page va ∉ missing c t vas :=
    fun hmem ↦ haccessed.mapped (Finset.mem_filter.mp hmem).2
  have hmem (v : ℕ) (hne : v ≠ page va) : v ∈ missing c s (va :: vas) ↔ v ∈ missing c t vas := by
    simp only [missing, Finset.mem_filter, List.mem_toFinset, List.map_cons, List.mem_cons,
      hne, false_or]
    refine and_congr_right fun hv ↦ ?_
    obtain ⟨x, hx, rfl⟩ := List.mem_map.mp hv
    obtain ⟨-, hrow, hlt⟩ := (hvas x hx).bounds h
    rw [haccessed.kept _ hrow hlt hne]
  have hself : page va ∈ missing c s (va :: vas) ↔
      leaf s.words (c.layout.zoneRoot c.pid) (page va) = none := by
    simp [missing]
  split_ifs with hleaf
  · have hinsert : missing c s (va :: vas) = insert (page va) (missing c t vas) := by
      ext v
      rw [Finset.mem_insert]
      by_cases hv : v = page va
      · rw [hv]
        exact iff_of_true (hself.mpr hleaf) (.inl rfl)
      · rw [hmem v hv, or_iff_right hv]
    rw [hinsert, Finset.card_insert_of_notMem hnotMem]
  · have hsame : missing c s (va :: vas) = missing c t vas := by
      ext v
      by_cases hv : v = page va
      · rw [hv]
        exact iff_of_false (mt hself.mp hleaf) hnotMem
      · exact hmem v hv
    rw [hsame, Nat.add_zero]

end Transfer

/-- The pages of the target can be written, and there is a free page for each of them that is not
mapped. -/
def CanWrite (c : CopyContext) (s : MmuState) (vas : List Word) : Prop :=
  (∀ va ∈ vas, ¬ ReadOnly c s va) ∧ (missing c s vas).card ≤ freeEntries s

/-- The condition on the state before a write is that on the state after it. -/
theorem Accessed.canWrite_iff {vas : List Word} (haccessed : Accessed c s va t) (h : CopyReady c s)
    (hwritable : ¬ ReadOnly c s va) (hvas : ∀ x ∈ vas, UserAddress c.alloc x) :
    CanWrite c s (va :: vas) ↔ CanWrite c t vas := by
  have hcard := haccessed.card_missing h hvas
  have hfree := haccessed.free
  refine and_congr ?_ (by omega)
  rw [List.forall_mem_cons, and_iff_right hwritable]
  exact forall₂_congr fun x hx ↦ not_congr (haccessed.readOnly_iff h hwritable (hvas x hx)).symm

theorem canWrite_of_accesses {vas : List Word} (h : CopyReady c s)
    (hvas : ∀ va ∈ vas, UserAddress c.alloc va) {r : MmuState × List (Abort × Word)}
    (hok : accesses c true n vas s = .ok r) : CanWrite c s vas := by
  induction vas generalizing s r with
  | nil => exact ⟨fun _ hmem ↦ (List.not_mem_nil hmem).elim, Nat.zero_le _⟩
  | cons va vas ih =>
    obtain ⟨hva, hvas⟩ := List.forall_mem_cons.mp hvas
    obtain ⟨r₁, hr₁, hok⟩ := bind_eq_ok.mp hok
    obtain ⟨r₂, hr₂, -⟩ := bind_eq_ok.mp hok
    obtain ⟨hstuck, haccessed⟩ := access_spec h hva hr₁
    have hwritable : ¬ ReadOnly c s va := fun hread ↦ hstuck (.inl hread)
    exact (haccessed.canWrite_iff h hwritable hvas).mpr (ih haccessed.ready hvas hr₂)

theorem accesses_of_canWrite {vas : List Word} (h : CopyReady c s)
    (hvas : ∀ va ∈ vas, UserAddress c.alloc va) (hcan : CanWrite c s vas) (n : ℕ) :
    ∃ r, accesses c true (n + 2) vas s = .ok r := by
  induction vas generalizing s with
  | nil => exact ⟨(s, []), rfl⟩
  | cons va vas ih =>
    obtain ⟨hva, hvas⟩ := List.forall_mem_cons.mp hvas
    have hwritable : ¬ ReadOnly c s va := hcan.1 va List.mem_cons_self
    have hfree : leaf s.words (c.layout.zoneRoot c.pid) (page va) = none →
        s.physicalMemoryMap.head < s.physicalMemoryMap.size := by
      intro hleaf
      have hmem : page va ∈ missing c s (va :: vas) := by simp [missing, hleaf]
      have hpos : 0 < freeEntries s := (Finset.card_pos.mpr ⟨_, hmem⟩).trans_le hcan.2
      exact Nat.lt_of_sub_pos hpos
    obtain ⟨r₁, hr₁, haccessed⟩ := access_writes h hva hwritable hfree n
    obtain ⟨r₂, hr₂⟩ := ih haccessed.ready hvas ((haccessed.canWrite_iff h hwritable hvas).mp hcan)
    refine ⟨(r₂.1, r₁.2 ++ r₂.2), ?_⟩
    rw [accesses, hr₁, ok_bind]
    dsimp only
    rw [hr₂]
    rfl

/-- The handlers resolve every fault that `write_buff_svc` raises. -/
def ResolvesFaults (c : CopyContext) (buff writeAddr : Word) (usedSize : ℕ) (s : MmuState) : Prop :=
  ∃ n r, writeBuffSvc c n buff writeAddr usedSize s = .ok r

/-- The handlers resolve all faults at a buffer in the heap or the stack of a process exactly if no
page of the buffer is read-only, and there are as many free pages as pages of the buffer that are
not mapped. -/
theorem resolvesFaults_iff (buff : Word) {writeAddr : Word} {usedSize : ℕ} (h : CopyReady c s)
    (hbuffer : ∀ i < usedSize, UserAddress c.alloc (writeAddr + BitVec.ofNat 64 i)) :
    ResolvesFaults c buff writeAddr usedSize s ↔
      CanWrite c s ((List.range usedSize).map fun i ↦ writeAddr + BitVec.ofNat 64 i) := by
  have hmem :
      ∀ va, va ∈ (memmoveOrder writeAddr buff usedSize).map
      (fun i ↦ writeAddr + BitVec.ofNat 64 i) ↔
      va ∈ (List.range usedSize).map fun i ↦ writeAddr + BitVec.ofNat 64 i := by
    intro va
    unfold memmoveOrder
    split_ifs <;> simp
  have hvas :
      ∀ va ∈ (memmoveOrder writeAddr buff usedSize).map (fun i ↦ writeAddr + BitVec.ofNat 64 i),
      UserAddress c.alloc va := by
    intro va hva
    obtain ⟨i, hi, rfl⟩ := List.mem_map.mp ((hmem va).mp hva)
    exact hbuffer i (List.mem_range.mp hi)
  have horder :
      CanWrite c s ((memmoveOrder writeAddr buff usedSize).map fun i ↦
      writeAddr + BitVec.ofNat 64 i) ↔
      CanWrite c s ((List.range usedSize).map fun i ↦ writeAddr + BitVec.ofNat 64 i) := by
    have hmissing :
        missing c s ((memmoveOrder writeAddr buff usedSize).map fun i ↦
        writeAddr + BitVec.ofNat 64 i) =
        missing c s ((List.range usedSize).map fun i ↦ writeAddr + BitVec.ofNat 64 i) := by
      ext v
      simp only [missing, Finset.mem_filter, List.mem_toFinset, List.mem_map (f := page), hmem]
    rw [CanWrite, CanWrite, hmissing]
    simp only [hmem]
  rw [← horder]
  by_cases haddr : writeAddr = 0
  · -- The address 0 is none of the process, so that nothing is to be written.
    have hsize : usedSize = 0 := by
      by_contra hsize
      have huser := hbuffer 0 (Nat.pos_of_ne_zero hsize)
      rw [haddr] at huser
      obtain ⟨-, hrow, -⟩ := huser.bounds h
      have hkernel : c.layout.kernelTables = c.layout.lowTables + 33 := rfl
      have hpage : page ((0 : Word) + BitVec.ofNat 64 0) = 0 := rfl
      omega
    have hnone : memmoveOrder writeAddr buff usedSize = [] := by
      rw [hsize, memmoveOrder]
      split_ifs <;> rfl
    refine iff_of_true ⟨0, (s, []), if_neg (not_not.mpr haddr)⟩ ?_
    rw [hnone]
    exact ⟨fun _ hva ↦ (List.not_mem_nil hva).elim, Nat.zero_le _⟩
  · constructor
    · rintro ⟨n, r, hr⟩
      rw [writeBuffSvc, if_pos haddr] at hr
      exact canWrite_of_accesses h hvas hr
    · intro hcan
      obtain ⟨r, hr⟩ := accesses_of_canWrite h hvas hcan 0
      exact ⟨2, r, (if_pos haddr).trans hr⟩

end Ready

/-! ### Live processes -/

/-- After the boot and any number of forks, every process that has the processor is in such a
state. -/
theorem Settled.copyReady {c : CopyContext} {s : MmuState} {live : Finset Pid} {n : ℕ}
    (h : Settled c.layout live s n) (hlive : c.pid ∈ live)
    (hroot : getLvl2AddressFromSysState c.sys c.pid = c.layout.zoneRoot c.pid)
    (hbegin : c.layout.endAddr ≤ c.alloc.heapBegin)
    (hend : (c.alloc.heapBegin + c.alloc.endOffset.signExtend 64).toNat ≤ 0x3f00b000)
    (hrest : ∀ i, 0x3fffd - 512 * c.layout.kernelTables ≤ i → i < 0x100000 →
      (s.physicalMemoryMap.map i).toNat % 0x1000 = 0 ∧
      (s.physicalMemoryMap.map i).toNat < 0x40000000) :
    CopyReady c { s with ttbr0El1 := (c.sys.procs c.pid).memConf.ttbr0El1 } where
  configured := ⟨h.pool.configured.idPagingSize, h.pool.configured.bindCounter,
    h.pool.configured.bindCounterOffset⟩
  root := hroot
  hardware := rfl
  tables := h.exact.tables _ hlive
  stack := by
    intro v hv hnone
    obtain ⟨e, he, -⟩ := h.stack _ hlive v hv
    exact nomatch he.symm.trans hnone
  heapBegin := hbegin
  heapEnd := hend
  free := by
    intro i hhead hi
    have hsize : s.physicalMemoryMap.size.toNat = 0x100000 := by rw [h.pool.size]; rfl
    have hi' : i < s.physicalMemoryMap.size.toNat := hi
    by_cases hpool : i < 0x3fffd - 512 * c.layout.kernelTables
    · have hentry := h.pool.entry i hpool
      have hbound : skipped (512 * c.layout.kernelTables) (i + 1) ≤ 3 := skipped_le _ _
      have hfits := (s.physicalMemoryMap.map i).isLt.trans (by decide : 2 ^ 32 < 2 ^ 64)
      rw [BitVec.toNat_setWidth, Nat.mod_eq_of_lt hfits, poolPage] at hentry
      change (s.physicalMemoryMap.map i).toNat % 0x1000 = 0 ∧
        (s.physicalMemoryMap.map i).toNat < 0x40000000
      omega
    · exact hrest i (by omega) (by omega)

/-! ### A page that is shared after a fork -/

/-- The entries of the two stack pages of a process. -/
def sampleStack (w : ℕ → Word) (root : Word) : ℕ → Word :=
  zoneWrite (zoneWrite w root 0x3f1ff (withAttributes 0x5002000 userAttributes)) root 0x3f1fe
    (withAttributes 0x5003000 userAttributes)

/-- The process 2, which shares a page of its heap after a fork. -/
def sampleCopy : MmuState :=
  { sampleShared with
    words := sampleStack sampleShared.words (sampleLayout.zoneRoot 2)
    ttbr0El1 := sampleLayout.zoneRoot 2 }

/-- The process 2 has a heap of `0x10000` bytes from `0x8000000` on. -/
def sampleContext : CopyContext where
  layout := sampleLayout
  sys :=
    { currPid := 2
      lastPid := 0
      procs := fun _ ↦ { zeroDescriptor with memConf := { zeroDescriptor.memConf with
        ttbr0El1 := sampleLayout.zoneRoot 2 } }
      prioProcN := fun _ ↦ 0
      nRunnableProcs := 0
      prioProc := fun _ ↦ none }
  alloc := ⟨0x8000000, 0x10000, 0x8000000⟩
  pid := 2

theorem sampleCopy_leaves : ZoneTables sampleCopy.words (sampleLayout.zoneRoot 2) 0 ∧
    leaf sampleCopy.words (sampleLayout.zoneRoot 2) 0x3f1ff ≠ none ∧
    leaf sampleCopy.words (sampleLayout.zoneRoot 2) 0x3f1fe ≠ none ∧
    leaf sampleCopy.words (sampleLayout.zoneRoot 2) (page 0x8000000) = some sampleEntry := by
  have hzone := sampleLayout.zoneRoot_zone 2
  have hpopulated : ZoneTables (populateWords (sampleTables 2).words (sampleLayout.zoneRoot 2) 511)
      (sampleLayout.zoneRoot 2) 0 := .ofPopulate hzone
  have hshared : ZoneTables sampleShared.words (sampleLayout.zoneRoot 2) 0 :=
    hpopulated.write hzone (by decide)
  have hpresent (i : ℕ) (hi : i < 511) :
      present sampleShared.words (sampleLayout.zoneRoot 2) i = true :=
    (ZoneTables.present_zoneWrite hzone hzone (by decide) (by omega)).trans
      (present_populateWords hi)
  have hfirst :=
      hshared.write (e := withAttributes 0x5002000 userAttributes) hzone (v := 0x3f1ff) (by decide)
  have hpresent' : present (zoneWrite sampleShared.words (sampleLayout.zoneRoot 2) 0x3f1ff
      (withAttributes 0x5002000 userAttributes)) (sampleLayout.zoneRoot 2) (0x3f1fe / 512) = true :=
    (ZoneTables.present_zoneWrite hzone hzone (by decide) (by decide)).trans
      (hpresent _ (by decide))
  refine ⟨hfirst.write hzone (by decide), ?_, ?_, ?_⟩
  · rw [show leaf sampleCopy.words (sampleLayout.zoneRoot 2) 0x3f1ff = _ from
      hfirst.leaf_zoneWrite hzone (by decide) (by decide) (by decide), if_neg (by decide),
      hshared.leaf_zoneWrite hzone (by decide) (by decide) (by decide), if_pos ⟨rfl, rfl⟩,
      if_pos ⟨hpresent _ (by decide), isBlockEntry_withAttributes _ _⟩]
    exact Option.some_ne_none _
  · rw [show leaf sampleCopy.words (sampleLayout.zoneRoot 2) 0x3f1fe = _ from
      hfirst.leaf_zoneWrite hzone (by decide) (by decide) (by decide), if_pos ⟨rfl, rfl⟩,
      if_pos ⟨hpresent', isBlockEntry_withAttributes _ _⟩]
    exact Option.some_ne_none _
  · refine (hfirst.leaf_zoneWrite hzone (by decide) (by decide) (by decide)).trans ?_
    rw [if_neg (by decide), hshared.leaf_zoneWrite hzone (by decide) (by decide) (by decide),
      if_neg (by decide)]
    refine (hpopulated.leaf_zoneWrite hzone (by decide) (by decide) (by decide)).trans ?_
    rw [if_pos ⟨rfl, rfl⟩, if_pos ⟨present_populateWords (by decide),
      isBlockEntry_withAttributes _ _⟩]

theorem sampleCopy_ready : CopyReady sampleContext sampleCopy := by
  obtain ⟨htables, hstack, hstack', -⟩ := sampleCopy_leaves
  constructor
  case configured => exact ⟨rfl, rfl, rfl⟩
  case root => decide
  case hardware => rfl
  case tables => exact htables.mono (Nat.zero_le _)
  case stack =>
    rintro v (rfl | rfl)
    · exact hstack
    · exact hstack'
  case heapBegin => decide
  case heapEnd => decide
  case free =>
    intro i _ _
    change (0x5001000 : BitVec 32).toNat % 0x1000 = 0 ∧ (0x5001000 : BitVec 32).toNat < 0x40000000
    decide

end SysresOs.Mmu
