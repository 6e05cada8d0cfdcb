import Mathlib.Data.Fintype.Basic
import Mathlib.Data.BitVec
import Mathlib.Logic.Function.Basic

/-!
# The process table

The data of `proc/proc.h`: process descriptors with their saved context, allocator globals, message
buffer, channel data and links, and the system state that holds the table, the run queues and their
counters. A `proc_descriptor *` always points into `sys_state.procs` or is `NULL`, so a pointer is
an `Option` of a slot. The source stores pids as `int`; every value it stores in a pid field is a
slot number (a constant, a slot found free, or a number checked against `MAX_PROC` first), so those
fields have the type of slots. The priority is not checked by the source and stays an integer.

A kernel path ends in a new state or in a `Stop`: the idle loop, a failed assertion, or an access
that C leaves undefined.
-/

set_option autoImplicit false
set_option relaxedAutoImplicit false

namespace SysresOs.Proc

/-! ### Constants and outcomes -/

/-- `MAX_PROC`: the number of process slots. -/
abbrev maxProc : ℕ := 32

/-- `N_REG`: the number of general registers `x0` to `x30`. -/
abbrev nReg : ℕ := 31

/-- `BUFF_SIZE`: the capacity in bytes of a message buffer. -/
abbrev buffSize : ℕ := 1024

/-- `MAX_PRIO`: the highest priority. -/
abbrev maxPrio : ℕ := 15

instance : NeZero maxProc := ⟨by decide⟩

instance : NeZero nReg := ⟨by decide⟩

instance : NeZero (maxPrio + 1) := ⟨by decide⟩

/-- `QUANTUM`: the time slice of a process, `SECOND / 1` of `interrupt/timer.h`. -/
def quantum : BitVec 32 := 2040816#32

/-- `GPIO_BASE`, where a process's stack begins. -/
def stackBegin : BitVec 64 := 0x3f200000#64

/-- A slot of the process table. -/
abbrev Pid := Fin maxProc

/-- An index of `prio_proc` and `prio_proc_n`. -/
abbrev Prio := Fin (maxPrio + 1)

/-- A `proc_descriptor *`: a slot of the table, or `NULL`. -/
abbrev Ptr := Option Pid

/-- `KERNEL_PID`. -/
abbrev kernelPid : Pid := 0

/-- `INIT_PID`. -/
abbrev initPid : Pid := 1

/-- The assertions of `proc/proc.c` on the modelled paths. -/
inductive Assertion
  | childCount
  | prioListPriority
  | prioListState
  | usedSizeLeBuffSize
  | usedSizeLeReceiveSize
  | ackTargetIsReceiver
  | ackUsedSizeLeBuffSize
  | runPidPositive
  | runStateRunnable
  | runTimeLeft
  | runInKernel
  | runInitialized
  | initHeapBegin
  deriving DecidableEq, Repr

/-- Why a kernel path does not end in a new state. -/
inductive Stop
  /-- `halt()` in `schedule` when no process is runnable. -/
  | halt
  /-- A failed `assert`, which calls `abort()`. -/
  | assertion (which : Assertion)
  /-- The `default` case of the system-call dispatch, which calls `abort()`. -/
  | unknownSyscall
  /-- An array index outside the array. -/
  | outOfBounds
  /-- A copy that runs over the end of a message buffer. -/
  | overrun
  /-- A `NULL` pointer is followed. -/
  | nullPointer
  /-- The bound `0` is passed to `random`. -/
  | divisionByZero
  /-- A loop over a list of slots never meets its exit condition. -/
  | diverges
  /-- The action is not possible: a trap with no process running, or a selection with one. -/
  | disabled
  deriving DecidableEq, Repr

/-- Following a pointer. -/
def deref : Ptr → Except Stop Pid
  | some p => .ok p
  | none => .error .nullPointer

/-! ### Error numbers -/

/-- `err_t`. The four bytes between `no` and `data` travel with the structure. -/
structure Err where
  no : BitVec 32
  pad : BitVec 32
  data : BitVec 64
  deriving DecidableEq, Repr

/-- `MAX_PROC_REACHED`. -/
def maxProcReached : BitVec 32 := 14#32

/-- `TOO_HIGH_CHILD_PRIORITY`. -/
def tooHighChildPriority : BitVec 32 := 15#32

/-- `NO_CHILD`. -/
def noChild : BitVec 32 := 16#32

/-- `INVALID_PID`. -/
def invalidPid : BitVec 32 := 17#32

/-- `TARGET_NOT_LISTENING`. -/
def targetNotListening : BitVec 32 := 18#32

/-- `SOURCE_ALREADY_ACKNOWLEDGED`. -/
def sourceAlreadyAcknowledged : BitVec 32 := 19#32

/-- `SEND_DATA_TOO_LARGE`. -/
def sendDataTooLarge : BitVec 32 := 20#32

/-! ### Descriptors -/

/-- `enum proc_state`. -/
inductive ProcState
  | free
  | runnable
  | waiting
  | zombie
  | sendingCh
  | listeningCh
  | waitListener
  | kernel
  deriving DecidableEq, Repr

/-- `sched_conf`. -/
structure SchedConf where
  timeLeft : BitVec 32
  preempt : Bool
  deriving DecidableEq, Repr

/-- `context`: the saved registers of a process. -/
structure Context where
  registers : Fin nReg → BitVec 64
  pc : BitVec 64
  sp : BitVec 64
  pstate : BitVec 64
  sctlrEl1 : BitVec 64

/-- The three globals of `memory/alloc.c`. -/
structure AllocConf where
  heapBegin : BitVec 64
  endOffset : BitVec 32
  globalBase : BitVec 64
  deriving DecidableEq, Repr

/-- `mem_conf`: the translation root of a process and its backup of the allocator's globals. -/
structure MemConf where
  ttbr0El1 : BitVec 64
  alloc : AllocConf
  deriving DecidableEq, Repr

/-- `sender_data`. -/
structure SenderData where
  targetPid : Pid
  sendSize : ℕ
  ackData : BitVec 64
  ackSize : ℕ
  acknowledged : Bool
  deriving DecidableEq, Repr

/-- `receiver_data`. The return code is an `int`. -/
structure ReceiverData where
  sourcePid : Pid
  receiveSize : ℕ
  receiveData : BitVec 64
  returnCode : BitVec 32
  deriving DecidableEq, Repr

/-- The bytes of a message buffer. -/
abbrev Bytes := Fin buffSize → BitVec 8

/-- `buffer`. -/
structure Buffer where
  buff : Bytes
  usedSize : ℕ
  writeAddr : BitVec 64

/-- `proc_descriptor`. -/
structure ProcDescriptor where
  pid : Pid
  parentPid : Pid
  priority : ℤ
  state : ProcState
  schedConf : SchedConf
  initialized : Bool
  savedContext : Context
  memConf : MemConf
  err : Err
  child : Ptr
  nextSibling : Ptr
  prevSibling : Ptr
  buffer : Buffer
  senderData : SenderData
  receiverData : ReceiverData
  nextSamePrio : Ptr
  prevSamePrio : Ptr

/-- `system_state`. -/
structure SystemState where
  currPid : Pid
  lastPid : Pid
  procs : Pid → ProcDescriptor
  prioProcN : Prio → BitVec 32
  nRunnableProcs : BitVec 32
  prioProc : Prio → Ptr

/-- A descriptor of zeroed memory, `{0}`. -/
def zeroDescriptor : ProcDescriptor where
  pid := 0
  parentPid := 0
  priority := 0
  state := .free
  schedConf := ⟨0, false⟩
  initialized := false
  savedContext := ⟨fun _ ↦ 0, 0, 0, 0, 0⟩
  memConf := ⟨0, ⟨0, 0, 0⟩⟩
  err := ⟨0, 0, 0⟩
  child := none
  nextSibling := none
  prevSibling := none
  buffer := ⟨fun _ ↦ 0, 0, 0⟩
  senderData := ⟨0, 0, 0, 0, false⟩
  receiverData := ⟨0, 0, 0, 0⟩
  nextSamePrio := none
  prevSamePrio := none

namespace ProcDescriptor

/-- The register `xi` of the saved context. -/
def reg (proc : ProcDescriptor) (i : Fin nReg) : BitVec 64 :=
  proc.savedContext.registers i

/-- Assignment of `state`. -/
def setState (proc : ProcDescriptor) (state : ProcState) : ProcDescriptor :=
  { proc with state := state }

/-- Assignment of the saved register `x0`. -/
def setX0 (proc : ProcDescriptor) (value : BitVec 64) : ProcDescriptor :=
  { proc with savedContext :=
      { proc.savedContext with registers := Function.update proc.savedContext.registers 0 value } }

/-- Assignment of `err.no`. -/
def setErrNo (proc : ProcDescriptor) (no : BitVec 32) : ProcDescriptor :=
  { proc with err := { proc.err with no := no } }

/-- The failure exit of a system call: `err.no` is set and `x0` becomes `-1`. -/
def fail (proc : ProcDescriptor) (no : BitVec 32) : ProcDescriptor :=
  (proc.setErrNo no).setX0 (BitVec.allOnes 64)

end ProcDescriptor

namespace SystemState

/-- An update of one slot of the table. -/
def modify (s : SystemState) (p : Pid) (f : ProcDescriptor → ProcDescriptor) : SystemState :=
  { s with procs := Function.update s.procs p (f (s.procs p)) }

@[simp] theorem modify_procs (s : SystemState) (p q : Pid) (f : ProcDescriptor → ProcDescriptor) :
    (s.modify p f).procs q = if q = p then f (s.procs p) else s.procs q := by
  simp [modify, Function.update_apply]

theorem modify_modify (s : SystemState) (p : Pid) (f g : ProcDescriptor → ProcDescriptor) :
    (s.modify p f).modify p g = s.modify p (g ∘ f) := by
  simp [modify]

/-- An update that keeps the descriptor it is applied to keeps the table. -/
theorem modify_eq_self {s : SystemState} {p : Pid} {f : ProcDescriptor → ProcDescriptor}
    (hf : f (s.procs p) = s.procs p) : s.modify p f = s := by
  simp [modify, hf]

@[simp] theorem modify_currPid (s : SystemState) (p : Pid) (f : ProcDescriptor → ProcDescriptor) :
    (s.modify p f).currPid = s.currPid := rfl

@[simp] theorem modify_lastPid (s : SystemState) (p : Pid) (f : ProcDescriptor → ProcDescriptor) :
    (s.modify p f).lastPid = s.lastPid := rfl

@[simp] theorem modify_prioProc (s : SystemState) (p : Pid) (f : ProcDescriptor → ProcDescriptor) :
    (s.modify p f).prioProc = s.prioProc := rfl

@[simp] theorem modify_prioProcN (s : SystemState) (p : Pid)
    (f : ProcDescriptor → ProcDescriptor) : (s.modify p f).prioProcN = s.prioProcN := rfl

@[simp] theorem modify_nRunnableProcs (s : SystemState) (p : Pid)
    (f : ProcDescriptor → ProcDescriptor) :
    (s.modify p f).nRunnableProcs = s.nRunnableProcs := rfl

/-- Assignment of `prio_proc[prio]`. -/
def setPrioProc (s : SystemState) (prio : Prio) (p : Ptr) : SystemState :=
  { s with prioProc := Function.update s.prioProc prio p }

@[simp] theorem setPrioProc_procs (s : SystemState) (prio : Prio) (p : Ptr) :
    (s.setPrioProc prio p).procs = s.procs := rfl

@[simp] theorem setPrioProc_prioProc (s : SystemState) (prio : Prio) (p : Ptr) :
    (s.setPrioProc prio p).prioProc = Function.update s.prioProc prio p := rfl

end SystemState

/-! ### Building a descriptor -/

/-- `new_proc_descriptor`. -/
def newProcDescriptor (pid parentPid : Pid) (priority : ℤ) (pc : BitVec 64) : ProcDescriptor :=
  { zeroDescriptor with
    pid := pid
    parentPid := parentPid
    priority := priority
    state := .free
    schedConf := ⟨quantum, false⟩
    savedContext := ⟨fun _ ↦ 0, pc, stackBegin, 0, 0xc00801#64⟩
    senderData := { zeroDescriptor.senderData with acknowledged := true } }

/-- `make_child_proc_descriptor`: the value stored in the child's slot. -/
def makeChildProcDescriptor (parent : ProcDescriptor) (pid : Pid) (priority : ℤ) :
    ProcDescriptor :=
  let new := newProcDescriptor pid parent.pid priority parent.savedContext.pc
  { new with
    schedConf := { new.schedConf with preempt := parent.schedConf.preempt }
    savedContext :=
      { new.savedContext with
        pstate := parent.savedContext.pstate
        sp := parent.savedContext.sp
        pc := parent.savedContext.pc
        registers := fun i ↦ if i = 0 then new.reg 0 else parent.reg i }
    err := parent.err
    memConf := parent.memConf }

end SysresOs.Proc
