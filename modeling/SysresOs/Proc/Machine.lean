import SysresOs.Lib.Trace
import SysresOs.Proc.Syscall

/-!
# The kernel as a transition system

A process runs until it traps, by a system call or by the timer. The entry code saves its context
(`save_context`, `back_up_buff_svc`), the system call runs, and the scheduler picks the process that
runs next. The steps of the system are `Action`s: the first start of `init`, a system call or a
timer interrupt of the running process, and a selection by the scheduler, which resumes a process.
Everything a process may have done to its registers, its memory and the globals it shares with the
kernel before it trapped is in the `Frame` of the trap, with no condition on it.
-/

set_option autoImplicit false
set_option relaxedAutoImplicit false

namespace SysresOs.Proc

open SysresOs.Outcome SysresOs.Trace

/-! ### Traps -/

/-- What the kernel finds when a process traps: its registers, the value of the timer, the globals
`err` and those of the allocator, and the process's memory as its own tables map it. -/
structure Frame where
  registers : Fin nReg → BitVec 64
  pc : BitVec 64
  sp : BitVec 64
  pstate : BitVec 64
  timer : BitVec 32
  err : Err
  alloc : AllocConf
  memory : BitVec 64 → BitVec 8

/-- The `n` bytes from an address on. -/
def readBytes (memory : BitVec 64 → BitVec 8) (addr : BitVec 64) (n : ℕ) : List (BitVec 8) :=
  (List.range n).map fun i ↦ memory (addr + BitVec.ofNat 64 i)

/-- `back_up_buff_svc`: the message of a `send` or `acknowledge` is copied to the kernel. -/
def backUpBuffSvc (s : SystemState) (proc : Pid) (svcCode : BitVec 16)
    (memory : BitVec 64 → BitVec 8) : Except Stop SystemState :=
  let addr := (s.procs proc).reg 1
  let size := ((s.procs proc).reg 2).toNat
  if (svcCode = 3 ∨ svcCode = 5) ∧ addr ≠ 0 ∧ 0 < size then do
    let s := s.modify proc fun d ↦ { d with buffer := { d.buffer with usedSize := size } }
    let buff ← storeBytes (s.procs proc).buffer.buff
      (readBytes memory addr (if size < buffSize then size else buffSize))
    .ok (s.modify proc fun d ↦ { d with buffer := { d.buffer with buff := buff } })
  else .ok s

/-- The call of `back_up_buff_svc` in `save_context`, skipped for a timer interrupt. -/
def backUp (s : SystemState) (proc : Pid) (memory : BitVec 64 → BitVec 8) :
    Option (BitVec 16) → Except Stop SystemState
  | none => .ok s
  | some code => backUpBuffSvc s proc code memory

/-- `save_context`. The system-call code is `none` for a timer interrupt. -/
def saveContext (k : Kernel) (frame : Frame) (svcCode : Option (BitVec 16)) :
    Except Stop Kernel := do
  let proc := k.sys.currPid
  let k := { k with err := frame.err, alloc := frame.alloc }
  let sys := k.sys.modify proc fun d ↦ { d with
    schedConf := { d.schedConf with timeLeft := if svcCode.isNone then 0 else frame.timer }
    savedContext := { d.savedContext with
      registers := frame.registers, pc := frame.pc, sp := frame.sp, pstate := frame.pstate } }
  let k := saveAllocConf { k with sys := sys } proc
  let k := saveErrno k proc
  let sys ← backUp k.sys proc frame.memory svcCode
  .ok { k with sys := { sys with lastPid := proc, currPid := 0 } }

/-- The system calls that return to the scheduler, by the code of the `SVC` instruction. -/
def syscall (code : BitVec 16) (mmuTablesStart : BitVec 64) (s : SystemState) :
    Except Stop SystemState :=
  if code = 0 then syscallFork mmuTablesStart s
  else if code = 1 then syscallExit s
  else if code = 2 then syscallWait s
  else if code = 3 then syscallSend s
  else if code = 4 then syscallReceive s
  else if code = 5 then syscallAcknowledge s
  else .error .unknownSyscall

/-- `c_el1_svc_aarch64_handler` up to its call of `schedule`. The code 101 resumes the caller. -/
def svcHandler (k : Kernel) (code : BitVec 16) : Except Stop (Kernel × Option Resume) := do
  if code = 101 then do
    let (k, resume) ← runProcess k k.sys.lastPid
    .ok (k, some resume)
  else do
    let sys ← syscall code k.mmuTablesStart k.sys
    .ok ({ k with sys := sys }, none)

/-! ### Steps -/

/-- The steps of the system. -/
inductive Action
  /-- `exec_proc(1)` at the end of `kernel_main`. -/
  | start
  /-- The running process executes `SVC #code`. -/
  | svc (code : BitVec 16) (frame : Frame)
  /-- The timer interrupts the running process. -/
  | timer (frame : Frame)
  /-- The scheduler runs, with this value of the hardware counter. -/
  | schedule (counter : BitVec 64)

/-- One step of the system, with the process it resumes. -/
def step (k : Kernel) : Action → Except Stop (Kernel × Option Resume)
  | .start => do
    if k.sys.currPid = 0 ∧ k.sys.lastPid = 0 then
      let (k, resume) ← runProcess k initPid
      .ok (k, some resume)
    else .error .disabled
  | .svc code frame => do
    if k.sys.currPid = 0 then .error .disabled
    else
      let k ← saveContext k frame (some code)
      svcHandler k code
  | .timer frame => do
    if k.sys.currPid = 0 then .error .disabled
    else
      let k ← saveContext k frame none
      .ok (k, none)
  | .schedule counter => do
    if k.sys.currPid = 0 ∧ k.sys.lastPid ≠ 0 then
      let (k, resume) ← schedule k counter
      .ok (k, some resume)
    else .error .disabled

/-- The label of a transition: what was done, and the process that was resumed. -/
structure Event where
  action : Action
  resume : Option Resume

/-- The transition relation of the system. -/
def Step (k : Kernel) (e : Event) (k' : Kernel) : Prop :=
  step k e.action = .ok (k', e.resume)

/-! ### Boot -/

/-- What the boot code supplies to `init_proc`: the address of `main_init`, the kernel's `TTBR0_EL1`
and the linker symbols `__mmu_tables_start` and `__end`. -/
structure Boot where
  mainInit : BitVec 64
  ttbr0El1 : BitVec 64
  mmuTablesStart : BitVec 64
  endAddr : BitVec 64

/-- `init_alloc`: the allocator's globals for an empty heap. -/
def initAlloc (boot : Boot) : AllocConf := ⟨boot.endAddr, 0, 0⟩

/-- The kernel before `init_proc`: `sys_state` is zeroed memory, and `init_alloc` has run. -/
def bootKernel (boot : Boot) : Kernel where
  sys :=
    { currPid := 0
      lastPid := 0
      procs := fun _ ↦ zeroDescriptor
      prioProcN := fun _ ↦ 0
      nRunnableProcs := 0
      prioProc := fun _ ↦ none }
  err := ⟨0, 0, 0⟩
  alloc := initAlloc boot
  mmuTablesStart := boot.mmuTablesStart

/-- `init_proc`. -/
def initProc (boot : Boot) : Except Stop Kernel := do
  let k := bootKernel boot
  let sys := { k.sys with
    currPid := 0
    procs := fun i ↦ { k.sys.procs i with state := .free } }
  let sys ← changeState sys kernelPid .kernel
  let sys := sys.modify kernelPid fun d ↦
    { d with memConf := { d.memConf with ttbr0El1 := boot.ttbr0El1 } }
  let sys := sys.modify initPid fun _ ↦ newProcDescriptor initPid initPid 15 boot.mainInit
  let sys := sys.modify initPid fun d ↦
    { d with savedContext :=
        { d.savedContext with sctlrEl1 := d.savedContext.sctlrEl1 ||| 1#64 <<< 18 } }
  let sys ← changeState sys initPid .runnable
  let sys := sys.modify initPid (setUpMemoryNewProc boot.mmuTablesStart)
  let k := saveAllocConf { k with sys := sys } kernelPid
  let k := { k with alloc := initAlloc boot }
  let k := saveAllocConf k initPid
  assert (.assertion .initHeapBegin) (0 < (k.sys.procs initPid).memConf.alloc.heapBegin)
  let k := restoreAllocConf k kernelPid
  .ok { k with sys := k.sys.modify initPid fun d ↦ { d with initialized := true } }

/-- The states `init_proc` may leave. -/
def Booted (k : Kernel) : Prop := ∃ boot, initProc boot = .ok k

/-- A history of the system: its transitions, the most recent first. -/
abbrev History := List (Transition Kernel Event)

/-- A run of the system from `init_proc` on. It ends when a step stops the kernel. -/
abbrev SysRun : History → Kernel → Prop := Run Booted Step

/-- A run of the image with the given symbols. -/
abbrev BootRun (boot : Boot) : History → Kernel → Prop := Run (fun k ↦ initProc boot = .ok k) Step

/-- A state that some run reaches. -/
def Reachable (k : Kernel) : Prop := ∃ history, SysRun history k

/-! ### Executing a list of actions -/

/-- The state and history after a list of actions, unless one of them stops the kernel. -/
def execute (history : History) (k : Kernel) : List Action → Except Stop (History × Kernel)
  | [] => .ok (history, k)
  | a :: actions => do
    let (k', resume) ← step k a
    execute (⟨k, ⟨a, resume⟩, k'⟩ :: history) k' actions

/-- Whether a list of actions after `init_proc` ends in a state with the given property. -/
def runSatisfies (boot : Boot) (actions : List Action) (P : History → Kernel → Bool) : Bool :=
  match (do execute [] (← initProc boot) actions) with
  | .ok (history, k) => P history k
  | .error _ => false

theorem BootRun.sysRun {boot : Boot} {history : History} {k : Kernel}
    (hrun : BootRun boot history k) : SysRun history k := hrun.mono fun _ h ↦ ⟨boot, h⟩

theorem execute_run {boot : Boot} {history history' : History} {k k' : Kernel}
    {actions : List Action} (hrun : BootRun boot history k)
    (h : execute history k actions = .ok (history', k')) : BootRun boot history' k' := by
  induction actions generalizing history k with
  | nil =>
    obtain ⟨rfl, rfl⟩ := Prod.mk.inj (Except.ok.inj h)
    exact hrun
  | cons a actions ih =>
    cases hstep : step k a with
    | error stop =>
      rw [execute, hstep] at h
      exact nomatch h
    | ok r =>
      rw [execute, hstep] at h
      have hnext : Step k ⟨a, r.2⟩ r.1 := hstep
      exact ih (.next hrun hnext) h

/-- A run found by executing a list of actions. -/
theorem exists_bootRun (boot : Boot) (actions : List Action) (P : History → Kernel → Bool)
    (h : runSatisfies boot actions P = true) :
    ∃ history k, BootRun boot history k ∧ P history k := by
  unfold runSatisfies at h
  cases hinit : initProc boot with
  | error stop =>
    rw [hinit] at h
    exact nomatch h
  | ok k =>
    rw [hinit] at h
    cases hexec : execute [] k actions with
    | error stop =>
      change (match execute [] k actions with
        | .ok (history, k) => P history k
        | .error _ => false) = true at h
      rw [hexec] at h
      exact nomatch h
    | ok r =>
      change (match execute [] k actions with
        | .ok (history, k) => P history k
        | .error _ => false) = true at h
      rw [hexec] at h
      exact ⟨r.1, r.2, execute_run (.start hinit) hexec, h⟩

theorem exists_run (boot : Boot) (actions : List Action) (P : History → Kernel → Bool)
    (h : runSatisfies boot actions P = true) : ∃ history k, SysRun history k ∧ P history k := by
  obtain ⟨history, k, hrun, hP⟩ := exists_bootRun boot actions P h
  exact ⟨history, k, BootRun.sysRun hrun, hP⟩

/-- The symbols of a small image. -/
def sampleBoot : Boot := ⟨0x9000, 0x400000, 0x400000, 0x4600000⟩

/-- A trap with the given first registers, a message of bytes `7` in memory and the rest zero. -/
def sampleFrame (registers : List (BitVec 64)) : Frame where
  registers := fun i ↦ (registers[i.val]?).getD 0
  pc := 0
  sp := 0
  pstate := 0
  timer := 5
  err := ⟨0, 0, 0⟩
  alloc := initAlloc sampleBoot
  memory := fun _ ↦ 7

end SysresOs.Proc
