import SysresOs.Lib.FlatMemory

/-!
# The exception vectors

The entry and exit code of `interrupt/idt_el1.S` and `proc/proc_asm.s`, instruction by instruction.
The entry stubs and the handlers are separate blocks of code; a branch from one to another is a
change of the program counter.
-/

set_option autoImplicit false
set_option relaxedAutoImplicit false

namespace SysresOs.Trap

open SysresOs.AArch64

/-- The C functions that the code calls. -/
inductive Callee
  | maskTimerIrq
  | saveContext
  | cSyncHandler
  | restartTimer
  | isTimerIrq
  | writeBuffSvc
  deriving DecidableEq

/-- The labels of the code. -/
inductive Label
  | currElSp0Sync
  | currElSpxSync
  | lowerElAarch64Sync
  | lowerElAarch64Irq
  | lowerElEl1SyncHandler
  | el1SyncHandler
  | el1IrqHandler
  | restoreAndRun
  deriving DecidableEq

/-- What the linker supplies. -/
structure Linkage where
  address : Label → Word
  mmuTablesStart : Word

/-- A block of code. -/
abbrev Code := List (Instr Callee)

/-! ### Synchronous exceptions -/

/-- `curr_el_sp0_sync`, before its branch to `el1_sync_handler`. -/
def currElSp0Sync : Code :=
  [.stp 0 1, .stp 2 3, .stp 4 5, .stp 6 7, .stp 8 9, .stp 10 11, .stp 12 13, .stp 14 15, .mov 8 0]

/-- `curr_el_spx_sync`, before its branch to `el1_sync_handler`. -/
def currElSpxSync : Code :=
  [.stp 0 1, .stp 2 3, .stp 4 5, .stp 6 7, .stp 8 9, .stp 10 11, .stp 12 13, .stp 14 15, .mov 8 4]

/-- `lower_el_el1_sync_handler`, before its branch to `el1_sync_handler` unless the exception is an
`SVC`. -/
def lowerElEl1SyncHandler : Code :=
  [.msrSpSel 31, .stp 0 1, .stp 2 3, .stp 4 5, .stp 6 7, .stp 8 9, .stp 10 11,
    .stp 12 13, .stp 14 15, .mrs 4 .esrEl1, .and 11 4 0xfc000000, .lsr 11 11 26, .cmp 11 21]

/-- The rest of `lower_el_el1_sync_handler`, for an `SVC`, before its call of `save_context`. -/
def lowerElEl1Svc : Code :=
  [.stp 16 17, .stp 18 19, .stp 20 21, .stp 22 23, .stp 24 25, .stp 26 27, .stp 28 29, .stp 30 30,
    .bl .maskTimerIrq, .addSp 0 (16 * 16), .mrs 1 .elrEl1, .mrs 2 .spsrEl1, .addSp 3 0,
    .movReg 4 31, .mrs 5 .esrEl1]

/-- Behind that call, before the branch to the C handler. -/
def lowerElEl1SvcEnd (mmuTablesStart : Word) : Code :=
  [.raiseSp (32 * 8), .mrs 0 .esrEl1, .mov 2 1, .msrSpSel 2, .mov 2 mmuTablesStart,
    .msr .ttbr0El1 2]

/-- `el1_sync_handler`, before its `eret`. -/
def el1SyncHandler (mmuTablesStart : Word) : Code :=
  [.bl .maskTimerIrq, .stp 29 30, .mrs 9 .spsrEl1, .mrs 10 .elrEl1, .stp 9 10, .mrsSpSel 9,
    .mrs 10 .ttbr0El1, .mov 0 1, .msrSpSel 0, .mov 11 mmuTablesStart, .msr .ttbr0El1 11, .isb,
    .stp 9 10, .mov 0 1, .movReg 1 8, .mrs 2 .spsrEl1, .mrs 3 .elrEl1, .mrs 4 .esrEl1,
    .mrs 5 .farEl1, .bl .cSyncHandler, .ldp 9 10, .msr .ttbr0El1 10, .isb, .msrSpSel 9,
    .bl .restartTimer, .ldp 2 3, .msr .spsrEl1 2, .msr .elrEl1 3,
    .ldp 29 30, .ldp 14 15, .ldp 12 13, .ldp 10 11, .ldp 8 9, .ldp 6 7, .ldp 4 5,
    .ldp 2 3, .ldp 0 1]

/-! ### Interrupts -/

/-- `lower_el_aarch64_irq`, before its branch to `el1_irq_handler`. -/
def lowerElAarch64Irq : Code := [.msrSpSel 31]

/-- `el1_irq_handler`, before its test for the timer. -/
def el1IrqHandler : Code :=
  [.stp 0 1, .stp 2 3, .stp 4 5, .stp 6 7, .stp 8 9, .stp 10 11, .stp 12 13, .stp 14 15,
    .stp 16 17, .stp 18 19, .stp 20 21, .stp 22 23, .stp 24 25, .stp 26 27, .stp 28 29, .stp 30 30,
    .bl .isTimerIrq]

/-- The rest of `el1_irq_handler`, for the timer, before its call of `save_context`. -/
def el1IrqTimer : Code :=
  [.addSp 0 (16 * 16), .mrs 1 .elrEl1, .mrs 2 .spsrEl1, .addSp 3 0, .mov 4 1]

/-! ### Back to a process -/

/-- `restore_and_run`, before its `eret`. -/
def restoreAndRun : Code :=
  [.msr .ttbr0El1 4, .isb, .msr .spsrEl1 3, .msr .elrEl1 1, .isb, .msrSpSel 31, .movSp 2, .stp 0 1,
    .bl .writeBuffSvc, .ldp 0 1, .mov 2 1, .msrSpSel 2, .mov 2 0x3F200000, .movSp 2,
    .ldrFrom 30 0 (-16), .ldpFrom 28 29 0 (-16), .ldpFrom 26 27 0 (-16), .ldpFrom 24 25 0 (-16),
    .ldpFrom 22 23 0 (-16), .ldpFrom 20 21 0 (-16), .ldpFrom 18 19 0 (-16), .ldpFrom 16 17 0 (-16),
    .ldpFrom 14 15 0 (-16), .ldpFrom 12 13 0 (-16), .ldpFrom 10 11 0 (-16), .ldpFrom 8 9 0 (-16),
    .ldpFrom 6 7 0 (-16), .ldpFrom 4 5 0 (-16), .ldpFrom 2 3 0 (-16), .ldpFrom 0 1 0 0]

/-! ### Runs -/

section Runs

variable (link : Linkage) (call : Callee → Cpu → Cpu)

/-- The ways into `el1_sync_handler`. -/
inductive Entry
  | currElSp0
  | currElSpx
  | lowerEl

/-- `el1_sync_handler` and its return from the exception. -/
def runEl1SyncHandler (s : Cpu) : Cpu :=
  eret (exec call (el1SyncHandler link.mmuTablesStart) (jump (link.address .el1SyncHandler) s))

/-- An exception from EL0 up to the branch in `lower_el_el1_sync_handler`. -/
def lowerElSync (esr far : Word) (s : Cpu) : Cpu :=
  exec call lowerElEl1SyncHandler
    (jump (link.address .lowerElEl1SyncHandler)
    (takeException (link.address .lowerElAarch64Sync) esr far s))

/-- A synchronous exception that is no `SVC`, up to the return from it. -/
def runSync (esr far : Word) (s : Cpu) : Entry → Option Cpu
  | .currElSp0 => some <| runEl1SyncHandler link call <|
      exec call currElSp0Sync (takeException (link.address .currElSp0Sync) esr far s)
  | .currElSpx => some <| runEl1SyncHandler link call <|
      exec call currElSpxSync (takeException (link.address .currElSpxSync) esr far s)
  | .lowerEl =>
    let t := lowerElSync link call esr far s
    if t.pstate.getLsbD 30 then none else some (runEl1SyncHandler link call t)

/-- An `SVC` of a process, up to the call of `save_context`. -/
def runSvc (esr far : Word) (s : Cpu) : Option Cpu :=
  let t := lowerElSync link call esr far s
  if t.pstate.getLsbD 30 then some (exec call lowerElEl1Svc t) else none

/-- A timer interrupt of a process, up to the call of `save_context`. -/
def runTimer (esr far : Word) (s : Cpu) : Option Cpu :=
  let t := exec call lowerElAarch64Irq (takeException (link.address .lowerElAarch64Irq) esr far s)
  let t := exec call el1IrqHandler (jump (link.address .el1IrqHandler) t)
  if t.x 0 = 0 then none else some (exec call el1IrqTimer t)

end Runs

/-- `restore_and_run` and its return to the process. Its pointer to the saved registers, its stack
and the message that `write_buff_svc` stores are all in one memory. -/
def runRestoreAndRun (link : Linkage) (call : Callee → Machine → Machine) (s : Machine) : Machine :=
  (Machine.exec call restoreAndRun (s.jump (link.address .restoreAndRun))).eret

end SysresOs.Trap
