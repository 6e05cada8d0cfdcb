import SysresOs.Lib.Outcome
import SysresOs.Proc.State

/-!
# Run queues and the choice of the next process

`change_state`, which keeps a process in the cyclic list of its priority exactly while it is
runnable, and the way back to user mode: `schedule`, `run_priority`, `run_process`, `switch_to_proc`
and `write_buff_svc`, which drains the message buffer of the resumed process into its memory. The
hardware counter read by `random` is an argument. A resumption is reported as a `Resume`: the
process that runs and the bytes written to its memory.
-/

set_option autoImplicit false
set_option relaxedAutoImplicit false

namespace SysresOs.Proc

open SysresOs.Outcome

/-! ### `change_state` -/

/-- The index `prio_proc[prio]`, which C leaves undefined outside the array. -/
def prioIndex (prio : ℤ) : Except Stop Prio :=
  if h : 0 ≤ prio ∧ prio.toNat < maxPrio + 1 then .ok ⟨prio.toNat, h.2⟩ else .error .outOfBounds

/-- The first branch of `change_state`: the process leaves its run queue. -/
def dequeue (s : SystemState) (proc : Pid) : Except Stop SystemState := do
  let prio ← prioIndex (s.procs proc).priority
  let next ← deref (s.procs proc).nextSamePrio
  let prev ← deref (s.procs proc).prevSamePrio
  let s := if s.prioProc prio = some proc then
      s.setPrioProc prio (if next = proc then none else some next) else s
  let s := s.modify prev fun d ↦ { d with nextSamePrio := some next }
  let s := s.modify next fun d ↦ { d with prevSamePrio := some prev }
  .ok { s with
    nRunnableProcs := s.nRunnableProcs - 1
    prioProcN := Function.update s.prioProcN prio (s.prioProcN prio - 1) }

/-- The links of a process that enters the run queue with the given head. -/
def linkSamePrio (s : SystemState) (proc : Pid) : Ptr → Except Stop SystemState
  | none =>
    .ok (s.modify proc fun d ↦ { d with nextSamePrio := some proc, prevSamePrio := some proc })
  | some head => do
    let s := s.modify proc fun d ↦ { d with nextSamePrio := some head }
    let s := s.modify proc fun d ↦ { d with prevSamePrio := (s.procs head).prevSamePrio }
    let s := s.modify head fun d ↦ { d with prevSamePrio := some proc }
    let prev ← deref (s.procs proc).prevSamePrio
    .ok (s.modify prev fun d ↦ { d with nextSamePrio := some proc })

/-- The second branch of `change_state`: the process becomes the head of its run queue. -/
def enqueue (s : SystemState) (proc : Pid) : Except Stop SystemState := do
  let prio ← prioIndex (s.procs proc).priority
  let s ← linkSamePrio s proc (s.prioProc prio)
  let s := s.setPrioProc prio (some proc)
  .ok { s with
    nRunnableProcs := s.nRunnableProcs + 1
    prioProcN := Function.update s.prioProcN prio (s.prioProcN prio + 1) }

/-- The two branches of `change_state`. -/
def changeQueue (s : SystemState) (proc : Pid) (newState : ProcState) : Except Stop SystemState :=
  if (s.procs proc).state = .runnable ∧ newState ≠ .runnable then dequeue s proc
  else if (s.procs proc).state ≠ .runnable ∧ newState = .runnable then enqueue s proc
  else .ok s

/-- `change_state`. -/
def changeState (s : SystemState) (proc : Pid) (newState : ProcState) :
    Except Stop SystemState := do
  let s ← changeQueue s proc newState
  .ok (s.modify proc (·.setState newState))

/-! ### Bytes -/

/-- The first `n` bytes of a message buffer. -/
def prefixBytes (b : Bytes) (n : ℕ) : List (BitVec 8) :=
  (List.range n).map fun i ↦ if h : i < buffSize then b ⟨i, h⟩ else 0

/-- `memmove` into a message buffer. More than `BUFF_SIZE` bytes run over its end. -/
def storeBytes (dst : Bytes) (src : List (BitVec 8)) : Except Stop Bytes :=
  if src.length ≤ buffSize then .ok fun i ↦ (src[i.val]?).getD (dst i) else .error .overrun

/-! ### The kernel -/

/-- The kernel's data: the system state, the global `err`, the allocator's globals and the linker
symbol `__mmu_tables_start`. -/
structure Kernel where
  sys : SystemState
  err : Err
  alloc : AllocConf
  mmuTablesStart : BitVec 64

/-- A process goes back to user mode; `write` is what `write_buff_svc` copied to its memory. -/
structure Resume where
  pid : Pid
  write : Option (BitVec 64 × List (BitVec 8))
  deriving DecidableEq

/-- `save_alloc_conf`. -/
def saveAllocConf (k : Kernel) (proc : Pid) : Kernel :=
  { k with sys := k.sys.modify proc fun d ↦ { d with memConf := { d.memConf with
    alloc := k.alloc } } }

/-- `restore_alloc_conf`. -/
def restoreAllocConf (k : Kernel) (proc : Pid) : Kernel :=
  { k with alloc := (k.sys.procs proc).memConf.alloc }

/-- `save_errno`. -/
def saveErrno (k : Kernel) (proc : Pid) : Kernel :=
  { k with sys := k.sys.modify proc fun d ↦ { d with err := k.err } }

/-- `restore_errno`. -/
def restoreErrno (k : Kernel) (proc : Pid) : Kernel :=
  { k with err := (k.sys.procs proc).err }

/-- The copy of `write_buff_svc`: none without an address, and over the end of the buffer when more
than `BUFF_SIZE` bytes are in use. -/
def Buffer.written (buffer : Buffer) : Except Stop (Option (BitVec 64 × List (BitVec 8))) :=
  if buffer.writeAddr = 0 then .ok none
  else if buffer.usedSize ≤ buffSize then
    .ok (some (buffer.writeAddr, prefixBytes buffer.buff buffer.usedSize))
  else .error .overrun

/-- `write_buff_svc`: the current process's buffer is written to its memory and emptied. -/
def writeBuffSvc (k : Kernel) : Except Stop (Kernel × Resume) := do
  let proc := k.sys.currPid
  let write ← (k.sys.procs proc).buffer.written
  let sys := k.sys.modify proc fun d ↦
    { d with buffer := { d.buffer with writeAddr := 0, usedSize := 0 } }
  .ok ({ k with sys := sys }, ⟨proc, write⟩)

/-- `switch_to_proc`, followed by `restore_and_run`. -/
def switchToProc (k : Kernel) (proc : Pid) : Except Stop (Kernel × Resume) :=
  let k := restoreAllocConf k proc
  let k := restoreErrno k proc
  let k := { k with sys := k.sys.modify proc fun d ↦ { d with initialized := true } }
  writeBuffSvc k

/-- `run_process`. -/
def runProcess (k : Kernel) (proc : Pid) : Except Stop (Kernel × Resume) := do
  let d := k.sys.procs proc
  assert (.assertion .runPidPositive) (0 < d.pid)
  assert (.assertion .runStateRunnable) (d.state = .runnable)
  assert (.assertion .runTimeLeft) (!d.schedConf.preempt || 0 < d.schedConf.timeLeft)
  assert (.assertion .runInKernel) (k.sys.currPid = 0)
  assert (.assertion .runInitialized) d.initialized
  let k := saveAllocConf k kernelPid
  let k := { k with sys := { k.sys with currPid := d.pid } }
  switchToProc k proc

/-! ### The scheduler -/

/-- The loop of `print_prio_lists` over one run queue, with its assertions. A walk of more than
`MAX_PROC` steps has met a slot twice and never ends. -/
def printPrioList (s : SystemState) (prio : Prio) (head : Pid) : ℕ → Pid → Except Stop Unit
  | 0, _ => .error .diverges
  | bound + 1, proc => do
    assert (.assertion .prioListPriority) ((s.procs proc).priority = (prio.val : ℤ))
    assert (.assertion .prioListState) ((s.procs proc).state = .runnable)
    let next ← deref (s.procs proc).nextSamePrio
    if next = head then .ok () else printPrioList s prio head bound next

/-- `print_prio_lists`. -/
def printPrioLists (s : SystemState) : Except Stop Unit :=
  (List.finRange (maxPrio + 1)).forM fun prio ↦
    match s.prioProc prio with
    | none => .ok ()
    | some head => printPrioList s prio head maxProc head

/-- `random`, with the value of the hardware counter as an argument. -/
def random (counter : BitVec 64) (bound : ℕ) : Except Stop ℕ :=
  if bound = 0 then .error .divisionByZero else .ok (counter.toNat % bound)

/-- The second loop of `random_law`, from index `i` on, with the partial sum so far. `last` is the
value of the return statement after the loop. -/
def randomLawLoop (val last : ℕ) : ℕ → ℕ → List (BitVec 32) → ℕ
  | _, _, [] => last
  | i, sum, w :: law =>
    if sum + w.toNat > val then i else randomLawLoop val last (i + 1) (sum + w.toNat) law

/-- `random_law`. -/
def randomLaw (law : List (BitVec 32)) (counter : BitVec 64) : Except Stop ℕ := do
  let total := (law.map BitVec.toNat).sum
  let val ← random counter total
  .ok (randomLawLoop val (law.length - 1) 0 0 law)

/-- The array `proba` of `schedule`, of length `MAX_PRIO`. -/
def proba (s : SystemState) : List (BitVec 32) :=
  (List.finRange maxPrio).map fun i ↦
    if i.val = 0 then 0
    else if 0 < s.prioProcN i.castSucc then
      BitVec.ofNat 32 (i.val * i.val) + s.prioProcN i.castSucc
    else 0

/-- `run_priority`: the head of the queue runs and the queue is rotated. -/
def runPriority (k : Kernel) (prio : Prio) : Except Stop (Kernel × Resume) := do
  let proc ← deref (k.sys.prioProc prio)
  let sys := k.sys.setPrioProc prio (k.sys.procs proc).nextSamePrio
  let sys := if (sys.procs proc).schedConf.timeLeft = 0 then
      sys.modify proc fun d ↦ { d with schedConf := { d.schedConf with timeLeft := quantum } }
    else sys
  runProcess { k with sys := sys } proc

/-- `schedule`. -/
def schedule (k : Kernel) (counter : BitVec 64) : Except Stop (Kernel × Resume) := do
  printPrioLists k.sys
  if k.sys.nRunnableProcs = 0 then .error .halt
  else if 0 < k.sys.prioProcN (Fin.last maxPrio) then runPriority k (Fin.last maxPrio)
  else if k.sys.nRunnableProcs = k.sys.prioProcN 0 then runPriority k 0
  else do
    let prio ← randomLaw (proba k.sys) counter
    let prio ← prioIndex prio
    runPriority k prio

end SysresOs.Proc
