import SysresOs.Proc.Scheduler

/-!
# System calls

The six system calls of `proc/proc.c` on the system state, each run for `last_pid`: `fork`, `exit`
and `wait` over the process tree, and `send`, `receive` and `acknowledge` over the channels. A loop
over a sibling list that has not met its exit condition after `MAX_PROC` steps has come back to a
slot it already visited and goes on for ever, so the bound of the loops below is exact.
-/

set_option autoImplicit false
set_option relaxedAutoImplicit false

namespace SysresOs.Proc

open SysresOs.Outcome

/-- The conversion of a 64-bit register to `int`. -/
def toInt (r : BitVec 64) : ℤ := (r.setWidth 32).toInt

/-- The conversion of an `int` to a 64-bit register. -/
def ofInt (n : BitVec 32) : BitVec 64 := n.signExtend 64

/-- The register value of a pid. -/
def ofPid (p : Pid) : BitVec 64 := BitVec.ofNat 64 p.val

/-! ### The process tree -/

/-- `find_free_proc`: the first free slot from number 2 on. -/
def findFreeProc (s : SystemState) : Option Pid :=
  (List.finRange maxProc).find? fun i ↦ 2 ≤ i.val ∧ (s.procs i).state = .free

/-- The links of a child that enters the sibling list with the given head. -/
def linkSibling (s : SystemState) (child : Pid) : Ptr → Except Stop SystemState
  | none =>
    .ok (s.modify child fun d ↦ { d with nextSibling := some child, prevSibling := some child })
  | some head => do
    let s := s.modify child fun d ↦ { d with nextSibling := some head }
    let s := s.modify child fun d ↦ { d with prevSibling := (s.procs head).prevSibling }
    let s := s.modify head fun d ↦ { d with prevSibling := some child }
    let prev ← deref (s.procs child).prevSibling
    .ok (s.modify prev fun d ↦ { d with nextSibling := some child })

/-- `add_child`. -/
def addChild (s : SystemState) (parent child : Pid) : Except Stop SystemState := do
  let s ← linkSibling s child (s.procs parent).child
  .ok (s.modify parent fun d ↦ { d with child := some child })

/-- `remove_child`. -/
def removeChild (s : SystemState) (parent child : Pid) : Except Stop SystemState := do
  let prev ← deref (s.procs child).prevSibling
  let s := s.modify prev fun d ↦ { d with nextSibling := (s.procs child).nextSibling }
  let next ← deref (s.procs child).nextSibling
  let s := s.modify next fun d ↦ { d with prevSibling := (s.procs child).prevSibling }
  if (s.procs parent).child = some child then
    .ok (s.modify parent fun d ↦ { d with
      child := if (s.procs child).nextSibling = some child then none
        else (s.procs child).nextSibling })
  else .ok s

/-- The loop of `print_children`, which counts the siblings after `child`. -/
def countSiblings (s : SystemState) (head : Pid) : ℕ → Pid → Except Stop ℕ
  | 0, _ => .error .diverges
  | bound + 1, child => do
    let next ← deref (s.procs child).nextSibling
    if next = head then .ok 0
    else do
      let n ← countSiblings s head bound next
      .ok (n + 1)

/-- `print_children`: the number of children of a process. -/
def printChildren (s : SystemState) (parent : Pid) : Except Stop ℕ :=
  match (s.procs parent).child with
  | none => .ok 0
  | some head => do
    let n ← countSiblings s head maxProc head
    .ok (n + 1)

/-- `set_up_memory_new_proc`, without the table set-up of `c_init_mmu`: the child's translation
root. -/
def setUpMemoryNewProc (mmuTablesStart : BitVec 64) (proc : ProcDescriptor) : ProcDescriptor :=
  let lvl2TableAddress := mmuTablesStart + ofPid proc.pid * 0x200000#64
  { proc with memConf := { proc.memConf with
      ttbr0El1 := ofPid proc.pid <<< 48 ||| (lvl2TableAddress &&& 0xfffffffffffe#64) } }

/-- `syscall_fork`. -/
def syscallFork (mmuTablesStart : BitVec 64) (s : SystemState) : Except Stop SystemState := do
  let parent := s.lastPid
  let nChildren ← printChildren s parent
  match findFreeProc s with
  | none => .ok (s.modify parent (·.fail maxProcReached))
  | some child => do
    let priority := toInt ((s.procs parent).reg 0)
    if priority > (s.procs parent).priority then
      .ok (s.modify parent (·.fail tooHighChildPriority))
    else do
      let s := s.modify parent (·.setX0 (ofPid child))
      let s := s.modify child fun _ ↦ makeChildProcDescriptor (s.procs parent) child priority
      let s := s.modify child (·.setX0 0)
      let s ← addChild s parent child
      let s ← changeState s child .runnable
      let s := s.modify child (setUpMemoryNewProc mmuTablesStart)
      let s := s.modify child fun d ↦ { d with initialized := true }
      let newNChildren ← printChildren s parent
      assert (.assertion .childCount) (nChildren + 1 = newNChildren)
      .ok s

/-- The bytes of a little-endian integer in memory. -/
def leBytes {w : ℕ} (x : BitVec w) (n : ℕ) : List (BitVec 8) :=
  (List.range n).map fun i ↦ x.extractLsb' (8 * i) 8

/-- The `sizeof(err_t)` bytes of an `err_t` in memory. -/
def Err.bytes (e : Err) : List (BitVec 8) :=
  leBytes e.no 4 ++ leBytes e.pad 4 ++ leBytes e.data 8

/-- The part of `handle_zombie_child` that puts the child's status in the parent's buffer, to be
written to a non-`NULL` address. -/
def reportStatus (s : SystemState) (parent child : Pid) (retStatusAddr : BitVec 64) :
    Except Stop SystemState :=
  if retStatusAddr = 0 then .ok s
  else do
    let bytes := (s.procs child).err.bytes
    let buff ← storeBytes (s.procs parent).buffer.buff bytes
    .ok (s.modify parent fun d ↦ { d with
      buffer := { buff := buff, usedSize := bytes.length, writeAddr := retStatusAddr } })

/-- `handle_zombie_child`. -/
def handleZombieChild (s : SystemState) (parent child : Pid) : Except Stop SystemState := do
  let retStatusAddr := (s.procs parent).reg 0
  let s := s.modify parent (·.setX0 (ofPid (s.procs child).pid))
  let s ← reportStatus s parent child retStatusAddr
  let s ← removeChild s parent child
  let s ← changeState s child .free
  changeState s parent .runnable

/-- The `do ... while` loop of `syscall_wait`: the first zombie after `child` in the sibling list,
or the last sibling before `head`. -/
def scanZombie (s : SystemState) (head : Pid) : ℕ → Pid → Except Stop Pid
  | 0, _ => .error .diverges
  | bound + 1, child => do
    let child ← deref (s.procs child).nextSibling
    if (s.procs child).state ≠ .zombie ∧ (s.procs child).nextSibling ≠ some head then
      scanZombie s head bound child
    else .ok child

/-- `syscall_wait`. -/
def syscallWait (s : SystemState) : Except Stop SystemState := do
  let parent := s.lastPid
  let _ ← printChildren s parent
  match (s.procs parent).child with
  | none => .ok (s.modify parent (·.fail noChild))
  | some head =>
    if (s.procs head).state = .zombie then handleZombieChild s parent head
    else do
      let child ← scanZombie s head maxProc head
      if (s.procs child).state = .zombie then handleZombieChild s parent child
      else changeState s parent .waiting

/-- The `do ... while` loop of `syscall_exit`: the children get `init` as parent. -/
def reparentLoop (head : Pid) : ℕ → SystemState → Pid → Except Stop SystemState
  | 0, _, _ => .error .diverges
  | bound + 1, s, child => do
    let s := s.modify child fun d ↦ { d with parentPid := initPid }
    let next ← deref (s.procs child).nextSibling
    if next = head then .ok s else reparentLoop head bound s next

/-- The part of `syscall_exit` that gives the children to `init`. -/
def reparent (s : SystemState) : Ptr → Except Stop SystemState
  | none => .ok s
  | some head => reparentLoop head maxProc s head

/-- `syscall_exit`. -/
def syscallExit (s : SystemState) : Except Stop SystemState := do
  let proc := s.lastPid
  let s := s.modify proc fun d ↦
    { d with err := { d.err with no := (d.reg 0).setWidth 32, data := d.reg 1 } }
  let s ← reparent s (s.procs proc).child
  let parent := (s.procs proc).parentPid
  if (s.procs parent).state = .waiting then handleZombieChild s parent proc
  else changeState s proc .zombie

/-! ### Channels -/

/-- `handle_channel_connection`. -/
def handleChannelConnection (s : SystemState) (sender receiver : Pid) :
    Except Stop SystemState := do
  if (s.procs receiver).receiverData.receiveSize < (s.procs sender).senderData.sendSize then
    .ok (s.modify sender (·.fail sendDataTooLarge))
  else do
    let s := s.modify sender fun d ↦
      { d with senderData := { d.senderData with acknowledged := false } }
    let usedSize := (s.procs sender).buffer.usedSize
    assert (.assertion .usedSizeLeBuffSize) (usedSize ≤ buffSize)
    assert (.assertion .usedSizeLeReceiveSize)
      (usedSize ≤ (s.procs receiver).receiverData.receiveSize)
    let s := s.modify receiver fun d ↦
      { d with buffer := { d.buffer with
          usedSize := usedSize, writeAddr := d.receiverData.receiveData } }
    let buff ← storeBytes (s.procs receiver).buffer.buff
      (prefixBytes (s.procs sender).buffer.buff (s.procs sender).buffer.usedSize)
    let s := s.modify receiver fun d ↦ { d with buffer := { d.buffer with buff := buff } }
    let s := s.modify sender fun d ↦ { d with buffer := { d.buffer with usedSize := 0 } }
    let pid := (s.procs sender).pid
    let s := s.modify receiver fun d ↦
      { d with receiverData := { d.receiverData with sourcePid := pid } }
    let s := s.modify receiver (·.setX0 (ofPid pid))
    let s ← changeState s sender .sendingCh
    changeState s receiver .runnable

/-- `syscall_send`. -/
def syscallSend (s : SystemState) : Except Stop SystemState :=
  let proc := s.lastPid
  let d := s.procs proc
  let waitForListen : Bool := d.reg 5 ≠ 0
  let size := (d.reg 2).toNat
  let targetPid := toInt (d.reg 0)
  if h : 0 ≤ targetPid ∧ targetPid.toNat < maxProc then
    let target : Pid := ⟨targetPid.toNat, h.2⟩
    if (s.procs target).state ≠ .listeningCh ∧ !waitForListen then
      .ok (s.modify proc (·.fail targetNotListening))
    else if size > buffSize then .ok (s.modify proc (·.fail sendDataTooLarge))
    else
      let s := s.modify proc fun d ↦ { d with senderData := { d.senderData with
        targetPid := target, sendSize := size, ackData := d.reg 3, ackSize := (d.reg 4).toNat } }
      if (s.procs target).state = .listeningCh then handleChannelConnection s proc target
      else changeState s proc .waitListener
  else .ok (s.modify proc (·.fail invalidPid))

/-- The search of `syscall_receive`: the first process blocked on sending to `pid`. -/
def findWaitingSender (s : SystemState) (pid : Pid) : Option Pid :=
  (List.finRange maxProc).find? fun i ↦
    (s.procs i).state = .waitListener ∧ (s.procs i).senderData.targetPid = pid

/-- `syscall_receive`. -/
def syscallReceive (s : SystemState) : Except Stop SystemState := do
  let proc := s.lastPid
  let s := s.modify proc fun d ↦ { d with receiverData := { d.receiverData with
    receiveData := d.reg 0, receiveSize := (d.reg 1).toNat } }
  let s ← changeState s proc .listeningCh
  match findWaitingSender s (s.procs proc).pid with
  | some sender => handleChannelConnection s sender proc
  | none => .ok s

/-- `handle_channel_ack`. -/
def handleChannelAck (s : SystemState) (receiver sender : Pid) : Except Stop SystemState := do
  if (s.procs sender).senderData.acknowledged ∨ (s.procs sender).state ≠ .sendingCh then
    .ok (s.modify receiver (·.fail sourceAlreadyAcknowledged))
  else do
    assert (.assertion .ackTargetIsReceiver)
      ((s.procs sender).senderData.targetPid = (s.procs receiver).pid)
    let s := s.modify receiver (·.setX0 0)
    assert (.assertion .ackUsedSizeLeBuffSize) ((s.procs receiver).buffer.usedSize ≤ buffSize)
    let usedSize := min (s.procs sender).senderData.ackSize (s.procs receiver).buffer.usedSize
    let s := s.modify sender fun d ↦ { d with buffer := { d.buffer with usedSize := usedSize } }
    let buff ← storeBytes (s.procs sender).buffer.buff
      (prefixBytes (s.procs receiver).buffer.buff usedSize)
    let s := s.modify sender fun d ↦ { d with buffer := { d.buffer with buff := buff } }
    let s := s.modify sender fun d ↦
      { d with buffer := { d.buffer with writeAddr := d.senderData.ackData } }
    let s := s.modify receiver fun d ↦ { d with buffer := { d.buffer with usedSize := 0 } }
    let returnCode := (s.procs receiver).receiverData.returnCode
    let s := s.modify sender (·.setX0 (ofInt returnCode))
    changeState s sender .runnable

/-- `syscall_acknowledge`. -/
def syscallAcknowledge (s : SystemState) : Except Stop SystemState :=
  let proc := s.lastPid
  if ((s.procs proc).reg 2).toNat > buffSize then
    .ok (s.modify proc (·.fail sendDataTooLarge))
  else
    let s := s.modify proc fun d ↦ { d with
      receiverData := { d.receiverData with returnCode := (d.reg 0).setWidth 32 } }
    handleChannelAck s proc (s.procs proc).receiverData.sourcePid

end SysresOs.Proc
