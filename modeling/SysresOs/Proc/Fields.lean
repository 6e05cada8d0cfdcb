import SysresOs.Proc.Effect

/-!
# Fields that are left alone

Every path of the kernel assigns a few fields of a few descriptors. `Has part F s` says that the
part of the descriptors that `part` reads has the values `F`, and the lemmas below say which paths
keep it: those of the channels when `part` reads none of the fields they assign (`Steady`, or
`Still` when it reads nothing of the saved context), `exit` and `wait` when it reads no links of the
process tree either (`Rooted`), and the way to the kernel and back when it reads nothing of the
context of the process (`Idle`).
-/

set_option autoImplicit false
set_option relaxedAutoImplicit false

namespace SysresOs.Proc

open SysresOs.Outcome

variable {β : Type*} {part : ProcDescriptor → β} {F : Pid → β} {s : SystemState}

/-- A part of a descriptor that neither `change_state` nor the channels assign: of the saved context
they assign `x0`. -/
structure Steady (part : ProcDescriptor → β) : Prop where
  queue : ∀ d next prev, part { d with nextSamePrio := next, prevSamePrio := prev } = part d
  state : ∀ d st, part { d with state := st } = part d
  setX0 : ∀ d x, part (d.setX0 x) = part d
  err : ∀ d e, part { d with err := e } = part d
  buffer : ∀ d b, part { d with buffer := b } = part d
  senderData : ∀ d x, part { d with senderData := x } = part d
  receiverData : ∀ d x, part { d with receiverData := x } = part d

/-- A part of a descriptor that neither `change_state` nor the channels assign, and that does not
read the saved context. -/
structure Still (part : ProcDescriptor → β) : Prop where
  queue : ∀ d next prev, part { d with nextSamePrio := next, prevSamePrio := prev } = part d
  state : ∀ d st, part { d with state := st } = part d
  context : ∀ d c, part { d with savedContext := c } = part d
  err : ∀ d e, part { d with err := e } = part d
  buffer : ∀ d b, part { d with buffer := b } = part d
  senderData : ∀ d x, part { d with senderData := x } = part d
  receiverData : ∀ d x, part { d with receiverData := x } = part d

/-- A part of a descriptor that has no links of the process tree. -/
structure Unlinked (part : ProcDescriptor → β) : Prop where
  parentPid : ∀ d p, part { d with parentPid := p } = part d
  child : ∀ d p, part { d with child := p } = part d
  siblings : ∀ d next prev, part { d with nextSibling := next, prevSibling := prev } = part d

/-- A part of a descriptor that `exit` and `wait` do not assign. -/
structure Rooted (part : ProcDescriptor → β) : Prop extends Still part, Unlinked part

/-- A part of a descriptor that is not assigned on the way to the kernel and back. -/
structure Idle (part : ProcDescriptor → β) : Prop extends Still part where
  memConf : ∀ d m, part { d with memConf := m } = part d
  schedConf : ∀ d c x, part { d with schedConf := c, savedContext := x } = part d
  initialized : ∀ d b, part { d with initialized := b } = part d

/-- The descriptors have the values `F` in their part. -/
def Has (part : ProcDescriptor → β) (F : Pid → β) (s : SystemState) : Prop :=
  ∀ q, part (s.procs q) = F q

theorem Has.modify (h : Has part F s) (p : Pid) {f : ProcDescriptor → ProcDescriptor}
    (hf : ∀ d, part (f d) = part d) : Has part F (s.modify p f) := by
  intro q
  rw [SystemState.modify_procs]
  split_ifs with hq
  · rw [hf, hq]
    exact h p
  · exact h q

/-- `fork` fills one slot. -/
theorem has_forkSlot (part : ProcDescriptor → β) (hpart : ∀ d x, part (d.setX0 x) = part d)
    (s : SystemState) (child : Pid) :
    Has part (Function.update (fun q ↦ part (s.procs q)) child
      (part ((forkSlot s child).procs child))) (forkSlot s child) := by
  intro q
  rw [Function.update_apply]
  split_ifs with hq
  · rw [hq]
  · rw [forkSlot_of_ne s hq]
    have hkeep : Has part (fun q ↦ part (s.procs q)) s := fun _ ↦ rfl
    exact hkeep.modify s.lastPid (fun d ↦ hpart d (ofPid child)) q

/-! ### The channels -/

theorem Still.steady (hpart : Still part) : Steady part :=
  ⟨hpart.queue, hpart.state, fun _ _ ↦ hpart.context .., hpart.err, hpart.buffer, hpart.senderData,
    hpart.receiverData⟩

namespace Steady

variable (hpart : Steady part)
include hpart

theorem fail (d : ProcDescriptor) (no : BitVec 32) : part (d.fail no) = part d :=
  (hpart.setX0 ..).trans (hpart.err ..)

theorem dropQueue (d : ProcDescriptor) : part d.dropQueue = part d := hpart.queue ..

theorem changeState (h : Has part F s) (q : Pid) (newState : ProcState) :
    Yields (Proc.changeState s q newState) (Has part F) := by
  intro s' hs' r
  have htable := congrArg part (congrFun (changeState_table hs').1 r)
  rw [SystemState.table, hpart.dropQueue, Table.setState, Function.update_apply] at htable
  rw [htable]
  split_ifs with hr
  · refine (hpart.state ..).trans ?_
    rw [SystemState.table, hpart.dropQueue, hr]
    exact h q
  · rw [SystemState.table, hpart.dropQueue]
    exact h r

theorem handleChannelConnection (h : Has part F s) (sender receiver : Pid) :
    Yields (Proc.handleChannelConnection s sender receiver) (Has part F) := by
  refine Yields.ite (fun _ ↦ .ok ?_) fun _ ↦ Yields.bind_any fun _ ↦ Yields.bind_any fun _ ↦
    Yields.bind_any fun buff ↦
      Yields.bind (P := Has part F) ?_ fun t ht ↦ hpart.changeState ht receiver .runnable
  · exact h.modify _ fun _ ↦ hpart.fail ..
  refine hpart.changeState ?_ sender .sendingCh
  refine Has.modify ?_ receiver fun _ ↦ hpart.setX0 ..
  refine Has.modify ?_ receiver fun _ ↦ hpart.receiverData ..
  refine Has.modify ?_ sender fun _ ↦ hpart.buffer ..
  refine Has.modify ?_ receiver fun _ ↦ hpart.buffer ..
  refine Has.modify ?_ receiver fun _ ↦ hpart.buffer ..
  exact h.modify sender fun _ ↦ hpart.senderData ..

theorem syscallSend (h : Has part F s) : Yields (Proc.syscallSend s) (Has part F) := by
  have hfail : ∀ no, Has part F (s.modify s.lastPid (·.fail no)) := fun no ↦
    h.modify _ fun _ ↦ hpart.fail ..
  unfold Proc.syscallSend
  by_cases htarget : 0 ≤ toInt ((s.procs s.lastPid).reg 0) ∧
      (toInt ((s.procs s.lastPid).reg 0)).toNat < maxProc
  · simp only [dif_pos htarget]
    refine Yields.ite (fun _ ↦ .ok (hfail _)) fun _ ↦ Yields.ite (fun _ ↦ .ok (hfail _)) fun _ ↦ ?_
    refine Yields.ite (fun _ ↦ hpart.handleChannelConnection ?_ _ _)
      fun _ ↦ hpart.changeState ?_ _ _
    · exact h.modify _ fun _ ↦ hpart.senderData ..
    · exact h.modify _ fun _ ↦ hpart.senderData ..
  · simp only [dif_neg htarget]
    exact .ok (hfail _)

theorem syscallReceive (h : Has part F s) : Yields (Proc.syscallReceive s) (Has part F) := by
  refine Yields.bind (P := Has part F) (hpart.changeState ?_ _ _) fun t ht ↦ ?_
  · exact h.modify _ fun _ ↦ hpart.receiverData ..
  · cases findWaitingSender t (t.procs s.lastPid).pid with
    | none => exact .ok ht
    | some sender => exact hpart.handleChannelConnection ht sender _

theorem handleChannelAck (h : Has part F s) (receiver sender : Pid) :
    Yields (Proc.handleChannelAck s receiver sender) (Has part F) := by
  refine Yields.ite (fun _ ↦ .ok (h.modify _ fun _ ↦ hpart.fail ..)) fun _ ↦
    Yields.bind_any fun _ ↦ Yields.bind_any fun _ ↦ Yields.bind_any fun buff ↦
      hpart.changeState ?_ sender .runnable
  refine Has.modify ?_ sender fun _ ↦ hpart.setX0 ..
  refine Has.modify ?_ receiver fun _ ↦ hpart.buffer ..
  refine Has.modify ?_ sender fun _ ↦ hpart.buffer ..
  refine Has.modify ?_ sender fun _ ↦ hpart.buffer ..
  refine Has.modify ?_ sender fun _ ↦ hpart.buffer ..
  exact h.modify receiver fun _ ↦ hpart.setX0 ..

theorem syscallAcknowledge (h : Has part F s) :
    Yields (Proc.syscallAcknowledge s) (Has part F) := by
  refine Yields.ite (fun _ ↦ .ok (h.modify _ fun _ ↦ hpart.fail ..)) fun _ ↦
    hpart.handleChannelAck ?_ _ _
  exact h.modify _ fun _ ↦ hpart.receiverData ..

end Steady

/-! ### The process tree -/

namespace Unlinked

variable (hpart : Unlinked part)
include hpart

theorem addChild (h : Has part F s) (parent child : Pid) :
    Yields (Proc.addChild s parent child) (Has part F) := by
  refine Yields.bind (P := Has part F) ?_ fun t ht ↦ .ok (ht.modify _ fun _ ↦ hpart.child ..)
  cases (s.procs parent).child with
  | none => exact .ok (h.modify _ fun _ ↦ hpart.siblings ..)
  | some head =>
    refine Yields.bind_any fun prev ↦ .ok ?_
    refine Has.modify ?_ _ fun _ ↦ hpart.siblings ..
    refine Has.modify ?_ _ fun _ ↦ hpart.siblings ..
    refine Has.modify ?_ _ fun _ ↦ hpart.siblings ..
    exact h.modify _ fun _ ↦ hpart.siblings ..

theorem removeChild (h : Has part F s) (parent child : Pid) :
    Yields (Proc.removeChild s parent child) (Has part F) := by
  refine Yields.bind_any fun prev ↦ Yields.bind_any fun next ↦ ?_
  have hprev := h.modify prev
    (f := fun d ↦ { d with nextSibling := (s.procs child).nextSibling }) fun _ ↦ hpart.siblings ..
  refine Yields.ite (fun _ ↦ .ok ?_) fun _ ↦ .ok ?_
  · refine Has.modify ?_ _ fun _ ↦ hpart.child ..
    exact hprev.modify _ fun _ ↦ hpart.siblings ..
  · exact hprev.modify _ fun _ ↦ hpart.siblings ..

end Unlinked

namespace Steady

variable (hpart : Steady part) (hlinks : Unlinked part)
include hpart hlinks

theorem handleZombieChild (h : Has part F s) (parent child : Pid) :
    Yields (Proc.handleZombieChild s parent child) (Has part F) := by
  refine Yields.bind (P := Has part F) ?_ fun t ht ↦ (hlinks.removeChild ht _ _).bind fun u hu ↦
    (hpart.changeState hu _ _).bind fun v hv ↦ hpart.changeState hv _ _
  have hx0 := h.modify parent (f := (·.setX0 (ofPid (s.procs child).pid))) fun _ ↦ hpart.setX0 ..
  exact Yields.ite (fun _ ↦ .ok hx0) fun _ ↦ Yields.bind_any fun buff ↦
    .ok (hx0.modify _ fun _ ↦ hpart.buffer ..)

theorem syscallWait (h : Has part F s) : Yields (Proc.syscallWait s) (Has part F) := by
  refine Yields.bind_any fun _ ↦ ?_
  cases (s.procs s.lastPid).child with
  | none => exact .ok (h.modify _ fun _ ↦ hpart.fail ..)
  | some head =>
    exact Yields.ite (fun _ ↦ hpart.handleZombieChild hlinks h _ _) fun _ ↦
      Yields.bind_any fun child ↦
      Yields.ite (fun _ ↦ hpart.handleZombieChild hlinks h _ _) fun _ ↦ hpart.changeState h _ _

omit hpart in
theorem reparentLoop {head : Pid} (bound : ℕ) (child : Pid) (h : Has part F s) :
    Yields (Proc.reparentLoop head bound s child) (Has part F) := by
  induction bound generalizing s child with
  | zero => exact .error
  | succ bound ih =>
    have hparent := h.modify child (f := fun d ↦ { d with parentPid := initPid })
      fun _ ↦ hlinks.parentPid ..
    exact Yields.bind_any fun next ↦ Yields.ite (fun _ ↦ .ok hparent) fun _ ↦ ih next hparent

theorem syscallExit (h : Has part F s) : Yields (Proc.syscallExit s) (Has part F) := by
  refine Yields.bind (P := Has part F) ?_ fun t ht ↦ Yields.ite
    (fun _ ↦ hpart.handleZombieChild hlinks ht _ _) fun _ ↦ hpart.changeState ht _ _
  have herr := h.modify s.lastPid (f := fun d ↦
    { d with err := { d.err with no := (d.reg 0).setWidth 32, data := d.reg 1 } })
    fun _ ↦ hpart.err ..
  unfold reparent
  split
  · exact .ok herr
  · exact reparentLoop hlinks maxProc _ herr

end Steady

/-! ### The way to the kernel and back -/

namespace Idle

variable (hpart : Idle part) {k : Kernel}
include hpart

theorem trapped (d : ProcDescriptor) (frame : Frame) (svcCode : Option (BitVec 16))
    (buffer : Buffer) : part (d.trapped frame svcCode buffer) = part d := by
  let t := d.trapped frame svcCode buffer
  let context : ProcDescriptor := { d with
    schedConf := t.schedConf, savedContext := t.savedContext }
  let alloc : ProcDescriptor := { context with memConf := t.memConf }
  let saved : ProcDescriptor := { alloc with err := frame.err }
  calc part t
      = part saved := hpart.buffer saved buffer
    _ = part alloc := hpart.err alloc frame.err
    _ = part context := hpart.memConf context t.memConf
    _ = part d := hpart.schedConf d t.schedConf t.savedContext

theorem saveContext (h : Has part F k.sys) (frame : Frame) (svcCode : Option (BitVec 16)) :
    Yields (Proc.saveContext k frame svcCode) fun k' ↦ Has part F k'.sys := by
  intro t ht
  obtain ⟨buffer, rfl⟩ := saveContext_eq_ok ht
  exact h.modify k.sys.currPid fun d ↦ hpart.trapped d frame svcCode buffer

theorem runProcess (h : Has part F k.sys) (proc : Pid) :
    Yields (Proc.runProcess k proc) fun r ↦ Has part F r.1.sys := by
  intro r hr
  obtain ⟨-, -, -, hsys, -⟩ := runProcess_eq_ok hr
  rw [hsys]
  refine Has.modify ?_ _ fun _ ↦ hpart.buffer ..
  refine Has.modify ?_ _ fun _ ↦ hpart.initialized ..
  exact h.modify kernelPid
    (f := fun d ↦ { d with memConf := { d.memConf with alloc := k.alloc } }) fun _ ↦
    hpart.memConf ..

theorem runPriority (h : Has part F k.sys) (prio : Prio) :
    Yields (Proc.runPriority k prio) fun r ↦ Has part F r.1.sys := by
  intro r hr
  obtain ⟨proc, -, hr⟩ := bind_eq_ok.mp hr
  have hsame : Has part F (k.sys.setPrioProc prio (k.sys.procs proc).nextSamePrio) := h
  refine hpart.runProcess ?_ proc r hr
  split_ifs
  · exact hsame.modify proc
      (f := fun d ↦ { d with schedConf := { d.schedConf with timeLeft := quantum } })
      fun d ↦ hpart.schedConf d _ d.savedContext
  · exact hsame

theorem schedule (h : Has part F k.sys) (counter : BitVec 64) :
    Yields (Proc.schedule k counter) fun r ↦ Has part F r.1.sys :=
  Yields.bind_any fun _ ↦ Yields.ite (fun _ ↦ .error) fun _ ↦
    Yields.ite (fun _ ↦ hpart.runPriority h _) fun _ ↦
    Yields.ite (fun _ ↦ hpart.runPriority h _) fun _ ↦
      Yields.bind_any fun _ ↦ Yields.bind_any fun prio ↦ hpart.runPriority h prio

end Idle

end SysresOs.Proc
