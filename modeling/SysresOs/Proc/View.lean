import SysresOs.Proc.Effect

/-!
# Processes without their lists

The run queues decide who runs next and the sibling lists who may be reaped; neither is read by the
channels. A `View` of a process keeps what the system calls otherwise read and write of it: its pid,
priority, state, registers, status, buffer and channel data. On views every path of the kernel is a
plain update of one or two processes, and a system call has one of the outcomes listed in
`SyscallOutcome`, with the guards that lead to it (`syscall_outcome`).
-/

set_option autoImplicit false
set_option relaxedAutoImplicit false

namespace SysresOs.Proc

open SysresOs.Outcome

/-! ### Views -/

/-- A process without its lists, its memory configuration and its time slice. -/
structure View where
  pid : Pid
  priority : ℤ
  state : ProcState
  registers : Fin nReg → BitVec 64
  err : Err
  buffer : Buffer
  senderData : SenderData
  receiverData : ReceiverData

/-- The view of a descriptor. -/
def ProcDescriptor.view (d : ProcDescriptor) : View :=
  ⟨d.pid, d.priority, d.state, d.savedContext.registers, d.err, d.buffer, d.senderData,
    d.receiverData⟩

/-- The views of all slots. -/
abbrev Views := Pid → View

/-- The views of a system state. -/
def SystemState.views (s : SystemState) : Views := fun q ↦ (s.procs q).view

/-- Writing into a buffer that is large enough. -/
def overwrite (dst : Bytes) (src : List (BitVec 8)) : Bytes :=
  fun i ↦ (src[i.val]?).getD (dst i)

theorem storeBytes_eq_ok {dst b : Bytes} {src : List (BitVec 8)} :
    storeBytes dst src = .ok b ↔ src.length ≤ buffSize ∧ b = overwrite dst src := by
  unfold storeBytes
  split_ifs with hle
  · rw [Except.ok.injEq, eq_comm]
    exact (and_iff_right hle).symm
  · exact iff_of_false (fun h ↦ nomatch h) fun h ↦ hle h.1

@[simp] theorem length_prefixBytes (b : Bytes) (n : ℕ) : (prefixBytes b n).length = n := by
  simp [prefixBytes]

@[simp] theorem length_readBytes (memory : BitVec 64 → BitVec 8) (addr : BitVec 64) (n : ℕ) :
    (readBytes memory addr n).length = n := by
  simp [readBytes]

@[simp] theorem Err.length_bytes (e : Err) : e.bytes.length = 16 := by
  simp [Err.bytes, leBytes]

namespace View

/-- Assignment of `state`. -/
def setState (v : View) (state : ProcState) : View := { v with state := state }

/-- Assignment of the saved register `x0`. -/
def setX0 (v : View) (value : BitVec 64) : View :=
  { v with registers := Function.update v.registers 0 value }

/-- The failure exit of a system call. -/
def fail (v : View) (no : BitVec 32) : View :=
  { v with err := { v.err with no := no } }.setX0 (BitVec.allOnes 64)

/-- The buffer after `back_up_buff_svc`. -/
def backedUp (v : View) (frame : Frame) (svcCode : Option (BitVec 16)) : Buffer :=
  if (svcCode = some 3 ∨ svcCode = some 5) ∧ frame.registers 1 ≠ 0 ∧
      0 < (frame.registers 2).toNat then
    { v.buffer with
      usedSize := (frame.registers 2).toNat
      buff := overwrite v.buffer.buff (readBytes frame.memory (frame.registers 1)
        (min (frame.registers 2).toNat buffSize)) }
  else v.buffer

/-- A process after `save_context`. -/
def trapped (v : View) (frame : Frame) (svcCode : Option (BitVec 16)) : View :=
  { v with
    registers := frame.registers
    err := frame.err
    buffer := v.backedUp frame svcCode }

/-- A process after `write_buff_svc`. -/
def resumed (v : View) : View :=
  { v with buffer := { v.buffer with writeAddr := 0, usedSize := 0 } }

/-- The child that a process forks into a slot. -/
def forked (v : View) (child : Pid) (priority : ℤ) : View where
  pid := child
  priority := priority
  state := .runnable
  registers := Function.update v.registers 0 0
  err := v.err
  buffer := zeroDescriptor.buffer
  senderData := { zeroDescriptor.senderData with acknowledged := true }
  receiverData := zeroDescriptor.receiverData

/-- A process that exits, with its status. -/
def exiting (v : View) : View :=
  { v with err := { v.err with no := (v.registers 0).setWidth 32, data := v.registers 1 } }

/-- A parent that reaps a child. -/
def reaping (v child : View) : View :=
  { v with
    registers := Function.update v.registers 0 (ofPid child.pid)
    buffer := if v.registers 0 = 0 then v.buffer
      else ⟨overwrite v.buffer.buff child.err.bytes, 16, v.registers 0⟩
    state := .runnable }

/-- A process that offers a message to a target. -/
def offering (v : View) (target : Pid) : View :=
  { v with senderData := { v.senderData with
      targetPid := target
      sendSize := (v.registers 2).toNat
      ackData := v.registers 3
      ackSize := (v.registers 4).toNat } }

/-- A process that listens. -/
def listening (v : View) : View :=
  { v with
    receiverData := { v.receiverData with
      receiveData := v.registers 0
      receiveSize := (v.registers 1).toNat }
    state := .listeningCh }

/-- A sender whose message has been taken. -/
def delivered (v : View) : View :=
  { v with
    senderData := { v.senderData with acknowledged := false }
    buffer := { v.buffer with usedSize := 0 }
    state := .sendingCh }

/-- A receiver that has taken the message of a sender. -/
def receiving (v sender : View) : View :=
  { v with
    buffer := ⟨overwrite v.buffer.buff (prefixBytes sender.buffer.buff sender.buffer.usedSize),
      sender.buffer.usedSize, v.receiverData.receiveData⟩
    receiverData := { v.receiverData with sourcePid := sender.pid }
    registers := Function.update v.registers 0 (ofPid sender.pid)
    state := .runnable }

/-- A process that acknowledges, with its return code. -/
def acking (v : View) : View :=
  { v with receiverData := { v.receiverData with returnCode := (v.registers 0).setWidth 32 } }

/-- A receiver whose acknowledgement has been taken. -/
def acked (v : View) : View :=
  { v with
    registers := Function.update v.registers 0 0
    buffer := { v.buffer with usedSize := 0 } }

/-- A sender that is released by the acknowledgement of a receiver. -/
def released (v receiver : View) : View :=
  let usedSize := min v.senderData.ackSize receiver.buffer.usedSize
  { v with
    buffer := ⟨overwrite v.buffer.buff (prefixBytes receiver.buffer.buff usedSize), usedSize,
      v.senderData.ackData⟩
    registers := Function.update v.registers 0 (ofInt receiver.receiverData.returnCode)
    state := .runnable }

end View

/-! ### Outcomes of the system calls -/

namespace Views

/-- Update of one view. -/
def set (V : Views) (p : Pid) (v : View) : Views := Function.update V p v

@[simp] theorem set_self (V : Views) (p : Pid) (v : View) : V.set p v p = v :=
  Function.update_self ..

@[simp] theorem set_of_ne (V : Views) {p q : Pid} (v : View) (h : q ≠ p) : V.set p v q = V q :=
  Function.update_of_ne h ..

theorem set_apply (V : Views) (p q : Pid) (v : View) :
    V.set p v q = if q = p then v else V q :=
  Function.update_apply ..

@[simp] theorem set_set (V : Views) (p : Pid) (v w : View) : (V.set p v).set p w = V.set p w :=
  Function.update_idem ..

/-- `handle_zombie_child`. -/
def reap (V : Views) (parent child : Pid) : Views :=
  (V.set child ((V child).setState .free)).set parent ((V parent).reaping (V child))

/-- The success exit of `handle_channel_connection`. -/
def connect (V : Views) (sender receiver : Pid) : Views :=
  (V.set sender (V sender).delivered).set receiver ((V receiver).receiving (V sender))

/-- The success exit of `handle_channel_ack`. -/
def release (V : Views) (receiver sender : Pid) : Views :=
  (V.set receiver (V receiver).acked).set sender ((V sender).released (V receiver))

end Views

/-- A receive size too small for the sender's message. -/
def TooLarge (V : Views) (sender receiver : Pid) : Prop :=
  (V receiver).receiverData.receiveSize < (V sender).senderData.sendSize

/-- A process blocked on sending to another. -/
def WaitsFor (V : Views) (sender receiver : Pid) : Prop :=
  (V sender).state = .waitListener ∧ (V sender).senderData.targetPid = receiver

instance (V : Views) (sender receiver : Pid) : Decidable (WaitsFor V sender receiver) :=
  inferInstanceAs (Decidable (_ ∧ _))

/-- The failure exits of a system call of `p`, with the view they leave of it. -/
inductive Failure (V : Views) (p : Pid) : BitVec 16 → View → Prop
  | fork (no : BitVec 32) : Failure V p 0 ((V p).fail no)
  | wait : Failure V p 2 ((V p).fail noChild)
  | send (no : BitVec 32) : Failure V p 3 ((V p).fail no)
  | sendTooLarge (target : Pid) (hlisten : (V target).state = .listeningCh)
      (hlarge : TooLarge (V.set p ((V p).offering target)) p target) :
      Failure V p 3 (((V p).offering target).fail sendDataTooLarge)
  | ackTooLarge (hsize : buffSize < ((V p).registers 2).toNat) :
      Failure V p 5 ((V p).fail sendDataTooLarge)
  | spurious (hsource : (V (V p).receiverData.sourcePid).senderData.acknowledged ∨
        (V (V p).receiverData.sourcePid).state ≠ .sendingCh) :
      Failure V p 5 ((V p).acking.fail sourceAlreadyAcknowledged)

/-- The outcomes of a system call of `p` on the views `V` that its trap left. -/
inductive SyscallOutcome (V : Views) (p : Pid) : BitVec 16 → Views → Prop
  | failed {code : BitVec 16} {v : View} (h : Failure V p code v) :
      SyscallOutcome V p code (V.set p v)
  | forked (child : Pid) (prio : Prio) (hchild : 2 ≤ child.val) (hfree : (V child).state = .free)
      (hprio : toInt ((V p).registers 0) = prio.val) (hle : (prio.val : ℤ) ≤ (V p).priority) :
      SyscallOutcome V p 0 ((V.set p ((V p).setX0 (ofPid child))).set child
        ((V p).forked child prio.val))
  | exited : SyscallOutcome V p 1 (V.set p ((V p).exiting.setState .zombie))
  | exitReaped (parent : Pid) (hwait : (V parent).state = .waiting) :
      SyscallOutcome V p 1 ((V.set p (V p).exiting).reap parent p)
  | waits : SyscallOutcome V p 2 (V.set p ((V p).setState .waiting))
  | reaped (child : Pid) (hzombie : (V child).state = .zombie) :
      SyscallOutcome V p 2 (V.reap p child)
  | sendWaits (target : Pid) (htarget : toInt ((V p).registers 0) = target.val)
      (hlisten : (V target).state ≠ .listeningCh) (hsize : ((V p).registers 2).toNat ≤ buffSize) :
      SyscallOutcome V p 3 (V.set p (((V p).offering target).setState .waitListener))
  | sent (target : Pid) (htarget : toInt ((V p).registers 0) = target.val)
      (hlisten : (V target).state = .listeningCh) (hsize : ((V p).registers 2).toNat ≤ buffSize)
      (hfits : ¬ TooLarge (V.set p ((V p).offering target)) p target) :
      SyscallOutcome V p 3 ((V.set p ((V p).offering target)).connect p target)
  | listens (hnone : ∀ q, ¬ WaitsFor V q p) :
      SyscallOutcome V p 4 (V.set p (V p).listening)
  | refused (sender : Pid) (hwaits : WaitsFor V sender p)
      (hfirst : ∀ q < sender, ¬ WaitsFor V q p)
      (hlarge : TooLarge (V.set p (V p).listening) sender p) :
      SyscallOutcome V p 4 ((V.set p (V p).listening).set sender ((V sender).fail sendDataTooLarge))
  | received (sender : Pid) (hwaits : WaitsFor V sender p)
      (hfirst : ∀ q < sender, ¬ WaitsFor V q p)
      (hfits : ¬ TooLarge (V.set p (V p).listening) sender p) :
      SyscallOutcome V p 4 ((V.set p (V p).listening).connect sender p)
  | acknowledged (hsize : ((V p).registers 2).toNat ≤ buffSize)
      (hack : (V (V p).receiverData.sourcePid).senderData.acknowledged = false)
      (hstate : (V (V p).receiverData.sourcePid).state = .sendingCh)
      (htarget : (V (V p).receiverData.sourcePid).senderData.targetPid = (V p).pid) :
      SyscallOutcome V p 5 ((V.set p (V p).acking).release p (V p).receiverData.sourcePid)

/-! ### The paths of the kernel on views -/

/-- Neither the current nor the last process changes. -/
def SamePids (s s' : SystemState) : Prop := s'.currPid = s.currPid ∧ s'.lastPid = s.lastPid

theorem views_apply (s : SystemState) (q : Pid) : s.views q = (s.procs q).view := rfl

theorem views_modify (s : SystemState) (p : Pid) (f : ProcDescriptor → ProcDescriptor) :
    (s.modify p f).views = s.views.set p (f (s.procs p)).view := by
  ext1 q
  rw [views_apply, SystemState.modify_procs, Views.set_apply]
  split_ifs <;> rfl

theorem changeState_views {s s' : SystemState} {q : Pid} {newState : ProcState}
    (h : changeState s q newState = .ok s') :
    s'.views = s.views.set q ((s.views q).setState newState) ∧ SamePids s s' := by
  obtain ⟨htable, hpids⟩ := changeState_table h
  refine ⟨?_, hpids⟩
  ext1 r
  have hview := congrArg ProcDescriptor.view (congrFun htable r)
  rw [Table.setState, Function.update_apply] at hview
  rw [Views.set_apply]
  split_ifs at hview ⊢ with hr
  · exact hview
  · exact hview

/-- The sibling lists and the parents are not part of a view. -/
theorem views_modify_neutral (s : SystemState) (p : Pid) (f : ProcDescriptor → ProcDescriptor)
    (hf : ∀ d, (f d).view = d.view) : (s.modify p f).views = s.views := by
  rw [views_modify, hf]
  exact Function.update_eq_self ..

/-- The system state has the same views and the same pids. -/
def SameViews (s s' : SystemState) : Prop := s'.views = s.views ∧ SamePids s s'

theorem SameViews.refl (s : SystemState) : SameViews s s := ⟨rfl, rfl, rfl⟩

theorem SameViews.trans {s t u : SystemState} (h : SameViews s t) (h' : SameViews t u) :
    SameViews s u :=
  ⟨h'.1.trans h.1, h'.2.1.trans h.2.1, h'.2.2.trans h.2.2⟩

theorem SameViews.modify (s : SystemState) (p : Pid) (f : ProcDescriptor → ProcDescriptor)
    (hf : ∀ d, (f d).view = d.view) : SameViews s (s.modify p f) :=
  ⟨views_modify_neutral s p f hf, rfl, rfl⟩

theorem addChild_views {s s' : SystemState} {parent child : Pid}
    (h : addChild s parent child = .ok s') : SameViews s s' := by
  obtain ⟨t, ht, h⟩ := bind_eq_ok.mp h
  obtain rfl := Except.ok.inj h
  refine SameViews.trans ?_ (.modify t parent _ fun _ ↦ rfl)
  cases hhead : (s.procs parent).child with
  | none =>
    rw [hhead] at ht
    obtain rfl := Except.ok.inj ht
    exact .modify s child _ fun _ ↦ rfl
  | some head =>
    rw [hhead] at ht
    obtain ⟨prev, -, ht⟩ := bind_eq_ok.mp ht
    obtain rfl := Except.ok.inj ht
    refine SameViews.trans ?_ (.modify _ prev _ fun _ ↦ rfl)
    refine SameViews.trans ?_ (.modify _ head _ fun _ ↦ rfl)
    refine SameViews.trans ?_ (.modify _ child _ fun _ ↦ rfl)
    exact .modify s child _ fun _ ↦ rfl

theorem removeChild_views (s : SystemState) (parent child : Pid) :
    Yields (removeChild s parent child) (SameViews s) := by
  refine Yields.bind_any fun prev ↦ Yields.bind_any fun next ↦
    Yields.ite (fun _ ↦ .ok ?_) fun _ ↦ .ok ?_
  · refine SameViews.trans ?_ (.modify _ parent _ fun _ ↦ rfl)
    refine SameViews.trans ?_ (.modify _ next _ fun _ ↦ rfl)
    exact .modify s prev _ fun _ ↦ rfl
  · refine SameViews.trans ?_ (.modify _ next _ fun _ ↦ rfl)
    exact .modify s prev _ fun _ ↦ rfl

theorem reparentLoop_views {head : Pid} {bound : ℕ} {s s' : SystemState} {child : Pid}
    (h : reparentLoop head bound s child = .ok s') : SameViews s s' := by
  induction bound generalizing s child with
  | zero => exact nomatch h
  | succ bound ih =>
    obtain ⟨next, -, h⟩ := bind_eq_ok.mp h
    have hstep : SameViews s (s.modify child fun d ↦ { d with parentPid := initPid }) :=
      .modify s child _ fun _ ↦ rfl
    split_ifs at h
    · obtain rfl := Except.ok.inj h
      exact hstep
    · exact hstep.trans (ih h)

theorem reparent_views {s s' : SystemState} {head : Ptr} (h : reparent s head = .ok s') :
    SameViews s s' := by
  cases head with
  | none =>
    obtain rfl := Except.ok.inj h
    exact .refl s
  | some head => exact reparentLoop_views h

theorem reportStatus_views {s s' : SystemState} {parent child : Pid} {addr : BitVec 64}
    (h : reportStatus s parent child addr = .ok s') :
    SamePids s s' ∧ s'.views = s.views.set parent { s.views parent with
      buffer := if addr = 0 then (s.views parent).buffer
        else ⟨overwrite (s.views parent).buffer.buff (s.views child).err.bytes, 16, addr⟩ } := by
  unfold reportStatus at h
  split_ifs at h with haddr
  · obtain rfl := Except.ok.inj h
    refine ⟨⟨rfl, rfl⟩, ?_⟩
    rw [if_pos haddr]
    exact (Function.update_eq_self ..).symm
  · obtain ⟨buff, hbuff, h⟩ := bind_eq_ok.mp h
    obtain rfl := Except.ok.inj h
    obtain ⟨-, rfl⟩ := storeBytes_eq_ok.mp hbuff
    refine ⟨⟨rfl, rfl⟩, ?_⟩
    rw [if_neg haddr, views_modify, Err.length_bytes]
    rfl

theorem handleZombieChild_views {s s' : SystemState} {parent child : Pid} (hne : parent ≠ child)
    (h : handleZombieChild s parent child = .ok s') :
    SamePids s s' ∧ s'.views = s.views.reap parent child := by
  obtain ⟨t₁, h₁, h⟩ := bind_eq_ok.mp h
  obtain ⟨t₂, h₂, h⟩ := bind_eq_ok.mp h
  obtain ⟨t₃, h₃, h₄⟩ := bind_eq_ok.mp h
  obtain ⟨hpids₁, hview₁⟩ := reportStatus_views h₁
  obtain ⟨hview₂, hpids₂⟩ := removeChild_views _ parent child _ h₂
  obtain ⟨hview₃, hpids₃⟩ := changeState_views h₃
  obtain ⟨hview₄, hpids₄⟩ := changeState_views h₄
  refine ⟨⟨hpids₄.1.trans (hpids₃.1.trans (hpids₂.1.trans hpids₁.1)),
    hpids₄.2.trans (hpids₃.2.trans (hpids₂.2.trans hpids₁.2))⟩, ?_⟩
  rw [hview₄, hview₃, hview₂, hview₁, views_modify]
  ext1 q
  by_cases hp : q = parent
  · subst hp
    simp [Views.reap, hne, hne.symm, views_apply, ProcDescriptor.view, View.setState,
      View.reaping, ProcDescriptor.setX0, ProcDescriptor.reg]
    rfl
  · by_cases hc : q = child
    · subst hc
      simp [Views.reap, hp, hne]
    · simp [Views.reap, hp, hc]

theorem handleChannelConnection_views {s s' : SystemState} {sender receiver : Pid}
    (hne : sender ≠ receiver) (h : handleChannelConnection s sender receiver = .ok s') :
    SamePids s s' ∧
      ((TooLarge s.views sender receiver ∧
        s'.views = s.views.set sender ((s.views sender).fail sendDataTooLarge)) ∨
      (¬ TooLarge s.views sender receiver ∧ s'.views = s.views.connect sender receiver)) := by
  unfold handleChannelConnection at h
  split_ifs at h with hlarge
  · obtain rfl := Except.ok.inj h
    exact ⟨⟨rfl, rfl⟩, .inl ⟨hlarge, views_modify ..⟩⟩
  · obtain ⟨_, -, h⟩ := bind_eq_ok.mp h
    obtain ⟨_, -, h⟩ := bind_eq_ok.mp h
    obtain ⟨buff, hbuff, h⟩ := bind_eq_ok.mp h
    obtain ⟨t, ht, h⟩ := bind_eq_ok.mp h
    obtain ⟨hview, hpids⟩ := changeState_views ht
    obtain ⟨hview', hpids'⟩ := changeState_views h
    obtain ⟨-, rfl⟩ := storeBytes_eq_ok.mp hbuff
    refine ⟨⟨hpids'.1.trans hpids.1, hpids'.2.trans hpids.2⟩, .inr ⟨hlarge, ?_⟩⟩
    rw [hview', hview]
    ext1 q
    by_cases hs : q = sender
    · subst hs
      simp [Views.connect, hne, views_apply, ProcDescriptor.view, View.setState, View.delivered]
    · by_cases hr : q = receiver
      · subst hr
        simp [Views.connect, hs, hne, views_apply, ProcDescriptor.view, View.setState,
          View.receiving, ProcDescriptor.setX0]
      · simp [Views.connect, hs, hr, views_apply]

theorem handleChannelAck_views {s s' : SystemState} {receiver sender : Pid}
    (hreceiver : (s.views receiver).state = .runnable)
    (h : handleChannelAck s receiver sender = .ok s') :
    SamePids s s' ∧
      ((((s.views sender).senderData.acknowledged ∨ (s.views sender).state ≠ .sendingCh) ∧
        s'.views = s.views.set receiver ((s.views receiver).fail sourceAlreadyAcknowledged)) ∨
      ((s.views sender).senderData.acknowledged = false ∧ (s.views sender).state = .sendingCh ∧
        (s.views sender).senderData.targetPid = (s.views receiver).pid ∧
        s'.views = s.views.release receiver sender)) := by
  unfold handleChannelAck at h
  split_ifs at h with hspurious
  · obtain rfl := Except.ok.inj h
    exact ⟨⟨rfl, rfl⟩, .inl ⟨hspurious, views_modify ..⟩⟩
  · obtain ⟨_, htarget, h⟩ := bind_eq_ok.mp h
    obtain ⟨_, -, h⟩ := bind_eq_ok.mp h
    obtain ⟨buff, hbuff, h⟩ := bind_eq_ok.mp h
    obtain ⟨hview, hpids⟩ := changeState_views h
    obtain ⟨-, rfl⟩ := storeBytes_eq_ok.mp hbuff
    push Not at hspurious
    have hne : sender ≠ receiver := by
      rintro rfl
      exact nomatch hreceiver.symm.trans hspurious.2
    refine ⟨hpids, .inr ⟨Bool.eq_false_of_not_eq_true hspurious.1, hspurious.2,
      of_decide_eq_true (of_assert_ok htarget), ?_⟩⟩
    rw [hview]
    ext1 q
    by_cases hs : q = sender
    · subst hs
      simp [Views.release, hne, hne.symm, views_apply, ProcDescriptor.view, View.setState,
        View.released, ProcDescriptor.setX0]
    · by_cases hr : q = receiver
      · subst hr
        simp [Views.release, hs, hne, views_apply, ProcDescriptor.view, View.acked,
          ProcDescriptor.setX0]
      · simp [Views.release, hs, hr, views_apply]

/-! ### Inversion of the system calls -/

/-- What holds of every state in which a process may trap: the slots in use carry their number, and
the running process is runnable. -/
structure Sane (V : Views) (currPid : Pid) : Prop where
  pid : ∀ q, (V q).state ≠ .free → (V q).pid = q
  running : currPid ≠ 0 → (V currPid).state = .runnable

/-- A process that enters a queue has a priority that is an index of `prio_proc`. -/
theorem prio_of_changeState_runnable {s s' : SystemState} {q : Pid}
    (hq : (s.procs q).state ≠ .runnable) (h : changeState s q .runnable = .ok s') :
    ∃ prio : Prio, (s.procs q).priority = prio.val := by
  obtain ⟨t, ht, -⟩ := bind_eq_ok.mp h
  rw [changeQueue, if_neg fun hand ↦ hq hand.1, if_pos ⟨hq, rfl⟩] at ht
  obtain ⟨prio, heff⟩ := enqueued_of_enqueue ht
  exact ⟨prio, heff.priority⟩

/-- A search over all slots finds the first one. -/
theorem find?_finRange_first {n : ℕ} {P : Fin n → Bool} {b q : Fin n}
    (h : (List.finRange n).find? P = some b) (hq : q < b) : ¬ P q := by
  obtain ⟨-, before, after, hsplit, hbefore⟩ := List.find?_eq_some_iff_append.mp h
  have hsorted := List.pairwise_lt_finRange n
  rw [hsplit, List.pairwise_append, List.pairwise_cons] at hsorted
  have hmem : q ∈ before ++ b :: after := hsplit ▸ List.mem_finRange q
  rcases List.mem_append.mp hmem with hmem | hmem
  · simpa using hbefore q hmem
  · rcases List.mem_cons.mp hmem with rfl | hmem
    · exact absurd hq (lt_irrefl q)
    · exact absurd (hsorted.2.1.1 q hmem) (lt_asymm hq)

/-- The slot that `fork` fills is still free. -/
theorem forkSlot_views {s : SystemState} {child : Pid} (hfree : (s.procs child).state = .free) :
    (forkSlot s child).views =
      (s.views.set s.lastPid ((s.views s.lastPid).setX0 (ofPid child))).set child
        (((s.views s.lastPid).forked child
          (toInt ((s.procs s.lastPid).reg 0))).setState .free) := by
  ext1 q
  by_cases hq : q = child
  · subst hq
    rw [views_apply, forkSlot_child, Views.set_self]
    have hregisters : ((makeChildProcDescriptor ((s.procs s.lastPid).setX0 (ofPid q)) q
        (toInt ((s.procs s.lastPid).reg 0))).setX0 0).savedContext.registers =
        ((s.views s.lastPid).forked q (toInt ((s.procs s.lastPid).reg 0))).registers := by
      funext i
      by_cases hi : i = 0
      · subst hi
        rfl
      · simp [makeChildProcDescriptor, ProcDescriptor.setX0, ProcDescriptor.reg, View.forked,
          views_apply, ProcDescriptor.view, hi]
    rw [ProcDescriptor.view, hregisters]
    rfl
  · have hkeep := congrFun (views_modify s s.lastPid (·.setX0 (ofPid child))) q
    rw [Views.set_of_ne _ _ hq, views_apply, forkSlot_of_ne s hq]
    exact hkeep

theorem syscallFork_outcome {s : SystemState} (mmuTablesStart : BitVec 64) :
    Yields (syscallFork mmuTablesStart s) fun s' ↦
      SamePids s s' ∧ SyscallOutcome s.views s.lastPid 0 s'.views := by
  intro s' hs'
  cases forks_of_syscallFork mmuTablesStart s s' hs' with
  | failed no =>
    refine ⟨⟨rfl, rfl⟩, ?_⟩
    rw [views_modify]
    exact .failed (.fork no)
  | forked child t u hfind hprio ht hu =>
    obtain ⟨hchild, hfree⟩ := findFreeProc_free hfind
    obtain ⟨hview, hpids⟩ := addChild_views ht
    obtain ⟨hview', hpids'⟩ := changeState_views hu
    rw [forkSlot_views hfree] at hview
    have hchildView := congrFun hview child
    rw [Views.set_self] at hchildView
    have hstate : (t.procs child).state = .free := congrArg View.state hchildView
    have hpriority : (t.procs child).priority = toInt ((s.procs s.lastPid).reg 0) :=
      congrArg View.priority hchildView
    obtain ⟨prio, hindex⟩ := prio_of_changeState_runnable (by rw [hstate]; decide) hu
    rw [hpriority] at hindex
    refine ⟨⟨hpids'.1.trans hpids.1, hpids'.2.trans hpids.2⟩, ?_⟩
    have hsame := ((SameViews.modify u child (setUpMemoryNewProc mmuTablesStart)
      fun _ ↦ rfl).trans (.modify _ child (fun d ↦ { d with initialized := true })
      fun _ ↦ rfl)).1
    rw [hsame, hview', hview, hindex, Views.set_self, Views.set_set]
    exact .forked child prio hchild hfree hindex (hindex ▸ hprio)

section Syscalls

variable {s : SystemState} (hrun : (s.views s.lastPid).state = .runnable)
include hrun

theorem syscallWait_outcome : Yields (syscallWait s) fun s' ↦
    SamePids s s' ∧ SyscallOutcome s.views s.lastPid 2 s'.views := by
  have hreap : ∀ child, (s.procs child).state = .zombie →
      Yields (handleZombieChild s s.lastPid child) fun s' ↦
        SamePids s s' ∧ SyscallOutcome s.views s.lastPid 2 s'.views := by
    intro child hzombie s' h
    have hne : s.lastPid ≠ child := by
      rintro rfl
      exact nomatch hzombie.symm.trans hrun
    obtain ⟨hpids, hview⟩ := handleZombieChild_views hne h
    rw [hview]
    exact ⟨hpids, .reaped child hzombie⟩
  refine Yields.bind_any fun _ ↦ ?_
  cases hchild : (s.procs s.lastPid).child with
  | none =>
    refine .ok ⟨⟨rfl, rfl⟩, ?_⟩
    rw [views_modify]
    exact .failed .wait
  | some head =>
    refine Yields.ite (hreap head) fun _ ↦ Yields.bind_any fun child ↦
      Yields.ite (hreap child) fun _ s' h ↦ ?_
    obtain ⟨hview, hpids⟩ := changeState_views h
    rw [hview]
    exact ⟨hpids, .waits⟩

theorem syscallExit_outcome : Yields (syscallExit s) fun s' ↦
    SamePids s s' ∧ SyscallOutcome s.views s.lastPid 1 s'.views := by
  refine Yields.bind (fun t ht ↦ reparent_views ht) fun t ht ↦ ?_
  obtain ⟨hview, hpids⟩ := ht
  rw [views_modify] at hview
  have hself : (t.views s.lastPid).state = .runnable := by
    rw [hview, Views.set_self]
    exact hrun
  refine Yields.ite (fun hwait s' h ↦ ?_) fun _ s' h ↦ ?_
  · have hne : (t.procs s.lastPid).parentPid ≠ s.lastPid := by
      intro heq
      rw [heq] at hwait
      exact nomatch hwait.symm.trans hself
    obtain ⟨hpids', hview'⟩ := handleZombieChild_views hne h
    have hparent : (s.views (t.procs s.lastPid).parentPid).state = .waiting := by
      have hkeep := congrFun hview (t.procs s.lastPid).parentPid
      rw [Views.set_of_ne _ _ hne] at hkeep
      rw [← hkeep]
      exact hwait
    rw [hview', hview]
    exact ⟨⟨hpids'.1.trans hpids.1, hpids'.2.trans hpids.2⟩, .exitReaped _ hparent⟩
  · obtain ⟨hview', hpids'⟩ := changeState_views h
    rw [hview', hview, Views.set_self, Views.set_set]
    exact ⟨⟨hpids'.1.trans hpids.1, hpids'.2.trans hpids.2⟩, .exited⟩

theorem syscallSend_outcome : Yields (syscallSend s) fun s' ↦
    SamePids s s' ∧ SyscallOutcome s.views s.lastPid 3 s'.views := by
  unfold syscallSend
  by_cases htarget : 0 ≤ toInt ((s.procs s.lastPid).reg 0) ∧
      (toInt ((s.procs s.lastPid).reg 0)).toNat < maxProc
  · simp only [dif_pos htarget]
    have hindex : toInt ((s.views s.lastPid).registers 0) =
        (⟨_, htarget.2⟩ : Pid).val := (Int.toNat_of_nonneg htarget.1).symm
    refine Yields.ite (fun _ ↦ .ok ⟨⟨rfl, rfl⟩, ?_⟩) fun _ ↦ Yields.ite
      (fun _ ↦ .ok ⟨⟨rfl, rfl⟩, ?_⟩) fun hsize ↦ Yields.ite (fun hlisten s' h ↦ ?_)
        fun hlisten s' h ↦ ?_
    · rw [views_modify]
      exact .failed (.send _)
    · rw [views_modify]
      exact .failed (.send _)
    · rw [SystemState.modify_procs] at hlisten
      split_ifs at hlisten with hself
      · exact nomatch hlisten.symm.trans hrun
      · obtain ⟨hpids, hlarge | hfits⟩ := handleChannelConnection_views (Ne.symm hself) h
        · obtain ⟨hlarge, hview⟩ := hlarge
          rw [views_modify] at hlarge hview
          rw [hview, Views.set_self, Views.set_set]
          exact ⟨hpids, .failed (.sendTooLarge _ hlisten hlarge)⟩
        · obtain ⟨hfits, hview⟩ := hfits
          rw [views_modify] at hfits hview
          rw [hview]
          exact ⟨hpids, .sent _ hindex hlisten (not_lt.mp hsize) hfits⟩
    · have hlisten' : (s.views ⟨_, htarget.2⟩).state ≠ .listeningCh := by
        intro heq
        refine hlisten ?_
        rw [SystemState.modify_procs]
        split_ifs with hself
        · exact nomatch (hself ▸ heq).symm.trans hrun
        · exact heq
      obtain ⟨hview, hpids⟩ := changeState_views h
      rw [views_modify, Views.set_self, Views.set_set] at hview
      rw [hview]
      exact ⟨hpids, .sendWaits _ hindex hlisten' (not_lt.mp hsize)⟩
  · simp only [dif_neg htarget]
    refine .ok ⟨⟨rfl, rfl⟩, ?_⟩
    rw [views_modify]
    exact .failed (.send _)

theorem syscallReceive_outcome (hpid : (s.views s.lastPid).pid = s.lastPid) :
    Yields (syscallReceive s) fun s' ↦
      SamePids s s' ∧ SyscallOutcome s.views s.lastPid 4 s'.views := by
  refine Yields.bind (fun t ht ↦ changeState_views ht) fun t ht ↦ ?_
  obtain ⟨hview, hpids⟩ := ht
  rw [views_modify, Views.set_self, Views.set_set] at hview
  have hlisten : t.views = s.views.set s.lastPid (s.views s.lastPid).listening := hview
  have hself : (t.procs s.lastPid).pid = s.lastPid := by
    have hkeep := congrFun hlisten s.lastPid
    rw [Views.set_self] at hkeep
    exact (congrArg View.pid hkeep).trans hpid
  -- The caller is not found by the search: it is listening by then, and was running before.
  have hwaits : ∀ q, WaitsFor t.views q s.lastPid ↔ WaitsFor s.views q s.lastPid := by
    intro q
    rw [hlisten]
    by_cases hq : q = s.lastPid
    · subst hq
      simp [WaitsFor, View.listening, hrun]
    · simp [WaitsFor, hq]
  rw [hself]
  cases hfind : findWaitingSender t s.lastPid with
  | none =>
    refine .ok ⟨hpids, ?_⟩
    rw [hlisten]
    refine .listens fun q hq ↦ ?_
    have hnone := List.find?_eq_none.mp hfind q (List.mem_finRange q)
    exact hnone (decide_eq_true ((hwaits q).mpr hq))
  | some sender =>
    have hfound : WaitsFor t.views sender s.lastPid := by
      have hsome := List.find?_some hfind
      simpa [WaitsFor, views_apply, ProcDescriptor.view] using hsome
    have hsender := (hwaits sender).mp hfound
    have hne : sender ≠ s.lastPid := by
      rintro rfl
      exact nomatch hsender.1.symm.trans hrun
    have hfirst : ∀ q < sender, ¬ WaitsFor s.views q s.lastPid := by
      intro q hq hq'
      exact find?_finRange_first hfind hq (decide_eq_true ((hwaits q).mpr hq'))
    intro s' h
    obtain ⟨hpids', hlarge | hfits⟩ := handleChannelConnection_views hne h
    · obtain ⟨hlarge, hview'⟩ := hlarge
      rw [hlisten] at hlarge hview'
      rw [hview', Views.set_of_ne _ _ hne]
      exact ⟨⟨hpids'.1.trans hpids.1, hpids'.2.trans hpids.2⟩,
        .refused sender hsender hfirst hlarge⟩
    · obtain ⟨hfits, hview'⟩ := hfits
      rw [hlisten] at hfits hview'
      rw [hview']
      exact ⟨⟨hpids'.1.trans hpids.1, hpids'.2.trans hpids.2⟩,
        .received sender hsender hfirst hfits⟩

theorem syscallAcknowledge_outcome : Yields (syscallAcknowledge s) fun s' ↦
    SamePids s s' ∧ SyscallOutcome s.views s.lastPid 5 s'.views := by
  refine Yields.ite (fun hsize ↦ .ok ⟨⟨rfl, rfl⟩, ?_⟩) fun hsize s' h ↦ ?_
  · rw [views_modify]
    exact .failed (.ackTooLarge hsize)
  · have hacking : (s.modify s.lastPid fun d ↦ { d with
        receiverData := { d.receiverData with returnCode := (d.reg 0).setWidth 32 } }).views =
        s.views.set s.lastPid (s.views s.lastPid).acking := views_modify ..
    have hrunning : ((s.views.set s.lastPid (s.views s.lastPid).acking) s.lastPid).state =
        .runnable := by
      rw [Views.set_self]
      exact hrun
    rw [← hacking] at hrunning
    have hsource : ((s.modify s.lastPid fun d ↦ { d with
        receiverData := { d.receiverData with returnCode := (d.reg 0).setWidth 32 } }).procs
          s.lastPid).receiverData.sourcePid = (s.views s.lastPid).receiverData.sourcePid := by
      rw [SystemState.modify_procs, if_pos rfl]
      rfl
    rw [hsource] at h
    have hkeep : ∀ q, (s.views.set s.lastPid (s.views s.lastPid).acking q).senderData =
        (s.views q).senderData ∧
        (s.views.set s.lastPid (s.views s.lastPid).acking q).state = (s.views q).state := by
      intro q
      rw [Views.set_apply]
      split_ifs with hq
      · rw [hq]
        exact ⟨rfl, rfl⟩
      · exact ⟨rfl, rfl⟩
    obtain ⟨hpids, hspurious | hack⟩ := handleChannelAck_views hrunning h
    · obtain ⟨hack, hview⟩ := hspurious
      rw [hacking] at hack hview
      rw [(hkeep _).1, (hkeep _).2] at hack
      rw [hview, Views.set_self, Views.set_set]
      exact ⟨hpids, .failed (.spurious hack)⟩
    · obtain ⟨hack, hstate, htarget, hview⟩ := hack
      rw [hacking] at hack hstate htarget hview
      rw [(hkeep _).1] at hack htarget
      rw [(hkeep _).2] at hstate
      rw [Views.set_self] at htarget
      rw [hview]
      exact ⟨hpids, .acknowledged (not_lt.mp hsize) hack hstate htarget⟩

/-- Every system call of a runnable process has one of the outcomes listed in `SyscallOutcome`. -/
theorem syscall_outcome (hpid : (s.views s.lastPid).pid = s.lastPid) (code : BitVec 16)
    (mmuTablesStart : BitVec 64) :
    Yields (syscall code mmuTablesStart s) fun s' ↦
      SamePids s s' ∧ SyscallOutcome s.views s.lastPid code s'.views := by
  refine Yields.ite ?_ fun _ ↦ Yields.ite ?_ fun _ ↦ Yields.ite ?_ fun _ ↦ Yields.ite ?_ fun _ ↦
    Yields.ite ?_ fun _ ↦ Yields.ite ?_ fun _ ↦ .error
  · rintro rfl
    exact syscallFork_outcome mmuTablesStart
  · rintro rfl
    exact syscallExit_outcome hrun
  · rintro rfl
    exact syscallWait_outcome hrun
  · rintro rfl
    exact syscallSend_outcome hrun
  · rintro rfl
    exact syscallReceive_outcome hrun hpid
  · rintro rfl
    exact syscallAcknowledge_outcome hrun

end Syscalls

end SysresOs.Proc
