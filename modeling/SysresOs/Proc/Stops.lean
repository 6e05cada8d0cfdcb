import SysresOs.Proc.Fields
import SysresOs.Proc.View

/-!
# Where the kernel may stop

The assertions of the channels and the copies between message buffers are the only places where a
message can stop the kernel (`IpcStop`), and the run queues are the only arrays that it may index
outside their bounds. This module shows that no other path raises one of these stops: `step_avoids`
reduces the question whether a step may end in one to the three system calls of the channels, to the
copy made when a process is resumed, and to the priorities.
-/

set_option autoImplicit false
set_option relaxedAutoImplicit false

namespace SysresOs.Proc

open SysresOs.Outcome

/-- The stops that a message may cause. -/
inductive IpcStop : Stop → Prop
  | overrun : IpcStop .overrun
  | usedSizeLeBuffSize : IpcStop (.assertion .usedSizeLeBuffSize)
  | usedSizeLeReceiveSize : IpcStop (.assertion .usedSizeLeReceiveSize)
  | ackTargetIsReceiver : IpcStop (.assertion .ackTargetIsReceiver)
  | ackUsedSizeLeBuffSize : IpcStop (.assertion .ackUsedSizeLeBuffSize)

/-- The stops that this module looks for: those of a message, and an index outside `prio_proc`. -/
inductive Watched : Stop → Prop
  | overrun : Watched .overrun
  | usedSizeLeBuffSize : Watched (.assertion .usedSizeLeBuffSize)
  | usedSizeLeReceiveSize : Watched (.assertion .usedSizeLeReceiveSize)
  | ackTargetIsReceiver : Watched (.assertion .ackTargetIsReceiver)
  | ackUsedSizeLeBuffSize : Watched (.assertion .ackUsedSizeLeBuffSize)
  | outOfBounds : Watched .outOfBounds

theorem IpcStop.watched {e : Stop} (h : IpcStop e) : Watched e := by
  cases h <;> constructor

/-- Where an index outside `prio_proc` is to be avoided, all priorities are indices of it. -/
def Indexed (E : Stop → Prop) (s : SystemState) : Prop :=
  E .outOfBounds → ∀ q, ∃ prio : Prio, (s.procs q).priority = prio.val

theorem priority_still : Still ProcDescriptor.priority :=
  ⟨fun _ _ _ ↦ rfl, fun _ _ ↦ rfl, fun _ _ ↦ rfl, fun _ _ ↦ rfl, fun _ _ ↦ rfl, fun _ _ ↦ rfl,
    fun _ _ ↦ rfl⟩

theorem priority_rooted : Rooted ProcDescriptor.priority :=
  ⟨priority_still, fun _ _ ↦ rfl, fun _ _ ↦ rfl, fun _ _ _ ↦ rfl⟩

theorem priority_idle : Idle ProcDescriptor.priority :=
  ⟨priority_still, fun _ _ ↦ rfl, fun _ _ _ ↦ rfl, fun _ _ ↦ rfl⟩

/-- The priorities of a state. -/
def SystemState.priorities (s : SystemState) : Pid → ℤ := fun q ↦ (s.procs q).priority

/-- The same priorities. -/
theorem Indexed.has {E : Stop → Prop} {s t : SystemState} (h : Indexed E s)
    (ht : Has ProcDescriptor.priority s.priorities t) : Indexed E t := by
  intro he q
  rw [ht q]
  exact h he q

theorem Indexed.modify {E : Stop → Prop} {s : SystemState} (h : Indexed E s) (p : Pid)
    {f : ProcDescriptor → ProcDescriptor} (hf : ∀ d, (f d).priority = d.priority) :
    Indexed E (s.modify p f) := h.has (Has.modify (fun _ ↦ rfl) p hf)

/-- Some of the stops that a connection may cause are to be avoided. -/
def Copies (E : Stop → Prop) : Prop :=
  E .overrun ∨ E (.assertion .usedSizeLeBuffSize) ∨ E (.assertion .usedSizeLeReceiveSize)

theorem storeBytes_avoids {E : Stop → Prop} (dst : Bytes) {src : List (BitVec 8)}
    (hle : E .overrun → src.length ≤ buffSize) : Avoids (storeBytes dst src) E :=
  Avoids.ite (fun _ ↦ .ok) fun hlong ↦ .error fun he ↦ hlong (hle he)

theorem written_avoids {E : Stop → Prop} {buffer : Buffer}
    (hle : E .overrun → buffer.writeAddr ≠ 0 → buffer.usedSize ≤ buffSize) :
    Avoids buffer.written E :=
  Avoids.ite (fun _ ↦ .ok) fun haddr ↦ Avoids.ite (fun _ ↦ .ok) fun hlong ↦
    .error fun he ↦ hlong (hle he haddr)

/-- The entry code never stops: it copies at most `BUFF_SIZE` bytes. -/
theorem saveContext_avoids {E : Stop → Prop} {k : Kernel} {frame : Frame}
    {svcCode : Option (BitVec 16)} : Avoids (saveContext k frame svcCode) E := by
  refine Avoids.bind ?_ fun _ _ ↦ .ok
  cases svcCode with
  | none => exact .ok
  | some code =>
    refine Avoids.ite (fun _ ↦ Avoids.bind (storeBytes_avoids _ fun _ ↦ ?_) fun _ _ ↦ .ok) fun _ ↦
      .ok
    simp only [readBytes, List.length_map, List.length_range]
    split_ifs <;> omega

section Paths

variable {E : Stop → Prop} (hE : ∀ e, E e → Watched e)
include hE

theorem deref_avoids (p : Ptr) : Avoids (deref p) E := by
  cases p with
  | none => exact .error fun he ↦ nomatch hE _ he
  | some p => exact .ok

omit hE in
theorem prioIndex_avoids {prio : ℤ} (h : E .outOfBounds → ∃ index : Prio, prio = index.val) :
    Avoids (prioIndex prio) E := by
  unfold prioIndex
  split_ifs with hprio
  · exact .ok
  · refine .error fun he ↦ hprio ?_
    obtain ⟨index, rfl⟩ := h he
    exact ⟨by omega, by rw [Int.toNat_natCast]; exact index.isLt⟩

theorem changeState_avoids {s : SystemState} (h : Indexed E s) {q : Pid} {newState : ProcState} :
    Avoids (changeState s q newState) E := by
  refine Avoids.bind (Avoids.ite (fun _ ↦ ?_) fun _ ↦ Avoids.ite (fun _ ↦ ?_) fun _ ↦ .ok)
    fun _ _ ↦ .ok
  · exact Avoids.bind (prioIndex_avoids fun he ↦ h he q) fun _ _ ↦
      Avoids.bind (deref_avoids hE _) fun _ _ ↦ Avoids.bind (deref_avoids hE _) fun _ _ ↦ .ok
  · refine Avoids.bind (prioIndex_avoids fun he ↦ h he q) fun prio _ ↦ Avoids.bind ?_ fun _ _ ↦ .ok
    cases s.prioProc prio with
    | none => exact .ok
    | some head => exact Avoids.bind (deref_avoids hE _) fun _ _ ↦ .ok

omit hE in
theorem Indexed.changeState {s t : SystemState} (h : Indexed E s) {q : Pid} {newState : ProcState}
    (ht : Proc.changeState s q newState = .ok t) : Indexed E t :=
  h.has (priority_rooted.steady.changeState (fun _ ↦ rfl) q newState t ht)

theorem countSiblings_avoids {s : SystemState} {head : Pid} {bound : ℕ} {child : Pid} :
    Avoids (countSiblings s head bound child) E := by
  induction bound generalizing child with
  | zero => exact .error fun he ↦ nomatch hE _ he
  | succ bound ih =>
    exact Avoids.bind (deref_avoids hE _) fun next _ ↦ Avoids.ite (fun _ ↦ .ok) fun _ ↦
      Avoids.bind ih fun _ _ ↦ .ok

theorem printChildren_avoids {s : SystemState} {parent : Pid} :
    Avoids (printChildren s parent) E := by
  unfold printChildren
  cases (s.procs parent).child with
  | none => exact .ok
  | some head => exact Avoids.bind (countSiblings_avoids hE) fun _ _ ↦ .ok

theorem addChild_avoids {s : SystemState} {parent child : Pid} :
    Avoids (addChild s parent child) E := by
  refine Avoids.bind ?_ fun _ _ ↦ .ok
  cases (s.procs parent).child with
  | none => exact .ok
  | some head => exact Avoids.bind (deref_avoids hE _) fun _ _ ↦ .ok

/-- `fork` stops for its argument only: the priority of the child is at most that of the parent. -/
theorem syscallFork_avoids {mmuTablesStart : BitVec 64} {s : SystemState} (h : Indexed E s)
    (hfork : E .outOfBounds → (findFreeProc s).isSome → 0 ≤ toInt ((s.procs s.lastPid).reg 0)) :
    Avoids (syscallFork mmuTablesStart s) E := by
  refine Avoids.bind (printChildren_avoids hE) fun n _ ↦ ?_
  cases hfind : findFreeProc s with
  | none => exact .ok
  | some child =>
    refine Avoids.ite (fun _ ↦ .ok) fun hle ↦ Avoids.bind (addChild_avoids hE) fun t ht ↦
      Avoids.bind (changeState_avoids hE ?_) fun _ _ ↦
      Avoids.bind (printChildren_avoids hE) fun _ _ ↦ Avoids.bind ?_ fun _ _ ↦ .ok
    · intro he
      have hpos := hfork he (by rw [hfind]; rfl)
      obtain ⟨parent, hparent⟩ := h he s.lastPid
      have hlt : toInt ((s.procs s.lastPid).reg 0) < maxPrio + 1 := by
        have hbound : parent.val < maxPrio + 1 := parent.isLt
        rw [hparent] at hle
        omega
      have hslot := has_forkSlot ProcDescriptor.priority (fun _ _ ↦ rfl) s child
      rw [forkSlot_child] at hslot
      intro q
      rw [priority_rooted.toUnlinked.addChild hslot s.lastPid child t ht q, Function.update_apply]
      split_ifs
      · refine ⟨⟨(toInt ((s.procs s.lastPid).reg 0)).toNat, by omega⟩, ?_⟩
        exact (Int.toNat_of_nonneg hpos).symm
      · exact h he q
    · exact assert_avoids fun he ↦ nomatch hE _ he

theorem handleZombieChild_avoids {s : SystemState} (h : Indexed E s) {parent child : Pid} :
    Avoids (handleZombieChild s parent child) E := by
  have h₀ : Indexed E (s.modify parent (·.setX0 (ofPid (s.procs child).pid))) :=
    h.modify parent fun _ ↦ rfl
  refine Avoids.bind (Avoids.ite (fun _ ↦ .ok) fun _ ↦ ?_) fun t ht ↦ Avoids.bind ?_ fun u hu ↦ ?_
  · -- The status of a child is 16 bytes long.
    refine Avoids.bind (storeBytes_avoids _ fun _ ↦ ?_) fun _ _ ↦ .ok
    simp [Err.bytes, leBytes, buffSize]
  · exact Avoids.bind (deref_avoids hE _) fun _ _ ↦ Avoids.bind (deref_avoids hE _) fun _ _ ↦
      Avoids.ite (fun _ ↦ .ok) fun _ ↦ .ok
  · have ht' : Indexed E t := by
      refine (?_ : Yields _ (Indexed E)) t ht
      exact Yields.ite (fun _ ↦ .ok h₀) fun _ ↦ Yields.bind_any fun _ ↦
        .ok (h₀.modify parent fun _ ↦ rfl)
    have hu' : Indexed E u :=
      ht'.has (priority_rooted.toUnlinked.removeChild (fun _ ↦ rfl) parent child u hu)
    exact Avoids.bind (changeState_avoids hE hu') fun v hv ↦
      changeState_avoids hE (hu'.changeState hv)

theorem scanZombie_avoids {s : SystemState} {head : Pid} {bound : ℕ} {child : Pid} :
    Avoids (scanZombie s head bound child) E := by
  induction bound generalizing child with
  | zero => exact .error fun he ↦ nomatch hE _ he
  | succ bound ih =>
    exact Avoids.bind (deref_avoids hE _) fun next _ ↦ Avoids.ite (fun _ ↦ ih) fun _ ↦ .ok

theorem syscallWait_avoids {s : SystemState} (h : Indexed E s) : Avoids (syscallWait s) E := by
  refine Avoids.bind (printChildren_avoids hE) fun _ _ ↦ ?_
  cases (s.procs s.lastPid).child with
  | none => exact .ok
  | some head =>
    exact Avoids.ite (fun _ ↦ handleZombieChild_avoids hE h) fun _ ↦
      Avoids.bind (scanZombie_avoids hE) fun _ _ ↦
      Avoids.ite (fun _ ↦ handleZombieChild_avoids hE h) fun _ ↦ changeState_avoids hE h

theorem reparentLoop_avoids {head : Pid} {bound : ℕ} {s : SystemState} {child : Pid} :
    Avoids (reparentLoop head bound s child) E := by
  induction bound generalizing s child with
  | zero => exact .error fun he ↦ nomatch hE _ he
  | succ bound ih =>
    exact Avoids.bind (deref_avoids hE _) fun next _ ↦ Avoids.ite (fun _ ↦ .ok) fun _ ↦ ih

theorem syscallExit_avoids {s : SystemState} (h : Indexed E s) : Avoids (syscallExit s) E := by
  set s₁ := s.modify s.lastPid fun d ↦
    { d with err := { d.err with no := (d.reg 0).setWidth 32, data := d.reg 1 } } with hs₁
  have h₁ : Indexed E s₁ := h.modify s.lastPid fun _ ↦ rfl
  have hloop : Avoids (reparent s₁ (s₁.procs s.lastPid).child) E := by
    cases (s₁.procs s.lastPid).child with
    | none => exact .ok
    | some head => exact reparentLoop_avoids hE
  refine Avoids.bind hloop fun t ht ↦ ?_
  have ht' : Indexed E t := by
    refine h₁.has ((?_ : Yields _ (Has ProcDescriptor.priority s₁.priorities)) t ht)
    cases (s₁.procs s.lastPid).child with
    | none => exact .ok fun _ ↦ rfl
    | some head => exact Steady.reparentLoop priority_rooted.toUnlinked maxProc head fun _ ↦ rfl
  exact Avoids.ite (fun _ ↦ handleZombieChild_avoids hE ht') fun _ ↦ changeState_avoids hE ht'

/-- A connection does not stop the kernel when the sender's buffer holds no more than it sends. -/
theorem handleChannelConnection_avoids {s : SystemState} (h : Indexed E s) {sender receiver : Pid}
    (hne : sender ≠ receiver)
    (hused : Copies E → (s.procs sender).buffer.usedSize ≤ (s.procs sender).senderData.sendSize ∧
      (s.procs sender).senderData.sendSize ≤ buffSize) :
    Avoids (handleChannelConnection s sender receiver) E := by
  refine Avoids.ite (fun _ ↦ .ok) fun hfits ↦ ?_
  refine Avoids.bind (assert_avoids fun he ↦ decide_eq_true ?_) fun _ _ ↦
    Avoids.bind (assert_avoids fun he ↦ decide_eq_true ?_) fun _ _ ↦
    Avoids.bind (storeBytes_avoids _ fun he ↦ ?_) fun _ _ ↦
    Avoids.bind (changeState_avoids hE ?_) fun _ ht ↦
    changeState_avoids hE (Indexed.changeState ?_ ht)
  · obtain ⟨hle, hbuff⟩ := hused (.inr (.inl he))
    rw [SystemState.modify_procs, if_pos rfl]
    exact hle.trans hbuff
  · obtain ⟨hle, -⟩ := hused (.inr (.inr he))
    rw [SystemState.modify_procs, if_pos rfl, SystemState.modify_procs, if_neg hne.symm]
    exact hle.trans (not_lt.mp hfits)
  · obtain ⟨hle, hbuff⟩ := hused (.inl he)
    rw [length_prefixBytes, SystemState.modify_procs, if_neg hne, SystemState.modify_procs,
      if_pos rfl]
    exact hle.trans hbuff
  all_goals
    refine Indexed.modify ?_ receiver fun _ ↦ rfl
    refine Indexed.modify ?_ receiver fun _ ↦ rfl
    refine Indexed.modify ?_ sender fun _ ↦ rfl
    refine Indexed.modify ?_ receiver fun _ ↦ rfl
    refine Indexed.modify ?_ receiver fun _ ↦ rfl
    exact h.modify sender fun _ ↦ rfl

/-- A send does not stop the kernel when the buffer of its caller holds no more than it sends. -/
theorem syscallSend_avoids {s : SystemState} (h : Indexed E s)
    (hrun : (s.procs s.lastPid).state = .runnable)
    (hused : Copies E → (s.procs s.lastPid).buffer.usedSize ≤
      ((s.procs s.lastPid).reg 2).toNat) : Avoids (syscallSend s) E := by
  unfold syscallSend
  by_cases htarget : 0 ≤ toInt ((s.procs s.lastPid).reg 0) ∧
      (toInt ((s.procs s.lastPid).reg 0)).toNat < maxProc
  · simp only [dif_pos htarget]
    refine Avoids.ite (fun _ ↦ .ok) fun _ ↦ Avoids.ite (fun _ ↦ .ok) fun hsize ↦
      Avoids.ite (fun hlisten ↦ ?_) fun _ ↦ changeState_avoids hE (Indexed.modify h _ ?_)
    rw [SystemState.modify_procs] at hlisten
    split_ifs at hlisten with hself
    · exact nomatch hlisten.symm.trans hrun
    · refine handleChannelConnection_avoids hE (Indexed.modify h _ ?_) (Ne.symm hself) fun he ↦ ?_
      · exact fun _ ↦ rfl
      · rw [SystemState.modify_procs, if_pos rfl]
        exact ⟨hused he, not_lt.mp hsize⟩
    · exact fun _ ↦ rfl
  · simp only [dif_neg htarget]
    exact .ok

/-- A receive does not stop the kernel when the buffers of the waiting senders hold no more than
they send. -/
theorem syscallReceive_avoids {s : SystemState} (h : Indexed E s)
    (hused : Copies E → ∀ q, (s.procs q).state = .waitListener →
      (s.procs q).buffer.usedSize ≤ (s.procs q).senderData.sendSize ∧
        (s.procs q).senderData.sendSize ≤ buffSize) : Avoids (syscallReceive s) E := by
  have h₁ := h.modify s.lastPid (f := fun d ↦ { d with receiverData := { d.receiverData with
    receiveData := d.reg 0, receiveSize := (d.reg 1).toNat } }) fun _ ↦ rfl
  refine Avoids.bind (changeState_avoids hE h₁) fun t ht ↦ ?_
  obtain ⟨hview, -⟩ := changeState_views ht
  rw [views_modify, Views.set_self, Views.set_set] at hview
  cases hfind : findWaitingSender t (t.procs s.lastPid).pid with
  | none => exact .ok
  | some sender =>
    have hsome := List.find?_some hfind
    have hwaits : (t.procs sender).state = .waitListener := (of_decide_eq_true hsome).1
    have hne : sender ≠ s.lastPid := by
      rintro rfl
      have hlisten := congrArg View.state (congrFun hview s.lastPid)
      rw [Views.set_self] at hlisten
      exact nomatch hlisten.symm.trans hwaits
    have hkeep : (t.procs sender).view = (s.procs sender).view := by
      have hsender := congrFun hview sender
      rwa [Views.set_of_ne _ _ hne] at hsender
    have hbuffer : (t.procs sender).buffer = (s.procs sender).buffer := congrArg View.buffer hkeep
    have hdata : (t.procs sender).senderData = (s.procs sender).senderData :=
      congrArg View.senderData hkeep
    refine handleChannelConnection_avoids hE (h₁.changeState ht) hne fun he ↦ ?_
    rw [hbuffer, hdata]
    exact hused he sender ((congrArg View.state hkeep).symm.trans hwaits)

/-- The copy of a resumption is the only place of `run_process` where a message may stop it. -/
theorem runProcess_avoids {k : Kernel} {proc : Pid}
    (hwritten : (k.sys.procs proc).state = .runnable →
      Avoids (k.sys.procs proc).buffer.written E)
    (hpid : (k.sys.procs proc).state = .runnable → (k.sys.procs proc).pid = proc) :
    Avoids (runProcess k proc) E := by
  refine Avoids.bind (assert_avoids fun he ↦ nomatch hE _ he) fun _ _ ↦
    Avoids.bind (assert_avoids fun he ↦ nomatch hE _ he) fun _ hstate ↦
    Avoids.bind (assert_avoids fun he ↦ nomatch hE _ he) fun _ _ ↦
    Avoids.bind (assert_avoids fun he ↦ nomatch hE _ he) fun _ _ ↦
    Avoids.bind (assert_avoids fun he ↦ nomatch hE _ he) fun _ _ ↦ Avoids.bind ?_ fun _ _ ↦ .ok
  have hrunnable := of_decide_eq_true (of_assert_ok hstate)
  have hproc := hpid hrunnable
  have hbuffer := hwritten hrunnable
  have hkeep : ∀ s : SystemState, s = (k.sys.modify kernelPid fun d ↦
      { d with memConf := { d.memConf with alloc := k.alloc } }) →
      ((s.modify proc fun d ↦ { d with initialized := true }).procs proc).buffer =
        (k.sys.procs proc).buffer := by
    rintro _ rfl
    rw [SystemState.modify_procs, if_pos rfl, SystemState.modify_procs]
    split_ifs with hkernel
    · rw [hkernel]
    · rfl
  have hsame := hkeep _ rfl
  rw [← hsame] at hbuffer
  refine Eq.subst (motive := fun q ↦ Avoids ((SystemState.procs _ q).buffer.written) E)
    hproc.symm hbuffer

theorem printPrioList_avoids {s : SystemState} {prio : Prio} {head : Pid} {bound : ℕ} {proc : Pid} :
    Avoids (printPrioList s prio head bound proc) E := by
  induction bound generalizing proc with
  | zero => exact .error fun he ↦ nomatch hE _ he
  | succ bound ih =>
    exact Avoids.bind (assert_avoids fun he ↦ nomatch hE _ he) fun _ _ ↦
      Avoids.bind (assert_avoids fun he ↦ nomatch hE _ he) fun _ _ ↦
      Avoids.bind (deref_avoids hE _) fun _ _ ↦ Avoids.ite (fun _ ↦ .ok) fun _ ↦ ih

theorem printPrioLists_avoids {s : SystemState} : Avoids (printPrioLists s) E := by
  refine Avoids.forM fun prio ↦ ?_
  cases s.prioProc prio with
  | none => exact .ok
  | some head => exact printPrioList_avoids hE

omit hE in
theorem randomLawLoop_lt {val last i sum : ℕ} {law : List (BitVec 32)} (h : last < i + law.length) :
    randomLawLoop val last i sum law < i + law.length := by
  induction law generalizing i sum with
  | nil => exact h
  | cons w law ih =>
    rw [randomLawLoop]
    rw [List.length_cons] at h ⊢
    split_ifs
    · omega
    · refine lt_of_lt_of_eq (ih ?_) (by omega)
      omega

omit hE in
/-- `random_law` returns an index of its array. -/
theorem randomLaw_lt {law : List (BitVec 32)} {counter : BitVec 64} {n : ℕ} (hlaw : law ≠ [])
    (h : randomLaw law counter = .ok n) : n < law.length := by
  obtain ⟨val, -, h⟩ := bind_eq_ok.mp h
  obtain rfl := Except.ok.inj h
  have hpos := List.length_pos_of_ne_nil hlaw
  refine lt_of_lt_of_eq (randomLawLoop_lt ?_) (by omega)
  omega

omit hE in
theorem length_proba (s : SystemState) : (proba s).length = maxPrio := by
  rw [proba, List.length_map, List.length_finRange]

omit hE in
theorem randomLaw_proba_lt {s : SystemState} {counter : BitVec 64} {n : ℕ}
    (h : randomLaw (proba s) counter = .ok n) : n < maxPrio := by
  rw [← length_proba s]
  refine randomLaw_lt ?_ h
  exact List.ne_nil_of_length_pos (by rw [length_proba]; decide)

/-- A selection by the scheduler stops for a message only in the copy of the resumption. -/
theorem schedule_avoids {k : Kernel} {counter : BitVec 64}
    (hpid : ∀ q, (k.sys.procs q).state = .runnable → (k.sys.procs q).pid = q)
    (hwritten : ∀ q, (k.sys.procs q).state = .runnable →
      Avoids (k.sys.procs q).buffer.written E) : Avoids (schedule k counter) E := by
  have hprio : ∀ prio, Avoids (runPriority k prio) E := by
    intro prio
    refine Avoids.bind (deref_avoids hE _) fun proc _ ↦ ?_
    have hrun : ∀ sys : SystemState, sys.procs = k.sys.procs →
        Avoids (runProcess { k with sys := sys } proc) E := by
      intro sys hsys
      refine runProcess_avoids hE (fun hrunnable ↦ ?_) fun hrunnable ↦ ?_
      · rw [hsys] at hrunnable ⊢
        exact hwritten proc hrunnable
      · rw [hsys] at hrunnable ⊢
        exact hpid proc hrunnable
    have hslice : ∀ sys : SystemState, sys.procs = k.sys.procs →
        Avoids (runProcess { k with sys := sys.modify proc fun d ↦
          { d with schedConf := { d.schedConf with timeLeft := quantum } } } proc) E := by
      intro sys hsys
      have hself : ((sys.modify proc fun d ↦
          { d with schedConf := { d.schedConf with timeLeft := quantum } }).procs proc) =
          { k.sys.procs proc with
            schedConf := { (k.sys.procs proc).schedConf with timeLeft := quantum } } := by
        rw [SystemState.modify_procs, if_pos rfl, hsys]
      refine runProcess_avoids hE (fun hrunnable ↦ ?_) fun hrunnable ↦ ?_
      · rw [hself] at hrunnable ⊢
        exact hwritten proc hrunnable
      · rw [hself] at hrunnable ⊢
        exact hpid proc hrunnable
    dsimp only
    split_ifs
    · exact hslice _ rfl
    · exact hrun _ rfl
  refine Avoids.bind (printPrioLists_avoids hE) fun _ _ ↦
    Avoids.ite (fun _ ↦ .error fun he ↦ nomatch hE _ he) fun _ ↦
    Avoids.ite (fun _ ↦ hprio _) fun _ ↦
    Avoids.ite (fun _ ↦ hprio _) fun _ ↦ Avoids.bind ?_ fun n hn ↦
    Avoids.bind (prioIndex_avoids fun _ ↦ ⟨⟨n, (randomLaw_proba_lt hn).trans (by decide)⟩, rfl⟩)
      fun _ _ ↦ hprio _
  refine Avoids.bind (Avoids.ite (fun _ ↦ .error fun he ↦ nomatch hE _ he) fun _ ↦ .ok) fun _ _ ↦
    .ok

/-- A step stops for a message only in the copy of a resumption or in a system call of the
channels. -/
theorem step_avoids {k : Kernel} {a : Action} (h : Indexed E k.sys)
    (hfork : E .outOfBounds → ∀ frame t, k.sys.currPid ≠ 0 → a = .svc 0 frame →
      saveContext k frame (some 0) = .ok t → (findFreeProc t.sys).isSome →
      0 ≤ toInt ((t.sys.procs t.sys.lastPid).reg 0))
    (hpid : ∀ q, (k.sys.procs q).state = .runnable → (k.sys.procs q).pid = q)
    (hwritten : k.sys.currPid = 0 → ∀ q, (k.sys.procs q).state = .runnable →
      Avoids (k.sys.procs q).buffer.written E)
    (hagain : ∀ frame t, k.sys.currPid ≠ 0 → saveContext k frame (some 101) = .ok t →
      (t.sys.procs t.sys.lastPid).pid = t.sys.lastPid ∧
        Avoids (t.sys.procs t.sys.lastPid).buffer.written E)
    (hchannel : ∀ code frame t, k.sys.currPid ≠ 0 → a = .svc code frame →
      saveContext k frame (some code) = .ok t →
      (code = 3 → Avoids (syscallSend t.sys) E) ∧ (code = 4 → Avoids (syscallReceive t.sys) E) ∧
        (code = 5 → Avoids (syscallAcknowledge t.sys) E)) :
    Avoids (step k a) E := by
  cases a with
  | start =>
    refine Avoids.ite (fun hcurr ↦ Avoids.bind ?_ fun _ _ ↦ .ok) fun _ ↦
      .error fun he ↦ nomatch hE _ he
    exact runProcess_avoids hE (hwritten hcurr.1 _) (hpid _)
  | svc code frame =>
    refine Avoids.ite (fun _ ↦ .error fun he ↦ nomatch hE _ he) fun hcurr ↦
      Avoids.bind saveContext_avoids fun t ht ↦ Avoids.ite (fun hcode ↦ ?_) fun _ ↦ ?_
    · subst hcode
      obtain ⟨hself, hbuffer⟩ := hagain frame t hcurr ht
      exact Avoids.bind (runProcess_avoids hE (fun _ ↦ hbuffer) fun _ ↦ hself) fun _ _ ↦ .ok
    · obtain ⟨hsend, hreceive, hack⟩ := hchannel code frame t hcurr rfl ht
      have ht' : Indexed E t.sys := h.has (priority_idle.saveContext (fun _ ↦ rfl) frame _ t ht)
      exact Avoids.bind (Avoids.ite (fun hcode ↦ syscallFork_avoids hE ht' fun he ↦
          hfork he frame t hcurr (by rw [hcode]) (by rw [← hcode]; exact ht)) fun _ ↦
        Avoids.ite (fun _ ↦ syscallExit_avoids hE ht') fun _ ↦
        Avoids.ite (fun _ ↦ syscallWait_avoids hE ht') fun _ ↦
        Avoids.ite hsend fun _ ↦ Avoids.ite hreceive fun _ ↦ Avoids.ite hack fun _ ↦
        .error fun he ↦ nomatch hE _ he) fun _ _ ↦ .ok
  | timer frame =>
    exact Avoids.ite (fun _ ↦ .error fun he ↦ nomatch hE _ he) fun _ ↦
      Avoids.bind saveContext_avoids fun _ _ ↦ .ok
  | schedule counter =>
    exact Avoids.ite (fun hcurr ↦ Avoids.bind (schedule_avoids hE hpid (hwritten hcurr.1))
      fun _ _ ↦ .ok) fun _ ↦ .error fun he ↦ nomatch hE _ he

end Paths

end SysresOs.Proc
