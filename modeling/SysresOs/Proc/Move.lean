import SysresOs.Proc.View

/-!
# The steps of the system on views

On views the steps of the kernel are the cases of one relation, `Move`: a timer interrupt, a system
call with one of its outcomes, a system call that resumes its caller at once, or a resumption by the
scheduler. `move_of_step` is the inversion of a step, and `SysRun.induct` the induction over runs
that the invariants of the channels and of the process tree are derived from. `Active` and `Passive`
say what a system call leaves of the caller and of any other process.
-/

set_option autoImplicit false
set_option relaxedAutoImplicit false

namespace SysresOs.Proc

open SysresOs.Outcome SysresOs.Trace

/-! ### Moves -/

/-- The steps of the system on views. A trap makes the kernel current; the rest of a system call is
one of its outcomes. -/
inductive Move (V : Views) (currPid : Pid) : Event → Views → Pid → Prop
  | timer (frame : Frame) (hcurr : currPid ≠ 0) :
      Move V currPid ⟨.timer frame, none⟩ (V.set currPid ((V currPid).trapped frame none)) 0
  | syscall {code : BitVec 16} {frame : Frame} {V' : Views} (hcurr : currPid ≠ 0)
      (hcode : code ≠ 101)
      (houtcome : SyscallOutcome (V.set currPid ((V currPid).trapped frame (some code))) currPid
        code V') :
      Move V currPid ⟨.svc code frame, none⟩ V' 0
  | again (frame : Frame) (write : Option (BitVec 64 × List (BitVec 8))) (hcurr : currPid ≠ 0)
      (hwrite : ((V currPid).trapped frame (some 101)).buffer.written = .ok write) :
      Move V currPid ⟨.svc 101 frame, some ⟨currPid, write⟩⟩
        (V.set currPid ((V currPid).trapped frame (some 101)).resumed) currPid
  | resume {a : Action} (p : Pid) (write : Option (BitVec 64 × List (BitVec 8)))
      (ha : a = .start ∨ ∃ counter, a = .schedule counter) (hcurr : currPid = 0) (hp : p ≠ 0)
      (hrun : (V p).state = .runnable) (hwrite : (V p).buffer.written = .ok write) :
      Move V currPid ⟨a, some ⟨p, write⟩⟩ (V.set p (V p).resumed) p

theorem backUp_views (s : SystemState) (p : Pid) (frame : Frame) (svcCode : Option (BitVec 16))
    (hregisters : (s.views p).registers = frame.registers) :
    Yields (backUp s p frame.memory svcCode) fun s' ↦
      s'.views = s.views.set p { s.views p with
        buffer := (s.views p).backedUp frame svcCode } := by
  have hkeep : s.views = s.views.set p { s.views p with buffer := (s.views p).buffer } :=
    (Function.update_eq_self ..).symm
  cases svcCode with
  | none =>
    refine .ok ?_
    rw [View.backedUp, if_neg (by simp)]
    exact hkeep
  | some code =>
    have hreg : ∀ i, (s.procs p).reg i = frame.registers i := congrFun hregisters
    unfold backUp backUpBuffSvc
    rw [hreg, hreg]
    refine Yields.ite (fun hback s' h ↦ ?_) fun hback ↦ .ok ?_
    · obtain ⟨buff, hbuff, h⟩ := bind_eq_ok.mp h
      obtain rfl := Except.ok.inj h
      obtain ⟨-, rfl⟩ := storeBytes_eq_ok.mp hbuff
      have hmin : (if (frame.registers 2).toNat < buffSize then (frame.registers 2).toNat
          else buffSize) = min (frame.registers 2).toNat buffSize := by
        split_ifs <;> omega
      have hbacked : (s.views p).backedUp frame (some code) = { (s.views p).buffer with
          usedSize := (frame.registers 2).toNat
          buff := overwrite (s.views p).buffer.buff (readBytes frame.memory (frame.registers 1)
            (min (frame.registers 2).toNat buffSize)) } := if_pos (by simpa using hback)
      rw [views_modify, views_modify, Views.set_set, hbacked, hmin, SystemState.modify_procs,
        if_pos rfl]
      rfl
    · rw [View.backedUp, if_neg (by simpa using hback)]
      exact hkeep

theorem saveContext_views (k : Kernel) (frame : Frame) (svcCode : Option (BitVec 16)) :
    Yields (saveContext k frame svcCode) fun k' ↦
      k'.sys.views = k.sys.views.set k.sys.currPid
        ((k.sys.views k.sys.currPid).trapped frame svcCode) ∧
      k'.sys.lastPid = k.sys.currPid ∧ k'.sys.currPid = 0 := by
  intro k' h
  obtain ⟨t, ht, h⟩ := bind_eq_ok.mp h
  obtain rfl := Except.ok.inj h
  refine ⟨?_, rfl, rfl⟩
  have hsaved : ∀ sys : SystemState, sys = (saveErrno (saveAllocConf { k with
      err := frame.err, alloc := frame.alloc,
      sys := k.sys.modify k.sys.currPid fun d ↦ { d with
        schedConf := { d.schedConf with timeLeft := if svcCode.isNone then 0 else frame.timer }
        savedContext := { d.savedContext with
          registers := frame.registers, pc := frame.pc, sp := frame.sp, pstate := frame.pstate } } }
      k.sys.currPid) k.sys.currPid).sys →
      sys.views = k.sys.views.set k.sys.currPid { k.sys.views k.sys.currPid with
        registers := frame.registers, err := frame.err } := by
    rintro _ rfl
    unfold saveErrno saveAllocConf
    rw [views_modify, views_modify, views_modify, Views.set_set, Views.set_set,
      SystemState.modify_procs, if_pos rfl, SystemState.modify_procs, if_pos rfl]
    rfl
  have hview := hsaved _ rfl
  have hback := backUp_views _ _ _ _ (by rw [hview, Views.set_self]) t ht
  rw [hview, Views.set_self, Views.set_set] at hback
  exact hback

theorem runProcess_views {k k' : Kernel} {proc : Pid} {r : Resume}
    (hpid : (k.sys.procs proc).state ≠ .free → (k.sys.procs proc).pid = proc)
    (h : runProcess k proc = .ok (k', r)) :
    k.sys.currPid = 0 ∧ proc ≠ 0 ∧ (k.sys.views proc).state = .runnable ∧ r.pid = proc ∧
      (k.sys.views proc).buffer.written = .ok r.write ∧
      k'.sys.views = k.sys.views.set proc (k.sys.views proc).resumed ∧ k'.sys.currPid = proc := by
  obtain ⟨hpos, hstate, hcurr, hsys, hr, hwrite⟩ := runProcess_eq_ok h
  have hproc : (k.sys.procs proc).pid = proc := hpid (by rw [hstate]; decide)
  rw [hproc] at hpos hr
  rw [hr] at hwrite
  refine ⟨hcurr, Fin.pos_iff_ne_zero.mp hpos, hstate, hr, hwrite, ?_, ?_⟩
  · have hkernel : (k.sys.modify kernelPid fun d ↦
        { d with memConf := { d.memConf with alloc := k.alloc } }).views = k.sys.views :=
      views_modify_neutral _ _ _ fun _ ↦ rfl
    have hinit := (SameViews.modify { k.sys.modify kernelPid (fun d ↦
        { d with memConf := { d.memConf with alloc := k.alloc } }) with currPid := proc } proc
      (fun d ↦ { d with initialized := true }) fun _ ↦ rfl).1.trans hkernel
    rw [hsys, resumedSys, hproc, views_modify, hinit]
    exact congrArg (fun v : View ↦ k.sys.views.set proc v.resumed) (congrFun hinit proc)
  · rw [hsys]
    exact hproc

theorem runPriority_views {k k' : Kernel} {prio : Prio} {r : Resume}
    (hpid : ∀ q, (k.sys.views q).state ≠ .free → (k.sys.views q).pid = q)
    (h : runPriority k prio = .ok (k', r)) :
    k.sys.currPid = 0 ∧ r.pid ≠ 0 ∧ (k.sys.views r.pid).state = .runnable ∧
      (k.sys.views r.pid).buffer.written = .ok r.write ∧
      k'.sys.views = k.sys.views.set r.pid (k.sys.views r.pid).resumed ∧
      k'.sys.currPid = r.pid := by
  obtain ⟨proc, -, h⟩ := bind_eq_ok.mp h
  -- Neither the rotation nor a new time slice is seen by a view.
  have hsame : ∀ sys : SystemState,
      sys = (if ((k.sys.setPrioProc prio (k.sys.procs proc).nextSamePrio).procs
          proc).schedConf.timeLeft = 0 then
        (k.sys.setPrioProc prio (k.sys.procs proc).nextSamePrio).modify proc fun d ↦
          { d with schedConf := { d.schedConf with timeLeft := quantum } }
        else k.sys.setPrioProc prio (k.sys.procs proc).nextSamePrio) →
      sys.views = k.sys.views ∧ sys.currPid = k.sys.currPid := by
    rintro _ rfl
    split_ifs
    · exact ⟨views_modify_neutral _ _ _ fun _ ↦ rfl, rfl⟩
    · exact ⟨rfl, rfl⟩
  obtain ⟨hview, hcurr⟩ := hsame _ rfl
  have hself := hpid proc
  rw [← hview] at hself
  obtain ⟨h₁, h₂, h₃, h₄, h₅, h₆, h₇⟩ := runProcess_views hself h
  rw [h₄]
  simp only [hview, hcurr] at h₁ h₃ h₅ h₆
  exact ⟨h₁, h₂, h₃, h₅, h₆, h₇⟩

theorem schedule_views {k : Kernel} {counter : BitVec 64}
    (hpid : ∀ q, (k.sys.views q).state ≠ .free → (k.sys.views q).pid = q) :
    Yields (schedule k counter) fun r ↦
      k.sys.currPid = 0 ∧ r.2.pid ≠ 0 ∧ (k.sys.views r.2.pid).state = .runnable ∧
      (k.sys.views r.2.pid).buffer.written = .ok r.2.write ∧
      r.1.sys.views = k.sys.views.set r.2.pid (k.sys.views r.2.pid).resumed ∧
      r.1.sys.currPid = r.2.pid :=
  Yields.bind_any fun _ ↦ Yields.ite (fun _ ↦ .error) fun _ ↦
    Yields.ite (fun _ _ hr ↦ runPriority_views hpid hr) fun _ ↦
    Yields.ite (fun _ _ hr ↦ runPriority_views hpid hr) fun _ ↦
      Yields.bind_any fun _ ↦ Yields.bind_any fun _ _ hr ↦ runPriority_views hpid hr

/-- The inversion of a step: in a sane state, every step is one of the moves. -/
theorem move_of_step {k k' : Kernel} {e : Event} (hsane : Sane k.sys.views k.sys.currPid)
    (h : Step k e k') : Move k.sys.views k.sys.currPid e k'.sys.views k'.sys.currPid := by
  obtain ⟨a, r⟩ := e
  suffices hmove : Yields (step k a) fun out ↦
      Move k.sys.views k.sys.currPid ⟨a, out.2⟩ out.1.sys.views out.1.sys.currPid from
    hmove (k', r) h
  cases a with
  | start =>
    refine Yields.ite (fun _ ↦ ?_) fun _ ↦ .error
    refine Yields.bind (fun out hout ↦ runProcess_views (hsane.pid initPid) hout) fun out hout ↦ ?_
    obtain ⟨k', p, write⟩ := out
    obtain ⟨hcurr, hp, hrun, rfl, hwrite, hview, hcurr'⟩ := hout
    refine .ok ?_
    rw [hview, hcurr']
    exact .resume _ _ (.inl rfl) hcurr hp hrun hwrite
  | svc code frame =>
    refine Yields.ite (fun _ ↦ .error) fun hcurr ↦ ?_
    refine Yields.bind (saveContext_views k frame (some code)) fun t ht ↦ ?_
    obtain ⟨hview, hlast, hzero⟩ := ht
    have hself : (t.sys.views k.sys.currPid).state = .runnable ∧
        (t.sys.views k.sys.currPid).pid = k.sys.currPid := by
      rw [hview, Views.set_self]
      have hrun := hsane.running hcurr
      exact ⟨hrun, hsane.pid _ (by rw [hrun]; decide)⟩
    refine Yields.ite (fun hcode ↦ ?_) fun hcode ↦ ?_
    · subst hcode
      rw [hlast]
      refine Yields.bind (fun out hout ↦ runProcess_views (fun _ ↦ hself.2) hout) fun out hout ↦ ?_
      obtain ⟨k', p, write⟩ := out
      obtain ⟨-, -, -, rfl, hwrite, hview', hcurr'⟩ := hout
      refine .ok ?_
      rw [hview, Views.set_self] at hwrite hview'
      rw [hview', hcurr', Views.set_set]
      exact .again frame write hcurr hwrite
    · rw [← hlast] at hself
      refine Yields.bind (syscall_outcome hself.1 hself.2 code t.mmuTablesStart) fun s' hs' ↦ .ok ?_
      obtain ⟨hpids, houtcome⟩ := hs'
      rw [hview, hlast] at houtcome
      have hcurr' : s'.currPid = 0 := hpids.1.trans hzero
      simp only [hcurr']
      exact .syscall hcurr hcode houtcome
  | timer frame =>
    refine Yields.ite (fun _ ↦ .error) fun hcurr ↦ ?_
    refine Yields.bind (saveContext_views k frame none) fun t ht ↦ .ok ?_
    obtain ⟨hview, -, hzero⟩ := ht
    rw [hview, hzero]
    exact .timer frame hcurr
  | schedule counter =>
    refine Yields.ite (fun _ ↦ ?_) fun _ ↦ .error
    refine Yields.bind (schedule_views hsane.pid) fun out hout ↦ .ok ?_
    obtain ⟨hcurr, hp, hrun, hwrite, hview, hcurr'⟩ := hout
    rw [hview, hcurr']
    exact .resume _ _ (.inr ⟨counter, rfl⟩) hcurr hp hrun hwrite

/-! ### The induction rule -/

/-- The views that `init_proc` leaves. -/
def bootViews : Views := fun q ↦
  if q = initPid then
    { pid := initPid
      priority := 15
      state := .runnable
      registers := fun _ ↦ 0
      err := ⟨0, 0, 0⟩
      buffer := zeroDescriptor.buffer
      senderData := { zeroDescriptor.senderData with acknowledged := true }
      receiverData := zeroDescriptor.receiverData }
  else if q = kernelPid then zeroDescriptor.view.setState .kernel
  else zeroDescriptor.view

theorem bootViews_state (q : Pid) : (bootViews q).state = .runnable ∨
    (bootViews q).state = .kernel ∨ (bootViews q).state = .free := by
  unfold bootViews
  split_ifs
  · exact .inl rfl
  · exact .inr (.inl rfl)
  · exact .inr (.inr rfl)

theorem Booted.views {k : Kernel} (h : Booted k) :
    k.sys.views = bootViews ∧ k.sys.currPid = 0 ∧ k.sys.lastPid = 0 := by
  obtain ⟨boot, hboot⟩ := h
  obtain ⟨s, hs, hsys⟩ := initProc_eq_ok hboot
  obtain ⟨hview, hpids⟩ := changeState_views hs
  have hsame : SameViews s k.sys := by
    rw [hsys]
    refine SameViews.trans ?_ (.modify _ initPid _ fun _ ↦ rfl)
    refine SameViews.trans ?_ (.modify _ initPid _ fun _ ↦ rfl)
    refine SameViews.trans ?_ (.modify _ kernelPid _ fun _ ↦ rfl)
    exact .modify s initPid _ fun _ ↦ rfl
  refine ⟨?_, hsame.2.1.trans hpids.1, hsame.2.2.trans hpids.2⟩
  rw [hsame.1, hview]
  ext1 q
  rw [Views.set_apply, bootViews]
  split_ifs with hinit hkernel
  · rfl
  · subst hkernel
    rfl
  · simp [views_apply, bootSys, hinit, hkernel]

/-- What a system call of the process `p`, with view `c` after its trap, leaves of it. -/
inductive Active (c : View) (p : Pid) : BitVec 16 → View → Prop
  | failed {code : BitVec 16} (no : BitVec 32) (hcode : code ≠ 1 ∧ code ≠ 4) :
      Active c p code (c.fail no)
  | sendTooLarge (target : Pid) : Active c p 3 ((c.offering target).fail sendDataTooLarge)
  | spurious : Active c p 5 (c.acking.fail sourceAlreadyAcknowledged)
  | forks (child : Pid) : Active c p 0 (c.setX0 (ofPid child))
  | exits : Active c p 1 (c.exiting.setState .zombie)
  | exitsFree : Active c p 1 (c.exiting.setState .free)
  | waits : Active c p 2 (c.setState .waiting)
  | reaps (child : View) (hzombie : child.state = .zombie) : Active c p 2 (c.reaping child)
  | sendWaits (target : Pid) (htarget : toInt (c.registers 0) = target.val)
      (hsize : (c.registers 2).toNat ≤ buffSize) :
      Active c p 3 ((c.offering target).setState .waitListener)
  | sends (target : Pid) (htarget : toInt (c.registers 0) = target.val)
      (hsize : (c.registers 2).toNat ≤ buffSize) : Active c p 3 (c.offering target).delivered
  | listens : Active c p 4 c.listening
  | receives (sender : View) (hwaits : sender.state = .waitListener)
      (htarget : sender.senderData.targetPid = p) : Active c p 4 (c.listening.receiving sender)
  | acks (hsize : (c.registers 2).toNat ≤ buffSize) : Active c p 5 c.acking.acked

/-- What a system call of the process `p`, with view `c` after its trap, leaves of another process
`q` with view `v`. -/
inductive Passive (c v : View) (p q : Pid) : BitVec 16 → View → Prop
  | kept {code : BitVec 16} : Passive c v p q code v
  | born (prio : Prio) (hfree : v.state = .free) (hslot : 2 ≤ q.val) :
      Passive c v p q 0 (c.forked q prio.val)
  | woken (hwait : v.state = .waiting) : Passive c v p q 1 (v.reaping c.exiting)
  | buried (hzombie : v.state = .zombie) : Passive c v p q 2 (v.setState .free)
  | receives (hlisten : v.state = .listeningCh) :
      Passive c v p q 3 (v.receiving (c.offering q))
  | refused (hwaits : v.state = .waitListener) (htarget : v.senderData.targetPid = p) :
      Passive c v p q 4 (v.fail sendDataTooLarge)
  | delivered (hwaits : v.state = .waitListener) (htarget : v.senderData.targetPid = p) :
      Passive c v p q 4 v.delivered
  | released (hsize : (c.registers 2).toNat ≤ buffSize) (hack : v.senderData.acknowledged = false)
      (hstate : v.state = .sendingCh) (htarget : v.senderData.targetPid = c.pid)
      (hsource : c.receiverData.sourcePid = q) : Passive c v p q 5 (v.released c.acking)

section Pointwise

variable {V V' : Views} {p q : Pid} {code : BitVec 16}

theorem SyscallOutcome.active (h : SyscallOutcome V p code V') (hrun : (V p).state = .runnable) :
    Active (V p) p code (V' p) := by
  have hother : ∀ {r : Pid}, (V r).state ≠ .runnable → p ≠ r := by
    rintro r hr rfl
    exact hr hrun
  cases h with
  | failed hfail =>
    rw [Views.set_self]
    cases hfail with
    | sendTooLarge target hlisten hlarge => exact .sendTooLarge target
    | spurious hsource => exact .spurious
    | _ => exact .failed _ (by decide)
  | forked child prio hchild hfree hprio hle =>
    rw [Views.set_of_ne _ _ (hother (by rw [hfree]; decide)), Views.set_self]
    exact .forks child
  | exited =>
    rw [Views.set_self]
    exact .exits
  | exitReaped parent hwait =>
    rw [Views.reap, Views.set_of_ne _ _ (hother (by rw [hwait]; decide)), Views.set_self,
      Views.set_self]
    exact .exitsFree
  | waits =>
    rw [Views.set_self]
    exact .waits
  | reaped child hzombie =>
    rw [Views.reap, Views.set_self]
    exact .reaps _ hzombie
  | sendWaits target htarget hlisten hsize =>
    rw [Views.set_self]
    exact .sendWaits target htarget hsize
  | sent target htarget hlisten hsize hfits =>
    rw [Views.connect, Views.set_of_ne _ _ (hother (by rw [hlisten]; decide)), Views.set_self,
      Views.set_self]
    exact .sends target htarget hsize
  | listens hnone =>
    rw [Views.set_self]
    exact .listens
  | refused sender hwaits hfirst hlarge =>
    rw [Views.set_of_ne _ _ (hother (by rw [hwaits.1]; decide)), Views.set_self]
    exact .listens
  | received sender hwaits hfirst hfits =>
    have hne := hother (by rw [hwaits.1]; decide)
    rw [Views.connect, Views.set_self, Views.set_self, Views.set_of_ne _ _ hne.symm]
    exact .receives _ hwaits.1 hwaits.2
  | acknowledged hsize hack hstate htarget =>
    rw [Views.release, Views.set_of_ne _ _ (hother (by rw [hstate]; decide)), Views.set_self,
      Views.set_self]
    exact .acks hsize

theorem SyscallOutcome.passive (h : SyscallOutcome V p code V') (hq : q ≠ p) :
    Passive (V p) (V q) p q code (V' q) := by
  cases h with
  | failed hfail =>
    rw [Views.set_of_ne _ _ hq]
    exact .kept
  | forked child prio hchild hfree hprio hle =>
    by_cases hc : q = child
    · subst hc
      rw [Views.set_self]
      exact .born prio hfree hchild
    · rw [Views.set_of_ne _ _ hc, Views.set_of_ne _ _ hq]
      exact .kept
  | exited =>
    rw [Views.set_of_ne _ _ hq]
    exact .kept
  | exitReaped parent hwait =>
    rw [Views.reap]
    by_cases hc : q = parent
    · subst hc
      rw [Views.set_self, Views.set_self, Views.set_of_ne _ _ hq]
      exact .woken hwait
    · rw [Views.set_of_ne _ _ hc, Views.set_of_ne _ _ hq, Views.set_of_ne _ _ hq]
      exact .kept
  | waits =>
    rw [Views.set_of_ne _ _ hq]
    exact .kept
  | reaped child hzombie =>
    rw [Views.reap, Views.set_of_ne _ _ hq]
    by_cases hc : q = child
    · subst hc
      rw [Views.set_self]
      exact .buried hzombie
    · rw [Views.set_of_ne _ _ hc]
      exact .kept
  | sendWaits target htarget hlisten hsize =>
    rw [Views.set_of_ne _ _ hq]
    exact .kept
  | sent target htarget hlisten hsize hfits =>
    rw [Views.connect]
    by_cases hc : q = target
    · subst hc
      rw [Views.set_self, Views.set_of_ne _ _ hq, Views.set_self]
      exact .receives hlisten
    · rw [Views.set_of_ne _ _ hc, Views.set_of_ne _ _ hq, Views.set_of_ne _ _ hq]
      exact .kept
  | listens hnone =>
    rw [Views.set_of_ne _ _ hq]
    exact .kept
  | refused sender hwaits hfirst hlarge =>
    by_cases hc : q = sender
    · subst hc
      rw [Views.set_self]
      exact .refused hwaits.1 hwaits.2
    · rw [Views.set_of_ne _ _ hc, Views.set_of_ne _ _ hq]
      exact .kept
  | received sender hwaits hfirst hfits =>
    rw [Views.connect, Views.set_of_ne _ _ hq]
    by_cases hc : q = sender
    · subst hc
      rw [Views.set_self, Views.set_of_ne _ _ hq]
      exact .delivered hwaits.1 hwaits.2
    · rw [Views.set_of_ne _ _ hc, Views.set_of_ne _ _ hq]
      exact .kept
  | acknowledged hsize hack hstate htarget =>
    rw [Views.release]
    by_cases hc : q = (V p).receiverData.sourcePid
    · rw [← hc] at hack hstate htarget
      rw [← hc, Views.set_self, Views.set_self, Views.set_of_ne _ _ hq]
      exact .released hsize hack hstate htarget hc.symm
    · rw [Views.set_of_ne _ _ hc, Views.set_of_ne _ _ hq, Views.set_of_ne _ _ hq]
      exact .kept

end Pointwise

section Pids

variable {c v w : View} {p q : Pid} {code : BitVec 16}

theorem Active.pid (h : Active c p code w) : w.pid = c.pid := by
  cases h <;> rfl

/-- A slot that a system call of another process leaves in use either was in use, with the same pid,
or has its number as pid. -/
theorem Passive.pid (h : Passive c v p q code w) :
    w.pid = q ∨ (w.pid = v.pid ∧ (v.state = .free → w.state = .free)) := by
  cases h with
  | kept => exact .inr ⟨rfl, id⟩
  | born prio hfree hslot => exact .inl rfl
  | woken hwait => exact .inr ⟨rfl, fun hfree ↦ nomatch hwait.symm.trans hfree⟩
  | buried hzombie => exact .inr ⟨rfl, fun _ ↦ rfl⟩
  | receives hlisten => exact .inr ⟨rfl, fun hfree ↦ nomatch hlisten.symm.trans hfree⟩
  | refused hwaits htarget => exact .inr ⟨rfl, fun hfree ↦ nomatch hwaits.symm.trans hfree⟩
  | delivered hwaits htarget => exact .inr ⟨rfl, fun hfree ↦ nomatch hwaits.symm.trans hfree⟩
  | released hsize hack hstate htarget hsource =>
    exact .inr ⟨rfl, fun hfree ↦ nomatch hstate.symm.trans hfree⟩

end Pids

theorem Sane.set {V : Views} {currPid : Pid} (h : Sane V currPid) {p : Pid} {v : View}
    (hstate : v.state = (V p).state) (hpid : v.pid = (V p).pid) (q : Pid)
    (hq : (V.set p v q).state ≠ .free) : (V.set p v q).pid = q := by
  rw [Views.set_apply] at hq ⊢
  split_ifs at hq ⊢ with hp
  · rw [hpid, hp]
    exact h.pid p (hstate ▸ hq)
  · exact h.pid q hq

/-- Every move keeps the pids, and the process it leaves running is runnable. -/
theorem Sane.move {V V' : Views} {currPid currPid' : Pid} {e : Event} (h : Sane V currPid)
    (hmove : Move V currPid e V' currPid') : Sane V' currPid' := by
  cases hmove with
  | timer frame hcurr => exact ⟨h.set rfl rfl, fun hne ↦ absurd rfl hne⟩
  | syscall hcurr hcode houtcome =>
    refine ⟨fun q hq ↦ ?_, fun hne ↦ absurd rfl hne⟩
    have hrun := h.running hcurr
    by_cases hp : q = currPid
    · rw [hp, (houtcome.active (by rw [Views.set_self]; exact hrun)).pid, Views.set_self]
      exact h.pid currPid (by rw [hrun]; decide)
    · rcases (houtcome.passive hp).pid with hself | ⟨hpid, hfree⟩
      · exact hself
      · rw [Views.set_of_ne _ _ hp] at hpid hfree
        rw [hpid]
        exact h.pid q fun hq' ↦ hq (hfree hq')
  | again frame write hcurr hwrite =>
    refine ⟨h.set rfl rfl, fun _ ↦ ?_⟩
    rw [Views.set_self]
    exact h.running hcurr
  | resume p write ha hcurr hp hrun hwrite =>
    refine ⟨h.set rfl rfl, fun _ ↦ ?_⟩
    rw [Views.set_self]
    exact hrun

/-- A system call other than the one that resumes its caller has one of its outcomes. -/
theorem Move.svc {V V' : Views} {currPid currPid' : Pid} {e : Event} {code : BitVec 16}
    {frame : Frame} (h : Move V currPid e V' currPid') (he : e.action = .svc code frame)
    (hcode : code ≠ 101) :
    e.resume = none ∧ currPid ≠ 0 ∧ currPid' = 0 ∧
      SyscallOutcome (V.set currPid ((V currPid).trapped frame (some code))) currPid code V' := by
  cases h with
  | timer frame' hcurr => exact nomatch he
  | syscall hcurr hcode' houtcome =>
    obtain ⟨rfl, rfl⟩ := Action.svc.inj he
    exact ⟨rfl, hcurr, rfl, houtcome⟩
  | again frame' write hcurr hwrite => exact absurd (Action.svc.inj he).1.symm hcode
  | resume p write ha hcurr hp hrun hwrite =>
    rcases ha with rfl | ⟨counter, rfl⟩
    · exact nomatch he
    · exact nomatch he

/-- What a move leaves of one process. -/
inductive Change (V : Views) (currPid : Pid) (e : Event) (q : Pid) : View → Prop
  | kept (hcurr : currPid = 0) (hresume : ∀ write, e.resume ≠ some ⟨q, write⟩) :
      Change V currPid e q (V q)
  | unaware (hq : q ≠ currPid) (hresume : ∀ write, e.resume ≠ some ⟨q, write⟩) :
      Change V currPid e q (V q)
  | resumed (write : Option (BitVec 64 × List (BitVec 8))) (hresume : e.resume = some ⟨q, write⟩)
      (hcurr : currPid = 0) (hrun : (V q).state = .runnable)
      (hwrite : (V q).buffer.written = .ok write) : Change V currPid e q (V q).resumed
  | timer (frame : Frame) (hevent : e = ⟨.timer frame, none⟩) (hcurr : currPid ≠ 0)
      (hq : q = currPid) :
      Change V currPid e q ((V q).trapped frame none)
  | again (frame : Frame) (write : Option (BitVec 64 × List (BitVec 8)))
      (hevent : e = ⟨.svc 101 frame, some ⟨q, write⟩⟩) (hcurr : currPid ≠ 0) (hq : q = currPid)
      (hwrite : ((V q).trapped frame (some 101)).buffer.written = .ok write) :
      Change V currPid e q ((V q).trapped frame (some 101)).resumed
  | active {code : BitVec 16} {frame : Frame} {w : View} (hevent : e = ⟨.svc code frame, none⟩)
      (hcurr : currPid ≠ 0) (hq : q = currPid)
      (h : Active ((V q).trapped frame (some code)) q code w) : Change V currPid e q w
  | passive {code : BitVec 16} {frame : Frame} {w : View} (hevent : e = ⟨.svc code frame, none⟩)
      (hcurr : currPid ≠ 0) (hq : q ≠ currPid)
      (h : Passive ((V currPid).trapped frame (some code)) (V q) currPid q code w) :
      Change V currPid e q w

theorem Move.change {V V' : Views} {currPid currPid' : Pid} {e : Event}
    (h : Move V currPid e V' currPid') (hsane : Sane V currPid) (q : Pid) :
    Change V currPid e q (V' q) := by
  cases h with
  | timer frame hcurr =>
    by_cases hq : q = currPid
    · subst hq
      rw [Views.set_self]
      exact .timer frame rfl hcurr rfl
    · rw [Views.set_of_ne _ _ hq]
      exact .unaware hq fun _ h ↦ nomatch h
  | syscall hcurr hcode houtcome =>
    by_cases hq : q = currPid
    · subst hq
      have hactive := houtcome.active (by rw [Views.set_self]; exact hsane.running hcurr)
      rw [Views.set_self] at hactive
      exact .active rfl hcurr rfl hactive
    · have hpassive := houtcome.passive hq
      rw [Views.set_self, Views.set_of_ne _ _ hq] at hpassive
      exact .passive rfl hcurr hq hpassive
  | again frame write hcurr hwrite =>
    by_cases hq : q = currPid
    · subst hq
      rw [Views.set_self]
      exact .again frame write rfl hcurr rfl hwrite
    · rw [Views.set_of_ne _ _ hq]
      exact .unaware hq fun _ h ↦ hq (congrArg Resume.pid (Option.some.inj h)).symm
  | resume p write ha hcurr hp hrun hwrite =>
    by_cases hq : q = currPid'
    · subst hq
      rw [Views.set_self]
      exact .resumed write rfl hcurr hrun hwrite
    · rw [Views.set_of_ne _ _ hq]
      exact .kept hcurr fun _ h ↦ hq (congrArg Resume.pid (Option.some.inj h)).symm

theorem sane_bootViews : Sane bootViews 0 := by
  refine ⟨fun q hq ↦ ?_, fun hne ↦ absurd rfl hne⟩
  unfold bootViews at hq ⊢
  split_ifs at hq ⊢ with hinit hkernel
  · exact hinit.symm
  · exact hkernel.symm
  · exact absurd rfl hq

theorem SysRun.sane {history : History} {k : Kernel} (hrun : SysRun history k) :
    Sane k.sys.views k.sys.currPid := by
  refine hrun.state_invariant (I := fun k ↦ Sane k.sys.views k.sys.currPid) (fun k hk ↦ ?_)
    fun k e k' h hstep ↦ h.move (move_of_step h hstep)
  obtain ⟨hview, hcurr, -⟩ := Booted.views hk
  rw [hview, hcurr]
  exact sane_bootViews

/-- The induction rule for properties of the history, the views and the current process. -/
theorem SysRun.induct {I : History → Views → Pid → Prop} (hboot : I [] bootViews 0)
    (hmove : ∀ history k e k', SysRun history k → Sane k.sys.views k.sys.currPid →
      I history k.sys.views k.sys.currPid →
      Move k.sys.views k.sys.currPid e k'.sys.views k'.sys.currPid →
      I (⟨k, e, k'⟩ :: history) k'.sys.views k'.sys.currPid)
    {history : History} {k : Kernel} (hrun : SysRun history k) :
    I history k.sys.views k.sys.currPid := by
  refine hrun.invariant (I := fun history k ↦ I history k.sys.views k.sys.currPid) (fun k hk ↦ ?_)
    fun history k e k' hrun h hstep ↦ ?_
  · obtain ⟨hview, hcurr, -⟩ := Booted.views hk
    rw [hview, hcurr]
    exact hboot
  · exact hmove history k e k' hrun (SysRun.sane hrun) h (move_of_step (SysRun.sane hrun) hstep)

end SysresOs.Proc
