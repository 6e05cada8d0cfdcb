import SysresOs.Proc.Fields
import SysresOs.Proc.Tree

/-!
# Priorities, first runs and allocator globals

The part of a descriptor that is assigned by `fork`, on a trap and on a resumption only: the
priority, the flag `initialized` and the backup of the allocator's globals. `CoreChange` lists what
a step may make of it, and `coreChange_of_step` says that every step of the system is in the list.
-/

set_option autoImplicit false
set_option relaxedAutoImplicit false

namespace SysresOs.Proc

open SysresOs.Outcome SysresOs.Trace

/-- The fields of a descriptor that neither the channels nor `exit` and `wait` assign. -/
@[ext] structure Core where
  priority : ℤ
  initialized : Bool
  alloc : AllocConf

/-- The core of a descriptor. -/
def ProcDescriptor.core (d : ProcDescriptor) : Core := ⟨d.priority, d.initialized, d.memConf.alloc⟩

/-- The cores of all processes. -/
def SystemState.cores (s : SystemState) : Pid → Core := fun q ↦ (s.procs q).core

theorem core_rooted : Rooted ProcDescriptor.core :=
  ⟨⟨fun _ _ _ ↦ rfl, fun _ _ ↦ rfl, fun _ _ ↦ rfl, fun _ _ ↦ rfl, fun _ _ ↦ rfl, fun _ _ ↦ rfl,
    fun _ _ ↦ rfl⟩, fun _ _ ↦ rfl, fun _ _ ↦ rfl, fun _ _ _ ↦ rfl⟩

theorem state_unlinked : Unlinked ProcDescriptor.state :=
  ⟨fun _ _ ↦ rfl, fun _ _ ↦ rfl, fun _ _ _ ↦ rfl⟩

theorem has_core_iff {s : SystemState} {F : Pid → Core} :
    Has ProcDescriptor.core F s ↔ s.cores = F := funext_iff.symm

theorem cores_modify (s : SystemState) (p : Pid) (f : ProcDescriptor → ProcDescriptor) :
    (s.modify p f).cores = Function.update s.cores p (f (s.procs p)).core := by
  funext q
  rw [SystemState.cores, SystemState.modify_procs, Function.update_apply]
  split_ifs <;> rfl

/-! ### The system calls -/

/-- `fork` gives a free slot the priority that is asked for and the globals of the parent, if it
does not fail. -/
theorem syscallFork_core {s : SystemState} (mmuTablesStart : BitVec 64) :
    Yields (syscallFork mmuTablesStart s) fun s' ↦
      (s'.cores = s.cores ∧ s'.states = s.states) ∨
      ∃ child, findFreeProc s = some child ∧
        toInt ((s.procs s.lastPid).reg 0) ≤ (s.procs s.lastPid).priority ∧
        s'.cores = Function.update s.cores child
          ⟨toInt ((s.procs s.lastPid).reg 0), true, (s.cores s.lastPid).alloc⟩ ∧
        s'.states = Function.update s.states child .runnable := by
  intro s' hs'
  cases forks_of_syscallFork mmuTablesStart s s' hs' with
  | failed no =>
    exact .inl ⟨has_core_iff.mp (Has.modify (fun _ ↦ rfl) _ fun _ ↦ rfl),
      states_modify s _ fun _ ↦ rfl⟩
  | forked child t u hfind hprio ht hu =>
    have hslot := has_forkSlot ProcDescriptor.core (fun _ _ ↦ rfl) s child
    rw [forkSlot_child] at hslot
    have hcores := core_rooted.steady.changeState
      (core_rooted.toUnlinked.addChild hslot s.lastPid child t ht) child .runnable u hu
    have hslot' := has_forkSlot ProcDescriptor.state (fun _ _ ↦ rfl) s child
    have hstates : t.states = Function.update s.states child _ :=
      funext (state_unlinked.addChild hslot' s.lastPid child t ht)
    refine .inr ⟨child, hfind, hprio, ?_, ?_⟩
    · have hchild := hcores child
      rw [Function.update_self] at hchild
      have hpriority : (u.procs child).priority = toInt ((s.procs s.lastPid).reg 0) :=
        congrArg Core.priority hchild
      have halloc : (u.procs child).memConf.alloc = (s.cores s.lastPid).alloc :=
        congrArg Core.alloc hchild
      rw [cores_modify, cores_modify, has_core_iff.mp hcores, Function.update_idem,
        Function.update_idem, SystemState.modify_procs, if_pos rfl]
      exact congrArg (Function.update s.cores child) (Core.ext hpriority rfl halloc)
    · rw [states_setUpMemory, (changeState_kin hu).2, hstates, Function.update_idem]

/-- The other system calls keep the cores. -/
theorem syscall_core {s : SystemState} {code : BitVec 16} (hcode : code ≠ 0)
    (mmuTablesStart : BitVec 64) :
    Yields (syscall code mmuTablesStart s) fun s' ↦ s'.cores = s.cores := by
  have h : Has ProcDescriptor.core s.cores s := fun _ ↦ rfl
  have hcore := core_rooted.steady
  have hlinks := core_rooted.toUnlinked
  suffices hsame : Yields (syscall code mmuTablesStart s) (Has ProcDescriptor.core s.cores) from
    fun s' hs' ↦ has_core_iff.mp (hsame s' hs')
  exact Yields.ite (fun hc ↦ absurd hc hcode) fun _ ↦
    Yields.ite (fun _ ↦ hcore.syscallExit hlinks h) fun _ ↦
    Yields.ite (fun _ ↦ hcore.syscallWait hlinks h) fun _ ↦
    Yields.ite (fun _ ↦ hcore.syscallSend h) fun _ ↦
    Yields.ite (fun _ ↦ hcore.syscallReceive h) fun _ ↦
    Yields.ite (fun _ ↦ hcore.syscallAcknowledge h) fun _ ↦ .error

/-! ### The way to the kernel and back -/

/-- A trap saves the allocator's globals. -/
theorem saveContext_core {k : Kernel} {frame : Frame} {svcCode : Option (BitVec 16)} :
    Yields (saveContext k frame svcCode) fun t ↦ t.alloc = frame.alloc ∧
      t.sys.cores = Function.update k.sys.cores k.sys.currPid
        { k.sys.cores k.sys.currPid with alloc := frame.alloc } := by
  intro t ht
  obtain ⟨buffer, rfl⟩ := saveContext_eq_ok ht
  exact ⟨rfl, cores_modify k.sys k.sys.currPid (·.trapped frame svcCode buffer)⟩

/-- A resumption restores the allocator's globals. -/
theorem runProcess_core {k k' : Kernel} {proc : Pid} {r : Resume} (hproc : proc ≠ 0)
    (h : runProcess k proc = .ok (k', r)) :
    k'.alloc = (k.sys.cores proc).alloc ∧
      k'.sys.cores = Function.update (Function.update k.sys.cores kernelPid
        { k.sys.cores kernelPid with alloc := k.alloc }) proc
        { k.sys.cores proc with initialized := true } := by
  have hsys := (runProcess_eq_ok h).2.2.2.1
  obtain ⟨_, -, h⟩ := bind_eq_ok.mp h
  obtain ⟨_, -, h⟩ := bind_eq_ok.mp h
  obtain ⟨_, -, h⟩ := bind_eq_ok.mp h
  obtain ⟨_, -, h⟩ := bind_eq_ok.mp h
  obtain ⟨_, -, h⟩ := bind_eq_ok.mp h
  obtain ⟨write, -, h⟩ := bind_eq_ok.mp h
  obtain ⟨rfl, rfl⟩ := Prod.mk.inj (Except.ok.inj h)
  refine ⟨?_, ?_⟩
  · simp only [restoreErrno, restoreAllocConf, saveAllocConf, SystemState.modify_procs,
      if_neg hproc]
    rfl
  · rw [hsys, resumedSys, cores_modify]
    have hsame : ∀ (s : SystemState) (p : Pid) (b : Buffer),
        Function.update s.cores p ({ s.procs p with
          buffer := b } : ProcDescriptor).core = s.cores :=
      fun s p b ↦ Function.update_eq_self ..
    rw [hsame, cores_modify]
    simp only [SystemState.modify_procs, if_neg hproc]
    exact congrArg (Function.update · proc _) (cores_modify k.sys kernelPid
      fun d ↦ { d with memConf := { d.memConf with alloc := k.alloc } })

/-- The system state in which `run_priority` calls `run_process`: the queue is rotated, and a
process whose time is up gets a new slice. -/
def rotated (s : SystemState) (prio : Prio) (proc : Pid) : SystemState :=
  let sys := s.setPrioProc prio (s.procs proc).nextSamePrio
  if (sys.procs proc).schedConf.timeLeft = 0 then
    sys.modify proc fun d ↦ { d with schedConf := { d.schedConf with timeLeft := quantum } }
  else sys

theorem runPriority_eq (k : Kernel) (prio : Prio) : runPriority k prio = (do
    let proc ← deref (k.sys.prioProc prio)
    runProcess { k with sys := rotated k.sys prio proc } proc) := rfl

/-- A part of the descriptors that does not read the time slices is not changed. -/
theorem Has.rotated {β : Type*} {part : ProcDescriptor → β} {F : Pid → β} {s : SystemState}
    (h : Has part F s) (hpart : ∀ d c, part { d with schedConf := c } = part d) (prio : Prio)
    (proc : Pid) : Has part F (Proc.rotated s prio proc) := by
  have hsame : Has part F (s.setPrioProc prio (s.procs proc).nextSamePrio) := h
  unfold Proc.rotated
  dsimp only
  split_ifs
  · exact hsame.modify proc fun _ ↦ hpart ..
  · exact hsame

theorem runPriority_core {k k' : Kernel} {prio : Prio} {r : Resume}
    (hsane : ∀ q, k.sys.states q ≠ .free → (k.sys.procs q).pid = q)
    (h : runPriority k prio = .ok (k', r)) : r.pid ≠ 0 ∧ k'.alloc = (k.sys.cores r.pid).alloc ∧
      k'.sys.cores = Function.update (Function.update k.sys.cores kernelPid
        { k.sys.cores kernelPid with alloc := k.alloc }) r.pid
        { k.sys.cores r.pid with initialized := true } := by
  rw [runPriority_eq] at h
  obtain ⟨proc, hproc, h⟩ := bind_eq_ok.mp h
  have hpid : Has ProcDescriptor.pid _ (rotated k.sys prio proc) :=
    Has.rotated (fun _ ↦ rfl) (fun _ _ ↦ rfl) prio proc
  have hstate : Has ProcDescriptor.state _ (rotated k.sys prio proc) :=
    Has.rotated (fun _ ↦ rfl) (fun _ _ ↦ rfl) prio proc
  have hcores : (rotated k.sys prio proc).cores = k.sys.cores :=
    has_core_iff.mp (Has.rotated (fun _ ↦ rfl) (fun _ _ ↦ rfl) prio proc)
  obtain ⟨hpos, hrun, -, -, hr, -⟩ := runProcess_eq_ok h
  have hself : (k.sys.procs proc).pid = proc := by
    refine hsane proc ?_
    change (k.sys.procs proc).state ≠ .free
    rw [← hstate proc, hrun]
    decide
  rw [hpid proc, hself] at hpos
  rw [hpid proc, hself] at hr
  have hrunCore := runProcess_core hpos.ne' h
  rw [hcores] at hrunCore
  rw [hr]
  exact ⟨hpos.ne', hrunCore⟩

/-- Every branch of `schedule` that ends calls `run_priority`. -/
theorem schedule_runPriority {k : Kernel} {counter : BitVec 64} {r : Kernel × Resume}
    (h : schedule k counter = .ok r) : ∃ prio, runPriority k prio = .ok r := by
  refine (?_ : Yields (schedule k counter) fun r ↦ ∃ prio, runPriority k prio = .ok r) r h
  exact Yields.bind_any fun _ ↦ Yields.ite (fun _ ↦ .error) fun _ ↦
    Yields.ite (fun _ r hr ↦ ⟨_, hr⟩) fun _ ↦ Yields.ite (fun _ r hr ↦ ⟨_, hr⟩) fun _ ↦
      Yields.bind_any fun _ ↦ Yields.bind_any fun prio r hr ↦ ⟨prio, hr⟩

/-! ### Steps -/

/-- What the kernel finds at a trap. -/
def Action.frame : Action → Option Frame
  | .svc _ frame => some frame
  | .timer frame => some frame
  | _ => none

/-- What a step makes of the core of a process. -/
inductive CoreChange (k : Kernel) (e : Event) (k' : Kernel) (q : Pid) : Prop
  | kept (hresume : ∀ write, e.resume ≠ some ⟨q, write⟩)
      (htrap : q = k.sys.currPid → e.action.frame = none)
      (hfree : k.sys.states q = .free → k'.sys.states q = .free)
      (hcore : k'.sys.cores q = k.sys.cores q)
  | trapped {frame : Frame} (haction : e.action.frame = some frame) (hresume : e.resume = none)
      (hq : q = k.sys.currPid) (hcore : k'.sys.cores q = { k.sys.cores q with
        alloc := frame.alloc })
  | born {frame : Frame} (haction : e.action = .svc 0 frame) (hresume : e.resume = none)
      (hfree : k.sys.states q = .free) (hnew : k'.sys.states q = .runnable)
      (hle : toInt (frame.registers 0) ≤ (k.sys.cores k.sys.currPid).priority)
      (hcore : k'.sys.cores q = ⟨toInt (frame.registers 0), true, frame.alloc⟩)
  | resumed {write : Option (BitVec 64 × List (BitVec 8))} (haction : e.action.frame = none)
      (hresume : e.resume = some ⟨q, write⟩) (halloc : k'.alloc = (k.sys.cores q).alloc)
      (hcore : k'.sys.cores q = { k.sys.cores q with initialized := true })
  | again {frame : Frame} {write : Option (BitVec 64 × List (BitVec 8))}
      (haction : e.action.frame = some frame) (hresume : e.resume = some ⟨q, write⟩)
      (hq : q = k.sys.currPid) (halloc : k'.alloc = frame.alloc)
      (hcore : k'.sys.cores q = { k.sys.cores q with initialized := true, alloc := frame.alloc })

/-- Only `fork` takes a free slot. -/
theorem Move.stays_free {V V' : Views} {currPid currPid' : Pid} {e : Event}
    (h : Move V currPid e V' currPid') (hsane : Sane V currPid) {q : Pid}
    (hfree : (V q).state = .free) (he : ∀ frame, e.action ≠ .svc 0 frame) :
    (V' q).state = .free := by
  have hidle : currPid ≠ 0 → q ≠ currPid := by
    rintro hcurr rfl
    exact nomatch hfree.symm.trans (hsane.running hcurr)
  generalize hw : V' q = w
  have hchange := h.change hsane q
  rw [hw] at hchange
  cases hchange with
  | kept hcurr hresume => exact hfree
  | unaware hq hresume => exact hfree
  | resumed write hresume hcurr hrun hwrite => exact nomatch hfree.symm.trans hrun
  | timer frame hevent hcurr hq => exact absurd hq (hidle hcurr)
  | again frame write hevent hcurr hq hwrite => exact absurd hq (hidle hcurr)
  | active hevent hcurr hq hactive => exact absurd hq (hidle hcurr)
  | passive hevent hcurr hq hpassive =>
    cases hpassive with
    | kept => exact hfree
    | born prio hfree' hslot => exact absurd (by rw [hevent]) (he _)
    | woken hwait => exact nomatch hfree.symm.trans hwait
    | buried hzombie => rfl
    | receives hlisten => exact nomatch hfree.symm.trans hlisten
    | refused hwaits htarget => exact nomatch hfree.symm.trans hwaits
    | delivered hwaits htarget => exact nomatch hfree.symm.trans hwaits
    | released hsize hack hstate htarget hsource => exact nomatch hfree.symm.trans hstate

/-- A resumption from kernel mode. -/
theorem CoreChange.of_resume {k k' : Kernel} {e : Event} {q p : Pid}
    {write : Option (BitVec 64 × List (BitVec 8))} (hq : q ≠ 0) (haction : e.action.frame = none)
    (hresume : e.resume = some ⟨p, write⟩) (halloc : k'.alloc = (k.sys.cores p).alloc)
    (hfree : k.sys.states q = .free → k'.sys.states q = .free)
    (hcores : k'.sys.cores = Function.update (Function.update k.sys.cores kernelPid
        { k.sys.cores kernelPid with alloc := k.alloc }) p
        { k.sys.cores p with initialized := true }) : CoreChange k e k' q := by
  by_cases hqp : q = p
  · subst hqp
    refine .resumed haction hresume halloc ?_
    rw [hcores, Function.update_self]
  · refine .kept (fun write' h ↦ hqp ?_) (fun _ ↦ haction) hfree ?_
    · exact congrArg Resume.pid (Option.some.inj (h.symm.trans hresume))
    · rw [hcores, Function.update_of_ne hqp, Function.update_of_ne hq]

/-- A trap that does not go back to user mode, and in which `q` is not made. -/
theorem CoreChange.of_trap {k k' : Kernel} {e : Event} {q : Pid} {frame : Frame}
    (haction : e.action.frame = some frame) (hresume : e.resume = none)
    (hfree : k.sys.states q = .free → k'.sys.states q = .free)
    (hcores : k'.sys.cores q = Function.update k.sys.cores k.sys.currPid
        { k.sys.cores k.sys.currPid with alloc := frame.alloc } q) : CoreChange k e k' q := by
  by_cases hq : q = k.sys.currPid
  · subst hq
    rw [Function.update_self] at hcores
    exact .trapped haction hresume rfl hcores
  · rw [Function.update_of_ne hq] at hcores
    exact .kept (fun _ h ↦ nomatch hresume.symm.trans h) (fun h ↦ absurd h hq) hfree hcores

section Steps

variable {k k' : Kernel} {e : Event} (hsane : Sane k.sys.views k.sys.currPid) (hstep : Step k e k')
  {q : Pid} (hq : q ≠ 0)
include hsane hstep hq

omit hq in
theorem stays_free_of_step (he : ∀ frame, e.action ≠ .svc 0 frame)
    (hfree : k.sys.states q = .free) : k'.sys.states q = .free :=
  (move_of_step hsane hstep).stays_free hsane hfree he

theorem coreChange_start (ha : e.action = .start) : CoreChange k e k' q := by
  have hfree := stays_free_of_step hsane hstep (q := q) fun frame ↦ by rw [ha]; nofun
  have haction : e.action.frame = none := by rw [ha]; rfl
  rw [Step, ha, step] at hstep
  split_ifs at hstep
  obtain ⟨r, hr, hok⟩ := bind_eq_ok.mp hstep
  obtain ⟨rfl, hresume⟩ := Prod.mk.inj (Except.ok.inj hok)
  obtain ⟨-, hrun, -, -, hpid, -⟩ := runProcess_eq_ok hr
  have hinit : r.2.pid = initPid := by
    rw [hpid]
    refine hsane.pid initPid ?_
    change (k.sys.procs initPid).state ≠ .free
    rw [hrun]
    decide
  obtain ⟨halloc, hcores⟩ := runProcess_core (by decide) hr
  have hresumed : e.resume = some ⟨initPid, r.2.write⟩ := by rw [← hresume, ← hinit]
  exact .of_resume hq haction hresumed halloc hfree hcores

theorem coreChange_schedule {counter : BitVec 64} (ha : e.action = .schedule counter) :
    CoreChange k e k' q := by
  have hfree := stays_free_of_step hsane hstep (q := q) fun frame ↦ by rw [ha]; nofun
  have haction : e.action.frame = none := by rw [ha]; rfl
  rw [Step, ha, step] at hstep
  split_ifs at hstep
  obtain ⟨r, hr, hok⟩ := bind_eq_ok.mp hstep
  obtain ⟨rfl, hresume⟩ := Prod.mk.inj (Except.ok.inj hok)
  obtain ⟨prio, hrun⟩ := schedule_runPriority hr
  obtain ⟨-, halloc, hcores⟩ := runPriority_core hsane.pid hrun
  exact .of_resume hq haction hresume.symm halloc hfree hcores

omit hq in
theorem coreChange_timer {frame : Frame} (ha : e.action = .timer frame) : CoreChange k e k' q := by
  have hfree := stays_free_of_step hsane hstep (q := q) fun frame ↦ by rw [ha]; nofun
  have haction : e.action.frame = some frame := by rw [ha]; rfl
  rw [Step, ha, step] at hstep
  split_ifs at hstep
  obtain ⟨t, ht, hok⟩ := bind_eq_ok.mp hstep
  obtain ⟨rfl, hresume⟩ := Prod.mk.inj (Except.ok.inj hok)
  exact .of_trap haction hresume.symm hfree (congrFun (saveContext_core t ht).2 q)

omit hsane hstep in
/-- The system call that resumes its caller. -/
theorem coreChange_again {t : Kernel} {r : Kernel × Resume} {frame : Frame}
    (haction : e.action.frame = some frame)
    (hcores : t.sys.cores = Function.update k.sys.cores k.sys.currPid
      { k.sys.cores k.sys.currPid with alloc := frame.alloc })
    (hcurr : k.sys.currPid ≠ 0) (hpid : r.2.pid = k.sys.currPid) (hresume : some r.2 = e.resume)
    (hfree : k.sys.states q = .free → r.1.sys.states q = .free)
    (hr : runProcess t k.sys.currPid = .ok r) : CoreChange k e r.1 q := by
  obtain ⟨halloc, hcores'⟩ := runProcess_core hcurr hr
  rw [hcores, Function.update_self] at halloc hcores'
  by_cases hself : q = k.sys.currPid
  · subst hself
    have hresumed : e.resume = some ⟨k.sys.currPid, r.2.write⟩ := by rw [← hresume, ← hpid]
    refine .again haction hresumed rfl halloc ?_
    rw [hcores', Function.update_self]
  · refine .kept (fun write h ↦ hself ?_) (fun h ↦ absurd h hself) hfree ?_
    · rw [← hpid]
      exact (congrArg Resume.pid (Option.some.inj (hresume.trans h))).symm
    · rw [hcores', Function.update_of_ne hself, Function.update_of_ne hq,
        Function.update_of_ne hself]

omit hsane hstep hq in
/-- A call of `fork`. -/
theorem coreChange_fork {s t : SystemState} {frame : Frame} {mmuTablesStart : BitVec 64}
    (ha : e.action = .svc 0 frame) (hresume : e.resume = none)
    (hcores : t.cores = Function.update k.sys.cores k.sys.currPid
      { k.sys.cores k.sys.currPid with alloc := frame.alloc })
    (hstates : t.states = k.sys.states) (hlast : t.lastPid = k.sys.currPid)
    (hargument : (t.procs k.sys.currPid).reg 0 = frame.registers 0)
    (hs : syscallFork mmuTablesStart t = .ok s) (hsys : k'.sys = s) : CoreChange k e k' q := by
  have haction : e.action.frame = some frame := by rw [ha]; rfl
  have hfork := syscallFork_core mmuTablesStart s hs
  rw [hlast, hargument] at hfork
  rcases hfork with ⟨hsame, hstates'⟩ | ⟨child, hfind, hle, hnew, hstates'⟩
  · refine .of_trap haction hresume (fun hq ↦ ?_) ?_
    · rwa [hsys, hstates', hstates]
    · rw [hsys, hsame, hcores]
  · by_cases hchild : q = child
    · subst hchild
      refine .born ha hresume ?_ ?_ ?_ ?_
      · rw [← hstates]
        exact (findFreeProc_free hfind).2
      · rw [hsys, hstates', Function.update_self]
      · refine le_of_le_of_eq hle ?_
        change (t.cores k.sys.currPid).priority = _
        rw [hcores, Function.update_self]
      · rw [hsys, hnew, Function.update_self, hcores, Function.update_self]
    · refine .of_trap haction hresume (fun hq ↦ ?_) ?_
      · rwa [hsys, hstates', Function.update_of_ne hchild, hstates]
      · rw [hsys, hnew, Function.update_of_ne hchild, hcores]

theorem coreChange_svc {code : BitVec 16} {frame : Frame} (ha : e.action = .svc code frame) :
    CoreChange k e k' q := by
  have hfree := stays_free_of_step hsane hstep (q := q)
  have haction : e.action.frame = some frame := by rw [ha]; rfl
  have hother : code ≠ 0 → ∀ frame', e.action ≠ .svc 0 frame' := fun hcode frame' h ↦
    hcode (Action.svc.inj (ha.symm.trans h)).1
  rw [Step, ha, step] at hstep
  split_ifs at hstep with hcurr
  obtain ⟨t, ht, hok⟩ := bind_eq_ok.mp hstep
  have hcores := (saveContext_core t ht).2
  obtain ⟨hview, hlast, -⟩ := saveContext_views k frame (some code) t ht
  have htrapped : t.sys.views k.sys.currPid =
      (k.sys.views k.sys.currPid).trapped frame (some code) := by
    rw [hview, Views.set_self]
  unfold svcHandler at hok
  by_cases hcode : code = 101
  · rw [if_pos hcode, hlast] at hok
    obtain ⟨r, hr, hok⟩ := bind_eq_ok.mp hok
    obtain ⟨rfl, hresume⟩ := Prod.mk.inj (Except.ok.inj hok)
    have hpid : r.2.pid = k.sys.currPid := by
      rw [(runProcess_eq_ok hr).2.2.2.2.1]
      refine (congrArg View.pid htrapped).trans (hsane.pid _ ?_)
      rw [hsane.running hcurr]
      decide
    refine coreChange_again hq haction hcores hcurr hpid hresume (hfree (hother ?_)) hr
    rw [hcode]
    decide
  · rw [if_neg hcode] at hok
    obtain ⟨s, hs, hok⟩ := bind_eq_ok.mp hok
    obtain ⟨rfl, hresume⟩ := Prod.mk.inj (Except.ok.inj hok)
    by_cases hfork : code = 0
    · subst hfork
      exact coreChange_fork ha hresume.symm hcores (saveContext_states t ht) hlast
        (congrFun (congrArg View.registers htrapped) 0) hs rfl
    · exact .of_trap haction hresume.symm (hfree (hother hfork))
        (congrFun ((syscall_core hfork _ s hs).trans hcores) q)

end Steps

/-- Every step is in the list. -/
theorem coreChange_of_step {k k' : Kernel} {e : Event} (hsane : Sane k.sys.views k.sys.currPid)
    (hstep : Step k e k') {q : Pid} (hq : q ≠ 0) : CoreChange k e k' q := by
  cases ha : e.action with
  | start => exact coreChange_start hsane hstep hq ha
  | svc code frame => exact coreChange_svc hsane hstep hq ha
  | timer frame => exact coreChange_timer hsane hstep ha
  | schedule counter => exact coreChange_schedule hsane hstep hq ha

end SysresOs.Proc
