import SysresOs.Lib.Outcome
import SysresOs.Proc.Machine

/-!
# What `change_state` does

`change_state` edits the links of the run queues and the state of one process. The `table` of a
state is its process table without those links; on it `change_state` is the assignment of a state
(`changeState_table`), and the two branches that edit a queue are described once, by `Dequeued` and
`Enqueued`, for everything that is proved about them.
-/

set_option autoImplicit false
set_option relaxedAutoImplicit false

namespace SysresOs.Proc

open SysresOs.Outcome

/-! ### Tables -/

/-- A descriptor without its run-queue links. -/
def ProcDescriptor.dropQueue (d : ProcDescriptor) : ProcDescriptor :=
  { d with nextSamePrio := none, prevSamePrio := none }

/-- A process table without run-queue links. -/
abbrev Table := Pid → ProcDescriptor

/-- The process table of a state, without its run-queue links. -/
def SystemState.table (s : SystemState) : Table := fun q ↦ (s.procs q).dropQueue

/-- The successor in a run queue. -/
def nextPrio (s : SystemState) (q : Pid) : Ptr := (s.procs q).nextSamePrio

/-- The predecessor in a run queue. -/
def prevPrio (s : SystemState) (q : Pid) : Ptr := (s.procs q).prevSamePrio

theorem table_modify (s : SystemState) (p : Pid) (f : ProcDescriptor → ProcDescriptor)
    (hf : ∀ d, (f d).dropQueue = f d.dropQueue) :
    (s.modify p f).table = Function.update s.table p (f (s.table p)) := by
  funext q
  by_cases hq : q = p
  · subst hq
    simp [SystemState.table, hf]
  · simp [SystemState.table, hq]

/-- Assignment of a state in a table. -/
def Table.setState (T : Table) (p : Pid) (st : ProcState) : Table :=
  Function.update T p ((T p).setState st)

/-! ### The two edits of a run queue -/

/-- The effect of the first branch of `change_state` on a process with neighbours `next` and
`prev`. -/
structure Dequeued (s s' : SystemState) (q : Pid) (prio : Prio) (next prev : Pid) : Prop where
  priority : (s.procs q).priority = (prio.val : ℤ)
  next_eq : nextPrio s q = some next
  prev_eq : prevPrio s q = some prev
  nextPrio : nextPrio s' = Function.update (nextPrio s) prev (some next)
  prevPrio : prevPrio s' = Function.update (prevPrio s) next (some prev)
  prioProc : s'.prioProc = if s.prioProc prio = some q then
      Function.update s.prioProc prio (if next = q then none else some next) else s.prioProc
  prioProcN : s'.prioProcN = Function.update s.prioProcN prio (s.prioProcN prio - 1)
  nRunnableProcs : s'.nRunnableProcs = s.nRunnableProcs - 1
  table : s'.table = s.table
  currPid : s'.currPid = s.currPid
  lastPid : s'.lastPid = s.lastPid

/-- The effect of the second branch of `change_state`. The links depend on whether the queue was
empty. -/
structure Enqueued (s s' : SystemState) (q : Pid) (prio : Prio) : Prop where
  priority : (s.procs q).priority = (prio.val : ℤ)
  links : (s.prioProc prio = none ∧ nextPrio s' = Function.update (nextPrio s) q (some q) ∧
      prevPrio s' = Function.update (prevPrio s) q (some q)) ∨
    ∃ head prev, s.prioProc prio = some head ∧
      (if head = q then some head else prevPrio s head) = some prev ∧
      nextPrio s' = Function.update (Function.update (nextPrio s) q (some head)) prev (some q) ∧
      prevPrio s' = Function.update (Function.update (prevPrio s) q (some prev)) head (some q)
  prioProc : s'.prioProc = Function.update s.prioProc prio (some q)
  prioProcN : s'.prioProcN = Function.update s.prioProcN prio (s.prioProcN prio + 1)
  nRunnableProcs : s'.nRunnableProcs = s.nRunnableProcs + 1
  table : s'.table = s.table
  currPid : s'.currPid = s.currPid
  lastPid : s'.lastPid = s.lastPid

theorem prioIndex_ok (prio : Prio) : prioIndex (prio.val : ℤ) = .ok prio := by
  simp [prioIndex, prio.isLt]

theorem prioIndex_eq_ok {n : ℤ} {prio : Prio} (h : prioIndex n = .ok prio) : n = prio.val := by
  unfold prioIndex at h
  split_ifs at h with hrange
  obtain rfl := Except.ok.inj h
  simp [hrange.1]

theorem deref_eq_ok {p : Ptr} {q : Pid} : deref p = .ok q ↔ p = some q := by
  cases p <;> simp [deref]

/-- A successful first branch of `change_state` has the effect `Dequeued`. -/
theorem dequeued_of_dequeue {s s' : SystemState} {q : Pid} (h : dequeue s q = .ok s') :
    ∃ prio next prev, Dequeued s s' q prio next prev := by
  unfold dequeue at h
  obtain ⟨prio, hprio, h⟩ := bind_eq_ok.mp h
  obtain ⟨next, hnext, h⟩ := bind_eq_ok.mp h
  obtain ⟨prev, hprev, h⟩ := bind_eq_ok.mp h
  obtain rfl := Except.ok.inj h
  refine ⟨prio, next, prev, ?_⟩
  constructor
  case priority => exact prioIndex_eq_ok hprio
  case next_eq => exact deref_eq_ok.mp hnext
  case prev_eq => exact deref_eq_ok.mp hprev
  case nextPrio =>
    funext r
    simp only [nextPrio, SystemState.modify_procs, Function.update_apply]
    split_ifs <;> simp_all
  case prevPrio =>
    funext r
    simp only [prevPrio, SystemState.modify_procs, Function.update_apply]
    split_ifs <;> simp_all
  case prioProc => split_ifs <;> rfl
  case prioProcN => split_ifs <;> rfl
  case nRunnableProcs => split_ifs <;> rfl
  case table =>
    funext r
    simp only [SystemState.table, SystemState.modify_procs]
    split_ifs <;> simp_all [ProcDescriptor.dropQueue]
  case currPid => split_ifs <;> rfl
  case lastPid => split_ifs <;> rfl

/-- The first branch of `change_state` succeeds when the priority and both links are proper. -/
theorem dequeue_ok {s : SystemState} {q next prev : Pid} {prio : Prio}
    (hprio : (s.procs q).priority = (prio.val : ℤ)) (hnext : nextPrio s q = some next)
    (hprev : prevPrio s q = some prev) : ∃ s', dequeue s q = .ok s' := by
  unfold nextPrio at hnext
  unfold prevPrio at hprev
  simp [dequeue, hprio, prioIndex_ok, hnext, hprev, deref]

/-- A successful second branch of `change_state` has the effect `Enqueued`. -/
theorem enqueued_of_enqueue {s s' : SystemState} {q : Pid} (h : enqueue s q = .ok s') :
    ∃ prio, Enqueued s s' q prio := by
  unfold enqueue at h
  obtain ⟨prio, hprio, h⟩ := bind_eq_ok.mp h
  obtain ⟨t, ht, h⟩ := bind_eq_ok.mp h
  obtain rfl := Except.ok.inj h
  refine ⟨prio, ?_⟩
  cases hhead : s.prioProc prio with
  | none =>
    rw [hhead] at ht
    obtain rfl := Except.ok.inj ht
    refine ⟨prioIndex_eq_ok hprio, .inl ⟨hhead, ?_, ?_⟩, rfl, rfl, rfl, ?_, rfl, rfl⟩
    · funext r
      simp only [nextPrio, SystemState.setPrioProc_procs, SystemState.modify_procs,
        Function.update_apply]
      split_ifs <;> rfl
    · funext r
      simp only [prevPrio, SystemState.setPrioProc_procs, SystemState.modify_procs,
        Function.update_apply]
      split_ifs <;> rfl
    · funext r
      simp only [SystemState.table, SystemState.setPrioProc_procs, SystemState.modify_procs]
      split_ifs <;> simp_all [ProcDescriptor.dropQueue]
  | some head =>
    rw [hhead] at ht
    obtain ⟨prev, hprev, ht⟩ := bind_eq_ok.mp ht
    obtain rfl := Except.ok.inj ht
    have hprev' := deref_eq_ok.mp hprev
    simp only [SystemState.modify_procs] at hprev'
    refine ⟨prioIndex_eq_ok hprio, .inr ⟨head, prev, hhead, ?_, ?_, ?_⟩, rfl, rfl, rfl, ?_, rfl,
      rfl⟩
    · by_cases hq : head = q
      · simpa [hq] using hprev'
      · have hq' : q ≠ head := fun heq ↦ hq heq.symm
        simpa [hq, hq', prevPrio] using hprev'
    · funext r
      simp only [nextPrio, SystemState.setPrioProc_procs, SystemState.modify_procs,
        Function.update_apply]
      split_ifs <;> simp_all
    · funext r
      simp only [prevPrio, SystemState.setPrioProc_procs, SystemState.modify_procs,
        Function.update_apply]
      split_ifs <;> simp_all
    · funext r
      simp only [SystemState.table, SystemState.setPrioProc_procs, SystemState.modify_procs]
      split_ifs <;> simp_all [ProcDescriptor.dropQueue]

/-- The second branch of `change_state` succeeds when the priority is proper and the head of a
non-empty queue has a predecessor. -/
theorem enqueue_ok {s : SystemState} {q : Pid} {prio : Prio}
    (hprio : (s.procs q).priority = (prio.val : ℤ))
    (hhead : ∀ head, s.prioProc prio = some head → head ≠ q ∧ ∃ prev, prevPrio s head = some prev) :
    ∃ s', enqueue s q = .ok s' := by
  unfold enqueue
  simp only [hprio, prioIndex_ok, ok_bind]
  cases hcase : s.prioProc prio with
  | none => simp [linkSamePrio]
  | some head =>
    obtain ⟨hne, prev, hprev⟩ := hhead head hcase
    have hne' : q ≠ head := fun heq ↦ hne heq.symm
    unfold prevPrio at hprev
    simp [linkSamePrio, hne, hne', hprev, deref]

/-! ### `change_state` on the table -/

/-- On the table, `change_state` assigns a state. -/
theorem changeState_table {s s' : SystemState} {q : Pid} {newState : ProcState}
    (h : changeState s q newState = .ok s') :
    s'.table = s.table.setState q newState ∧ s'.currPid = s.currPid ∧ s'.lastPid = s.lastPid := by
  obtain ⟨t, ht, h⟩ := bind_eq_ok.mp h
  obtain rfl := Except.ok.inj h
  have hkeep : t.table = s.table ∧ t.currPid = s.currPid ∧ t.lastPid = s.lastPid := by
    unfold changeQueue at ht
    split_ifs at ht
    · obtain ⟨prio, next, prev, heff⟩ := dequeued_of_dequeue ht
      exact ⟨heff.table, heff.currPid, heff.lastPid⟩
    · obtain ⟨prio, heff⟩ := enqueued_of_enqueue ht
      exact ⟨heff.table, heff.currPid, heff.lastPid⟩
    · obtain rfl := Except.ok.inj ht
      exact ⟨rfl, rfl, rfl⟩
  refine ⟨?_, hkeep.2.1, hkeep.2.2⟩
  rw [table_modify t q (·.setState newState) fun _ ↦ rfl, hkeep.1]
  rfl

theorem findFreeProc_free {s : SystemState} {child : Pid} (h : findFreeProc s = some child) :
    2 ≤ child.val ∧ (s.procs child).state = .free := by
  have hfound := List.find?_some h
  simpa using hfound

/-! ### Going back to user mode -/

/-- The system state after `run_process`: the kernel's allocator globals are saved, the process is
the current one, and the buffer of the current process is emptied. -/
def resumedSys (k : Kernel) (proc : Pid) : SystemState :=
  (({ k.sys.modify kernelPid (fun d ↦ { d with memConf := { d.memConf with
    alloc := k.alloc } }) with
    currPid := (k.sys.procs proc).pid }).modify proc fun d ↦ { d with initialized := true }).modify
      (k.sys.procs proc).pid fun d ↦
        { d with buffer := { d.buffer with writeAddr := 0, usedSize := 0 } }

/-- What a successful `run_process` checked, and what it left. -/
theorem runProcess_eq_ok {k k' : Kernel} {proc : Pid} {r : Resume}
    (h : runProcess k proc = .ok (k', r)) :
    0 < (k.sys.procs proc).pid ∧ (k.sys.procs proc).state = .runnable ∧ k.sys.currPid = 0 ∧
      k'.sys = resumedSys k proc ∧ r.pid = (k.sys.procs proc).pid ∧
      (k.sys.procs r.pid).buffer.written = .ok r.write := by
  obtain ⟨_, hpid, h⟩ := bind_eq_ok.mp h
  obtain ⟨_, hstate, h⟩ := bind_eq_ok.mp h
  obtain ⟨_, -, h⟩ := bind_eq_ok.mp h
  obtain ⟨_, hcurr, h⟩ := bind_eq_ok.mp h
  obtain ⟨_, -, h⟩ := bind_eq_ok.mp h
  obtain ⟨write, hwrite, h⟩ := bind_eq_ok.mp h
  obtain ⟨rfl, rfl⟩ := Prod.mk.inj (Except.ok.inj h)
  refine ⟨of_decide_eq_true (of_assert_ok hpid), of_decide_eq_true (of_assert_ok hstate),
    of_decide_eq_true (of_assert_ok hcurr), rfl, rfl, ?_⟩
  rw [← hwrite]
  simp only [saveAllocConf, restoreAllocConf, restoreErrno, SystemState.modify_procs]
  split_ifs <;> simp_all

/-! ### `fork` -/

/-- The state in which `fork` has filled the slot `child` and has set both registers `x0`. -/
def forkSlot (s : SystemState) (child : Pid) : SystemState :=
  let parent := s.modify s.lastPid (·.setX0 (ofPid child))
  (parent.modify child fun _ ↦ makeChildProcDescriptor (parent.procs s.lastPid) child
    (toInt ((s.procs s.lastPid).reg 0))).modify child (·.setX0 0)

theorem forkSlot_child (s : SystemState) (child : Pid) : (forkSlot s child).procs child =
    (makeChildProcDescriptor ((s.procs s.lastPid).setX0 (ofPid child)) child
      (toInt ((s.procs s.lastPid).reg 0))).setX0 0 := by
  rw [forkSlot, SystemState.modify_procs, if_pos rfl, SystemState.modify_procs, if_pos rfl,
    SystemState.modify_procs, if_pos rfl]

theorem forkSlot_of_ne (s : SystemState) {child q : Pid} (hq : q ≠ child) :
    (forkSlot s child).procs q = (s.modify s.lastPid (·.setX0 (ofPid child))).procs q := by
  rw [forkSlot, SystemState.modify_procs, if_neg hq, SystemState.modify_procs, if_neg hq]

/-- What a successful `fork` does: it reports an error, or it fills a free slot, links it to the
parent, makes it runnable and gives it its memory. -/
inductive Forks (mmuTablesStart : BitVec 64) (s : SystemState) : SystemState → Prop
  | failed (no : BitVec 32) : Forks mmuTablesStart s (s.modify s.lastPid (·.fail no))
  | forked (child : Pid) (t u : SystemState) (hfind : findFreeProc s = some child)
      (hprio : toInt ((s.procs s.lastPid).reg 0) ≤ (s.procs s.lastPid).priority)
      (ht : addChild (forkSlot s child) s.lastPid child = .ok t)
      (hu : changeState t child .runnable = .ok u) :
      Forks mmuTablesStart s ((u.modify child (setUpMemoryNewProc mmuTablesStart)).modify child
        fun d ↦ { d with initialized := true })

theorem forks_of_syscallFork (mmuTablesStart : BitVec 64) (s : SystemState) :
    Yields (syscallFork mmuTablesStart s) (Forks mmuTablesStart s) := by
  refine Yields.bind_any fun nChildren ↦ ?_
  cases hfind : findFreeProc s with
  | none => exact .ok (.failed _)
  | some child =>
    refine Yields.ite (fun _ ↦ .ok (.failed _)) fun hprio s' hs' ↦ ?_
    obtain ⟨t, ht, hs'⟩ := bind_eq_ok.mp hs'
    obtain ⟨u, hu, hs'⟩ := bind_eq_ok.mp hs'
    obtain ⟨_, -, hs'⟩ := bind_eq_ok.mp hs'
    obtain ⟨_, -, hs'⟩ := bind_eq_ok.mp hs'
    obtain rfl := Except.ok.inj hs'
    exact .forked child t u hfind (not_lt.mp hprio) ht hu

/-! ### Traps -/

/-- The descriptor of a process after a trap that leaves `buffer` as its message. -/
def ProcDescriptor.trapped (d : ProcDescriptor) (frame : Frame) (svcCode : Option (BitVec 16))
    (buffer : Buffer) : ProcDescriptor :=
  { d with
    schedConf := { d.schedConf with timeLeft := if svcCode.isNone then 0 else frame.timer }
    savedContext := { d.savedContext with
      registers := frame.registers, pc := frame.pc, sp := frame.sp, pstate := frame.pstate }
    memConf := { d.memConf with alloc := frame.alloc }
    err := frame.err
    buffer := buffer }

theorem backUp_eq (s : SystemState) (p : Pid) (memory : BitVec 64 → BitVec 8)
    (svcCode : Option (BitVec 16)) : Yields (backUp s p memory svcCode) fun t ↦
      ∃ buffer, t = s.modify p fun d ↦ { d with buffer := buffer } := by
  have hkeep : ∃ buffer, s = s.modify p fun d ↦ { d with buffer := buffer } :=
    ⟨(s.procs p).buffer, (SystemState.modify_eq_self rfl).symm⟩
  cases svcCode with
  | none => exact .ok hkeep
  | some code =>
    refine Yields.ite (fun _ ↦ Yields.bind_any fun buff ↦ .ok ?_) fun _ ↦ .ok hkeep
    refine ⟨⟨buff, ((s.procs p).reg 2).toNat, (s.procs p).buffer.writeAddr⟩, ?_⟩
    rw [SystemState.modify_modify]
    rfl

/-- A trap assigns the globals and the descriptor of the process, and makes the kernel current. -/
theorem saveContext_eq_ok {k t : Kernel} {frame : Frame} {svcCode : Option (BitVec 16)}
    (h : saveContext k frame svcCode = .ok t) :
    ∃ buffer, t = { k with
      err := frame.err
      alloc := frame.alloc
      sys := { k.sys.modify k.sys.currPid (·.trapped frame svcCode buffer) with
        lastPid := k.sys.currPid, currPid := 0 } } := by
  obtain ⟨s, hs, h⟩ := bind_eq_ok.mp h
  obtain rfl := Except.ok.inj h
  obtain ⟨buffer, rfl⟩ := backUp_eq _ _ _ _ s hs
  refine ⟨buffer, ?_⟩
  simp only [saveErrno, saveAllocConf, SystemState.modify_modify]
  rfl

/-! ### Booting -/

/-- The system state of `init_proc` before `init` is made runnable. -/
def bootSys (boot : Boot) : SystemState :=
  { currPid := 0
    lastPid := 0
    procs := fun q ↦
      if q = initPid then
        { newProcDescriptor initPid initPid 15 boot.mainInit with
          savedContext := { (newProcDescriptor initPid initPid 15 boot.mainInit).savedContext with
            sctlrEl1 := 0xc00801#64 ||| 1#64 <<< 18 } }
      else if q = kernelPid then
        { zeroDescriptor with state := .kernel, memConf := ⟨boot.ttbr0El1, ⟨0, 0, 0⟩⟩ }
      else zeroDescriptor
    prioProcN := fun _ ↦ 0
    nRunnableProcs := 0
    prioProc := fun _ ↦ none }

/-- `init_proc` makes `init` runnable and then writes memory configurations only. -/
theorem initProc_eq_ok {boot : Boot} {k : Kernel} (h : initProc boot = .ok k) :
    ∃ s, changeState (bootSys boot) initPid .runnable = .ok s ∧
      k.sys = (((s.modify initPid (setUpMemoryNewProc boot.mmuTablesStart)).modify kernelPid
        fun d ↦ { d with memConf := { d.memConf with alloc := initAlloc boot } }).modify initPid
        fun d ↦ { d with memConf := { d.memConf with alloc := initAlloc boot } }).modify initPid
        fun d ↦ { d with initialized := true } := by
  obtain ⟨t, ht, h⟩ := bind_eq_ok.mp h
  obtain ⟨s, hs, h⟩ := bind_eq_ok.mp h
  obtain ⟨_, -, h⟩ := bind_eq_ok.mp h
  obtain rfl := Except.ok.inj h
  refine ⟨s, ?_, rfl⟩
  rw [← hs]
  simp only [changeState, changeQueue, bootKernel, zeroDescriptor, reduceCtorEq,
    false_and, and_false, if_false, ok_bind, Except.ok.injEq] at ht
  subst ht
  congr 1
  simp only [bootSys, SystemState.modify, SystemState.mk.injEq, true_and, and_true]
  funext q
  by_cases hq : q = initPid
  · subst hq
    simp [newProcDescriptor]
  · by_cases hk : q = kernelPid
    · subst hk
      simp [ProcDescriptor.setState, zeroDescriptor]
    · simp [hq, hk, zeroDescriptor]

end SysresOs.Proc
