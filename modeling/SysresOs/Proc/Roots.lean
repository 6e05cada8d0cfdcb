import SysresOs.Proc.Core

/-!
# The translation roots of the processes

A process gets its value of `TTBR0_EL1` when it is forked and keeps it. `roots_of_step` says so of
every step of the system: either all roots are kept and no slot is taken, or the step is a fork and
its child gets the root of its slot.
-/

set_option autoImplicit false
set_option relaxedAutoImplicit false

namespace SysresOs.Proc

open SysresOs.Outcome SysresOs.Trace

/-- The value of `TTBR0_EL1` with which a process runs. -/
def ProcDescriptor.root (d : ProcDescriptor) : BitVec 64 := d.memConf.ttbr0El1

/-- The roots of all processes. -/
def SystemState.roots (s : SystemState) : Pid → BitVec 64 := fun q ↦ (s.procs q).root

/-- The root that `set_up_memory_new_proc` gives a process. -/
def slotRoot (mmuTablesStart : BitVec 64) (pid : Pid) : BitVec 64 :=
  ofPid pid <<< 48 ||| ((mmuTablesStart + ofPid pid * 0x200000#64) &&& 0xfffffffffffe#64)

theorem root_rooted : Rooted ProcDescriptor.root :=
  ⟨⟨fun _ _ _ ↦ rfl, fun _ _ ↦ rfl, fun _ _ ↦ rfl, fun _ _ ↦ rfl, fun _ _ ↦ rfl, fun _ _ ↦ rfl,
    fun _ _ ↦ rfl⟩, fun _ _ ↦ rfl, fun _ _ ↦ rfl, fun _ _ _ ↦ rfl⟩

theorem pid_rooted : Rooted ProcDescriptor.pid :=
  ⟨⟨fun _ _ _ ↦ rfl, fun _ _ ↦ rfl, fun _ _ ↦ rfl, fun _ _ ↦ rfl, fun _ _ ↦ rfl, fun _ _ ↦ rfl,
    fun _ _ ↦ rfl⟩, fun _ _ ↦ rfl, fun _ _ ↦ rfl, fun _ _ _ ↦ rfl⟩

theorem roots_modify (s : SystemState) (p : Pid) (f : ProcDescriptor → ProcDescriptor) :
    (s.modify p f).roots = Function.update s.roots p (f (s.procs p)).root := by
  funext q
  rw [SystemState.roots, SystemState.modify_procs, Function.update_apply]
  split_ifs <;> rfl

/-! ### The system calls -/

/-- `fork` gives its child the root of its slot. A fork that fails takes no slot and changes no
root. -/
theorem syscallFork_root {s : SystemState} {mmuTablesStart : BitVec 64} :
    Yields (syscallFork mmuTablesStart s) fun s' ↦ (s'.states = s.states ∧ s'.roots = s.roots) ∨
      ∃ child, 2 ≤ child.val ∧ s.states child = .free ∧
        s'.states = Function.update s.states child .runnable ∧
        s'.roots = Function.update s.roots child (slotRoot mmuTablesStart child) := by
  intro s' hs'
  cases forks_of_syscallFork mmuTablesStart s s' hs' with
  | failed no =>
    exact .inl ⟨states_modify s _ fun _ ↦ rfl, funext (Has.modify (fun _ ↦ rfl) _ fun _ ↦ rfl)⟩
  | forked child t u hfind _ ht hu =>
    obtain ⟨hchild, hfree⟩ := findFreeProc_free hfind
    have hslot := has_forkSlot ProcDescriptor.root (fun _ _ ↦ rfl) s child
    have hroots : u.roots = _ := funext (root_rooted.steady.changeState
      (root_rooted.addChild hslot _ _ t ht) _ _ u hu)
    have hslot' := has_forkSlot ProcDescriptor.pid (fun _ _ ↦ rfl) s child
    have hpid := pid_rooted.steady.changeState (pid_rooted.addChild hslot' _ _ t ht) _ _ u hu child
    rw [Function.update_self, forkSlot_child] at hpid
    have hstates : t.states = Function.update s.states child _ :=
      funext (state_unlinked.addChild (has_forkSlot ProcDescriptor.state
        (fun _ _ ↦ rfl) s child) s.lastPid child t ht)
    have hroot : (setUpMemoryNewProc mmuTablesStart (u.procs child)).root =
        slotRoot mmuTablesStart child := by
      rw [ProcDescriptor.root, setUpMemoryNewProc, hpid]
      rfl
    refine .inr ⟨child, hchild, hfree, ?_, ?_⟩
    · rw [states_setUpMemory, (changeState_kin hu).2, hstates, Function.update_idem]
    · rw [roots_modify, roots_modify, Function.update_idem, hroots, Function.update_idem,
        SystemState.modify_procs, if_pos rfl]
      exact congrArg (Function.update s.roots child) hroot

/-- The other system calls keep the roots. -/
theorem syscall_root {s : SystemState} {code : BitVec 16} (hcode : code ≠ 0)
    (mmuTablesStart : BitVec 64) :
    Yields (syscall code mmuTablesStart s) fun s' ↦ s'.roots = s.roots := by
  have h : Has ProcDescriptor.root s.roots s := fun _ ↦ rfl
  have hroot := root_rooted.steady
  have hlinks := root_rooted.toUnlinked
  suffices hsame : Yields (syscall code mmuTablesStart s) (Has ProcDescriptor.root s.roots) from
    fun s' hs' ↦ funext (hsame s' hs')
  exact Yields.ite (fun hc ↦ absurd hc hcode) fun _ ↦
    Yields.ite (fun _ ↦ hroot.syscallExit hlinks h) fun _ ↦
    Yields.ite (fun _ ↦ hroot.syscallWait hlinks h) fun _ ↦
    Yields.ite (fun _ ↦ hroot.syscallSend h) fun _ ↦
    Yields.ite (fun _ ↦ hroot.syscallReceive h) fun _ ↦
    Yields.ite (fun _ ↦ hroot.syscallAcknowledge h) fun _ ↦ .error

/-! ### The way to the kernel and back -/

theorem saveContext_root {k : Kernel} {frame : Frame} {svcCode : Option (BitVec 16)} :
    Yields (saveContext k frame svcCode) fun t ↦ t.sys.roots = k.sys.roots ∧
      t.mmuTablesStart = k.mmuTablesStart := by
  intro t ht
  obtain ⟨buffer, rfl⟩ := saveContext_eq_ok ht
  have hroot : Has ProcDescriptor.root k.sys.roots k.sys := fun _ ↦ rfl
  have hsaved := hroot.modify k.sys.currPid (f := (·.trapped frame svcCode buffer)) fun _ ↦ rfl
  exact ⟨funext hsaved, rfl⟩

theorem runProcess_root {k : Kernel} {proc : Pid} :
    Yields (runProcess k proc) fun r ↦ r.1.sys.roots = k.sys.roots ∧
      r.1.mmuTablesStart = k.mmuTablesStart := by
  intro r hr
  obtain ⟨-, -, -, hsys, -⟩ := runProcess_eq_ok hr
  have h : Has ProcDescriptor.root k.sys.roots k.sys := fun _ ↦ rfl
  have hresumed : Has ProcDescriptor.root k.sys.roots r.1.sys := by
    rw [hsys]
    refine Has.modify ?_ _ fun _ ↦ rfl
    refine Has.modify ?_ _ fun _ ↦ rfl
    exact h.modify kernelPid (f := fun d ↦ { d with memConf := { d.memConf with
      alloc := k.alloc } }) fun _ ↦ rfl
  refine ⟨funext hresumed, ?_⟩
  obtain ⟨-, -, hr⟩ := bind_eq_ok.mp hr
  obtain ⟨-, -, hr⟩ := bind_eq_ok.mp hr
  obtain ⟨-, -, hr⟩ := bind_eq_ok.mp hr
  obtain ⟨-, -, hr⟩ := bind_eq_ok.mp hr
  obtain ⟨-, -, hr⟩ := bind_eq_ok.mp hr
  obtain ⟨write, -, hr⟩ := bind_eq_ok.mp hr
  rw [← Except.ok.inj hr]
  rfl

theorem schedule_root {k : Kernel} {counter : BitVec 64} :
    Yields (schedule k counter) fun r ↦ r.1.sys.roots = k.sys.roots ∧
      r.1.mmuTablesStart = k.mmuTablesStart := by
  intro r hr
  obtain ⟨prio, hrun⟩ := schedule_runPriority hr
  rw [runPriority_eq] at hrun
  obtain ⟨proc, -, hrun⟩ := bind_eq_ok.mp hrun
  have hrotated : Has ProcDescriptor.root k.sys.roots (rotated k.sys prio proc) :=
    Has.rotated (fun _ ↦ rfl) (fun _ _ ↦ rfl) prio proc
  obtain ⟨hroots, htables⟩ := runProcess_root r hrun
  exact ⟨hroots.trans (funext hrotated), htables⟩

/-! ### Steps -/

/-- A step that takes no slot keeps the roots, and one that takes a slot is the fork of a process
with the root of the slot. -/
def RootsKept (k k' : Kernel) : Prop :=
  k'.mmuTablesStart = k.mmuTablesStart ∧
    ((k'.sys.roots = k.sys.roots ∧ ∀ q, k.sys.states q = .free → k'.sys.states q = .free) ∨
      ∃ child, 2 ≤ child.val ∧ k.sys.states child = .free ∧
        k'.sys.states = Function.update k.sys.states child .runnable ∧
        k'.sys.roots = Function.update k.sys.roots child (slotRoot k.mmuTablesStart child))

section Steps

variable {k k' : Kernel} {e : Event} (hsane : Sane k.sys.views k.sys.currPid) (hstep : Step k e k')
include hsane hstep

theorem rootsKept_svc {code : BitVec 16} {frame : Frame} (ha : e.action = .svc code frame) :
    RootsKept k k' := by
  have hfree := fun q ↦ stays_free_of_step hsane hstep (q := q)
  have hother : code ≠ 0 → ∀ frame', e.action ≠ .svc 0 frame' := fun hcode frame' h ↦
    hcode (Action.svc.inj (ha.symm.trans h)).1
  rw [Step, ha, step] at hstep
  split_ifs at hstep with hcurr
  obtain ⟨t, ht, hok⟩ := bind_eq_ok.mp hstep
  obtain ⟨hroots, htables⟩ := saveContext_root t ht
  obtain ⟨hview, hlast, -⟩ := saveContext_views k frame (some code) t ht
  unfold svcHandler at hok
  by_cases hcode : code = 101
  · rw [if_pos hcode] at hok
    obtain ⟨r, hr, hok⟩ := bind_eq_ok.mp hok
    obtain ⟨rfl, -⟩ := Prod.mk.inj (Except.ok.inj hok)
    obtain ⟨hroots', htables'⟩ := runProcess_root r hr
    refine ⟨htables'.trans htables, .inl ⟨hroots'.trans hroots, fun q ↦ hfree q (hother ?_)⟩⟩
    rw [hcode]
    decide
  · rw [if_neg hcode] at hok
    obtain ⟨s, hs, hok⟩ := bind_eq_ok.mp hok
    obtain ⟨rfl, -⟩ := Prod.mk.inj (Except.ok.inj hok)
    refine ⟨htables, ?_⟩
    by_cases hfork : code = 0
    · subst hfork
      have hstates := saveContext_states t ht
      rw [← htables, ← hroots, ← hstates]
      rcases syscallFork_root s hs with ⟨hsame, hroots'⟩ | hchild
      · refine .inl ⟨hroots', fun q hq ↦ ?_⟩
        rw [hsame]
        exact hq
      · exact .inr hchild
    · exact .inl ⟨(syscall_root hfork _ s hs).trans hroots, fun q ↦ hfree q (hother hfork)⟩

theorem rootsKept_of_step : RootsKept k k' := by
  have hfree := fun q ↦ stays_free_of_step hsane hstep (q := q)
  cases ha : e.action with
  | start =>
    rw [ha] at hfree
    rw [Step, ha, step] at hstep
    split_ifs at hstep
    obtain ⟨r, hr, hok⟩ := bind_eq_ok.mp hstep
    obtain ⟨rfl, -⟩ := Prod.mk.inj (Except.ok.inj hok)
    obtain ⟨hroots, htables⟩ := runProcess_root r hr
    exact ⟨htables, .inl ⟨hroots, fun q ↦ hfree q (by rintro _ ⟨⟩)⟩⟩
  | svc code frame => exact rootsKept_svc hsane hstep ha
  | timer frame =>
    rw [ha] at hfree
    rw [Step, ha, step] at hstep
    split_ifs at hstep
    obtain ⟨t, ht, hok⟩ := bind_eq_ok.mp hstep
    obtain ⟨rfl, -⟩ := Prod.mk.inj (Except.ok.inj hok)
    obtain ⟨hroots, htables⟩ := saveContext_root t ht
    exact ⟨htables, .inl ⟨hroots, fun q ↦ hfree q (by rintro _ ⟨⟩)⟩⟩
  | schedule counter =>
    rw [ha] at hfree
    rw [Step, ha, step] at hstep
    split_ifs at hstep
    obtain ⟨r, hr, hok⟩ := bind_eq_ok.mp hstep
    obtain ⟨rfl, -⟩ := Prod.mk.inj (Except.ok.inj hok)
    obtain ⟨hroots, htables⟩ := schedule_root r hr
    exact ⟨htables, .inl ⟨hroots, fun q ↦ hfree q (by rintro _ ⟨⟩)⟩⟩

end Steps

/-! ### Runs -/

/-- The root of a slot: that of the kernel comes from the boot code. -/
def bootRoot (boot : Boot) (q : Pid) : BitVec 64 :=
  if q = kernelPid then boot.ttbr0El1 else slotRoot boot.mmuTablesStart q

theorem boot_roots {boot : Boot} {k : Kernel} (h : initProc boot = .ok k) :
    k.mmuTablesStart = boot.mmuTablesStart ∧ ∀ q, k.sys.states q ≠ .free →
      k.sys.roots q = bootRoot boot q := by
  obtain ⟨s, hs, hsys⟩ := initProc_eq_ok h
  refine ⟨?_, fun q hq ↦ ?_⟩
  · obtain ⟨t, -, h⟩ := bind_eq_ok.mp h
    obtain ⟨u, -, h⟩ := bind_eq_ok.mp h
    obtain ⟨-, -, h⟩ := bind_eq_ok.mp h
    rw [← Except.ok.inj h]
    rfl
  have hroots : s.roots = (bootSys boot).roots :=
    funext (root_rooted.steady.changeState (fun _ ↦ rfl) _ _ s hs)
  have hpid : (s.procs initPid).pid = ((bootSys boot).procs initPid).pid :=
    pid_rooted.steady.changeState (fun _ ↦ rfl) _ _ s hs initPid
  have hkept : k.sys.roots = (s.modify initPid (setUpMemoryNewProc boot.mmuTablesStart)).roots := by
    rw [hsys]
    refine funext (Has.modify ?_ initPid fun _ ↦ rfl)
    refine Has.modify ?_ initPid fun _ ↦ rfl
    exact Has.modify (fun _ ↦ rfl) kernelPid fun _ ↦ rfl
  change (k.sys.views q).state ≠ .free at hq
  rw [(Booted.views ⟨boot, h⟩).1, bootViews] at hq
  rw [hkept, roots_modify, hroots, bootRoot, Function.update_apply]
  by_cases hinit : q = initPid
  · rw [if_pos hinit, if_neg (by rw [hinit]; decide), ProcDescriptor.root, setUpMemoryNewProc, hpid,
      hinit]
    rfl
  · rw [if_neg hinit] at hq ⊢
    by_cases hkernel : q = kernelPid
    · rw [if_pos hkernel, hkernel]
      rfl
    · rw [if_neg hkernel] at hq
      exact absurd rfl hq

/-- In every run the processes have the roots of their slots. -/
theorem BootRun.roots {boot : Boot} {history : History} {k : Kernel}
    (hrun : BootRun boot history k) :
    k.mmuTablesStart = boot.mmuTablesStart ∧ ∀ q, k.sys.states q ≠ .free →
      k.sys.roots q = bootRoot boot q := by
  refine Run.invariant (I := fun _ k ↦ k.mmuTablesStart = boot.mmuTablesStart ∧
    ∀ q, k.sys.states q ≠ .free → k.sys.roots q = bootRoot boot q) (fun _ ↦ boot_roots) ?_ hrun
  intro history k e k' hrun ⟨htables, hroots⟩ hstep
  obtain ⟨htables', hchange⟩ := rootsKept_of_step (BootRun.sysRun hrun).sane hstep
  refine ⟨htables'.trans htables, fun q hq ↦ ?_⟩
  rcases hchange with ⟨hsame, hfree⟩ | ⟨child, hslot, -, hstates, hchild⟩
  · rw [hsame]
    exact hroots q fun h ↦ hq (hfree q h)
  · rw [hchild, Function.update_apply]
    split_ifs with hself
    · have hne : child ≠ kernelPid := by
        rintro rfl
        exact absurd hslot (by decide)
      rw [htables, hself, bootRoot, if_neg hne]
    · refine hroots q fun h ↦ hq ?_
      rw [hstates, Function.update_of_ne hself]
      exact h

end SysresOs.Proc
