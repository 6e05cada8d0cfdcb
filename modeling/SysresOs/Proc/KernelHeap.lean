import SysresOs.Proc.Suspended

/-!
# The allocator's globals of the kernel

`run_process` backs the allocator's globals up as those of the kernel, but between a trap and the
next call of `run_process` nobody restores the kernel's: the backup holds what the process that
trapped last has left there (`BootRun.kernelAlloc_eq`). `kernelHeap_kept_iff` says for which runs
this makes no difference.
-/

set_option autoImplicit false
set_option relaxedAutoImplicit false

namespace SysresOs.Proc

open SysresOs.Outcome SysresOs.Trace

/-- The backup of the kernel holds the globals of the kernel heap. -/
def KernelHeapKept (boot : Boot) (k : Kernel) : Prop :=
  (k.sys.procs kernelPid).memConf.alloc = initAlloc boot

/-- The allocator's globals that the kernel found at the last trap. -/
def trappedAlloc (boot : Boot) : History → AllocConf
  | [] => initAlloc boot
  | t :: past =>
    match t.label.action.frame with
    | none => trappedAlloc boot past
    | some frame => frame.alloc

/-- The allocator's globals at the last call of `run_process`. -/
def savedAlloc (boot : Boot) : History → AllocConf
  | [] => initAlloc boot
  | t :: past =>
    if t.label.resume = none then savedAlloc boot past else trappedAlloc boot (t :: past)

/-- Whenever a process is resumed, the last trap has found the globals of the kernel heap. -/
def TrapsWithKernelHeap (boot : Boot) : History → Prop
  | [] => True
  | t :: past => (t.label.resume ≠ none → trappedAlloc boot (t :: past) = initAlloc boot) ∧
      TrapsWithKernelHeap boot past

/-! ### Steps -/

/-- The globals after the trap of a step, if it is one. -/
def allocFound (k : Kernel) (e : Event) : AllocConf :=
  match e.action.frame with
  | none => k.alloc
  | some frame => frame.alloc

/-- What a step makes of the globals and their backup for the kernel. -/
inductive KernelBackup (k : Kernel) (e : Event) (k' : Kernel) : Prop
  | kept (hresume : e.resume = none) (halloc : k'.alloc = allocFound k e)
      (hcore : (k'.sys.cores kernelPid).alloc = (k.sys.cores kernelPid).alloc)
  | saved (hresume : e.resume ≠ none) (hcurr : k'.sys.currPid ≠ 0)
      (hcore : (k'.sys.cores kernelPid).alloc = allocFound k e)

/-- `run_process` saves the globals that it finds. -/
theorem runProcess_backup {k k' : Kernel} {proc : Pid} {r : Resume} (hproc : proc ≠ 0)
    (h : runProcess k proc = .ok (k', r)) :
    k'.sys.currPid ≠ 0 ∧ (k'.sys.cores kernelPid).alloc = k.alloc := by
  obtain ⟨hpos, -, -, hsys, -, -⟩ := runProcess_eq_ok h
  constructor
  · rw [hsys]
    exact hpos.ne'
  · rw [(runProcess_core hproc h).2, Function.update_of_ne (Ne.symm hproc), Function.update_self]

theorem runPriority_backup {k k' : Kernel} {prio : Prio} {r : Resume}
    (hsane : ∀ q, k.sys.states q ≠ .free → (k.sys.procs q).pid = q)
    (h : runPriority k prio = .ok (k', r)) :
    k'.sys.currPid ≠ 0 ∧ (k'.sys.cores kernelPid).alloc = k.alloc := by
  obtain ⟨hpid, -, hcores⟩ := runPriority_core hsane h
  rw [runPriority_eq] at h
  obtain ⟨proc, -, h⟩ := bind_eq_ok.mp h
  obtain ⟨hpos, -, -, hsys, -, -⟩ := runProcess_eq_ok h
  constructor
  · rw [hsys]
    exact hpos.ne'
  · rw [hcores, Function.update_of_ne (Ne.symm hpid), Function.update_self]

/-- A trap does not touch the backup of the kernel. -/
theorem saveContext_backup {k t : Kernel} {frame : Frame} {svcCode : Option (BitVec 16)}
    (hcurr : k.sys.currPid ≠ 0) (h : saveContext k frame svcCode = .ok t) :
    t.alloc = frame.alloc ∧ t.sys.cores kernelPid = k.sys.cores kernelPid := by
  obtain ⟨halloc, hcores⟩ := saveContext_core t h
  exact ⟨halloc, by rw [hcores, Function.update_of_ne (Ne.symm hcurr)]⟩

/-- No system call assigns the backup of the kernel. -/
theorem syscall_backup {s : SystemState} {code : BitVec 16} (mmuTablesStart : BitVec 64) :
    Yields (syscall code mmuTablesStart s) fun s' ↦ s'.cores kernelPid = s.cores kernelPid := by
  intro s' hs'
  by_cases hcode : code = 0
  · subst hcode
    rcases syscallFork_core mmuTablesStart s' hs' with
      ⟨hcores, -⟩ | ⟨child, hfind, -, hcores, -⟩
    · rw [hcores]
    · obtain ⟨hslot, -⟩ := findFreeProc_free hfind
      have hne : kernelPid ≠ child := by
        rintro rfl
        exact absurd hslot (by decide)
      rw [hcores, Function.update_of_ne hne]
  · exact congrFun (syscall_core hcode mmuTablesStart s' hs') kernelPid

section Steps

variable {k k' : Kernel} {e : Event} (hsane : Sane k.sys.views k.sys.currPid) (hstep : Step k e k')
include hsane hstep

omit hsane in
theorem kernelBackup_start (ha : e.action = .start) : KernelBackup k e k' := by
  have hfound : allocFound k e = k.alloc := by rw [allocFound, ha]; rfl
  rw [Step, ha, step] at hstep
  split_ifs at hstep
  obtain ⟨r, hr, hok⟩ := bind_eq_ok.mp hstep
  obtain ⟨rfl, hresume⟩ := Prod.mk.inj (Except.ok.inj hok)
  obtain ⟨hcurr, hcore⟩ := runProcess_backup (by decide) hr
  exact .saved (fun h ↦ by cases hresume.trans h) hcurr (hcore.trans hfound.symm)

theorem kernelBackup_schedule {counter : BitVec 64} (ha : e.action = .schedule counter) :
    KernelBackup k e k' := by
  have hfound : allocFound k e = k.alloc := by rw [allocFound, ha]; rfl
  rw [Step, ha, step] at hstep
  split_ifs at hstep
  obtain ⟨r, hr, hok⟩ := bind_eq_ok.mp hstep
  obtain ⟨rfl, hresume⟩ := Prod.mk.inj (Except.ok.inj hok)
  obtain ⟨prio, hrun⟩ := schedule_runPriority hr
  obtain ⟨hcurr, hcore⟩ := runPriority_backup hsane.pid hrun
  exact .saved (fun h ↦ by cases hresume.trans h) hcurr (hcore.trans hfound.symm)

omit hsane in
theorem kernelBackup_timer {frame : Frame} (ha : e.action = .timer frame) :
    KernelBackup k e k' := by
  have hfound : allocFound k e = frame.alloc := by rw [allocFound, ha]; rfl
  rw [Step, ha, step] at hstep
  split_ifs at hstep with hcurr
  obtain ⟨t, ht, hok⟩ := bind_eq_ok.mp hstep
  obtain ⟨rfl, hresume⟩ := Prod.mk.inj (Except.ok.inj hok)
  obtain ⟨halloc, hcore⟩ := saveContext_backup hcurr ht
  exact .kept hresume.symm (halloc.trans hfound.symm) (congrArg Core.alloc hcore)

omit hsane in
theorem kernelBackup_svc {code : BitVec 16} {frame : Frame} (ha : e.action = .svc code frame) :
    KernelBackup k e k' := by
  have hfound : allocFound k e = frame.alloc := by rw [allocFound, ha]; rfl
  rw [Step, ha, step] at hstep
  split_ifs at hstep with hcurr
  obtain ⟨t, ht, hok⟩ := bind_eq_ok.mp hstep
  obtain ⟨halloc, hcore⟩ := saveContext_backup hcurr ht
  obtain ⟨-, hlast, -⟩ := saveContext_views k frame (some code) t ht
  unfold svcHandler at hok
  by_cases hcode : code = 101
  · rw [if_pos hcode, hlast] at hok
    obtain ⟨r, hr, hok⟩ := bind_eq_ok.mp hok
    obtain ⟨rfl, hresume⟩ := Prod.mk.inj (Except.ok.inj hok)
    obtain ⟨hcurr', hcore'⟩ := runProcess_backup hcurr hr
    exact .saved (fun h ↦ by cases hresume.trans h) hcurr' ((hcore'.trans halloc).trans hfound.symm)
  · rw [if_neg hcode] at hok
    obtain ⟨s, hs, hok⟩ := bind_eq_ok.mp hok
    obtain ⟨rfl, hresume⟩ := Prod.mk.inj (Except.ok.inj hok)
    have hsame := syscall_backup _ s hs
    exact .kept hresume.symm (halloc.trans hfound.symm) (congrArg Core.alloc (hsame.trans hcore))

theorem kernelBackup_of_step : KernelBackup k e k' := by
  cases ha : e.action with
  | start => exact kernelBackup_start hstep ha
  | svc code frame => exact kernelBackup_svc hstep ha
  | timer frame => exact kernelBackup_timer hstep ha
  | schedule counter => exact kernelBackup_schedule hsane hstep ha

omit hsane in
/-- Only a trap starts in user mode. -/
theorem frame_of_step (hcurr : k.sys.currPid ≠ 0) : e.action.frame ≠ none := by
  intro hframe
  cases ha : e.action with
  | start =>
    rw [Step, ha, step, if_neg fun h ↦ hcurr h.1] at hstep
    cases hstep
  | svc code frame => cases (ha ▸ hframe : (Action.svc code frame).frame = none)
  | timer frame => cases (ha ▸ hframe : (Action.timer frame).frame = none)
  | schedule counter =>
    rw [Step, ha, step, if_neg fun h ↦ hcurr h.1] at hstep
    cases hstep

end Steps

/-! ### Runs -/

section Runs

variable {boot : Boot} {history : History} {k : Kernel}

theorem trappedAlloc_of_none {t : Transition Kernel Event} {past : History}
    (h : t.label.action.frame = none) : trappedAlloc boot (t :: past) = trappedAlloc boot past := by
  rw [trappedAlloc, h]

theorem trappedAlloc_of_some {t : Transition Kernel Event} {past : History} {frame : Frame}
    (h : t.label.action.frame = some frame) : trappedAlloc boot (t :: past) = frame.alloc := by
  rw [trappedAlloc, h]

/-- What a step finds in the globals is what the last trap has left there. -/
theorem allocFound_eq {past : History} {e : Event} {k' : Kernel} (hstep : Step k e k')
    (hglobals : k.sys.currPid = 0 → k.alloc = trappedAlloc boot past) :
    allocFound k e = trappedAlloc boot (⟨k, e, k'⟩ :: past) := by
  cases hframe : e.action.frame with
  | none =>
    have hcurr : k.sys.currPid = 0 := by
      by_contra hcurr
      exact frame_of_step hstep hcurr hframe
    rw [allocFound, hframe, trappedAlloc_of_none hframe]
    exact hglobals hcurr
  | some frame => rw [allocFound, hframe, trappedAlloc_of_some hframe]

/-- After `init_proc` the globals and the backup are those of the kernel heap. -/
theorem initProc_backup (h : initProc boot = .ok k) :
    k.alloc = initAlloc boot ∧ (k.sys.procs kernelPid).memConf.alloc = initAlloc boot := by
  obtain ⟨s, -, hsys⟩ := initProc_eq_ok h
  have hbackup : (k.sys.procs kernelPid).memConf.alloc = initAlloc boot := by
    have hne : kernelPid ≠ initPid := by decide
    rw [hsys]
    simp only [SystemState.modify_procs, if_neg hne, if_true]
  refine ⟨?_, hbackup⟩
  obtain ⟨t, -, h⟩ := bind_eq_ok.mp h
  obtain ⟨u, -, h⟩ := bind_eq_ok.mp h
  obtain ⟨_, -, h⟩ := bind_eq_ok.mp h
  rw [← Except.ok.inj h]
  have hne : kernelPid ≠ initPid := by decide
  simp only [restoreAllocConf, saveAllocConf, SystemState.modify_procs, if_neg hne, if_true]
  rfl

/-- In kernel mode the globals are those found at the last trap, and the backup of the kernel holds
those of the last call of `run_process`. -/
theorem BootRun.kernelAlloc_eq (hrun : BootRun boot history k) :
    (k.sys.currPid = 0 → k.alloc = trappedAlloc boot history) ∧
      (k.sys.cores kernelPid).alloc = savedAlloc boot history := by
  refine hrun.invariant (I := fun history k ↦ (k.sys.currPid = 0 →
    k.alloc = trappedAlloc boot history) ∧
    (k.sys.cores kernelPid).alloc = savedAlloc boot history) (fun k hk ↦ ?_)
    fun past k e k' hpast ⟨hglobals, hbackup⟩ hstep ↦ ?_
  · obtain ⟨halloc, hkernel⟩ := initProc_backup hk
    exact ⟨fun _ ↦ halloc, hkernel⟩
  · have hfound := allocFound_eq hstep hglobals
    cases kernelBackup_of_step (SysRun.sane (BootRun.sysRun hpast)) hstep with
    | kept hresume halloc hcore =>
      refine ⟨fun _ ↦ halloc.trans hfound, ?_⟩
      rw [hcore, hbackup, savedAlloc, if_pos hresume]
    | saved hresume hcurr hcore =>
      refine ⟨fun h ↦ absurd h hcurr, ?_⟩
      rw [hcore, hfound, savedAlloc, if_neg hresume]

/-- While the traps find the globals of the kernel heap, they are saved. -/
theorem TrapsWithKernelHeap.savedAlloc_eq (h : TrapsWithKernelHeap boot history) :
    savedAlloc boot history = initAlloc boot := by
  induction history with
  | nil => rfl
  | cons t past ih =>
    obtain ⟨hresume, hpast⟩ := h
    rw [savedAlloc]
    split_ifs with hnone
    · exact ih hpast
    · exact hresume hnone

/-- A run in which every trap finds the globals of the kernel heap. -/
theorem trapsWithKernelHeap_of_forall
    (h : ∀ t ∈ history, ∀ frame, t.label.action.frame = some frame → frame.alloc = initAlloc boot) :
    trappedAlloc boot history = initAlloc boot ∧ TrapsWithKernelHeap boot history := by
  induction history with
  | nil => exact ⟨rfl, trivial⟩
  | cons t past ih =>
    obtain ⟨hpast, htraps⟩ := ih fun u hu ↦ h u (List.mem_cons_of_mem t hu)
    have htrapped : trappedAlloc boot (t :: past) = initAlloc boot := by
      cases hframe : t.label.action.frame with
      | none => exact (trappedAlloc_of_none hframe).trans hpast
      | some frame =>
        exact (trappedAlloc_of_some hframe).trans (h t List.mem_cons_self frame hframe)
    exact ⟨htrapped, fun _ ↦ htrapped, htraps⟩

/-- The backup of the kernel is that of the kernel heap in every state of a run exactly when every
process is resumed after a trap that found the globals of the kernel heap. -/
theorem kernelHeap_kept_iff (hrun : BootRun boot history k) :
    (∀ t ∈ history, KernelHeapKept boot t.post) ↔ TrapsWithKernelHeap boot history := by
  induction hrun with
  | start hinit => exact ⟨fun _ ↦ trivial, fun _ t ht ↦ absurd ht List.not_mem_nil⟩
  | @next past k k' e hrun hstep ih =>
    have hbackup : (k'.sys.procs kernelPid).memConf.alloc = savedAlloc boot (⟨k, e, k'⟩ :: past) :=
      (BootRun.kernelAlloc_eq (.next hrun hstep)).2
    have hpost : TrapsWithKernelHeap boot past → (KernelHeapKept boot k' ↔
        (e.resume ≠ none → trappedAlloc boot (⟨k, e, k'⟩ :: past) = initAlloc boot)) := by
      intro hpast
      rw [KernelHeapKept, hbackup, savedAlloc]
      split_ifs with hresume
      · exact ⟨fun _ h ↦ absurd hresume h, fun _ ↦ hpast.savedAlloc_eq⟩
      · exact ⟨fun h _ ↦ h, fun h ↦ h hresume⟩
    rw [List.forall_mem_cons, TrapsWithKernelHeap, ih]
    exact and_congr_left hpost

end Runs

/-- `init` is interrupted before it has allocated anything. -/
theorem kernelHeap_kept_sampleBoot :
    ∃ history k, BootRun sampleBoot history k ∧ history.length = 3 ∧
    ∀ t ∈ history, KernelHeapKept sampleBoot t.post := by
  obtain ⟨history, k, hrun, hstate⟩ := exists_bootRun sampleBoot [.start, .timer (sampleFrame []),
    .schedule 0] (fun history _ ↦ history.length = 3 ∧
      ∀ t ∈ history, ∀ frame ∈ t.label.action.frame,
      frame.alloc = initAlloc sampleBoot) (by decide +kernel)
  obtain ⟨hlength, htraps⟩ := of_decide_eq_true hstate
  exact ⟨history, k, hrun, hlength,
    (kernelHeap_kept_iff hrun).mpr (trapsWithKernelHeap_of_forall htraps).2⟩

/-- `init` allocates a page, and is interrupted: the backup of the kernel is that of the heap of
`init`. -/
theorem not_kernelHeapKept_sampleBoot : ∃ history k, BootRun sampleBoot history k ∧
    (k.sys.procs kernelPid).memConf.alloc = ⟨0x4600000, 0x1000, 0x4600000⟩ ∧
    ¬ KernelHeapKept sampleBoot k := by
  obtain ⟨history, k, hrun, hstate⟩ := exists_bootRun sampleBoot
    [.start, .timer { sampleFrame [] with alloc := ⟨0x4600000, 0x1000, 0x4600000⟩ }, .schedule 0]
    (fun _ k ↦ (k.sys.procs kernelPid).memConf.alloc = ⟨0x4600000, 0x1000, 0x4600000⟩)
    (by decide +kernel)
  have hkernel := of_decide_eq_true hstate
  refine ⟨history, k, hrun, hkernel, fun hkept ↦ ?_⟩
  exact absurd (hkernel.symm.trans hkept) (by decide)

end SysresOs.Proc
