import SysresOs.Proc.Core

/-!
# The allocator's globals belong to the running process

The globals of the heap allocator are shared by all processes. A trap saves them in the descriptor
of the process, a resumption restores them, and `fork` copies them from the parent, so that every
process finds them as it left them (`alloc_conf_isolated`).
-/

set_option autoImplicit false
set_option relaxedAutoImplicit false

namespace SysresOs.Proc

open SysresOs.Outcome SysresOs.Trace

/-- The allocator's globals as the process `q` left them: their values at its last trap or, if it
has not trapped yet, at the `fork` that made it. `init` has no parent, and finds what `init_alloc`
leaves. -/
def ownAlloc (boot : Boot) : History → Pid → AllocConf
  | [], _ => initAlloc boot
  | t :: past, q =>
    match t.label.action.frame with
    | none => ownAlloc boot past q
    | some frame =>
      if q = t.pre.sys.currPid ∨ (t.pre.sys.states q = .free ∧ t.post.sys.states q ≠ .free) then
        frame.alloc
      else ownAlloc boot past q

section OwnAlloc

variable {boot : Boot} {past : History} {t : Transition Kernel Event} {q : Pid} {frame : Frame}

theorem ownAlloc_of_none (h : t.label.action.frame = none) :
    ownAlloc boot (t :: past) q = ownAlloc boot past q := by
  rw [ownAlloc, h]

theorem ownAlloc_of_mem (h : t.label.action.frame = some frame)
    (hq : q = t.pre.sys.currPid ∨ (t.pre.sys.states q = .free ∧ t.post.sys.states q ≠ .free)) :
    ownAlloc boot (t :: past) q = frame.alloc := by
  rw [ownAlloc, h]
  exact if_pos hq

theorem ownAlloc_of_not_mem (hcurr : q = t.pre.sys.currPid → t.label.action.frame = none)
    (hfree : t.pre.sys.states q = .free → t.post.sys.states q = .free) :
    ownAlloc boot (t :: past) q = ownAlloc boot past q := by
  cases h : t.label.action.frame with
  | none => exact ownAlloc_of_none h
  | some frame =>
    rw [ownAlloc, h]
    refine if_neg ?_
    rintro (hq | ⟨hpre, hpost⟩)
    · exact nomatch h.symm.trans (hcurr hq)
    · exact hpost (hfree hpre)

end OwnAlloc

/-- After `init_proc` the descriptor of `init` holds the globals of an empty heap. -/
theorem initProc_core {boot : Boot} {k : Kernel} (h : initProc boot = .ok k) :
    (k.sys.cores initPid).alloc = initAlloc boot := by
  obtain ⟨s, -, hsys⟩ := initProc_eq_ok h
  rw [hsys, cores_modify, Function.update_self, SystemState.modify_procs, if_pos rfl]
  rfl

/-- The descriptor of every process holds the globals as the process left them. -/
theorem BootRun.alloc_eq {boot : Boot} {history : History} {k : Kernel}
    (hrun : BootRun boot history k) {q : Pid} (hq : q ≠ 0) (hstate : k.sys.states q ≠ .free) :
    (k.sys.cores q).alloc = ownAlloc boot history q := by
  refine hrun.invariant (I := fun history k ↦ k.sys.states q ≠ .free →
    (k.sys.cores q).alloc = ownAlloc boot history q) (fun k hk hstate ↦ ?_)
    (fun history k e k' hrun ih hstep hstate ↦ ?_) hstate
  · obtain rfl := slot_of_boot ⟨boot, hk⟩ hq hstate
    exact initProc_core hk
  · have hsane := SysRun.sane (BootRun.sysRun hrun)
    cases coreChange_of_step hsane hstep hq with
    | kept hresume htrap hfree hcore =>
      rw [hcore, ih (fun h ↦ hstate (hfree h))]
      exact (ownAlloc_of_not_mem htrap hfree).symm
    | trapped haction hresume hcurr hcore =>
      rw [hcore]
      exact (ownAlloc_of_mem haction (.inl hcurr)).symm
    | born haction hresume hfree hnew hle hcore =>
      rw [hcore]
      refine (ownAlloc_of_mem ?_ (.inr ⟨hfree, hstate⟩)).symm
      rw [haction]
      rfl
    | resumed haction hresume halloc hcore =>
      have hpre : k.sys.states q ≠ .free := fun h ↦ hstate <|
        stays_free_of_step hsane hstep
        (fun frame hsvc ↦ by rw [hsvc] at haction; exact nomatch haction) h
      rw [hcore, ownAlloc_of_none haction]
      exact ih hpre
    | again haction hresume hcurr halloc hcore =>
      rw [hcore]
      exact (ownAlloc_of_mem haction (.inl hcurr)).symm

/-- A process that is resumed was runnable. -/
theorem Move.resumes {V V' : Views} {currPid currPid' : Pid} {e : Event}
    (h : Move V currPid e V' currPid') (hsane : Sane V currPid) {p : Pid}
    {write : Option (BitVec 64 × List (BitVec 8))} (hresume : e.resume = some ⟨p, write⟩) :
    p ≠ 0 ∧ (V p).state = .runnable := by
  cases h with
  | timer frame hcurr => exact nomatch hresume
  | syscall hcurr hcode houtcome => exact nomatch hresume
  | again frame write' hcurr hwrite =>
    obtain rfl : currPid = p := congrArg Resume.pid (Option.some.inj hresume)
    exact ⟨hcurr, hsane.running hcurr⟩
  | resume p' write' ha hcurr hp hrun hwrite =>
    obtain rfl : currPid' = p := congrArg Resume.pid (Option.some.inj hresume)
    exact ⟨hp, hrun⟩

/-- Whenever a process is resumed, the allocator's globals have the values that they had when the
process was last suspended, or when it was made by its parent. -/
theorem alloc_conf_isolated {boot : Boot} {past : History} {t : Transition Kernel Event}
    {k : Kernel} (hrun : BootRun boot (t :: past) k) {p : Pid}
    {write : Option (BitVec 64 × List (BitVec 8))}
    (hresume : t.label.resume = some ⟨p, write⟩) : t.post.alloc = ownAlloc boot (t :: past) p := by
  obtain ⟨-, hstep, hpast⟩ := hrun.last
  have hsane := SysRun.sane (BootRun.sysRun hpast)
  obtain ⟨hp, hready⟩ := (move_of_step hsane hstep).resumes hsane hresume
  cases coreChange_of_step hsane hstep hp with
  | kept hother htrap hfree hcore => exact absurd hresume (hother write)
  | trapped haction hnone hcurr hcore => exact nomatch hnone.symm.trans hresume
  | born haction hnone hfree hnew hle hcore => exact nomatch hnone.symm.trans hresume
  | resumed haction hresume' halloc hcore =>
    rw [halloc, ownAlloc_of_none haction]
    refine BootRun.alloc_eq hpast hp ?_
    change (t.pre.sys.views p).state ≠ .free
    rw [hready]
    decide
  | again haction hresume' hcurr halloc hcore =>
    rw [halloc]
    exact (ownAlloc_of_mem haction (.inl hcurr)).symm

/-- `init` forks with a heap of one page, its child allocates more and is interrupted, and `init`
finds the heap of one page. -/
theorem alloc_conf_isolated_forks : ∃ t past k, BootRun sampleBoot (t :: past) k ∧
    t.label.resume = some ⟨initPid, none⟩ ∧
    ownAlloc sampleBoot (t :: past) 2 = ⟨0x4600000, 0x3000, 0x4600000⟩ ∧
    t.post.alloc = ⟨0x4600000, 0x1000, 0x4600000⟩ := by
  obtain ⟨history, k, hrun, hstate⟩ := exists_bootRun sampleBoot
    [.start, .svc 0 { sampleFrame [15] with alloc := ⟨0x4600000, 0x1000, 0x4600000⟩ }, .schedule 0,
      .timer { sampleFrame [] with alloc := ⟨0x4600000, 0x3000, 0x4600000⟩ }, .schedule 0]
    (fun history _ ↦ (history.head?.bind (·.label.resume)) = some ⟨initPid, none⟩ ∧
      ownAlloc sampleBoot history 2 = ⟨0x4600000, 0x3000, 0x4600000⟩ ∧
      ownAlloc sampleBoot history initPid = ⟨0x4600000, 0x1000, 0x4600000⟩) (by decide +kernel)
  obtain ⟨hresume, hchild, hinit⟩ := of_decide_eq_true hstate
  cases history with
  | nil => exact nomatch hresume
  | cons t past =>
    exact ⟨t, past, k, hrun, hresume, hchild, (alloc_conf_isolated hrun hresume).trans hinit⟩

end SysresOs.Proc
