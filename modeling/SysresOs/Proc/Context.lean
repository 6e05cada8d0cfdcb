import SysresOs.Proc.Core

/-!
# The saved context

A trap saves the registers of the running process, and nothing but its system call assigns `x0` in
them before it is resumed: the registers, the program counter, the stack pointer and the processor
state of a process are those of its last trap (`SysRun.saved`).
-/

set_option autoImplicit false
set_option relaxedAutoImplicit false

namespace SysresOs.Proc

open SysresOs.Outcome SysresOs.Trace

/-- The saved context without the general registers. -/
@[ext] structure Place where
  pc : BitVec 64
  sp : BitVec 64
  pstate : BitVec 64
  deriving DecidableEq

/-- The place where a process goes on. -/
def ProcDescriptor.place (d : ProcDescriptor) : Place :=
  ⟨d.savedContext.pc, d.savedContext.sp, d.savedContext.pstate⟩

/-- The places of all processes. -/
def SystemState.places (s : SystemState) : Pid → Place := fun q ↦ (s.procs q).place

/-- The place of a trap. -/
def Frame.place (frame : Frame) : Place := ⟨frame.pc, frame.sp, frame.pstate⟩

theorem place_steady : Steady ProcDescriptor.place :=
  ⟨fun _ _ _ ↦ rfl, fun _ _ ↦ rfl, fun _ _ ↦ rfl, fun _ _ ↦ rfl, fun _ _ ↦ rfl,
    fun _ _ ↦ rfl, fun _ _ ↦ rfl⟩

theorem place_unlinked : Unlinked ProcDescriptor.place :=
  ⟨fun _ _ ↦ rfl, fun _ _ ↦ rfl, fun _ _ _ ↦ rfl⟩

theorem places_modify (s : SystemState) (p : Pid) (f : ProcDescriptor → ProcDescriptor) :
    (s.modify p f).places = Function.update s.places p (f (s.procs p)).place := by
  funext q
  rw [SystemState.places, SystemState.modify_procs, Function.update_apply]
  split_ifs <;> rfl

/-! ### The paths of the kernel -/

/-- `fork` keeps the places of the processes that there are. -/
theorem syscallFork_place {s : SystemState} (mmuTablesStart : BitVec 64) {q : Pid}
    (hq : s.states q ≠ .free) :
    Yields (syscallFork mmuTablesStart s) fun s' ↦ s'.places q = s.places q := by
  intro s' hs'
  cases forks_of_syscallFork mmuTablesStart s s' hs' with
  | failed no =>
    have hplaces : Has ProcDescriptor.place s.places s := fun _ ↦ rfl
    exact hplaces.modify s.lastPid (f := (·.fail no)) (fun _ ↦ rfl) q
  | forked child t u hfind _ ht hu =>
    have hne : q ≠ child := by
      rintro rfl
      exact hq (findFreeProc_free hfind).2
    have hslot := has_forkSlot ProcDescriptor.place (fun _ _ ↦ rfl) s child
    have hadded := place_unlinked.addChild hslot s.lastPid child t ht
    have hrunnable := place_steady.changeState hadded child .runnable u hu q
    rw [places_modify, Function.update_of_ne hne, places_modify, Function.update_of_ne hne]
    exact hrunnable.trans (Function.update_of_ne hne ..)

/-- So do the other system calls. -/
theorem syscall_place {s : SystemState} {code : BitVec 16} (mmuTablesStart : BitVec 64) {q : Pid}
    (hq : s.states q ≠ .free) :
    Yields (syscall code mmuTablesStart s) fun s' ↦ s'.places q = s.places q := by
  have h : Has ProcDescriptor.place s.places s := fun _ ↦ rfl
  have hplace := place_steady
  have hlinks := place_unlinked
  have hat : ∀ {x : Except Stop SystemState}, Yields x (Has ProcDescriptor.place s.places) →
      Yields x fun s' ↦ s'.places q = s.places q := fun hx s' hs' ↦ hx s' hs' q
  exact Yields.ite (fun _ ↦ syscallFork_place mmuTablesStart hq) fun _ ↦
    Yields.ite (fun _ ↦ hat (hplace.syscallExit hlinks h)) fun _ ↦
    Yields.ite (fun _ ↦ hat (hplace.syscallWait hlinks h)) fun _ ↦
    Yields.ite (fun _ ↦ hat (hplace.syscallSend h)) fun _ ↦
    Yields.ite (fun _ ↦ hat (hplace.syscallReceive h)) fun _ ↦
    Yields.ite (fun _ ↦ hat (hplace.syscallAcknowledge h)) fun _ ↦ .error

/-- A trap saves the place of the process. -/
theorem saveContext_place {k : Kernel} {frame : Frame} {svcCode : Option (BitVec 16)} :
    Yields (saveContext k frame svcCode) fun t ↦
      t.sys.places = Function.update k.sys.places k.sys.currPid frame.place := by
  intro t ht
  obtain ⟨buffer, rfl⟩ := saveContext_eq_ok ht
  exact places_modify k.sys k.sys.currPid (·.trapped frame svcCode buffer)

/-- A resumption keeps the places. -/
theorem runProcess_place {k : Kernel} {proc : Pid} :
    Yields (runProcess k proc) fun r ↦ r.1.sys.places = k.sys.places := by
  intro r hr
  obtain ⟨-, -, -, hsys, -⟩ := runProcess_eq_ok hr
  have h : Has ProcDescriptor.place k.sys.places k.sys := fun _ ↦ rfl
  have hresumed : Has ProcDescriptor.place k.sys.places r.1.sys := by
    rw [hsys]
    refine Has.modify ?_ _ fun _ ↦ rfl
    refine Has.modify ?_ _ fun _ ↦ rfl
    exact h.modify kernelPid
      (f := fun d ↦ { d with memConf := { d.memConf with alloc := k.alloc } }) fun _ ↦ rfl
  exact funext hresumed

theorem schedule_place {k : Kernel} {counter : BitVec 64} :
    Yields (schedule k counter) fun r ↦ r.1.sys.places = k.sys.places := by
  intro r hr
  obtain ⟨prio, hrun⟩ := schedule_runPriority hr
  rw [runPriority_eq] at hrun
  obtain ⟨proc, -, hrun⟩ := bind_eq_ok.mp hrun
  have hrotated : Has ProcDescriptor.place k.sys.places (rotated k.sys prio proc) :=
    Has.rotated (fun _ ↦ rfl) (fun _ _ ↦ rfl) prio proc
  exact (runProcess_place r hrun).trans (funext hrotated)

/-! ### Steps -/

/-- What the kernel finds of a process that traps. -/
def trapFrame (k : Kernel) (e : Event) (q : Pid) : Option Frame :=
  if q = k.sys.currPid then e.action.frame else none

/-- A system call sets no register but `x0` of its caller. -/
theorem Active.registers_eq {c w : View} {p : Pid} {code : BitVec 16} (h : Active c p code w)
    {i : Fin nReg} (hi : i ≠ 0) : w.registers i = c.registers i := by
  cases h <;> first | rfl | exact Function.update_of_ne hi _ _

/-- Nor of another process that there is. -/
theorem Passive.registers_eq {c v w : View} {p q : Pid} {code : BitVec 16}
    (h : Passive c v p q code w) (hlive : v.state ≠ .free) {i : Fin nReg} (hi : i ≠ 0) :
    w.registers i = v.registers i := by
  cases h with
  | born prio hfree hslot => exact absurd hfree hlive
  | kept => rfl
  | buried hzombie => rfl
  | delivered hwaits htarget => rfl
  | woken hwait => exact Function.update_of_ne hi _ _
  | receives hlisten => exact Function.update_of_ne hi _ _
  | refused hwaits htarget => exact Function.update_of_ne hi _ _
  | released hsize hack hstate htarget hsource => exact Function.update_of_ne hi _ _

/-- It leaves other processes alone that are ready to run. -/
theorem Passive.eq_of_runnable {c v w : View} {p q : Pid} {code : BitVec 16}
    (h : Passive c v p q code w) (hready : v.state = .runnable) : w = v := by
  cases h with
  | kept => rfl
  | born prio hfree hslot => exact nomatch hready.symm.trans hfree
  | woken hwait => exact nomatch hready.symm.trans hwait
  | buried hzombie => exact nomatch hready.symm.trans hzombie
  | receives hlisten => exact nomatch hready.symm.trans hlisten
  | refused hwaits htarget => exact nomatch hready.symm.trans hwaits
  | delivered hwaits htarget => exact nomatch hready.symm.trans hwaits
  | released hsize hack hstate htarget hsource => exact nomatch hready.symm.trans hstate

section Steps

variable {k k' : Kernel} {e : Event} {q : Pid} (hsane : Sane k.sys.views k.sys.currPid)
  (hstep : Step k e k') (hq : q ≠ 0) (hlive : k.sys.states q ≠ .free)
include hsane hstep hq hlive

omit hsane hq in
/-- A step saves the place of a process that traps, and keeps that of any other. -/
theorem place_of_step : k'.sys.places q = ((trapFrame k e q).map Frame.place).getD
    (k.sys.places q) := by
  have htrapped : ∀ {frame : Frame}, e.action.frame = some frame →
      Function.update k.sys.places k.sys.currPid frame.place q =
        ((trapFrame k e q).map Frame.place).getD (k.sys.places q) := by
    intro frame haction
    rw [trapFrame, haction, Function.update_apply]
    split_ifs <;> rfl
  have hidle : e.action.frame = none → k.sys.places q =
      ((trapFrame k e q).map Frame.place).getD (k.sys.places q) := by
    intro haction
    rw [trapFrame, haction, ite_self]
    rfl
  cases ha : e.action with
  | start =>
    rw [← hidle (by rw [ha]; rfl)]
    rw [Step, ha, step] at hstep
    split_ifs at hstep
    obtain ⟨r, hr, hok⟩ := bind_eq_ok.mp hstep
    obtain ⟨rfl, -⟩ := Prod.mk.inj (Except.ok.inj hok)
    exact congrFun (runProcess_place r hr) q
  | schedule counter =>
    rw [← hidle (by rw [ha]; rfl)]
    rw [Step, ha, step] at hstep
    split_ifs at hstep
    obtain ⟨r, hr, hok⟩ := bind_eq_ok.mp hstep
    obtain ⟨rfl, -⟩ := Prod.mk.inj (Except.ok.inj hok)
    exact congrFun (schedule_place r hr) q
  | timer frame =>
    rw [← htrapped (by rw [ha]; rfl)]
    rw [Step, ha, step] at hstep
    split_ifs at hstep
    obtain ⟨t, ht, hok⟩ := bind_eq_ok.mp hstep
    obtain ⟨rfl, -⟩ := Prod.mk.inj (Except.ok.inj hok)
    exact congrFun (saveContext_place t ht) q
  | svc code frame =>
    rw [← htrapped (by rw [ha]; rfl)]
    rw [Step, ha, step] at hstep
    split_ifs at hstep
    obtain ⟨t, ht, hok⟩ := bind_eq_ok.mp hstep
    refine Eq.trans ?_ (congrFun (saveContext_place t ht) q)
    unfold svcHandler at hok
    split_ifs at hok
    · obtain ⟨r, hr, hok⟩ := bind_eq_ok.mp hok
      obtain ⟨rfl, -⟩ := Prod.mk.inj (Except.ok.inj hok)
      exact congrFun (runProcess_place r hr) q
    · obtain ⟨s, hs, hok⟩ := bind_eq_ok.mp hok
      obtain ⟨rfl, -⟩ := Prod.mk.inj (Except.ok.inj hok)
      refine syscall_place _ ?_ s hs
      change (t.sys.views q).state ≠ .free
      rw [(saveContext_views k frame (some code) t ht).1, Views.set_apply]
      split_ifs with hself
      · rw [hself] at hlive
        exact hlive
      · exact hlive

/-- A step saves the registers of a process that traps, and keeps those of any other but for
`x0`. -/
theorem registers_of_step {i : Fin nReg} (hi : i ≠ 0) :
    (k'.sys.procs q).reg i = ((trapFrame k e q).map fun frame ↦ frame.registers i).getD
      ((k.sys.procs q).reg i) := by
  have hkept : q ≠ k.sys.currPid → (k.sys.procs q).reg i =
      ((trapFrame k e q).map fun frame ↦ frame.registers i).getD ((k.sys.procs q).reg i) := by
    intro hne
    rw [trapFrame, if_neg hne]
    rfl
  have htrapped : ∀ {frame : Frame}, q = k.sys.currPid → e.action.frame = some frame →
      frame.registers i =
      ((trapFrame k e q).map fun frame ↦ frame.registers i).getD ((k.sys.procs q).reg i) := by
    intro frame hself haction
    rw [trapFrame, if_pos hself, haction]
    rfl
  have hchange := (move_of_step hsane hstep).change hsane q
  change (k'.sys.views q).registers i = _
  generalize k'.sys.views q = w at hchange
  cases hchange with
  | kept hcurr hresume => exact hkept (hcurr ▸ hq)
  | unaware hne hresume => exact hkept hne
  | resumed write hresume hcurr hrun hwrite => exact hkept (hcurr ▸ hq)
  | timer frame hevent hcurr hself => exact htrapped hself (by rw [hevent]; rfl)
  | again frame write hevent hcurr hself hwrite => exact htrapped hself (by rw [hevent]; rfl)
  | active hevent hcurr hself hactive =>
    exact (hactive.registers_eq hi).trans (htrapped hself (by rw [hevent]; rfl))
  | passive hevent hcurr hne hpassive => exact (hpassive.registers_eq hlive hi).trans (hkept hne)

omit hq hlive in
/-- A step keeps `x0` of a process that is ready to run and does not trap. -/
theorem x0_of_step (hready : k.sys.states q = .runnable) (htrap : trapFrame k e q = none) :
    (k'.sys.procs q).reg 0 = (k.sys.procs q).reg 0 ∧ k'.sys.states q = .runnable := by
  have hnot : ∀ frame, q = k.sys.currPid → e.action.frame ≠ some frame := by
    intro frame hself haction
    rw [trapFrame, if_pos hself, haction] at htrap
    exact nomatch htrap
  have hchange := (move_of_step hsane hstep).change hsane q
  change (k'.sys.views q).registers 0 = (k.sys.views q).registers 0 ∧
    (k'.sys.views q).state = .runnable
  generalize k'.sys.views q = w at hchange
  cases hchange with
  | kept hcurr hresume => exact ⟨rfl, hready⟩
  | unaware hne hresume => exact ⟨rfl, hready⟩
  | resumed write hresume hcurr hrun hwrite => exact ⟨rfl, hready⟩
  | timer frame hevent hcurr hself => exact absurd (by rw [hevent]; rfl) (hnot frame hself)
  | again frame write hevent hcurr hself hwrite =>
    exact absurd (by rw [hevent]; rfl) (hnot frame hself)
  | active hevent hcurr hself hactive => exact absurd (by rw [hevent]; rfl) (hnot _ hself)
  | passive hevent hcurr hne hpassive =>
    obtain rfl := hpassive.eq_of_runnable hready
    exact ⟨rfl, hready⟩

omit hlive in
/-- A timer interrupt and the system call 101 save `x0` as it is. -/
theorem x0_of_trap {frame : Frame} (hself : q = k.sys.currPid)
    (haction : e.action = .timer frame ∨ e.action = .svc 101 frame) :
    (k'.sys.procs q).reg 0 = frame.registers 0 ∧ k'.sys.states q = .runnable := by
  have hready : (k.sys.views q).state = .runnable := by
    rw [hself]
    exact hsane.running (hself ▸ hq)
  have hchange := (move_of_step hsane hstep).change hsane q
  change (k'.sys.views q).registers 0 = frame.registers 0 ∧ (k'.sys.views q).state = .runnable
  generalize k'.sys.views q = w at hchange
  cases hchange with
  | kept hcurr hresume => exact absurd (hself.trans hcurr) hq
  | unaware hne hresume => exact absurd hself hne
  | resumed write hresume hcurr hrun hwrite => exact absurd (hself.trans hcurr) hq
  | timer frame' hevent hcurr hself' =>
    rw [hevent] at haction
    obtain rfl : frame' = frame := haction.elim Action.timer.inj fun h ↦ nomatch h
    exact ⟨rfl, hready⟩
  | again frame' write hevent hcurr hself' hwrite =>
    rw [hevent] at haction
    obtain rfl : frame' = frame := haction.elim (fun h ↦ nomatch h) fun h ↦ (Action.svc.inj h).2
    exact ⟨rfl, hready⟩
  | active hevent hcurr hself' hactive =>
    rw [hevent] at haction
    obtain ⟨rfl, -⟩ := Action.svc.inj (haction.elim (fun h ↦ nomatch h) id)
    -- The system call 101 goes back to the process in the same step.
    have hmove := move_of_step hsane hstep
    rw [hevent] at hmove
    generalize k'.sys.views = V', k'.sys.currPid = currPid' at hmove
    cases hmove with
    | syscall hcurr hcode houtcome => exact absurd rfl hcode
  | passive hevent hcurr hne hpassive => exact absurd hself hne

end Steps

/-! ### Runs -/

/-- The last trap of the process in a slot. -/
def lastTrap : History → Pid → Option Action
  | [], _ => none
  | t :: past, q =>
    if (trapFrame t.pre t.label q).isSome then some t.label.action
    else if t.pre.sys.states q = .free then none
    else lastTrap past q

/-- The trap is a timer interrupt or the system call 101, which have no result. -/
def Action.Silent (a : Action) : Prop := ∃ frame, a = .timer frame ∨ a = .svc 101 frame

/-- The descriptor holds what a trap saved. -/
structure Saved (k : Kernel) (q : Pid) (a : Action) (frame : Frame) : Prop where
  place : k.sys.places q = frame.place
  registers : ∀ i ≠ 0, (k.sys.procs q).reg i = frame.registers i
  x0 : a.Silent → (k.sys.procs q).reg 0 = frame.registers 0 ∧ k.sys.states q = .runnable

/-- The descriptor of a process holds what its last trap saved. -/
theorem SysRun.saved {history : History} {k : Kernel} (hrun : SysRun history k)
    {q : Pid} (hq : q ≠ 0) (hlive : k.sys.states q ≠ .free) {a : Action} {frame : Frame}
    (htrap : lastTrap history q = some a) (hframe : a.frame = some frame) : Saved k q a frame := by
  refine hrun.invariant (I := fun history k ↦ k.sys.states q ≠ .free →
    ∀ a, lastTrap history q = some a →
    a.frame = some frame → Saved k q a frame) (fun k _ _ a htrap ↦ nomatch htrap)
    (fun history k e k' hrun ih hstep hlive a htrap hframe ↦ ?_) hlive a htrap hframe
  have hsane := SysRun.sane hrun
  rw [lastTrap] at htrap
  split_ifs at htrap with hself hfree
  · obtain rfl := Option.some.inj htrap
    have hcurr : q = k.sys.currPid := by
      by_contra hne
      rw [trapFrame, if_neg hne] at hself
      exact Bool.false_ne_true hself
    have htrapped : trapFrame k e q = some frame := by
      rw [trapFrame, if_pos hcurr]
      exact hframe
    have hpre : k.sys.states q ≠ .free := by
      have hrunning := hsane.running (hcurr ▸ hq)
      rw [← hcurr] at hrunning
      exact fun hfree ↦ nomatch hrunning.symm.trans hfree
    refine ⟨?_, fun i hi ↦ ?_, fun hsilent ↦ ?_⟩
    · rw [place_of_step hstep hpre, htrapped]
      rfl
    · rw [registers_of_step hsane hstep hq hpre hi, htrapped]
      rfl
    · obtain ⟨frame', haction⟩ := hsilent
      obtain rfl : frame' = frame := by
        rcases haction with h | h <;> rw [h] at hframe <;> exact Option.some.inj hframe
      exact x0_of_trap hsane hstep hq hcurr haction
  · have hnone : trapFrame k e q = none := Option.not_isSome_iff_eq_none.mp hself
    obtain ⟨hplace, hregisters, hx0⟩ := ih hfree a htrap hframe
    refine ⟨?_, fun i hi ↦ ?_, fun hsilent ↦ ?_⟩
    · rw [place_of_step hstep hfree, hnone]
      exact hplace
    · rw [registers_of_step hsane hstep hq hfree hi, hnone]
      exact hregisters i hi
    · obtain ⟨heq, hready⟩ := hx0 hsilent
      obtain ⟨hkept, hready'⟩ := x0_of_step hsane hstep hready hnone
      exact ⟨hkept.trans heq, hready'⟩

/-- A process that is resumed is ready to run. -/
theorem SysRun.ready_of_resume {past : History} {t : Transition Kernel Event} {k : Kernel}
    (hrun : SysRun (t :: past) k) {p : Pid} {write : Option (BitVec 64 × List (BitVec 8))}
    (hresume : t.label.resume = some ⟨p, write⟩) : p ≠ 0 ∧ k.sys.states p = .runnable := by
  obtain ⟨hpost, hstep, hpast⟩ := hrun.last
  have hsane := SysRun.sane hrun
  rw [← hpost] at hsane ⊢
  have hmove := move_of_step (SysRun.sane hpast) hstep
  generalize t.label = e, t.pre.sys.views = V, t.pre.sys.currPid = currPid at hmove hresume
  suffices hcurr : p ≠ 0 ∧ t.post.sys.currPid = p by
    obtain ⟨hp, rfl⟩ := hcurr
    exact ⟨hp, hsane.running hp⟩
  generalize t.post.sys.views = V', t.post.sys.currPid = currPid' at hmove
  cases hmove with
  | timer frame hcurr => exact nomatch hresume
  | syscall hcurr hcode houtcome => exact nomatch hresume
  | again frame write' hcurr hwrite =>
    obtain rfl : currPid = p := congrArg Resume.pid (Option.some.inj hresume)
    exact ⟨hcurr, rfl⟩
  | resume p' write' ha hcurr hp hrun hwrite =>
    obtain rfl : currPid' = p := congrArg Resume.pid (Option.some.inj hresume)
    exact ⟨hp, rfl⟩

theorem Buffer.length_le_of_written {buffer : Buffer} {addr : BitVec 64} {bytes : List (BitVec 8)}
    (h : buffer.written = .ok (some (addr, bytes))) : bytes.length ≤ buffSize := by
  unfold Buffer.written at h
  split_ifs at h with haddr hle
  · cases h
  · obtain ⟨-, rfl⟩ := Prod.mk.inj (Option.some.inj (Except.ok.inj h))
    rw [length_prefixBytes]
    exact hle

/-- A message that is written to a process that is resumed fits in its buffer. -/
theorem SysRun.length_le_of_resume {past : History} {t : Transition Kernel Event} {k : Kernel}
    (hrun : SysRun (t :: past) k) {p : Pid} {addr : BitVec 64} {bytes : List (BitVec 8)}
    (hresume : t.label.resume = some ⟨p, some (addr, bytes)⟩) : bytes.length ≤ buffSize := by
  obtain ⟨-, hstep, hpast⟩ := hrun.last
  have hmove := move_of_step (SysRun.sane hpast) hstep
  generalize t.label = e, t.pre.sys.views = V, t.pre.sys.currPid = currPid, t.post.sys.views = V',
    t.post.sys.currPid = currPid' at hmove hresume
  cases hmove with
  | timer frame hcurr => exact nomatch hresume
  | syscall hcurr hcode houtcome => exact nomatch hresume
  | again frame write hcurr hwrite =>
    obtain rfl := congrArg Resume.write (Option.some.inj hresume)
    exact Buffer.length_le_of_written hwrite
  | resume p' write ha hcurr hp hrun hwrite =>
    obtain rfl := congrArg Resume.write (Option.some.inj hresume)
    exact Buffer.length_le_of_written hwrite

end SysresOs.Proc
