import SysresOs.Memory.UserCopy
import SysresOs.Trap.Switch

/-!
# The system call that is dispatched

The entry code reads `ESR_EL1` twice for an `SVC`: for `save_context`, and again for the C handler
behind that call. In between `back_up_buff_svc` copies the message of a `send` or an `acknowledge`,
and where a page of the message is not mapped yet, the copy is interrupted by a data abort.
`el1_sync_handler` restores `SPSR_EL1` and `ELR_EL1`, but `ESR_EL1` keeps the syndrome of the abort,
and its low bits are taken for the number of the system call (`dispatches_iff`).
-/

set_option autoImplicit false
set_option relaxedAutoImplicit false

namespace SysresOs.Trap

open SysresOs.AArch64 SysresOs.Outcome

open SysresOs.Mmu hiding Word

open SysresOs.Proc (buffSize)

/-- `ESR_EL1` after `SVC #k`. -/
def svcEsr (k : BitVec 16) : Word := 0x56000000 ||| k.setWidth 64

/-- The bytes that `back_up_buff_svc` reads for an address and a size, into the buffer at `buff`. -/
def messageBytes (buff : Word) (svcCode : BitVec 16) (addr size : Word) : List Word :=
  if (svcCode = 3 ∨ svcCode = 5) ∧ addr ≠ 0 ∧ 0 < size.toNat then
    (memmoveOrder buff addr (if size.toNat < buffSize then size.toNat else buffSize)).map fun i ↦
      addr + BitVec.ofNat 64 i
  else []

section Runs

variable (link : Linkage) (call : Callee → Cpu → Cpu) (c : CopyContext)

/-- Aborts of reads or of writes that are taken one after another by code that runs with
`SP_EL0`. -/
def takeAborts (write : Bool) : List (Abort × Word) → Cpu → Option Cpu
  | [], s => some s
  | (abort, va) :: aborts, s =>
    (runSync link call (abortEsr abort write) va s .currElSp0).bind (takeAborts write aborts)

/-- `save_context`, called in the state `t`, with the aborts of its copy. -/
def runSaveContext (n : ℕ) (buff : Word) (t : Cpu) (m : MmuState) : Option Cpu :=
  let d := saveContext (fun _ ↦ 0) t
  match accesses c false n (messageBytes buff ((t.x 5).setWidth 16) (d.registers 1) (d.registers 2))
    m with
  | .error _ => none
  | .ok (_, aborts) => takeAborts link call false aborts (step call t (.bl .saveContext))

/-- An `SVC` of a process, up to the C handler: the argument of `c_el1_svc_aarch64_handler`. -/
def runSvcHandler (n : ℕ) (buff esr far : Word) (s : Cpu) (m : MmuState) : Option Word := do
  let t ← runSvc link call esr far s
  let u ← runSaveContext link call c n buff t m
  some ((exec call (lowerElEl1SvcEnd link.mmuTablesStart) u).x 0)

/-- The C handler is called, and dispatches on `k`. -/
def Dispatches (buff far : Word) (s : Cpu) (m : MmuState) (k : BitVec 16) : Prop :=
  ∃ n esr, runSvcHandler link call c n buff (svcEsr k) far s m = some esr ∧ esr.setWidth 16 = k

/-- The C functions leave `ESR_EL1` alone, and `mask_timer_irq` all system registers. -/
structure SparesEsr (top : Space → Word) : Prop where
  aapcs : Aapcs top (call .maskTimerIrq)
  system : KeepsSystem (call .maskTimerIrq)
  esr : ∀ f s, (call f s).system .esrEl1 = s.system .esrEl1

variable {link call c} {top : Space → Word} (h : SparesEsr call top)
include h

/-! ### `ESR_EL1` -/

omit h in
/-- What the handlers make of `ESR_EL1`: the code in front of the C handler of a system call. -/
theorem x0_lowerElEl1SvcEnd (call : Callee → Cpu → Cpu) (mmuTablesStart : Word) (u : Cpu) :
    (exec call (lowerElEl1SvcEnd mmuTablesStart) u).x 0 = u.system .esrEl1 := by
  simp [lowerElEl1SvcEnd, exec, step, effect, Cpu.next, Cpu.set]

theorem spares_of_no_msr (code : Code) (hcode : ∀ i ∈ code, ∀ a, i ≠ .msr .esrEl1 a) (s : Cpu) :
    (exec call code s).system .esrEl1 = s.system .esrEl1 := by
  refine exec_spares (fun i hi ↦ ?_) s
  cases i with
  | msr r a => exact fun heq ↦ hcode _ hi a (by rw [heq])
  | bl f => exact h.esr f
  | _ => trivial

/-- The handler of an abort returns with the syndrome of the abort. -/
theorem esr_runSync {esr far : Word} {s t : Cpu}
    (ht : runSync link call esr far s .currElSp0 = some t) : t.system .esrEl1 = esr := by
  obtain rfl := Option.some.inj ht
  have hstub := spares_of_no_msr h currElSp0Sync (by simp [currElSp0Sync])
    (takeException (link.address .currElSp0Sync) esr far s)
  have hhandler := spares_of_no_msr h (el1SyncHandler link.mmuTablesStart)
    (by simp [el1SyncHandler]) (jump (link.address .el1SyncHandler) (exec call currElSp0Sync
      (takeException (link.address .currElSp0Sync) esr far s)))
  exact hhandler.trans hstub

theorem esr_takeAborts {aborts : List (Abort × Word)} {s t : Cpu}
    (ht : takeAborts link call false aborts s = some t) :
    t.system .esrEl1 = (aborts.getLast?.map fun a ↦ abortEsr a.1 false).getD
      (s.system .esrEl1) := by
  induction aborts generalizing s with
  | nil =>
    obtain rfl := Option.some.inj ht
    rfl
  | cons a aborts ih =>
    obtain ⟨u, hu, ht⟩ := Option.bind_eq_some_iff.mp ht
    rw [ih ht, esr_runSync h hu]
    cases aborts with
    | nil => rfl
    | cons b aborts =>
      rw [List.getLast?_cons_cons, List.getLast?_eq_some_getLast (List.cons_ne_nil b aborts)]; rfl

omit h in
/-- The handler of an abort is entered whatever the state. -/
theorem exists_takeAborts (write : Bool) (aborts : List (Abort × Word)) (s : Cpu) :
    ∃ t, takeAborts link call write aborts s = some t := by
  induction aborts generalizing s with
  | nil => exact ⟨s, rfl⟩
  | cons a aborts ih => exact ih _

/-! ### The call of `save_context` -/

omit h in
theorem svcEsr_class (k : BitVec 16) : (svcEsr k &&& 0xfc000000) >>> 26 = 21 := by
  have hlow : k.setWidth 64 &&& (0xfc000000 : Word) = 0 := by
    refine BitVec.eq_of_getLsbD_eq fun i _ ↦ ?_
    rw [BitVec.getLsbD_and, BitVec.getLsbD_setWidth]
    rcases Nat.lt_or_ge i 16 with hi | hi
    · have hmask : ∀ i < 16, (0xfc000000 : Word).getLsbD i = false := by decide
      rw [hmask i hi, Bool.and_false]
      exact (BitVec.getLsbD_zero).symm
    · rw [BitVec.getLsbD_of_ge k i hi, Bool.and_false, Bool.false_and]
      exact (BitVec.getLsbD_zero).symm
  rw [svcEsr, BitVec.and_or_distrib_right, hlow]
  decide

omit h in
theorem svcEsr_setWidth (k : BitVec 16) : (svcEsr k).setWidth 16 = k := by
  rw [svcEsr, BitVec.setWidth_or, BitVec.setWidth_setWidth_of_le _ (by decide), BitVec.setWidth_eq]
  exact BitVec.zero_or

omit h in
theorem x5_lowerElEl1Svc (call : Callee → Cpu → Cpu) (u : Cpu) :
    (exec call lowerElEl1Svc u).x 5 = (exec call lowerElEl1Svc u).system .esrEl1 := by
  have hcode : lowerElEl1Svc = lowerElEl1Svc.dropLast ++ [.mrs 5 .esrEl1] := rfl
  rw [hcode, exec_append]
  generalize exec call lowerElEl1Svc.dropLast u = v
  simp [exec, step, effect, Cpu.next, Cpu.set]

variable (link) in
omit h in
/-- An `SVC` reaches `save_context`, with the registers of the process on the stack and the syndrome
in `x5`. -/
theorem runSvc_spec (k : BitVec 16) (far : Word) (s : Cpu) (h : SparesEsr call s.sp) :
    ∃ t, runSvc link call (svcEsr k) far s = some t ∧ t.x 5 = svcEsr k ∧
      t.system .esrEl1 = svcEsr k ∧
      (saveContext (fun _ ↦ 0) t).Of s := by
  have hentered := lowerElSync_entered link call (svcEsr k) far s
  have hsvc : (lowerElSync link call (svcEsr k) far s).pstate.getLsbD 30 = true := by
    rw [hentered.flag, svcEsr_class]
    exact decide_eq_true rfl
  have hrun : runSvc link call (svcEsr k) far s =
      some (exec call lowerElEl1Svc (lowerElSync link call (svcEsr k) far s)) := if_pos hsvc
  have hesr : (lowerElSync link call (svcEsr k) far s).system .esrEl1 = svcEsr k :=
    spares_of_no_msr h lowerElEl1SyncHandler (by simp [lowerElEl1SyncHandler]) _
  have hesr' : (exec call lowerElEl1Svc (lowerElSync link call (svcEsr k) far s)).system .esrEl1 =
      svcEsr k :=
    (spares_of_no_msr h lowerElEl1Svc (by simp [lowerElEl1Svc]) _).trans hesr
  exact ⟨_, hrun, (x5_lowerElEl1Svc call _).trans hesr', hesr',
    runSvc_stored link h.aapcs h.system hrun⟩

omit h in
/-- What the C handler is called with, by the outcome of the copy. -/
theorem runSvcHandler_eq (n : ℕ) (buff far : Word) (s : Cpu) (m : MmuState) (k : BitVec 16)
    (h : SparesEsr call s.sp) : runSvcHandler link call c n buff (svcEsr k) far s m =
      match accesses c false n (messageBytes buff k (s.x 1) (s.x 2)) m with
      | .error _ => none
      | .ok (_, aborts) =>
          some ((aborts.getLast?.map fun a ↦ abortEsr a.1 false).getD (svcEsr k)) := by
  obtain ⟨t, ht, hx5, hesr, hstored⟩ := runSvc_spec link k far s h
  have haddr : (saveContext (fun _ ↦ 0) t).registers 1 = s.x 1 := hstored.registers 1 (by decide)
  have hsize : (saveContext (fun _ ↦ 0) t).registers 2 = s.x 2 := hstored.registers 2 (by decide)
  have hrun : runSaveContext link call c n buff t m =
      match accesses c false n (messageBytes buff k (s.x 1) (s.x 2)) m with
      | .error _ => none
      | .ok (_, aborts) => takeAborts link call false aborts (step call t (.bl .saveContext)) := by
    rw [runSaveContext, hx5, svcEsr_setWidth, haddr, hsize]
  rw [runSvcHandler, ht, Option.bind_eq_bind, Option.bind_some, hrun]
  cases accesses c false n (messageBytes buff k (s.x 1) (s.x 2)) m with
  | error stop => rfl
  | ok r =>
    obtain ⟨u, hu⟩ :
        ∃ u, takeAborts link call false r.2 (step call t (.bl .saveContext)) = some u :=
      exists_takeAborts false r.2 _
    have hcall : (step call t (.bl .saveContext)).system .esrEl1 = svcEsr k :=
      (h.esr _ _).trans hesr
    dsimp only
    rw [hu]
    change some _ = some _
    rw [x0_lowerElEl1SvcEnd, esr_takeAborts h hu, hcall]

omit h in
/-- If the right system call is dispatched, the copy of the message has raised no abort. -/
theorem Dispatches.silent {buff far : Word} {s : Cpu} {m : MmuState} {k : BitVec 16}
    (h : SparesEsr call s.sp) (hdispatches : Dispatches link call c buff far s m k) :
    ∀ va ∈ messageBytes buff k (s.x 1) (s.x 2), kernelAbort m va false = none := by
  obtain ⟨n, esr, hrun, hk⟩ := hdispatches
  rw [runSvcHandler_eq n buff far s m k h] at hrun
  cases hr : accesses c false n (messageBytes buff k (s.x 1) (s.x 2)) m with
  | error stop =>
    rw [hr] at hrun
    exact nomatch hrun
  | ok r =>
    obtain ⟨t, aborts⟩ := r
    rw [hr] at hrun
    cases hlast : aborts.getLast? with
    | none =>
      rw [List.getLast?_eq_none_iff] at hlast
      rw [hlast] at hr
      exact none_of_accesses hr
    | some a =>
      -- The number of a `send` or an `acknowledge` is no fault status code.
      intro va hva
      have hcode : k = 3 ∨ k = 5 := by
        by_contra hcode
        rw [messageBytes, if_neg fun hmessage ↦ hcode hmessage.1] at hva
        exact List.not_mem_nil hva
      dsimp only at hrun
      rw [hlast] at hrun
      obtain rfl := Option.some.inj hrun
      have habort : ∀ b : Abort, (abortEsr b false).setWidth 16 ≠ (3 : BitVec 16) ∧
          (abortEsr b false).setWidth 16 ≠ (5 : BitVec 16) := by
        intro b
        cases b <;> decide
      obtain ⟨hthree, hfive⟩ := habort a.1
      rcases hcode with rfl | rfl
      · exact absurd hk hthree
      · exact absurd hk hfive

omit h in
/-- The system call that is dispatched is the one that is asked for exactly if the copy of the
message raises no abort: it is no `send` and no `acknowledge`, it has no message, or the process has
all bytes of it mapped. -/
theorem dispatches_iff (link : Linkage) (buff far : Word) (s : Cpu) (m : MmuState) (k : BitVec 16)
    (h : SparesEsr call s.sp) : Dispatches link call c buff far s m k ↔
      ∀ va ∈ messageBytes buff k (s.x 1) (s.x 2), kernelAbort m va false = none := by
  refine ⟨fun hdispatches ↦ hdispatches.silent h, fun hnone ↦ ⟨1, svcEsr k, ?_, svcEsr_setWidth k⟩⟩
  rw [runSvcHandler_eq 1 buff far s m k h, accesses_of_none hnone 0]
  rfl

end Runs

/-! ### A message in a new page -/

/-- A process that sends one byte of a page of its heap that it has not touched yet. -/
def sendCpu : Cpu :=
  { sampleCpu with x := Function.update (Function.update sampleCpu.x 1 0x8001000) 2 1 }

theorem sparesEsr_idle (top : Space → Word) : SparesEsr idle top where
  aapcs := aapcs_idle top .maskTimerIrq
  system := keepsSystem_idle .maskTimerIrq
  esr _ _ := rfl

theorem dispatches_iff_sendCpu :
    Dispatches sampleLink idle sampleContext 0x7000 0 sendCpu sampleCopy 3 ↔
    ∀ va ∈ messageBytes 0x7000 3 (sendCpu.x 1)
    (sendCpu.x 2), kernelAbort sampleCopy va false = none :=
  dispatches_iff sampleLink 0x7000 0 sendCpu sampleCopy 3 (sparesEsr_idle _)

/-- The page is mapped when the kernel reads the byte, and then the system call 7 is dispatched in
place of `send`. -/
theorem not_dispatches_sendCpu :
    ¬ Dispatches sampleLink idle sampleContext 0x7000 0 sendCpu sampleCopy 3 ∧
      (runSvcHandler sampleLink idle sampleContext 2 0x7000 (svcEsr 3) 0 sendCpu sampleCopy).map
        (fun esr ↦ esr.setWidth 16) = some (7 : BitVec 16) := by
  refine ⟨fun hdispatches ↦ ?_, by decide +kernel⟩
  have hmem : (0x8001000 : Word) ∈ messageBytes 0x7000 3 (sendCpu.x 1) (sendCpu.x 2) := by decide
  have hnone := hdispatches.silent (sparesEsr_idle _) _ hmem
  have habort : kernelAbort sampleCopy 0x8001000 false = some .lvl3 := by decide +kernel
  exact nomatch habort.symm.trans hnone

end SysresOs.Trap
