import SysresOs.Proc.Context
import SysresOs.Trap.Fault
import Mathlib.Tactic.IntervalCases

/-!
# What a trap saves

A process that traps has its registers pushed by the entry code and read from the stack by
`save_context`. What is stored is the state of the process, after an `SVC` (`runSvc_stored`) and
after a timer interrupt (`runTimer_stored`).
-/

set_option autoImplicit false
set_option relaxedAutoImplicit false

namespace SysresOs.Trap

open SysresOs.AArch64 SysresOs.Proc SysresOs.Trace

/-! ### Saving -/

/-- The loop of `save_context`, for so many pairs of registers. -/
def saveLoop (memory : Word → Word) (handlerSp : Word) (registers : ℕ → Word) (n : ℕ) : ℕ → Word :=
  (List.range n).foldl (fun registers i ↦
    let registers := Function.update registers (2 * i + 1)
      (memory (handlerSp + BitVec.ofNat 64 ((nReg - 2 * i) * 8)))
    Function.update registers (2 * i)
    (memory (handlerSp + BitVec.ofNat 64 ((nReg - 2 * i - 1) * 8)))) registers

/-- What `save_context` stores into the context of the process. -/
structure Stored where
  registers : ℕ → Word
  pc : Word
  sp : Word
  pstate : Word

/-- `save_context`, as far as it is about the context of the process. Its arguments are in `x0` to
`x3`. -/
def saveContext (registers : ℕ → Word) (s : Cpu) : Stored where
  sp := s.x 0
  pc := s.x 1
  pstate := s.x 2
  registers :=
    let registers := saveLoop (s.memory .process) (s.x 3) registers (nReg / 2)
    Function.update registers 30 (s.memory .process (s.x 3 + 8))

/-- Where the entry code has pushed a register. -/
def slot (i : ℕ) : ℕ := if i = 30 then 1 else if i % 2 = 0 then 30 - i else 32 - i

/-- After `n` rounds the first `2 * n` registers are saved. -/
theorem saveLoop_eq (memory : Word → Word) (handlerSp : Word) (registers : ℕ → Word) {n : ℕ}
    (hn : n ≤ nReg / 2) : ∀ i < 2 * n, saveLoop memory handlerSp registers n i = memory
    (handlerSp + BitVec.ofNat 64 (8 * slot i)) := by
  have hreg : nReg = 31 := rfl
  induction n with
  | zero => exact fun i hi ↦ absurd hi (Nat.not_lt_zero i)
  | succ n ih =>
    intro i hi
    unfold saveLoop
    rw [List.range_succ, List.foldl_append, List.foldl_cons, List.foldl_nil]
    change Function.update (Function.update (saveLoop memory handlerSp registers n) _ _) _ _ i = _
    by_cases heven : i = 2 * n
    · have hslot : 8 * slot i = (nReg - 2 * n - 1) * 8 := by
        rw [slot, if_neg (by omega), if_pos (by omega)]
        omega
      rw [hslot, heven, Function.update_self]
    · by_cases hodd : i = 2 * n + 1
      · have hslot : 8 * slot i = (nReg - 2 * n) * 8 := by
          rw [slot, if_neg (by omega), if_neg (by omega)]
          omega
        rw [hslot, Function.update_of_ne heven, hodd, Function.update_self]
      · rw [Function.update_of_ne heven, Function.update_of_ne hodd]
        exact ih (by omega) i (by omega)

/-- The pairs of registers that are pushed for a context switch after those of the stubs. -/
def highPairs : List (ℕ × ℕ) :=
  [(16, 17), (18, 19), (20, 21), (22, 23), (24, 25), (26, 27), (28, 29), (30, 30)]

/-- The pairs that are pushed for a context switch. -/
def trapPairs : List (ℕ × ℕ) := stubPairs ++ highPairs

/-- The word in the slot of a register is its value. -/
theorem frame_trapPairs (value : ℕ → Word) {i : ℕ} (hi : i ≤ 30)
    (h : slot i < (frame value trapPairs.reverse).length) :
    (frame value trapPairs.reverse)[slot i] = value i := by
  interval_cases i <;> rfl

/-- The registers that `save_context` stores are those that were pushed. -/
theorem saveContext_registers {top : Word} {value registers : ℕ → Word} {s : Cpu}
    (h : Pushed top (s.x 3) (s.memory .process) (frame value trapPairs.reverse))
    {i : ℕ} (hi : i ≤ 30) : (saveContext registers s).registers i = value i := by
  have hlength : (frame value trapPairs.reverse).length = 32 := rfl
  have hslot : slot i < (frame value trapPairs.reverse).length := by
    rw [hlength, slot]
    split_ifs <;> omega
  have hword := h.holds (slot i) hslot
  rw [frame_trapPairs value hi] at hword
  rw [← hword]
  unfold saveContext
  dsimp only
  by_cases hlast : i = 30
  · rw [hlast, Function.update_self]
    rfl
  · rw [Function.update_of_ne hlast]
    exact saveLoop_eq _ _ _ le_rfl i (by change i < 30; omega)

/-- What is stored is the state of the processor `s`. -/
structure Stored.Of (c : Stored) (s : Cpu) : Prop where
  registers : ∀ i ≤ 30, c.registers i = s.x i
  pc : c.pc = s.pc
  sp : c.sp = s.sp .process
  pstate : c.pstate = s.pstate

section Save

variable (link : Linkage) {call : Callee → Cpu → Cpu} {esr far : Word} {s t : Cpu}
  {registers : ℕ → Word}

/-- `save_context` stores the state that was pushed on the stack of the process. -/
theorem stored_of_pushed
    (h : Stacks s.sp (Function.update (fun _ ↦ []) .process (frame s.get trapPairs.reverse)) t)
    (hsp : t.x 0 = t.sp .process + 16 * 16) (hhandler : t.x 3 = t.sp .process) (helr : t.x 1 = s.pc)
    (hspsr : t.x 2 = s.pstate) : (saveContext registers t).Of s := by
  have hprocess := h .process
  rw [Function.update_self, ← hhandler] at hprocess
  refine ⟨fun i hi ↦ ?_, helr, ?_, hspsr⟩
  · exact (saveContext_registers hprocess hi).trans (if_neg (by omega))
  · have hdepth := hprocess.depth
    have hlength : (frame s.get trapPairs.reverse).length = 32 := rfl
    have hframe : BitVec.ofNat 64 (8 * 32) = (16 * 16 : Word) := by decide
    rw [hhandler, hlength, hframe] at hdepth
    exact hsp.trans hdepth

/-- The code that sets the arguments of `save_context` for an `SVC`. -/
def arguments : Code :=
  [.addSp 0 (16 * 16), .mrs 1 .elrEl1, .mrs 2 .spsrEl1, .addSp 3 0, .movReg 4 31, .mrs 5 .esrEl1]

/-- The code sets the arguments of `save_context` from the stack pointer and the system
registers. -/
def SetsArguments (call : Callee → Cpu → Cpu) (code : Code) : Prop :=
  ∀ s, (exec call code s).x 0 = s.sp s.current + 16 * 16 ∧
    (exec call code s).x 1 = s.system .elrEl1 ∧
    (exec call code s).x 2 = s.system .spsrEl1 ∧ (exec call code s).x 3 = s.sp s.current ∧
    (exec call code s).sp = s.sp ∧ (exec call code s).memory = s.memory

theorem setsArguments_svc (call : Callee → Cpu → Cpu) : SetsArguments call arguments := fun _ ↦
  ⟨rfl, rfl, rfl, BitVec.add_zero _, rfl, rfl⟩

theorem setsArguments_timer (call : Callee → Cpu → Cpu) : SetsArguments call el1IrqTimer := fun _ ↦
  ⟨rfl, rfl, rfl, BitVec.add_zero _, rfl, rfl⟩

/-- After the registers have been pushed, a C function is called and the arguments are set. -/
theorem stored_of_called {v : Cpu} {f : Callee} (hcurrent : v.current = .process)
    (h : Stacks s.sp (Function.update (fun _ ↦ []) .process (frame s.get trapPairs.reverse)) v)
    (hspsr : v.system .spsrEl1 = s.pstate) (helr : v.system .elrEl1 = s.pc)
    (haapcs : Aapcs s.sp (call f)) (hsystem : KeepsSystem (call f)) {code : Code}
    (hcode : SetsArguments call code) :
    (saveContext registers (exec call code (step call v (.bl f)))).Of s := by
  have hsmall :
      ∀ space, (Function.update (fun _ ↦ []) Space.process (frame s.get trapPairs.reverse)
      space).length < 2 ^ 32 := by
    have hlength : (frame s.get trapPairs.reverse).length = 32 := rfl
    intro space
    cases space with
    | process =>
      rw [Function.update_self, hlength]
      decide
    | kernel => exact Nat.zero_lt_succ _
  have hcalled := h.bl hsmall haapcs
  have hcurrent' : (step call v (.bl f)).current = .process := (haapcs.current _).trans hcurrent
  have hsystem' : (step call v (.bl f)).system = v.system := hsystem _
  obtain ⟨hsp, hpc, hpstate, hhandler, hsp', hmemory⟩ := hcode (step call v (.bl f))
  rw [hcurrent'] at hsp hhandler
  refine stored_of_pushed (hcalled.congr hsp' hmemory) ?_ ?_ ?_ ?_
  · rw [hsp, hsp']
  · rw [hhandler, hsp']
  · rw [hpc, hsystem', helr]
  · rw [hpstate, hsystem', hspsr]

/-- An `SVC` saves the state of the process. -/
theorem runSvc_stored (haapcs : Aapcs s.sp (call .maskTimerIrq))
    (hsystem : KeepsSystem (call .maskTimerIrq)) (h : runSvc link call esr far s = some t) :
    (saveContext registers t).Of s := by
  have hentered := lowerElSync_entered link call esr far s
  unfold runSvc at h
  dsimp only at h
  split_ifs at h
  obtain rfl := Option.some.inj h
  generalize lowerElSync link call esr far s = u at hentered
  obtain ⟨hcurrent, hpushed, hx, hspsr, helr, -⟩ := hentered
  rw [← hcurrent] at hpushed
  have hlength : (frame s.get stubPairs.reverse).length = 16 := rfl
  obtain ⟨hx', hpstate, hsystem', hstacks⟩ := exec_pushes call highPairs hpushed (by
    rw [Function.update_self, hlength]
    decide)
  have hframe : frame u.get highPairs.reverse ++ frame s.get stubPairs.reverse =
      frame s.get trapPairs.reverse := by
    have hhigh : frame u.get highPairs.reverse = frame s.get highPairs.reverse := by
      simp [frame, highPairs, Cpu.get, hx]
    rw [hhigh]
    rfl
  have hcode : lowerElEl1Svc = pushes highPairs ++ .bl .maskTimerIrq :: arguments := rfl
  rw [hcode, exec_append, exec_cons]
  generalize exec call (pushes highPairs) u = v at hx' hpstate hsystem' hstacks
  rw [Function.update_self, Function.update_idem, hframe, hcurrent] at hstacks
  have hcurrent' : v.current = .process := (congrArg Cpu.spaceOf hpstate).trans hcurrent
  exact stored_of_called hcurrent' hstacks (congrFun hsystem' _ |>.trans hspsr)
    (congrFun hsystem' _ |>.trans helr) haapcs hsystem (setsArguments_svc call)

/-- A timer interrupt saves the state of the process. -/
theorem runTimer_stored (haapcs : Aapcs s.sp (call .isTimerIrq))
    (hsystem : KeepsSystem (call .isTimerIrq)) (h : runTimer link call esr far s = some t) :
    (saveContext registers t).Of s := by
  unfold runTimer at h
  dsimp only at h
  split_ifs at h
  obtain rfl := Option.some.inj h
  set u := jump (link.address .el1IrqHandler)
    (exec call lowerElAarch64Irq (takeException (link.address .lowerElAarch64Irq) esr far s))
    with hu
  have hcurrent : u.current = .process :=
    current_msrSpSel_xzr call (takeException (link.address .lowerElAarch64Irq) esr far s)
  have hstart : Stacks s.sp (fun _ ↦ []) u := (Stacks.start s).congr rfl rfl
  have hget : u.get = s.get := rfl
  have hspsr : u.system .spsrEl1 = s.pstate := rfl
  have helr : u.system .elrEl1 = s.pc := rfl
  clear_value u
  obtain ⟨-, hpstate, hsystem', hstacks⟩ := exec_pushes call trapPairs hstart (by decide)
  have hcode : el1IrqHandler = pushes trapPairs ++ [.bl .isTimerIrq] := rfl
  rw [hcode, exec_append]
  generalize exec call (pushes trapPairs) u = v at hpstate hsystem' hstacks
  rw [hcurrent, hget, List.append_nil] at hstacks
  have hcurrent' : v.current = .process := (congrArg Cpu.spaceOf hpstate).trans hcurrent
  exact stored_of_called hcurrent' hstacks ((congrFun hsystem' _).trans hspsr)
    ((congrFun hsystem' _).trans helr) haapcs hsystem (setsArguments_timer call)

end Save

/-! ### Traps -/

/-- The frame of a trap is what `save_context` stores. -/
structure Stored.Framed (c : Stored) (frame : Frame) : Prop where
  registers : ∀ i : Fin nReg, frame.registers i = c.registers i
  pc : frame.pc = c.pc
  sp : frame.sp = c.sp
  pstate : frame.pstate = c.pstate

section Switch

variable (link : Linkage) (call : Callee → Cpu → Cpu) (s : Cpu)

/-- A process in the state `s` traps, and `save_context` is called. -/
inductive Traps : Action → Prop
  | svc {code : BitVec 16} {frame : Frame} {esr far : Word} {t : Cpu} {registers : ℕ → Word}
      (hrun : runSvc link call esr far s = some t) (hcode : (t.x 5).setWidth 16 = code)
      (hframe : (saveContext registers t).Framed frame) : Traps (.svc code frame)
  | timer {frame : Frame} {esr far : Word} {t : Cpu} {registers : ℕ → Word}
      (hrun : runTimer link call esr far s = some t)
      (hframe : (saveContext registers t).Framed frame) : Traps (.timer frame)

variable {link call s} {a : Action}

/-- What a trap saves is the state of the process. -/
theorem Traps.frame_eq (h : Traps link call s a)
    (haapcs : Aapcs s.sp (call .maskTimerIrq) ∧ Aapcs s.sp (call .isTimerIrq))
    (hsystem : KeepsSystem (call .maskTimerIrq) ∧ KeepsSystem (call .isTimerIrq)) :
    ∃ frame, a.frame = some frame ∧
      (∀ i : Fin nReg, frame.registers i = s.x i) ∧
      frame.place = ⟨s.pc, s.sp .process, s.pstate⟩ := by
  have hframed : ∀ {frame : Frame} {c : Stored}, c.Framed frame → c.Of s →
      (∀ i : Fin nReg, frame.registers i = s.x i) ∧
      frame.place = ⟨s.pc, s.sp .process, s.pstate⟩ := by
    intro frame c hframe hof
    refine ⟨fun i ↦ (hframe.registers i).trans (hof.registers i (Nat.le_of_lt_succ i.isLt)), ?_⟩
    exact Place.ext (hframe.pc.trans hof.pc) (hframe.sp.trans hof.sp)
      (hframe.pstate.trans hof.pstate)
  cases h with
  | svc hrun hcode hframe =>
    exact ⟨_, rfl, hframed hframe (runSvc_stored link haapcs.1 hsystem.1 hrun)⟩
  | timer hrun hframe =>
    exact ⟨_, rfl, hframed hframe (runTimer_stored link haapcs.2 hsystem.2 hrun)⟩

end Switch

/-! ### A process with all its registers in use -/

/-- C functions that change nothing. -/
def idle : Callee → Cpu → Cpu := fun _ s ↦ s

theorem aapcs_idle (top : Space → Word) (f : Callee) : Aapcs top (idle f) :=
  ⟨fun _ _ _ _ ↦ rfl, fun _ ↦ rfl, fun _ ↦ rfl, fun _ _ _ _ ↦ rfl⟩

theorem keepsSystem_idle (f : Callee) : KeepsSystem (idle f) := fun _ ↦ rfl

/-- A trap of the process in the state `s`. -/
def cpuFrame (s : Cpu) : Frame :=
  { sampleFrame [] with
    registers := fun i ↦ s.x i, pc := s.pc, sp := s.sp .process, pstate := s.pstate }

/-- The process `sampleCpu` with another value in `x0`. -/
def svcCpu (x0 : Word) : Cpu := { sampleCpu with x := Function.update sampleCpu.x 0 x0 }

end SysresOs.Trap
