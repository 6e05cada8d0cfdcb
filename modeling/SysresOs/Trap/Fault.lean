import SysresOs.Proc.State
import SysresOs.Trap.Vectors

/-!
# Faults that return

`el1_sync_handler` handles the faults of processes and of the kernel and returns to the instruction
that faulted. Of the registers that a C function may change it saves `x0` to `x15` only, and it
saves `x30` after its first call: every other register comes back, but `x16`, `x17`, `x18` and `x30`
do not (`comesBack_iff`).
-/

set_option autoImplicit false
set_option relaxedAutoImplicit false

namespace SysresOs.Trap

open SysresOs.AArch64

/-! ### The handler in two halves -/

/-- The pairs of registers that the entry stubs push. -/
def stubPairs : List (ℕ × ℕ) :=
  [(0, 1), (2, 3), (4, 5), (6, 7), (8, 9), (10, 11), (12, 13), (14, 15)]

/-- The handler between its first and its second call. -/
def saving (mmuTablesStart : Word) : Code :=
  [.stp 29 30, .mrs 9 .spsrEl1, .mrs 10 .elrEl1, .stp 9 10, .mrsSpSel 9, .mrs 10 .ttbr0El1,
    .mov 0 1, .msrSpSel 0, .mov 11 mmuTablesStart, .msr .ttbr0El1 11, .isb, .stp 9 10,
    .mov 0 1, .movReg 1 8, .mrs 2 .spsrEl1, .mrs 3 .elrEl1, .mrs 4 .esrEl1, .mrs 5 .farEl1]

/-- The handler between its second and its last call. -/
def switchingBack : Code := [.ldp 9 10, .msr .ttbr0El1 10, .isb, .msrSpSel 9]

/-- The handler after its last call. -/
def restoring : Code :=
  [.ldp 2 3, .msr .spsrEl1 2, .msr .elrEl1 3, .ldp 29 30] ++ pops stubPairs.reverse

/-! ### Inside the handler -/

/-- The state of the handler: the stack in use, the callee-saved registers, and what has been
pushed. -/
structure Inside (top : Space → Word) (words : Space → List Word) (sel : Space)
    (saved : ℕ → Word) (s : Cpu) : Prop where
  current : s.current = sel
  calleeSaved : ∀ i, 19 ≤ i → i ≤ 29 → s.x i = saved i
  pushed : Stacks top words s

section Handler

variable {call : Callee → Cpu → Cpu} {top : Space → Word} {words : Space → List Word} {sel : Space}
  {saved : ℕ → Word} {s : Cpu}

theorem Inside.bl (h : Inside top words sel saved s)
    (hsmall : ∀ space, (words space).length < 2 ^ 32) {f : Callee}
    (hf : Aapcs top (call f)) : Inside top words sel saved (step call s (.bl f)) where
  current := (hf.current _).trans h.current
  calleeSaved := by
    intro i hlow hhigh
    have hne : i ≠ 30 := by omega
    exact (hf.calleeSaved _ i hlow hhigh).trans
      ((Function.update_of_ne hne _ _).trans (h.calleeSaved i hlow hhigh))
  pushed := h.pushed.bl hsmall hf

theorem system_bl {f : Callee} (hf : KeepsSystem (call f)) :
    (step call s (.bl f)).system = s.system :=
  hf (s.set 30 (s.pc + 4))

/-- What the first half pushes with the stack in use. -/
def savedWords (words : Space → List Word) (sel : Space) (s : Cpu) (x29 : Word) :
    Space → List Word :=
  Function.update words sel (s.system .spsrEl1 :: s.system .elrEl1 :: x29 :: s.x 30 :: words sel)

/-- What it pushes on the stack of the kernel. -/
def kernelWords (words : Space → List Word) (s : Cpu) : Space → List Word :=
  Function.update words .kernel ((s.pstate &&& 1) :: s.system .ttbr0El1 :: words .kernel)

theorem length_savedWords (words : Space → List Word) (sel : Space) (s : Cpu) (x29 : Word)
    (space : Space) : (savedWords words sel s x29 space).length ≤ (words space).length + 4 := by
  by_cases hspace : space = sel
  · subst hspace
    rw [savedWords, Function.update_self]
    exact le_rfl
  · rw [savedWords, Function.update_of_ne hspace]
    exact Nat.le_add_right _ _

theorem exec_saving (call : Callee → Cpu → Cpu) (mmuTablesStart : Word)
    (h : Inside top words sel saved s) (hsmall : ∀ space, (words space).length < 2 ^ 16) :
    Inside top (kernelWords (savedWords words sel s (saved 29)) s) .kernel saved
      (exec call (saving mmuTablesStart) s) := by
  have hcurrent := h.current
  have hfirst : Stacks top (Function.update words sel (saved 29 :: s.x 30 :: words sel))
      (step call s (.stp 29 30)) := by
    rw [← h.calleeSaved 29 (by decide) (by decide), ← hcurrent]
    exact h.pushed.push ((hsmall _).trans (by decide)) 29 30
  set s₂ := exec call [.mrs 9 .spsrEl1, .mrs 10 .elrEl1] (step call s (.stp 29 30)) with hs₂
  have hsecond : Stacks top (savedWords words sel s (saved 29)) (step call s₂ (.stp 9 10)) := by
    have hmoved : Stacks top _ s₂ := hfirst.congr rfl rfl
    have hcurrent₂ : s₂.current = sel := hcurrent
    have hpush : Stacks top _ (step call s₂ (.stp 9 10)) := hmoved.push (by
      rw [hcurrent₂, Function.update_self, List.length_cons, List.length_cons]
      have hle := hsmall sel
      omega) 9 10
    rw [hcurrent₂, Function.update_self, Function.update_idem] at hpush
    exact hpush
  set s₃ := exec call [.mrsSpSel 9, .mrs 10 .ttbr0El1, .mov 0 1, .msrSpSel 0,
    .mov 11 mmuTablesStart, .msr .ttbr0El1 11, .isb] (step call s₂ (.stp 9 10)) with hs₃
  have hcurrent₃ : s₃.current = .kernel := (spaceOf_setSpSel s.pstate 1).trans rfl
  have hthird :
      Stacks top (kernelWords (savedWords words sel s (saved 29)) s)
      (step call s₃ (.stp 9 10)) := by
    have hmoved : Stacks top _ s₃ := hsecond.congr rfl rfl
    have hpush : Stacks top _ (step call s₃ (.stp 9 10)) := hmoved.push (by
      have hlength := length_savedWords words sel s (saved 29) s₃.current
      have hle := hsmall s₃.current
      omega) 9 10
    rw [hcurrent₃] at hpush
    exact hpush
  refine ⟨hcurrent₃, fun i hlow hhigh ↦ ?_, hthird.congr rfl rfl⟩
  rw [← h.calleeSaved i hlow hhigh]
  have hne : ∀ j < 19, i ≠ j := fun j hj ↦ by omega
  simp [saving, exec, step, effect, Cpu.set, Cpu.next, hne]

/-- The second half goes back to the stack that was in use. -/
theorem exec_switchingBack (call : Callee → Cpu → Cpu) {n ttbr0 : Word}
    (h : Inside top (Function.update words .kernel (n :: ttbr0 :: words .kernel)) .kernel saved s)
    (hn : Cpu.spaceOf n = sel) : Inside top words sel saved (exec call switchingBack s) := by
  have hwords : Function.update words .kernel (n :: ttbr0 :: words .kernel) s.current =
      n :: ttbr0 :: words .kernel := by
    rw [h.current, Function.update_self]
  have hx : (step call s (.ldp 9 10)).x = Function.update (Function.update s.x 9 n) 10 ttbr0 :=
    h.pushed.pop_x hwords 9 10
  have hpop : Stacks top _ (step call s (.ldp 9 10)) := h.pushed.pop hwords 9 10
  rw [h.current, Function.update_idem, Function.update_eq_self] at hpop
  refine ⟨?_, fun i hlow hhigh ↦ ?_, hpop.congr rfl rfl⟩
  · have hsel : (step call s (.ldp 9 10)).get 9 = n := congrFun hx 9
    refine (spaceOf_setSpSel s.pstate ((step call s (.ldp 9 10)).get 9)).trans ?_
    rw [hsel, hn]
  · refine (congrFun hx i).trans ?_
    rw [Function.update_of_ne (by omega), Function.update_of_ne (by omega)]
    exact h.calleeSaved i hlow hhigh

/-- What the rest of the handler restores. -/
theorem exec_restoring (call : Callee → Cpu → Cpu) {spsr elr x29 x30 : Word} {value : ℕ → Word}
    {rest : List Word} (h : Inside top words sel saved s)
    (hwords : words sel = spsr :: elr :: x29 :: x30 :: (frame value stubPairs.reverse ++ rest)) :
    (exec call restoring s).system .spsrEl1 = spsr ∧ (exec call restoring s).system .elrEl1 = elr ∧
      Stacks top (Function.update words sel rest) (exec call restoring s) ∧
      ∀ i, (exec call restoring s).x i =
        if i ≤ 15 then value i else if i = 29 then x29 else if i = 30 then x30 else s.x i := by
  obtain rfl := h.current
  have hx : (step call s (.ldp 2 3)).x = Function.update (Function.update s.x 2 spsr) 3 elr :=
    h.pushed.pop_x hwords 2 3
  have hpop : Stacks top _ (step call s (.ldp 2 3)) := h.pushed.pop hwords 2 3
  set s₁ := exec call [.msr .spsrEl1 2, .msr .elrEl1 3] (step call s (.ldp 2 3)) with hs₁
  have hmoved : Stacks top _ s₁ := hpop.congr rfl rfl
  have hwords₁ :
      Function.update words s.current (x29 :: x30 :: (frame value stubPairs.reverse ++ rest))
      s₁.current =
      x29 :: x30 :: (frame value stubPairs.reverse ++ rest) := Function.update_self _ _ _
  have hx₁ : (step call s₁ (.ldp 29 30)).x = Function.update (Function.update s₁.x 29 x29) 30 x30 :=
    hmoved.pop_x hwords₁ 29 30
  have hpop₁ : Stacks top _ (step call s₁ (.ldp 29 30)) := hmoved.pop hwords₁ 29 30
  obtain ⟨hx₂, -, hsystem, hstacks⟩ :=
    exec_pops call stubPairs.reverse hpop₁ (Function.update_self _ _ _)
  have hspsr : s₁.system .spsrEl1 = spsr := congrFun hx 2
  have helr : s₁.system .elrEl1 = elr := congrFun hx 3
  refine ⟨(congrFun hsystem _).trans hspsr, (congrFun hsystem _).trans helr, ?_,
    fun i ↦ (hx₂ i).trans ?_⟩
  · change Stacks top (Function.update
      (Function.update (Function.update words s.current _) s.current _) s.current rest) _ at hstacks
    rwa [Function.update_idem, Function.update_idem] at hstacks
  · have hmem : i ∈ stubPairs.reverse.flatMap (fun p ↦ [p.1, p.2]) ↔ i ≤ 15 := by
      simp [stubPairs]
      omega
    rw [hx₁]
    by_cases hlow : i ≤ 15
    · rw [if_pos (hmem.mpr hlow), if_pos hlow]
    · rw [if_neg (mt hmem.mp hlow), if_neg hlow]
      have hx₁' : s₁.x i = s.x i := by
        refine (congrFun hx i).trans ?_
        rw [Function.update_of_ne (by omega), Function.update_of_ne (by omega)]
      simp only [Function.update_apply, hx₁']
      split_ifs <;> first | rfl | omega

end Handler

/-! ### The handler -/

/-- What the C functions guarantee that are called after what has been pushed ends at `top`. -/
structure Conforms (top : Space → Word) (call : Callee → Cpu → Cpu) : Prop where
  aapcs : ∀ f, Aapcs top (call f)
  maskTimerIrq : KeepsSystem (call .maskTimerIrq)
  restartTimer : KeepsSystem (call .restartTimer)

/-- What the handler makes of the registers: those below `x16` have the values that were pushed. -/
structure Handled (top : Space → Word) (value : ℕ → Word) (call : Callee → Cpu → Cpu) (s t : Cpu) :
    Prop where
  sp : t.sp = top
  pstate : t.pstate = s.system .spsrEl1
  pc : t.pc = s.system .elrEl1
  pushed : ∀ i ≤ 15, t.x i = value i
  calleeSaved : ∀ i, 19 ≤ i → i ≤ 29 → t.x i = s.x i
  lost : ∃ u, ∀ i, 16 ≤ i → i ≤ 18 → t.x i = (call .restartTimer u).x i
  link : ∃ u, t.x 30 = (call .maskTimerIrq u).x 30

theorem runEl1SyncHandler_spec (link : Linkage) {call : Callee → Cpu → Cpu} {top : Space → Word}
    {value : ℕ → Word} {s : Cpu} (hcall : Conforms top call)
    (h : Stacks top (Function.update (fun _ ↦ []) s.current (frame value stubPairs.reverse)) s) :
    Handled top value call s (runEl1SyncHandler link call s) := by
  set words := Function.update (fun _ : Space ↦ ([] : List Word)) s.current
    (frame value stubPairs.reverse) with hwords
  have hlength : ∀ space, (words space).length ≤ 16 := by
    intro space
    by_cases hspace : space = s.current
    · rw [hwords, hspace, Function.update_self]
      exact le_rfl
    · rw [hwords, Function.update_of_ne hspace]
      exact Nat.zero_le _
  have hsmall : ∀ space, (words space).length < 2 ^ 16 :=
    fun space ↦ (hlength space).trans_lt (by decide)
  have hstart : Inside top words s.current s.x (jump (link.address .el1SyncHandler) s) :=
    ⟨rfl, fun _ _ _ ↦ rfl, h.congr rfl rfl⟩
  have hmasked :=
    hstart.bl (fun space ↦ (hsmall space).trans (by decide)) (hcall.aapcs .maskTimerIrq)
  set s₁ := step call (jump (link.address .el1SyncHandler) s) (.bl .maskTimerIrq) with hs₁
  have hsystem : s₁.system = s.system := system_bl hcall.maskTimerIrq
  have hsaved := exec_saving call link.mmuTablesStart hmasked hsmall
  have hkernel : ∀ space, (kernelWords (savedWords words s.current s₁ (s.x 29)) s₁ space).length <
      2 ^ 32 := by
    intro space
    have hbelow := length_savedWords words s.current s₁ (s.x 29) space
    have hle := hlength space
    by_cases hspace : space = .kernel
    · subst hspace
      rw [kernelWords, Function.update_self, List.length_cons, List.length_cons]
      omega
    · rw [kernelWords, Function.update_of_ne hspace]
      omega
  have hhandled := hsaved.bl hkernel (hcall.aapcs .cSyncHandler)
  have hback := exec_switchingBack call hhandled ((spaceOf_and_one s₁.pstate).trans hmasked.current)
  set s₂ := exec call switchingBack
    (step call (exec call (saving link.mmuTablesStart) s₁) (.bl .cSyncHandler)) with hs₂
  have hrestarted := hback.bl (fun space ↦ by
    have hbelow := length_savedWords words s.current s₁ (s.x 29) space
    have hle := hlength space
    omega) (hcall.aapcs .restartTimer)
  have hframe : savedWords words s.current s₁ (s.x 29) s.current = s.system .spsrEl1 :: s.system
      .elrEl1 :: s.x 29 :: s₁.x 30 :: (frame value stubPairs.reverse ++ []) := by
    rw [savedWords, Function.update_self, hsystem, hwords, Function.update_self, List.append_nil]
  obtain ⟨hspsr, helr, hstacks, hx⟩ := exec_restoring call hrestarted hframe
  have hsp := hstacks.sp_eq fun space ↦ by
    by_cases hspace : space = s.current
    · rw [hspace, Function.update_self]
    · rw [Function.update_of_ne hspace, savedWords, Function.update_of_ne hspace, hwords,
        Function.update_of_ne hspace]
  refine ⟨hsp, hspsr, helr, fun i hi ↦ (hx i).trans (if_pos hi), fun i hlow hhigh ↦ ?_,
    ⟨s₂.set 30 (s₂.pc + 4), fun i hlow hhigh ↦ ?_⟩,
    (jump (link.address .el1SyncHandler) s).set 30 _, hx 30⟩
  · refine (hx i).trans ?_
    rw [if_neg (by omega)]
    by_cases hlast : i = 29
    · rw [if_pos hlast, hlast]
    · rw [if_neg hlast, if_neg (by omega), hrestarted.calleeSaved i hlow hhigh]
  · refine (hx i).trans ?_
    rw [if_neg (by omega), if_neg (by omega), if_neg (by omega)]
    rfl

/-! ### The entries -/

/-- What an exception and the return from it make of the registers. -/
structure Restored (call : Callee → Cpu → Cpu) (s t : Cpu) : Prop where
  sp : t.sp = s.sp
  pstate : t.pstate = s.pstate
  pc : t.pc = s.pc
  x : ∀ i, i ≤ 15 ∨ (19 ≤ i ∧ i ≤ 29) → t.x i = s.x i
  lost : ∃ u, ∀ i, 16 ≤ i → i ≤ 18 → t.x i = (call .restartTimer u).x i
  link : ∃ u, t.x 30 = (call .maskTimerIrq u).x 30

section Entries

variable (link : Linkage) {call : Callee → Cpu → Cpu} {esr far : Word} {s t : Cpu}

/-- The handler after a stub that pushed the registers of `s`. -/
theorem restored_of_pushed (hcall : Conforms s.sp call)
    (hpushed :
      Stacks s.sp (Function.update (fun _ ↦ []) t.current (frame s.get stubPairs.reverse)) t)
    (hx : ∀ i, 19 ≤ i → i ≤ 29 → t.x i = s.x i) (hspsr : t.system .spsrEl1 = s.pstate)
    (helr : t.system .elrEl1 = s.pc) : Restored call s (runEl1SyncHandler link call t) := by
  have hrun := runEl1SyncHandler_spec link hcall hpushed
  refine ⟨hrun.sp, hrun.pstate.trans hspsr, hrun.pc.trans helr, ?_, hrun.lost, hrun.link⟩
  rintro i (hlow | ⟨hlow, hhigh⟩)
  · exact (hrun.pushed i hlow).trans (if_neg (by omega))
  · exact (hrun.calleeSaved i hlow hhigh).trans (hx i hlow hhigh)

/-- The stubs push the registers below `x16`. -/
theorem exec_stubPairs (call : Callee → Cpu → Cpu) (t : Cpu) :
    (exec call (pushes stubPairs) t).x = t.x ∧ (exec call (pushes stubPairs) t).pstate = t.pstate ∧
      (exec call (pushes stubPairs) t).system = t.system ∧
      Stacks t.sp (Function.update (fun _ ↦ []) t.current (frame t.get stubPairs.reverse))
        (exec call (pushes stubPairs) t) := by
  have hpushes := exec_pushes call stubPairs (Stacks.start t) (by decide)
  rwa [List.append_nil] at hpushes

/-- An exception without a change of the exception level. -/
theorem restored_currEl (vector number : Word) (hcall : Conforms s.sp call) : Restored call s
    (runEl1SyncHandler link call
      (exec call (pushes stubPairs ++ [.mov 8 number]) (takeException vector esr far s))) := by
  obtain ⟨hx, hpstate, hsystem, hstacks⟩ := exec_stubPairs call (takeException vector esr far s)
  rw [exec_append]
  generalize exec call (pushes stubPairs) (takeException vector esr far s) =
    t at hx hpstate hsystem hstacks
  refine restored_of_pushed link hcall ?_ (fun i hlow hhigh ↦ ?_) ?_ ?_
  · have hcurrent :
        (exec call [.mov 8 number] t).current = (takeException vector esr far s).current :=
      congrArg Cpu.spaceOf hpstate
    rw [hcurrent]
    exact hstacks.congr rfl rfl
  · exact (Function.update_of_ne (by omega) _ _).trans (congrFun hx i)
  · exact congrFun hsystem _
  · exact congrFun hsystem _

/-- The code that compares the class of an exception. -/
def classify : Code := [.mrs 4 .esrEl1, .and 11 4 0xfc000000, .lsr 11 11 26, .cmp 11 21]

/-- `msr SPSel, xzr` switches to the stack of the process. -/
theorem current_msrSpSel_xzr (call : Callee → Cpu → Cpu) (t : Cpu) :
    (step call t (.msrSpSel 31)).current = .process := by
  have hspace : (step call t (.msrSpSel 31)).current = Cpu.spaceOf (t.get 31) :=
    spaceOf_setSpSel t.pstate (t.get 31)
  rw [hspace, Cpu.get, if_pos rfl]
  rfl

theorem exec_classify_x (call : Callee → Cpu → Cpu) (t : Cpu) {i : ℕ} (hi : 16 ≤ i) :
    (exec call classify t).x i = t.x i := by
  have hne : i ≠ 4 ∧ i ≠ 11 := by omega
  simp [classify, exec, step, effect, Cpu.set, Cpu.next, hne]

theorem exec_classify_pstate (call : Callee → Cpu → Cpu) (t : Cpu) : (exec call classify t).pstate =
    setFlags t.pstate (compareFlags ((t.system .esrEl1 &&& 0xfc000000) >>> 26) 21) := by
  simp [classify, exec, step, effect, Cpu.set, Cpu.next, Cpu.get]

/-- The code of `lower_el_el1_sync_handler` pushes on the stack of the process. -/
theorem lowerElSync_eq (call : Callee → Cpu → Cpu) (esr far : Word) (s : Cpu) : ∃ t : Cpu,
    lowerElSync link call esr far s = exec call classify (exec call (pushes stubPairs) t) ∧
    t.x = s.x ∧
      t.sp = s.sp ∧ t.current = .process ∧ t.system .spsrEl1 = s.pstate ∧ t.system .elrEl1 = s.pc ∧
      t.system .esrEl1 = esr := by
  have hcode : lowerElEl1SyncHandler = .msrSpSel 31 :: (pushes stubPairs ++ classify) := rfl
  refine ⟨step call (jump (link.address .lowerElEl1SyncHandler)
    (takeException (link.address .lowerElAarch64Sync) esr far s)) (.msrSpSel 31), ?_, rfl, rfl,
    ?_, rfl, rfl, rfl⟩
  · rw [lowerElSync, hcode, exec_cons, exec_append]
  · exact current_msrSpSel_xzr call _

/-- What the code of `lower_el_el1_sync_handler` leaves of an exception from EL0. -/
structure Entered (esr : Word) (s t : Cpu) : Prop where
  current : t.current = .process
  pushed : Stacks s.sp (Function.update (fun _ ↦ []) .process (frame s.get stubPairs.reverse)) t
  x : ∀ i, 16 ≤ i → t.x i = s.x i
  spsr : t.system .spsrEl1 = s.pstate
  elr : t.system .elrEl1 = s.pc
  flag : t.pstate.getLsbD 30 = decide ((esr &&& 0xfc000000) >>> 26 = 21)

theorem lowerElSync_entered (call : Callee → Cpu → Cpu) (esr far : Word) (s : Cpu) :
    Entered esr s (lowerElSync link call esr far s) := by
  obtain ⟨t, heq, htx, htsp, hcurrent, hspsr, helr, hesr⟩ := lowerElSync_eq link call esr far s
  obtain ⟨hx, hpstate, hsystem, hstacks⟩ := exec_stubPairs call t
  have hget : t.get = s.get := by
    unfold Cpu.get
    rw [htx]
  rw [heq]
  generalize exec call (pushes stubPairs) t = u at hx hpstate hsystem hstacks
  rw [hcurrent, hget, htsp] at hstacks
  refine ⟨?_, hstacks.congr rfl rfl, fun i hi ↦ ?_, (congrFun hsystem _).trans hspsr,
    (congrFun hsystem _).trans helr, ?_⟩
  · rw [Cpu.current, exec_classify_pstate, spaceOf_setFlags, hpstate]
    exact hcurrent
  · rw [exec_classify_x call u hi, hx, htx]
  · rw [exec_classify_pstate, setFlags_compareFlags, hsystem, hesr]

theorem restored_lowerEl (hcall : Conforms s.sp call) :
    Restored call s (runEl1SyncHandler link call (lowerElSync link call esr far s)) := by
  have hentered := lowerElSync_entered link call esr far s
  refine restored_of_pushed link hcall ?_ (fun i hlow _ ↦ hentered.x i (by omega))
    hentered.spsr hentered.elr
  rw [hentered.current]
  exact hentered.pushed

/-- Of the registers of the interrupted program all come back but `x16`, `x17`, `x18` and `x30`. -/
theorem runSync_restored (entry : Entry) (far : Word) (hcall : Conforms s.sp call)
    (hsvc : (esr &&& 0xfc000000) >>> 26 ≠ 21) :
    ∃ t, runSync link call esr far s entry = some t ∧ Restored call s t := by
  cases entry with
  | currElSp0 => exact ⟨_, rfl, restored_currEl link _ 0 hcall⟩
  | currElSpx => exact ⟨_, rfl, restored_currEl link _ 4 hcall⟩
  | lowerEl =>
    refine ⟨runEl1SyncHandler link call (lowerElSync link call esr far s), ?_,
      restored_lowerEl link hcall⟩
    unfold runSync
    dsimp only
    rw [(lowerElSync_entered link call esr far s).flag, decide_eq_false hsvc]
    exact if_neg Bool.false_ne_true

end Entries

/-! ### The registers that come back -/

/-- The registers of a program. -/
inductive Register
  | x (i : Fin 31)
  | sp
  | pc
  | pstate
  deriving DecidableEq

/-- The value of a register. -/
def Register.value (s : Cpu) : Register → Word
  | x i => s.x i
  | sp => s.sp s.current
  | pc => s.pc
  | pstate => s.pstate

/-- Whatever the C functions do within the procedure call standard, the register has its value again
after the exception. -/
def ComesBack (link : Linkage) (entry : Entry) (esr far : Word) (s : Cpu) (r : Register) : Prop :=
  ∀ call, Conforms s.sp call → ∃ t, runSync link call esr far s entry = some t ∧
    r.value t = r.value s

/-- C functions that change registers which a C function may change. -/
def clobber (s : Cpu) (_ : Callee) (t : Cpu) : Cpu :=
  { t with x := fun i ↦ if i = 30 ∨ (16 ≤ i ∧ i ≤ 18) then s.x i + 1 else t.x i }

theorem conforms_clobber (top : Space → Word) (s : Cpu) : Conforms top (clobber s) where
  aapcs _ := ⟨fun _ i _ _ ↦ if_neg (by omega), fun _ ↦ rfl, fun _ ↦ rfl, fun _ _ _ _ ↦ rfl⟩
  maskTimerIrq _ := rfl
  restartTimer _ := rfl

theorem clobber_x (s t : Cpu) (f : Callee) {i : ℕ} (hi : i = 30 ∨ (16 ≤ i ∧ i ≤ 18)) :
    (clobber s f t).x i = s.x i + 1 := if_pos hi

theorem Restored.value_eq {call : Callee → Cpu → Cpu} {s t : Cpu} (h : Restored call s t)
    {r : Register} (hr : r ∉ [Register.x 16, .x 17, .x 18, .x 30]) : r.value t = r.value s := by
  cases r with
  | x i =>
    refine h.x i ?_
    simp only [List.mem_cons, Register.x.injEq, List.not_mem_nil, or_false, not_or,
      Fin.ext_iff] at hr
    obtain ⟨h16, h17, h18, h30⟩ := hr
    have hlt := i.isLt
    omega
  | sp =>
    rw [Register.value, Register.value, Cpu.current, Cpu.current, h.pstate, h.sp]
  | pc => exact h.pc
  | pstate => exact h.pstate

theorem Restored.clobbered {s t : Cpu} (h : Restored (clobber s) s t) {i : ℕ}
    (hi : i = 30 ∨ (16 ≤ i ∧ i ≤ 18)) : t.x i ≠ s.x i := by
  have hvalue : t.x i = s.x i + 1 := by
    rcases hi with rfl | ⟨hlow, hhigh⟩
    · obtain ⟨u, hu⟩ := h.link
      exact hu.trans (clobber_x s u _ (.inl rfl))
    · obtain ⟨u, hu⟩ := h.lost
      exact (hu i hlow hhigh).trans (clobber_x s u _ (.inr ⟨hlow, hhigh⟩))
  rw [hvalue]
  bv_omega

/-- A register of the interrupted program comes back exactly if it is none of `x16`, `x17`, `x18`
and `x30`. -/
theorem comesBack_iff (link : Linkage) (entry : Entry) {esr : Word} (far : Word)
    (s : Cpu) (r : Register) (hsvc : (esr &&& 0xfc000000) >>> 26 ≠ 21) :
    ComesBack link entry esr far s r ↔ r ∉ [Register.x 16, .x 17, .x 18, .x 30] := by
  constructor
  · intro hback hmem
    obtain ⟨t, hrun, hvalue⟩ := hback (clobber s) (conforms_clobber s.sp s)
    obtain ⟨t', hrun', hrestored⟩ := runSync_restored link entry far (conforms_clobber s.sp s) hsvc
    obtain rfl := Option.some.inj (hrun.symm.trans hrun')
    simp only [List.mem_cons, List.not_mem_nil, or_false] at hmem
    rcases hmem with rfl | rfl | rfl | rfl
    · exact hrestored.clobbered (.inr (by decide)) hvalue
    · exact hrestored.clobbered (.inr (by decide)) hvalue
    · exact hrestored.clobbered (.inr (by decide)) hvalue
    · exact hrestored.clobbered (.inl rfl) hvalue
  · intro hr call hcall
    obtain ⟨t, hrun, hrestored⟩ := runSync_restored link entry far hcall hsvc
    exact ⟨t, hrun, hrestored.value_eq hr⟩

/-- A process, with the number of each register in it. -/
def sampleCpu : Cpu where
  x i := BitVec.ofNat 64 i
  sp _ := 0x3f1ffe00
  pc := 0x4600010
  pstate := 0
  system _ := 0
  memory _ _ := 0

/-- An image. -/
def sampleLink : Linkage := ⟨fun _ ↦ 0x81000, 0x90000⟩

theorem comesBack_iff_x30 : ComesBack sampleLink .lowerEl 0x92000007 0x4601000 sampleCpu (.x 30) ↔
    Register.x 30 ∉ [Register.x 16, .x 17, .x 18, .x 30] :=
  comesBack_iff sampleLink .lowerEl 0x4601000 sampleCpu (.x 30) (by decide)

/-- Even if the C functions change nothing, a process that touches a new page of its heap finds an
address of the kernel in `x30`. -/
theorem not_comesBack_x30 :
    ¬ ComesBack sampleLink .lowerEl 0x92000007 0x4601000 sampleCpu (.x 30) := by
  intro hback
  have hconforms : Conforms sampleCpu.sp fun _ t ↦ t :=
    ⟨fun _ ↦ ⟨fun _ _ _ _ ↦ rfl, fun _ ↦ rfl, fun _ ↦ rfl, fun _ _ _ _ ↦ rfl⟩,
      fun _ ↦ rfl, fun _ ↦ rfl⟩
  obtain ⟨t, hrun, hvalue⟩ := hback _ hconforms
  have hlink :
      (runSync sampleLink (fun _ t ↦ t) 0x92000007 0x4601000 sampleCpu .lowerEl).map (·.x 30) =
      some 0x81004 := by decide +kernel
  rw [hrun] at hlink
  exact absurd ((Option.some.inj hlink).symm.trans hvalue) (by decide)

end SysresOs.Trap
