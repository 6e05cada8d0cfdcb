import SysresOs.Trap.Resume

/-!
# A fault while a message is copied

`save_context` and `write_buff_svc` run with `SP_EL0` and with the tables of the process. When their
copy faults, the processor selects `SP_EL1`, and `restore_and_run` has left it at the address where
the stack of the process begins. `curr_el_sp0_sync` pushes eight pairs of registers there before
`el1_sync_handler` selects the tables of the kernel, so that they replace the first 128 bytes of the
stack of the process (`keepsStack_iff`).
-/

set_option autoImplicit false
set_option relaxedAutoImplicit false

namespace SysresOs.Trap

open SysresOs.AArch64

open SysresOs.Proc (stackBegin)

/-! ### Stacks by the tables in use -/

/-- The space that the tables in `TTBR0_EL1` map. -/
def mapped (link : Linkage) (s : Cpu) : Space :=
  if s.system .ttbr0El1 = link.mmuTablesStart then .kernel else .process

open Function Cpu in
/-- What an instruction of the handlers does before the next one, where both stack pointers point
into the space that is mapped. -/
def effectMapped (link : Linkage) (call : Callee → Cpu → Cpu) (s : Cpu) : Instr Callee → Cpu
  | .stp a b =>
    let p := s.sp s.current - 16
    { s with
      sp := update s.sp s.current p
      memory := update s.memory (mapped link s)
        (update (update (s.memory (mapped link s)) p (s.get a)) (p + 8) (s.get b)) }
  | .ldp a b =>
    let p := s.sp s.current
    { (s.set a (s.memory (mapped link s) p)).set b (s.memory (mapped link s) (p + 8)) with
      sp := update s.sp s.current (p + 16) }
  | i => effect call s i

/-- An instruction of the handlers is executed. -/
def stepMapped (link : Linkage) (call : Callee → Cpu → Cpu) (s : Cpu) (i : Instr Callee) : Cpu :=
  (effectMapped link call s i).next

/-- Instructions of the handlers are executed one after another. -/
def execMapped (link : Linkage) (call : Callee → Cpu → Cpu) (code : Code) (s : Cpu) : Cpu :=
  code.foldl (stepMapped link call) s

/-- An exception from code that runs with `SP_EL0` at EL1, up to the return from it. -/
def runNested (link : Linkage) (call : Callee → Cpu → Cpu) (esr far : Word) (s : Cpu) : Cpu :=
  let t :=
    execMapped link call currElSp0Sync (takeException (link.address .currElSp0Sync) esr far s)
  eret (execMapped link call (el1SyncHandler link.mmuTablesStart)
  (jump (link.address .el1SyncHandler) t))

/-! ### The stack of a process -/

/-- `STACK_END` -/
def stackEnd : Word := stackBegin - 2 * 0x1000

/-- The address is in the stack pages of a process, at or above a stack pointer. -/
def InStack (sp a : Word) : Prop := stackEnd ≤ a ∧ sp ≤ a ∧ a < stackBegin

/-- The address of the word that has the byte at an address. -/
def wordAddress (a : Word) : Word := BitVec.ofNat 64 (8 * (a.toNat / 8))

/-- A byte of a word. -/
def wordByte (w : Word) (i : ℕ) : BitVec 8 := w.extractLsb' (8 * i) 8

/-- The byte at an address. -/
def byteAt (memory : Word → Word) (a : Word) : BitVec 8 :=
  wordByte (memory (wordAddress a)) (a.toNat % 8)

/-- What the handlers rely on: the procedure call standard, and the bytes of the stack of the
process, which a function that runs with the tables of the kernel leaves alone. -/
structure ConformsMapped (link : Linkage) (saved : Word) (call : Callee → Cpu → Cpu) : Prop where
  calleeSaved : ∀ f s i, 19 ≤ i → i ≤ 29 → (call f s).x i = s.x i
  sp : ∀ f s, (call f s).sp = s.sp
  current : ∀ f s, (call f s).current = s.current
  ttbr0 : ∀ f s, (call f s).system .ttbr0El1 = s.system .ttbr0El1
  pushed : ∀ f s a, s.sp s.current ≤ a → a < stackBegin →
    (call f s).memory (mapped link s) a = s.memory (mapped link s) a
  stack : ∀ f s a, mapped link s = .kernel → InStack saved a →
    byteAt ((call f s).memory .process) a = byteAt (s.memory .process) a

/-- Whatever the C functions do within that, the handler of the fault leaves the bytes of the stack
at or above the saved stack pointer alone. -/
def KeepsStack (link : Linkage) (esr far saved : Word) (s : Cpu) : Prop :=
  ∀ call, ConformsMapped link saved call → ∀ a, InStack saved a →
    byteAt ((runNested link call esr far s).memory .process) a = byteAt (s.memory .process) a

/-- The words that `curr_el_sp0_sync` pushes, upwards. -/
def spilled (s : Cpu) : List Word := frame s.x stubPairs.reverse

/-! ### `SP_EL1` of a process -/

theorem exec_sp_of_loads {call : Callee → Cpu → Cpu} {code : Code}
    (hcode : ∀ i ∈ code, (∃ a base step, i = .ldrFrom a base step) ∨
    ∃ a b base step, i = .ldpFrom a b base step) (s : Cpu) : (exec call code s).sp = s.sp := by
  induction code generalizing s with
  | nil => rfl
  | cons i code ih =>
    obtain ⟨hfirst, hrest⟩ := List.forall_mem_cons.mp hcode
    refine (ih hrest _).trans ?_
    rcases hfirst with ⟨a, base, step, rfl⟩ | ⟨a, b, base, step, rfl⟩
    · rfl
    · rfl

/-- A process runs with `SP_EL1` where its own stack begins. -/
theorem sp_runRestoreAndRun (link : Linkage) (call : Callee → Machine → Machine) (s : Machine) :
    (runRestoreAndRun link call s).sp .kernel = stackBegin := by
  have hcode : restoreAndRun = (entering ++ [.stp 0 1, .bl .writeBuffSvc, .ldp 0 1]) ++
      (leaving ++ loading) := rfl
  have hleaving : leaving = [.mov 2 1, .msrSpSel 2, .mov 2 0x3F200000] ++ [.movSp 2] := rfl
  unfold runRestoreAndRun
  rw [hcode, Machine.exec_append]
  generalize Machine.exec call (entering ++ _) _ = t
  obtain ⟨hcpu, -⟩ := Machine.cpu_exec call idle loads_leaving t
  rw [hleaving, List.append_assoc, exec_append, exec_append] at hcpu
  have hx2 : (exec idle [.mov 2 1, .msrSpSel 2, .mov 2 0x3F200000] t.cpu).x 2 = stackBegin := by
    simp [exec, AArch64.step, effect, Cpu.next, Cpu.set, stackBegin]
  have hcurrent :
      (exec idle [.mov 2 1, .msrSpSel 2, .mov 2 0x3F200000] t.cpu).current = .kernel := by
    simp [exec, AArch64.step, effect, Cpu.next, Cpu.set, Cpu.get, Cpu.current]
    rfl
  generalize exec idle [.mov 2 1, .msrSpSel 2, .mov 2 0x3F200000] t.cpu = u at hcpu hx2 hcurrent
  have hloading : (exec idle loading (exec idle [.movSp 2] u)).sp =
      (exec idle [.movSp 2] u).sp := exec_sp_of_loads (by simp [loading, loads, loadedPairs]) _
  have hsp := sp_movSp idle hcurrent
  refine (congrFun (congrArg Cpu.sp hcpu) .kernel).trans ((congrFun hloading .kernel).trans ?_)
  refine (congrFun hsp .kernel).trans ?_
  rw [Function.update_self, hx2]

/-! ### Writes below the bytes -/

section Writes

variable {a p : Word} {memory : Word → Word}

theorem wordAddress_toNat (a : Word) : (wordAddress a).toNat = 8 * (a.toNat / 8) := by
  rw [wordAddress, BitVec.toNat_ofNat]
  omega

/-- A pair of words that is pushed below a byte leaves it alone. -/
theorem byteAt_update {u v : Word} (hp : p.toNat % 8 = 0) (hlt : p.toNat + 16 ≤ a.toNat) :
    byteAt (Function.update (Function.update memory p u) (p + 8) v) a = byteAt memory a := by
  have haddress := wordAddress_toNat a
  have hne : wordAddress a ≠ p + 8 := by bv_omega
  have hne' : wordAddress a ≠ p := by bv_omega
  rw [byteAt, byteAt, Function.update_of_ne hne, Function.update_of_ne hne']

/-- A byte stays if its word does. -/
theorem byteAt_congr {memory' : Word → Word}
    (h : memory' (wordAddress a) = memory (wordAddress a)) :
    byteAt memory' a = byteAt memory a := by rw [byteAt, byteAt, h]

end Writes

/-! ### The handler -/

/-- The handler has pushed so many pairs, and the bytes of a region of the stack are there. -/
structure Nested (region : Word → Prop) (bytes : Word → BitVec 8) (depth : ℕ) (s : Cpu) : Prop where
  current : s.current = .kernel
  sp : s.sp .kernel = stackBegin - BitVec.ofNat 64 (16 * depth)
  bytes : ∀ a, region a → byteAt (s.memory .process) a = bytes a

/-- The region is above so many pairs. -/
def Above (depth : ℕ) (region : Word → Prop) : Prop :=
  ∀ a, region a → stackBegin.toNat ≤ a.toNat + 16 * depth ∧ a < stackBegin

/-- Two states use the same stack pointer, in the same space, and have the same registers. -/
structure SameUse (link : Linkage) (s t : Cpu) : Prop where
  x : t.x = s.x
  current : t.current = s.current
  mapped : mapped link t = mapped link s

/-- The instruction accesses no stack and selects none. -/
def Quiet : Instr Callee → Prop
  | .stp .. | .ldp .. | .movSp .. | .raiseSp .. | .msrSpSel .. | .bl .. => False
  | .msr r _ => r ≠ .ttbr0El1
  | _ => True

/-- Two states use the same stack, with the same words. -/
structure SameStack (s t : Cpu) : Prop where
  current : t.current = s.current
  sp : t.sp = s.sp
  memory : t.memory = s.memory
  ttbr0 : t.system .ttbr0El1 = s.system .ttbr0El1

section Steps

variable {link : Linkage} {call : Callee → Cpu → Cpu} {saved : Word} {region : Word → Prop}
  {bytes : Word → BitVec 8} {depth : ℕ} {s t : Cpu}

theorem Above.mono (h : Above depth region) (n : ℕ) : Above (depth + n) region := by
  intro a ha
  obtain ⟨hlow, hhigh⟩ := h a ha
  exact ⟨by omega, hhigh⟩

theorem execMapped_append (code code' : Code) (s : Cpu) :
    execMapped link call (code ++ code') s = execMapped link call code'
      (execMapped link call code s) :=
  List.foldl_append

theorem stepMapped_quiet {i : Instr Callee} (hi : Quiet i) (s : Cpu) :
    SameStack s (stepMapped link call s i) := by
  cases i with
  | stp => exact hi.elim
  | ldp => exact hi.elim
  | movSp => exact hi.elim
  | raiseSp => exact hi.elim
  | msrSpSel => exact hi.elim
  | bl => exact hi.elim
  | msr r a => exact ⟨rfl, rfl, rfl, Function.update_of_ne hi.symm _ _⟩
  | cmp a value =>
    exact ⟨by simp [stepMapped, effectMapped, effect, Cpu.current, Cpu.next], rfl, rfl, rfl⟩
  | _ => exact ⟨rfl, rfl, rfl, rfl⟩

theorem execMapped_quiet {code : Code} (hcode : ∀ i ∈ code, Quiet i) (s : Cpu) :
    SameStack s (execMapped link call code s) := by
  induction code generalizing s with
  | nil => exact ⟨rfl, rfl, rfl, rfl⟩
  | cons i code ih =>
    obtain ⟨hfirst, hrest⟩ := List.forall_mem_cons.mp hcode
    have hstep : SameStack s (stepMapped link call s i) := stepMapped_quiet hfirst s
    have htail := ih hrest (stepMapped link call s i)
    exact ⟨htail.current.trans hstep.current, htail.sp.trans hstep.sp,
      htail.memory.trans hstep.memory, htail.ttbr0.trans hstep.ttbr0⟩

theorem Nested.congr (h : Nested region bytes depth s) (hsame : SameStack s t) :
    Nested region bytes depth t where
  current := hsame.current.trans h.current
  sp := by rw [hsame.sp, h.sp]
  bytes a ha := by rw [hsame.memory, h.bytes a ha]

/-- A push leaves the bytes above it alone, in whatever space it is. -/
theorem Nested.stp (h : Nested region bytes depth s) (habove : Above depth region)
    (hdepth : depth < 256) (a b : ℕ) :
    Nested region bytes (depth + 1) (stepMapped link call s (.stp a b)) where
  current := h.current
  sp := by
    simp only [stepMapped, effectMapped, Cpu.next, h.current, Function.update_self,
      h.sp, stackBegin]
    bv_omega
  bytes c hc := by
    obtain ⟨hlow, hhigh⟩ := habove c hc
    have hsp := h.sp
    rw [← h.bytes c hc]
    simp only [stepMapped, effectMapped, Cpu.next, h.current]
    by_cases hspace : mapped link s = .process
    · rw [hspace, Function.update_self]
      refine byteAt_update ?_ ?_
      · rw [hsp, stackBegin]
        bv_omega
      · rw [hsp]
        simp only [stackBegin] at hlow hhigh ⊢
        bv_omega
    · rw [Function.update_of_ne (Ne.symm hspace)]

theorem Nested.ldp (h : Nested region bytes (depth + 1) s) (a b : ℕ) :
    Nested region bytes depth (stepMapped link call s (.ldp a b)) where
  current := h.current
  sp := by
    simp only [stepMapped, effectMapped, Cpu.next, h.current, Function.update_self,
      h.sp, stackBegin]
    bv_omega
  bytes := h.bytes

/-- A C function leaves the bytes alone, in whatever space its stack is. -/
theorem Nested.bl (h : Nested region bytes depth s) (hcall : ConformsMapped link saved call)
    (habove : Above depth region) (hregion : ∀ a, region a → InStack saved a) (hdepth : depth < 256)
    (f : Callee) : Nested region bytes depth (stepMapped link call s (.bl f)) where
  current := (hcall.current f _).trans h.current
  sp := by
    change (call f (s.set 30 (s.pc + 4))).sp .kernel = _
    rw [hcall.sp]
    exact h.sp
  bytes c hc := by
    obtain ⟨hlow, hhigh⟩ := habove c hc
    have hsp := h.sp
    rw [← h.bytes c hc]
    change byteAt ((call f (s.set 30 (s.pc + 4))).memory .process) c = _
    by_cases hspace : mapped link s = .process
    · refine byteAt_congr ?_
      have haddress := wordAddress_toNat c
      have hpushed := hcall.pushed f (s.set 30 (s.pc + 4)) (wordAddress c) (by
        change s.sp s.current ≤ _
        rw [h.current, hsp]
        simp only [stackBegin] at hlow hhigh ⊢
        bv_omega) (by
        simp only [stackBegin] at hlow hhigh ⊢
        bv_omega)
      have hset : mapped link (s.set 30 (s.pc + 4)) = .process := hspace
      rw [hset] at hpushed
      exact hpushed
    · refine hcall.stack f (s.set 30 (s.pc + 4)) c ?_ (hregion c hc)
      cases hmapped : mapped link s with
      | process => exact absurd hmapped hspace
      | kernel => exact hmapped

/-! ### The handler behind its first call -/

/-- The word at the stack pointer in use. -/
def topWord (link : Linkage) (s : Cpu) : Word := s.memory (mapped link s) (s.sp s.current)

/-- The part of the handler that selects `SP_EL1` and the tables of the kernel. -/
def selectTables (mmuTablesStart : Word) : Code :=
  [.mrsSpSel 9, .mrs 10 .ttbr0El1, .mov 0 1, .msrSpSel 0, .mov 11 mmuTablesStart,
    .msr .ttbr0El1 11, .isb]

theorem selectTables_spec (h : Nested region bytes depth s) (mmuTablesStart : Word) :
    Nested region bytes depth (execMapped link call (selectTables mmuTablesStart) s) ∧
      (execMapped link call (selectTables mmuTablesStart) s).x 9 = s.pstate &&& 1 := by
  refine ⟨⟨?_, h.sp, h.bytes⟩, ?_⟩
  · simp [selectTables, execMapped, stepMapped, effectMapped, effect, Cpu.next, Cpu.set,
      Cpu.get, Cpu.current]
    rfl
  · simp [selectTables, execMapped, stepMapped, effectMapped, effect, Cpu.next, Cpu.set]

theorem topWord_stp (s : Cpu) (a b : ℕ) :
    topWord link (stepMapped link call s (.stp a b)) = s.get a := by
  have hne : s.sp s.current - 16 ≠ s.sp s.current - 16 + 8 := by bv_omega
  have hmapped : mapped link (stepMapped link call s (.stp a b)) = mapped link s := rfl
  have hcurrent : (stepMapped link call s (.stp a b)).current = s.current := rfl
  rw [topWord, hmapped, hcurrent]
  simp only [stepMapped, effectMapped, Cpu.next, Function.update_self]
  rw [Function.update_of_ne hne, Function.update_self]

theorem SameStack.topWord (h : SameStack s t) : topWord link t = topWord link s := by
  have hmapped : mapped link t = mapped link s := by rw [mapped, mapped, h.ttbr0]
  rw [Trap.topWord, Trap.topWord, h.memory, h.sp, h.current, hmapped]

/-- The loads of the registers for the second call. -/
def syncArguments : Code :=
  [.mov 0 1, .movReg 1 8, .mrs 2 .spsrEl1, .mrs 3 .elrEl1, .mrs 4 .esrEl1, .mrs 5 .farEl1]

/-- The handler between its first push and its second call. -/
def savingSystem (mmuTablesStart : Word) : Code := (saving mmuTablesStart).tail

/-- Up to its second call the handler pushes two pairs more, and the last has `SPSel`. -/
theorem Nested.save (h : Nested region bytes depth s) (habove : Above depth region)
    (hdepth : depth < 128) :
    Nested region bytes (depth + 2) (execMapped link call (savingSystem link.mmuTablesStart) s) ∧
      Cpu.spaceOf (topWord link (execMapped link call (savingSystem link.mmuTablesStart) s)) =
      .kernel := by
  have hcode :
      savingSystem link.mmuTablesStart = [.mrs 9 .spsrEl1, .mrs 10 .elrEl1] ++ ([.stp 9 10] ++
      (selectTables link.mmuTablesStart ++ ([.stp 9 10] ++ syncArguments))) := rfl
  rw [hcode]
  simp only [execMapped_append]
  have hread :
      Nested region bytes depth (execMapped link call [.mrs 9 .spsrEl1, .mrs 10 .elrEl1] s) :=
    h.congr (execMapped_quiet (by simp [Quiet]) s)
  generalize execMapped link call [.mrs 9 .spsrEl1, .mrs 10 .elrEl1] s = s₂ at hread ⊢
  have hsystem : Nested region bytes (depth + 1) (execMapped link call [.stp 9 10] s₂) :=
    hread.stp habove (by omega) 9 10
  generalize execMapped link call [.stp 9 10] s₂ = s₃ at hsystem ⊢
  have hspsel : Cpu.spaceOf (s₃.pstate &&& 1) = .kernel := (spaceOf_and_one _).trans hsystem.current
  obtain ⟨hselect, hx9⟩ :
      Nested region bytes (depth + 1) (execMapped link call (selectTables link.mmuTablesStart) s₃) ∧
      (execMapped link call (selectTables link.mmuTablesStart) s₃).x 9 = s₃.pstate &&& 1 :=
    selectTables_spec hsystem link.mmuTablesStart
  generalize execMapped link call (selectTables link.mmuTablesStart) s₃ = s₄ at hselect hx9 ⊢
  have htop : topWord link (execMapped link call [.stp 9 10] s₄) = s₃.pstate &&& 1 :=
    (topWord_stp s₄ 9 10).trans hx9
  have hkernel : Nested region bytes (depth + 2) (execMapped link call [.stp 9 10] s₄) :=
    hselect.stp (habove.mono 1) (by omega) 9 10
  generalize execMapped link call [.stp 9 10] s₄ = s₅ at htop hkernel ⊢
  have harguments : SameStack s₅ (execMapped link call syncArguments s₅) :=
    execMapped_quiet (by simp [syncArguments, Quiet]) s₅
  refine ⟨hkernel.congr harguments, ?_⟩
  rw [harguments.topWord, htop, hspsel]

/-- A C function keeps the word at its stack pointer. -/
theorem topWord_bl (h : Nested region bytes depth s) (hcall : ConformsMapped link saved call)
    (hpos : 0 < depth) (hdepth : depth < 256) (f : Callee) :
    topWord link (stepMapped link call s (.bl f)) = topWord link s := by
  have hsp : (stepMapped link call s (.bl f)).sp = s.sp := hcall.sp f _
  have hcurrent : (stepMapped link call s (.bl f)).current = s.current := hcall.current f _
  have hmapped : mapped link (stepMapped link call s (.bl f)) = mapped link s := by
    have httbr0 : (stepMapped link call s (.bl f)).system .ttbr0El1 = s.system .ttbr0El1 :=
      hcall.ttbr0 f _
    rw [mapped, mapped, httbr0]
  rw [topWord, topWord, hsp, hcurrent, hmapped]
  refine hcall.pushed f (s.set 30 (s.pc + 4)) _ (BitVec.le_refl _) ?_
  rw [h.current, h.sp]
  simp only [stackBegin]
  bv_omega

/-- The handler selects the tables and the stack again that it has noted. -/
theorem Nested.switchBack (h : Nested region bytes (depth + 1) s)
    (htop : Cpu.spaceOf (topWord link s) = .kernel) :
    Nested region bytes depth (execMapped link call switchingBack s) := by
  have hcode : switchingBack = [.ldp 9 10] ++ [.msr .ttbr0El1 10, .isb, .msrSpSel 9] := rfl
  have hpop : Nested region bytes depth (execMapped link call [.ldp 9 10] s) := h.ldp 9 10
  have hx9 : (execMapped link call [.ldp 9 10] s).x 9 = topWord link s := rfl
  rw [hcode, execMapped_append]
  generalize execMapped link call [.ldp 9 10] s = t at hpop hx9 ⊢
  refine ⟨?_, hpop.sp, hpop.bytes⟩
  simp only [execMapped, stepMapped, effectMapped, effect, Cpu.next, Cpu.get, Cpu.current,
    List.foldl_cons, List.foldl_nil, spaceOf_setSpSel]
  exact (congrArg Cpu.spaceOf hx9).trans htop

/-- The instruction writes no memory. -/
def Loads : Instr Callee → Prop
  | .stp .. | .bl .. => False
  | _ => True

theorem execMapped_loads {code : Code} (hcode : ∀ i ∈ code, Loads i) (s : Cpu) :
    (execMapped link call code s).memory = s.memory := by
  induction code generalizing s with
  | nil => rfl
  | cons i code ih =>
    obtain ⟨hfirst, hrest⟩ := List.forall_mem_cons.mp hcode
    refine (ih hrest _).trans ?_
    cases i with
    | stp => exact hfirst.elim
    | bl => exact hfirst.elim
    | _ => rfl

/-- The handler behind its first push. -/
def behindFrame (mmuTablesStart : Word) : Code :=
  savingSystem mmuTablesStart ++
    ([.bl .cSyncHandler] ++ (switchingBack ++ ([.bl .restartTimer] ++ restoring)))

/-- Behind its first push the handler leaves the bytes above what it has pushed alone. -/
theorem Nested.handle (h : Nested region bytes depth s) (hcall : ConformsMapped link saved call)
    (habove : Above depth region) (hregion : ∀ a, region a → InStack saved a)
    (hdepth : depth < 128) :
    ∀ a, region a →
      byteAt ((execMapped link call (behindFrame link.mmuTablesStart) s).memory .process) a =
      bytes a := by
  rw [behindFrame]
  simp only [execMapped_append]
  obtain ⟨hsaved, htop⟩ :
      Nested region bytes (depth + 2) (execMapped link call (savingSystem link.mmuTablesStart) s) ∧
      Cpu.spaceOf (topWord link (execMapped link call (savingSystem link.mmuTablesStart) s)) =
      .kernel :=
    h.save habove hdepth
  generalize execMapped link call (savingSystem link.mmuTablesStart) s = s₁ at hsaved htop ⊢
  have hhandled : Nested region bytes (depth + 2) (execMapped link call [.bl .cSyncHandler] s₁) :=
    hsaved.bl hcall (habove.mono 2) hregion (by omega) .cSyncHandler
  have hkept : topWord link (execMapped link call [.bl .cSyncHandler] s₁) = topWord link s₁ :=
    topWord_bl hsaved hcall (Nat.succ_pos _) (by omega) .cSyncHandler
  generalize execMapped link call [.bl .cSyncHandler] s₁ = s₂ at hhandled hkept ⊢
  have hback : Nested region bytes (depth + 1) (execMapped link call switchingBack s₂) :=
    hhandled.switchBack (by rw [hkept, htop])
  generalize execMapped link call switchingBack s₂ = s₃ at hback ⊢
  have hrestarted : Nested region bytes (depth + 1) (execMapped link call [.bl .restartTimer] s₃) :=
    hback.bl hcall (habove.mono 1) hregion (by omega) .restartTimer
  generalize execMapped link call [.bl .restartTimer] s₃ = s₄ at hrestarted ⊢
  have hmemory : (execMapped link call restoring s₄).memory = s₄.memory :=
    execMapped_loads (by simp [restoring, pops, stubPairs, Loads]) s₄
  rw [hmemory]
  exact hrestarted.bytes

/-! ### The entry -/

/-- Pushes into the space that is mapped. -/
theorem execMapped_pushes {top : Word} {words : List Word} (pairs : List (ℕ × ℕ))
    (hpushed : Pushed top (s.sp s.current) (s.memory (mapped link s)) words)
    (hsmall : words.length + 2 * pairs.length < 2 ^ 32) :
    SameUse link s (execMapped link call (pushes pairs) s) ∧
      Pushed top ((execMapped link call (pushes pairs) s).sp s.current)
        ((execMapped link call (pushes pairs) s).memory (mapped link s))
        (frame s.get pairs.reverse ++ words) := by
  induction pairs generalizing s words with
  | nil => exact ⟨⟨rfl, rfl, rfl⟩, hpushed⟩
  | cons p pairs ih =>
    rw [List.length_cons] at hsmall
    have hfirst : Pushed top ((stepMapped link call s (.stp p.1 p.2)).sp s.current)
        ((stepMapped link call s (.stp p.1 p.2)).memory (mapped link s))
        (s.get p.1 :: s.get p.2 :: words) := by
      simp only [stepMapped, effectMapped, Cpu.next, Function.update_self]
      exact hpushed.push (by omega)
    obtain ⟨huse, hrest⟩ := ih hfirst (by
      rw [List.length_cons, List.length_cons]
      omega)
    refine ⟨⟨huse.x, huse.current, huse.mapped⟩, ?_⟩
    rw [List.reverse_cons, frame, List.flatMap_append, List.append_assoc]
    exact hrest

/-- Where the words end that `curr_el_sp0_sync` pushes. -/
def spillEnd : Word := stackBegin - 128

/-- The byte that `curr_el_sp0_sync` pushes to an address. -/
def spilledByte (s : Cpu) (a : Word) : BitVec 8 :=
  wordByte ((spilled s).getD ((a - spillEnd).toNat / 8) 0) (a.toNat % 8)

/-- The state in which `el1_sync_handler` is entered. -/
structure Spilled (link : Linkage) (s t : Cpu) : Prop where
  current : t.current = .kernel
  sp : t.sp .kernel = spillEnd
  mapped : mapped link t = .process
  bytes : ∀ a, spillEnd ≤ a → a < stackBegin → byteAt (t.memory .process) a = spilledByte s a

theorem currElSp0Sync_spilled (call : Callee → Cpu → Cpu) (vector esr far : Word)
    (hsp : s.sp .kernel = stackBegin) (hprocess : s.system .ttbr0El1 ≠ link.mmuTablesStart) :
    Spilled link s (execMapped link call currElSp0Sync (takeException vector esr far s)) := by
  have hcurrent : (takeException vector esr far s).current = .kernel := by
    simp [takeException, Cpu.current, Cpu.spaceOf]
  have hmapped : mapped link (takeException vector esr far s) = .process := if_neg hprocess
  have hstart :
      Pushed stackBegin ((takeException vector esr far s).sp
      (takeException vector esr far s).current)
      ((takeException vector esr far s).memory (mapped link (takeException vector esr far s)))
      [] := by
    rw [hcurrent]
    change Pushed stackBegin (s.sp .kernel) _ []
    rw [hsp]
    exact .nil _ _
  obtain ⟨huse, hpushed⟩ : SameUse link (takeException vector esr far s)
      (execMapped link call (pushes stubPairs) (takeException vector esr far s)) ∧ _ :=
    execMapped_pushes stubPairs hstart (by decide)
  have hget : (takeException vector esr far s).get = s.get := rfl
  have hwords : frame s.get stubPairs.reverse ++ [] = spilled s := rfl
  rw [hcurrent, hmapped, hget, hwords] at hpushed
  have hcode : currElSp0Sync = pushes stubPairs ++ [.mov 8 0] := rfl
  rw [hcode, execMapped_append]
  generalize execMapped link call (pushes stubPairs) (takeException vector esr far s) =
    t at huse hpushed ⊢
  have hdepth : t.sp .kernel = spillEnd := by
    have hsum : t.sp .kernel + 128 = stackBegin := hpushed.depth
    rw [spillEnd, ← hsum]
    bv_omega
  refine ⟨huse.current.trans hcurrent, hdepth, huse.mapped.trans hmapped, fun a hlow hhigh ↦ ?_⟩
  change byteAt (t.memory .process) a = _
  have hlength : (spilled s).length = 16 := rfl
  have haddress := wordAddress_toNat a
  have hindex : (a - spillEnd).toNat / 8 < (spilled s).length := by
    rw [hlength]
    simp only [spillEnd, stackBegin] at hlow hhigh ⊢
    bv_omega
  have hword : wordAddress a = spillEnd + BitVec.ofNat 64 (8 * ((a - spillEnd).toNat / 8)) := by
    simp only [spillEnd, stackBegin] at hlow hhigh ⊢
    bv_omega
  have hholds := hpushed.holds _ hindex
  rw [hdepth, ← hword] at hholds
  rw [byteAt, spilledByte, hholds, List.getD_eq_getElem?_getD, List.getElem?_eq_getElem hindex,
    Option.getD_some]

theorem el1SyncHandler_eq_frame (mmuTablesStart : Word) : el1SyncHandler mmuTablesStart =
    [.bl .maskTimerIrq] ++ ([.stp 29 30] ++ behindFrame mmuTablesStart) := rfl

/-! ### The bytes that are lost -/

/-- The handler begins in a state in which the registers are on the stack of the process. -/
theorem exists_spilled (call : Callee → Cpu → Cpu) (esr far : Word)
    (hsp : s.sp .kernel = stackBegin) (hprocess : s.system .ttbr0El1 ≠ link.mmuTablesStart) :
    ∃ t, Spilled link s t ∧
      (runNested link call esr far s).memory =
        (execMapped link call ([.bl .maskTimerIrq] ++
        ([.stp 29 30] ++ behindFrame link.mmuTablesStart)) t).memory := by
  have hspilled := currElSp0Sync_spilled call (link.address .currElSp0Sync) esr far hsp hprocess
  have heret : ∀ u : Cpu, (eret u).memory = u.memory := fun _ ↦ rfl
  rw [runNested, el1SyncHandler_eq_frame]
  generalize execMapped link call currElSp0Sync
    (takeException (link.address .currElSp0Sync) esr far s) = t at hspilled ⊢
  refine ⟨jump (link.address .el1SyncHandler) t, ?_, heret _⟩
  exact ⟨hspilled.current, hspilled.sp, hspilled.mapped, hspilled.bytes⟩

/-- If the stack holds 128 bytes at most, they are replaced by the registers. -/
theorem byteAt_runNested (hcall : ConformsMapped link saved call) (esr far : Word)
    (hsp : s.sp .kernel = stackBegin) (hprocess : s.system .ttbr0El1 ≠ link.mmuTablesStart)
    (hsaved : spillEnd ≤ saved) {a : Word} (ha : InStack saved a) :
    byteAt ((runNested link call esr far s).memory .process) a = spilledByte s a := by
  obtain ⟨t, ht, hmemory⟩ := exists_spilled call esr far hsp hprocess
  have habove : Above 8 (InStack saved) := by
    intro b hb
    obtain ⟨-, hlow, hhigh⟩ := hb
    refine ⟨?_, hhigh⟩
    simp only [spillEnd, stackBegin] at hsaved hhigh ⊢
    bv_omega
  have hentry : Nested (InStack saved) (spilledByte s) 8 t := by
    refine ⟨ht.current, ht.sp, fun b hb ↦ ?_⟩
    exact ht.bytes b (BitVec.le_trans hsaved hb.2.1) hb.2.2
  have hmasked :
      Nested (InStack saved) (spilledByte s) 8 (execMapped link call [.bl .maskTimerIrq] t) :=
    hentry.bl hcall habove (fun _ ↦ id) (by decide) .maskTimerIrq
  rw [hmemory, execMapped_append, execMapped_append]
  generalize execMapped link call [.bl .maskTimerIrq] t = u at hmasked ⊢
  have hframe : Nested (InStack saved) (spilledByte s) 9 (execMapped link call [.stp 29 30] u) :=
    hmasked.stp habove (by decide) 29 30
  exact hframe.handle hcall (habove.mono 1) (fun _ ↦ id) (by decide) a ha

/-! ### A stack that is longer -/

/-- C functions that do nothing, except that `mask_timer_irq` returns with a value in `x30`. -/
def returning (value : Word) : Callee → Cpu → Cpu
  | .maskTimerIrq, s => s.set 30 value
  | _, s => s

theorem conformsMapped_returning (link : Linkage) (saved value : Word) :
    ConformsMapped link saved (returning value) where
  calleeSaved f s i _ hi := by
    have hne : i ≠ 30 := by omega
    cases f with
    | maskTimerIrq => exact Function.update_of_ne hne _ _
    | _ => rfl
  sp f s := by cases f <;> rfl
  current f s := by cases f <;> rfl
  ttbr0 f s := by cases f <;> rfl
  pushed f s a _ _ := by cases f <;> rfl
  stack f s a _ _ := by cases f <;> rfl

/-- The byte below the ones that `curr_el_sp0_sync` pushes is one of `x30`. -/
theorem byteAt_runNested_returning (value esr far : Word) (hsp : s.sp .kernel = stackBegin)
    (hprocess : s.system .ttbr0El1 ≠ link.mmuTablesStart) :
    byteAt ((runNested link (returning value) esr far s).memory .process) (spillEnd - 1) =
      wordByte value 7 := by
  obtain ⟨t, ht, hmemory⟩ := exists_spilled (returning value) esr far hsp hprocess
  have hregion : Above 9 (· = spillEnd - 1) := by
    rintro a rfl
    decide
  have hcurrent : (execMapped link (returning value) [.bl .maskTimerIrq] t).current = .kernel :=
    ht.current
  have hspEl1 : (execMapped link (returning value) [.bl .maskTimerIrq] t).sp .kernel = spillEnd :=
    ht.sp
  have hmapped : mapped link (execMapped link (returning value) [.bl .maskTimerIrq] t) = .process :=
    ht.mapped
  have hx30 : (execMapped link (returning value) [.bl .maskTimerIrq] t).x 30 = value := by
    simp [execMapped, stepMapped, effectMapped, effect, returning, Cpu.next, Cpu.set]
  rw [hmemory, execMapped_append, execMapped_append]
  generalize execMapped link (returning value) [.bl .maskTimerIrq] t =
    u at hcurrent hspEl1 hmapped hx30 ⊢
  have hframe : Nested (· = spillEnd - 1) (fun _ ↦ wordByte value 7) 9
      (execMapped link (returning value) [.stp 29 30] u) := by
    refine ⟨hcurrent, ?_, ?_⟩
    · have hpush : (stepMapped link (returning value) u (.stp 29 30)).sp .kernel =
          spillEnd - 16 := by
        simp only [stepMapped, effectMapped, Cpu.next, hcurrent, hspEl1, Function.update_self]
      exact hpush
    · rintro a rfl
      have haddress : wordAddress (spillEnd - 1) = spillEnd - 16 + 8 := by decide
      have hword : (stepMapped link (returning value) u (.stp 29 30)).memory .process
          (spillEnd - 16 + 8) = u.get 30 := by
        simp only [stepMapped, effectMapped, Cpu.next, hmapped, hcurrent, hspEl1,
          Function.update_self]
      have hget : u.get 30 = value := hx30
      rw [hget, ← haddress] at hword
      exact congrArg (wordByte · 7) hword
  refine hframe.handle (conformsMapped_returning link 0 value) hregion ?_ (by decide) _ rfl
  rintro a rfl
  exact ⟨by decide, by decide, by decide⟩

theorem wordByte_not_ne (w : Word) : wordByte (~~~w) 7 ≠ wordByte w 7 := by
  intro heq
  have hbit := congrArg (BitVec.getLsbD · 0) heq
  simp [wordByte] at hbit

/-- A fault while a message is copied leaves the stack of the process alone exactly if no more than
128 bytes of it are in use, and they are those of the registers that the handler pushes. -/
theorem keepsStack_iff (esr far : Word) (hsp : s.sp .kernel = stackBegin)
    (hprocess : s.system .ttbr0El1 ≠ link.mmuTablesStart) : KeepsStack link esr far saved s ↔
      spillEnd ≤ saved ∧ ∀ a, InStack saved a → byteAt (s.memory .process) a = spilledByte s a := by
  constructor
  · intro hkeeps
    have hsaved : spillEnd ≤ saved := by
      by_contra hbelow
      let value : Word := ~~~(s.memory .process (wordAddress (spillEnd - 1)))
      have hstack : InStack saved (spillEnd - 1) := by
        refine ⟨by decide, ?_, by decide⟩
        simp only [spillEnd, stackBegin] at hbelow ⊢
        bv_omega
      have hbyte := hkeeps _ (conformsMapped_returning link saved value) _ hstack
      rw [byteAt_runNested_returning value esr far hsp hprocess] at hbyte
      exact wordByte_not_ne _ hbyte
    have hquiet := conformsMapped_returning link saved 0
    refine ⟨hsaved, fun a ha ↦ ?_⟩
    rw [← hkeeps _ hquiet a ha]
    exact byteAt_runNested hquiet esr far hsp hprocess hsaved ha
  · rintro ⟨hsaved, hbytes⟩ call hcall a ha
    rw [byteAt_runNested hcall esr far hsp hprocess hsaved ha, hbytes a ha]

end Steps

/-! ### A frame of 16 bytes -/

/-- The kernel copies a message of a process, with registers that are not zero. -/
def copyingCpu : Cpu :=
  { sampleCpu with sp := fun | .process => 0x3f1ffe00 | .kernel => stackBegin }

theorem keepsStack_iff_frame : KeepsStack sampleLink 0x96000007 0x8001000 0x3f1ffff0 copyingCpu ↔
    spillEnd ≤ 0x3f1ffff0 ∧ ∀ a, InStack 0x3f1ffff0 a →
    byteAt (copyingCpu.memory .process) a = spilledByte copyingCpu a :=
  keepsStack_iff 0x96000007 0x8001000 rfl (by decide)

/-- `x1` replaces the second word of the frame. -/
theorem not_keepsStack_frame :
    ¬ KeepsStack sampleLink 0x96000007 0x8001000 0x3f1ffff0 copyingCpu := by
  intro hkeeps
  have hcall := conformsMapped_returning sampleLink 0x3f1ffff0 0
  have hstack : InStack 0x3f1ffff0 0x3f1ffff8 := ⟨by decide, by decide, by decide⟩
  have hbyte := hkeeps _ hcall _ hstack
  rw [byteAt_runNested hcall 0x96000007 0x8001000 rfl (by decide) (by decide) hstack] at hbyte
  exact absurd hbyte (by decide)

end SysresOs.Trap
