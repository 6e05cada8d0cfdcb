import Mathlib.Data.BitVec
import Mathlib.Logic.Function.Basic

/-!
# Entry code of AArch64

The instructions of which the entry and exit code of a kernel is made, at exception level 1: pairs
of registers pushed to and popped from a stack, moves from and to system registers, and calls of C
functions. A C function is any function on states; what a caller may rely on is `Aapcs`, the part of
the procedure call standard about the callee-saved registers, the stack pointers and the words that
have been pushed.

The rules for stacks are about the lists of words between a stack pointer and where it was: a push
puts two words in front (`Stacks.push`), a pop takes two off (`Stacks.pop`), and a call keeps them
(`Stacks.bl`). A block of pushes is undone by the pops in the opposite order (`exec_pushes`,
`exec_pops`).
-/

set_option autoImplicit false
set_option relaxedAutoImplicit false

namespace SysresOs.AArch64

/-! ### States -/

/-- A register or a word of memory. -/
abbrev Word := BitVec 64

/-- The system registers. -/
inductive SystemRegister
  | spsrEl1
  | elrEl1
  | esrEl1
  | farEl1
  | ttbr0El1
  deriving DecidableEq

/-- Two spaces of memory that do not overlap. `SP_EL0` points into that of the process, `SP_EL1`
into that of the kernel. -/
inductive Space
  | process
  | kernel
  deriving DecidableEq

/-- A processor with its memory. -/
structure Cpu where
  /-- The general registers. -/
  x : ℕ → Word
  /-- `SP_EL0` and `SP_EL1`. -/
  sp : Space → Word
  pc : Word
  pstate : Word
  system : SystemRegister → Word
  /-- The words at the addresses of both spaces. -/
  memory : Space → Word → Word

namespace Cpu

/-- The space of a processor state `PSTATE`: its bit 0 is `SPSel`. -/
def spaceOf (pstate : Word) : Space := if pstate.getLsbD 0 then .kernel else .process

/-- The space of the stack pointer in use. -/
def current (s : Cpu) : Space := spaceOf s.pstate

/-- A register as an operand, in which the number 31 is `xzr`. -/
def get (s : Cpu) (i : ℕ) : Word := if i = 31 then 0 else s.x i

/-- Assignment of a general register. -/
def set (s : Cpu) (i : ℕ) (value : Word) : Cpu := { s with x := Function.update s.x i value }

/-- The next instruction. -/
def next (s : Cpu) : Cpu := { s with pc := s.pc + 4 }

end Cpu

/-- `PSTATE` with `SPSel` from a word. -/
def setSpSel (pstate value : Word) : Word := (pstate &&& ~~~(1 : Word)) ||| (value &&& 1)

/-- `PSTATE` with other condition flags. -/
def setFlags (pstate : Word) (flags : BitVec 4) : Word :=
  (pstate &&& ~~~(0xf0000000 : Word)) ||| (flags.setWidth 64 <<< 28)

/-- A condition flag at its place. -/
def flag (b : Bool) (i : ℕ) : BitVec 4 := (BitVec.ofBool b).setWidth 4 <<< i

/-- The flags `NZCV` of a comparison. -/
def compareFlags (a b : Word) : BitVec 4 :=
  flag (a - b).msb 3 ||| flag (a = b) 2 ||| flag (b ≤ a) 1 ||| flag (a.msb ≠ b.msb ∧
    (a - b).msb ≠ a.msb) 0

/-! ### Instructions -/

/-- The instructions. `F` has the names of the functions. -/
inductive Instr (F : Type)
  /-- `stp xa, xb, [sp, #-16]!` -/
  | stp (a b : ℕ)
  /-- `ldp xa, xb, [sp], #16` -/
  | ldp (a b : ℕ)
  /-- `ldr xa, [xbase], #step` -/
  | ldrFrom (a base : ℕ) (step : Word)
  /-- `ldp xa, xb, [xbase], #step`, and without the write-back for the step 0. -/
  | ldpFrom (a b base : ℕ) (step : Word)
  /-- `mov xd, #value` or `ldr xd, =value` -/
  | mov (d : ℕ) (value : Word)
  /-- `mov xd, xa` -/
  | movReg (d a : ℕ)
  /-- `mov sp, xa` -/
  | movSp (a : ℕ)
  /-- `add xd, sp, #n`, which is `mov xd, sp` for 0. -/
  | addSp (d : ℕ) (n : Word)
  /-- `add sp, sp, #n` -/
  | raiseSp (n : Word)
  /-- `and xd, xa, #mask` -/
  | and (d a : ℕ) (mask : Word)
  /-- `lsr xd, xa, #n` -/
  | lsr (d a n : ℕ)
  /-- `cmp xa, #value` -/
  | cmp (a : ℕ) (value : Word)
  /-- `mrs xd, r` -/
  | mrs (d : ℕ) (r : SystemRegister)
  /-- `msr r, xa` -/
  | msr (r : SystemRegister) (a : ℕ)
  /-- `mrs xd, SPSel` -/
  | mrsSpSel (d : ℕ)
  /-- `msr SPSel, xa` -/
  | msrSpSel (a : ℕ)
  | isb
  /-- `bl f` -/
  | bl (f : F)

open Function Cpu in
/-- What an instruction does before the next one. -/
def effect {F : Type} (call : F → Cpu → Cpu) (s : Cpu) : Instr F → Cpu
  | .stp a b =>
    let p := s.sp s.current - 16
    { s with
      sp := update s.sp s.current p
      memory := update s.memory s.current
        (update (update (s.memory s.current) p (s.get a)) (p + 8) (s.get b)) }
  | .ldp a b =>
    let p := s.sp s.current
    { (s.set a (s.memory s.current p)).set b (s.memory s.current (p + 8)) with
      sp := update s.sp s.current (p + 16) }
  | .ldrFrom a base step => (s.set base (s.x base + step)).set a (s.memory .kernel (s.x base))
  | .ldpFrom a b base step =>
    ((s.set base (s.x base + step)).set a (s.memory .kernel (s.x base))).set b
      (s.memory .kernel (s.x base + 8))
  | .mov d value => s.set d value
  | .movReg d a => s.set d (s.get a)
  | .movSp a => { s with sp := update s.sp s.current (s.get a) }
  | .addSp d n => s.set d (s.sp s.current + n)
  | .raiseSp n => { s with sp := update s.sp s.current (s.sp s.current + n) }
  | .and d a mask => s.set d (s.get a &&& mask)
  | .lsr d a n => s.set d (s.get a >>> n)
  | .cmp a value => { s with pstate := setFlags s.pstate (compareFlags (s.get a) value) }
  | .mrs d r => s.set d (s.system r)
  | .msr r a => { s with system := update s.system r (s.get a) }
  | .mrsSpSel d => s.set d (s.pstate &&& 1)
  | .msrSpSel a => { s with pstate := setSpSel s.pstate (s.get a) }
  | .isb => s
  | .bl f => { call f (s.set 30 (s.pc + 4)) with pc := s.pc }

/-- An instruction is executed. -/
def step {F : Type} (call : F → Cpu → Cpu) (s : Cpu) (i : Instr F) : Cpu := (effect call s i).next

/-- Instructions are executed one after another. -/
def exec {F : Type} (call : F → Cpu → Cpu) (code : List (Instr F)) (s : Cpu) : Cpu :=
  code.foldl (step call) s

/-! ### Exceptions -/

/-- The processor takes an exception to exception level 1: it uses `SP_EL1`, with all interrupts
masked. -/
def takeException (vector esr far : Word) (s : Cpu) : Cpu :=
  { s with
    pc := vector
    pstate := (s.pstate &&& 0xf0000000) ||| 0x3c5
    system := fun
      | .spsrEl1 => s.pstate
      | .elrEl1 => s.pc
      | .esrEl1 => esr
      | .farEl1 => far
      | .ttbr0El1 => s.system .ttbr0El1 }

/-- `eret` -/
def eret (s : Cpu) : Cpu := { s with pc := s.system .elrEl1, pstate := s.system .spsrEl1 }

@[simp] theorem eret_x (s : Cpu) : (eret s).x = s.x := rfl

@[simp] theorem eret_sp (s : Cpu) : (eret s).sp = s.sp := rfl

@[simp] theorem eret_pc (s : Cpu) : (eret s).pc = s.system .elrEl1 := rfl

@[simp] theorem eret_pstate (s : Cpu) : (eret s).pstate = s.system .spsrEl1 := rfl

/-- A branch. -/
def jump (address : Word) (s : Cpu) : Cpu := { s with pc := address }

/-! ### C functions -/

/-- What the procedure call standard guarantees of a function that is called while what has been
pushed ends at `top`. -/
structure Aapcs (top : Space → Word) (f : Cpu → Cpu) : Prop where
  calleeSaved : ∀ s i, 19 ≤ i → i ≤ 29 → (f s).x i = s.x i
  sp : ∀ s, (f s).sp = s.sp
  current : ∀ s, (f s).current = s.current
  pushed : ∀ s space a, (a - s.sp space).toNat < (top space - s.sp space).toNat →
    (f s).memory space a = s.memory space a

/-- The function leaves the system registers alone. -/
def KeepsSystem (f : Cpu → Cpu) : Prop := ∀ s, (f s).system = s.system

/-! ### Selecting a stack -/

section Select

open Cpu

variable (pstate value : Word) (flags : BitVec 4)

@[simp] theorem spaceOf_setSpSel : spaceOf (setSpSel pstate value) = spaceOf value := by
  simp [spaceOf, setSpSel]

@[simp] theorem spaceOf_setFlags : spaceOf (setFlags pstate flags) = spaceOf pstate := by
  simp [spaceOf, setFlags]

@[simp] theorem spaceOf_and_one : spaceOf (pstate &&& 1) = spaceOf pstate := by
  simp [spaceOf]

/-- The flag that a branch if not equal looks at. -/
theorem setFlags_compareFlags (a b : Word) :
    (setFlags pstate (compareFlags a b)).getLsbD 30 = decide (a = b) := by
  simp [setFlags, compareFlags, flag]

end Select

/-! ### Words between a stack pointer and where it was -/

/-- The stack pointer is below `top` by the words of a list, which begins at it. -/
structure Pushed (top sp : Word) (memory : Word → Word) (words : List Word) : Prop where
  depth : sp + BitVec.ofNat 64 (8 * words.length) = top
  holds : ∀ i (h : i < words.length), memory (sp + BitVec.ofNat 64 (8 * i)) = words[i]

section Words

variable {top sp a b : Word} {memory memory' : Word → Word} {words : List Word}

theorem Pushed.nil (sp : Word) (memory : Word → Word) : Pushed sp sp memory [] :=
  ⟨by simp, fun i h ↦ absurd h (Nat.not_lt_zero i)⟩

theorem Pushed.push (h : Pushed top sp memory words) (hsmall : words.length < 2 ^ 32) :
    Pushed top (sp - 16) (Function.update (Function.update memory (sp - 16) a) (sp - 16 + 8) b)
      (a :: b :: words) where
  depth := by
    have hdepth := h.depth
    rw [List.length_cons, List.length_cons]
    bv_omega
  holds := by
    intro i hi
    match i, hi with
    | 0, _ =>
      have hne : sp - 16 + BitVec.ofNat 64 (8 * 0) ≠ sp - 16 + 8 := by bv_omega
      have hsame : sp - 16 + BitVec.ofNat 64 (8 * 0) = sp - 16 := by bv_omega
      rw [Function.update_of_ne hne, hsame, Function.update_self]
      rfl
    | 1, _ =>
      have hsame : sp - 16 + BitVec.ofNat 64 (8 * 1) = sp - 16 + 8 := by bv_omega
      rw [hsame, Function.update_self]
      rfl
    | i + 2, hi =>
      have hlt : i < words.length := by simpa using hi
      have hne : sp - 16 + BitVec.ofNat 64 (8 * (i + 2)) ≠ sp - 16 + 8 := by bv_omega
      have hne' : sp - 16 + BitVec.ofNat 64 (8 * (i + 2)) ≠ sp - 16 := by bv_omega
      have hsame : sp - 16 + BitVec.ofNat 64 (8 * (i + 2)) = sp + BitVec.ofNat 64 (8 * i) := by
        bv_omega
      rw [Function.update_of_ne hne, Function.update_of_ne hne', hsame, h.holds i hlt]
      rfl

theorem Pushed.first (h : Pushed top sp memory (a :: b :: words)) : memory sp = a := by
  have hsame : sp = sp + BitVec.ofNat 64 (8 * 0) := by bv_omega
  exact (congrArg memory hsame).trans (h.holds 0 (Nat.zero_lt_succ _))

theorem Pushed.second (h : Pushed top sp memory (a :: b :: words)) : memory (sp + 8) = b :=
  h.holds 1 (Nat.succ_lt_succ (Nat.zero_lt_succ _))

theorem Pushed.pop (h : Pushed top sp memory (a :: b :: words)) :
    Pushed top (sp + 16) memory words where
  depth := by
    have hdepth := h.depth
    rw [List.length_cons, List.length_cons] at hdepth
    bv_omega
  holds := by
    intro i hi
    have hword := h.holds (i + 2) (by simpa using hi)
    have hsame : sp + BitVec.ofNat 64 (8 * (i + 2)) = sp + 16 + BitVec.ofNat 64 (8 * i) := by
      bv_omega
    rwa [hsame] at hword

/-- The words stay while the memory between the stack pointer and `top` does. -/
theorem Pushed.congr (h : Pushed top sp memory words) (hsmall : words.length < 2 ^ 32)
    (hkeep : ∀ c, (c - sp).toNat < (top - sp).toNat → memory' c = memory c) :
    Pushed top sp memory' words where
  depth := h.depth
  holds := by
    intro i hi
    rw [hkeep _ ?_, h.holds i hi]
    have hdepth := h.depth
    bv_omega

end Words

/-- The words of a list per stack have been pushed since the stack pointers were `top`. -/
def Stacks (top : Space → Word) (words : Space → List Word) (s : Cpu) : Prop :=
  ∀ space, Pushed (top space) (s.sp space) (s.memory space) (words space)

section Rules

variable {F : Type} {call : F → Cpu → Cpu} {top : Space → Word} {words : Space → List Word}
  {s t : Cpu}

theorem Stacks.start (s : Cpu) : Stacks s.sp (fun _ ↦ []) s :=
  fun space ↦ .nil (s.sp space) (s.memory space)

/-- Where nothing is pushed, the stack pointers are where they were. -/
theorem Stacks.sp_eq (h : Stacks top words s) (hwords : ∀ space, words space = []) :
    s.sp = top := by
  funext space
  have hdepth := (h space).depth
  rw [hwords] at hdepth
  simpa using hdepth

/-- The stacks do not depend on the registers. -/
theorem Stacks.congr (h : Stacks top words s) (hsp : t.sp = s.sp) (hmemory : t.memory = s.memory) :
    Stacks top words t := by
  intro space
  rw [hsp, hmemory]
  exact h space

theorem Stacks.push (h : Stacks top words s) (hsmall : (words s.current).length < 2 ^ 32)
    (a b : ℕ) : Stacks top (Function.update words s.current (s.get a :: s.get b :: words s.current))
      (step call s (.stp a b)) := by
  intro space
  by_cases hspace : space = s.current
  · subst hspace
    simp only [step, effect, Cpu.next, Function.update_self]
    exact (h s.current).push hsmall
  · simp only [step, effect, Cpu.next, Function.update_of_ne hspace]
    exact h space

theorem Stacks.pop {u v : Word} {rest : List Word} (h : Stacks top words s)
    (hwords : words s.current = u :: v :: rest) (a b : ℕ) :
    Stacks top (Function.update words s.current rest) (step call s (.ldp a b)) := by
  intro space
  by_cases hspace : space = s.current
  · subst hspace
    simp only [step, effect, Cpu.next, Cpu.set, Function.update_self]
    have hcurrent := h s.current
    rw [hwords] at hcurrent
    exact hcurrent.pop
  · simp only [step, effect, Cpu.next, Cpu.set, Function.update_of_ne hspace]
    exact h space

/-- What a pop loads. -/
theorem Stacks.pop_x {u v : Word} {rest : List Word} (h : Stacks top words s)
    (hwords : words s.current = u :: v :: rest) (a b : ℕ) :
    (step call s (.ldp a b)).x = Function.update (Function.update s.x a u) b v := by
  have hcurrent := h s.current
  rw [hwords] at hcurrent
  simp only [step, effect, Cpu.next, Cpu.set, hcurrent.first, hcurrent.second]

theorem Stacks.bl (h : Stacks top words s) (hsmall : ∀ space, (words space).length < 2 ^ 32) {f : F}
    (hf : Aapcs top (call f)) : Stacks top words (step call s (.bl f)) := by
  intro space
  simp only [step, effect, Cpu.next, hf.sp]
  exact (h space).congr (hsmall space) fun c hc ↦ hf.pushed _ _ _ hc

/-- The code that pushes pairs of registers. -/
def pushes (pairs : List (ℕ × ℕ)) : List (Instr F) := pairs.map fun p ↦ .stp p.1 p.2

/-- The code that pops pairs of registers. -/
def pops (pairs : List (ℕ × ℕ)) : List (Instr F) := pairs.map fun p ↦ .ldp p.1 p.2

/-- The values of pairs of registers. -/
def frame (value : ℕ → Word) (pairs : List (ℕ × ℕ)) : List Word :=
  pairs.flatMap fun p ↦ [value p.1, value p.2]

theorem exec_cons (i : Instr F) (code : List (Instr F)) (s : Cpu) :
    exec call (i :: code) s = exec call code (step call s i) := rfl

theorem exec_append (code code' : List (Instr F)) (s : Cpu) :
    exec call (code ++ code') s = exec call code' (exec call code s) := List.foldl_append

/-- The instruction does not write the system register. -/
def Instr.Spares (call : F → Cpu → Cpu) (r : SystemRegister) : Instr F → Prop
  | .msr r' _ => r' ≠ r
  | .bl f => ∀ s, (call f s).system r = s.system r
  | _ => True

theorem step_spares {i : Instr F} {r : SystemRegister} (h : i.Spares call r) (s : Cpu) :
    (step call s i).system r = s.system r := by
  cases i with
  | msr r' a => exact Function.update_of_ne (Ne.symm h) _ _
  | bl f => exact h _
  | _ => rfl

/-- Code in which nothing writes a system register keeps it. -/
theorem exec_spares {code : List (Instr F)} {r : SystemRegister} (h : ∀ i ∈ code, i.Spares call r)
    (s : Cpu) : (exec call code s).system r = s.system r := by
  induction code generalizing s with
  | nil => rfl
  | cons i code ih =>
    obtain ⟨hfirst, hrest⟩ := List.forall_mem_cons.mp h
    exact (ih hrest _).trans (step_spares hfirst s)

/-- Pushes put the values of the registers on the stack, the last pair in front. -/
theorem exec_pushes (call : F → Cpu → Cpu) (pairs : List (ℕ × ℕ)) (h : Stacks top words s)
    (hsmall : (words s.current).length + 2 * pairs.length < 2 ^ 32) :
    (exec call (pushes pairs) s).x = s.x ∧ (exec call (pushes pairs) s).pstate = s.pstate ∧
      (exec call (pushes pairs) s).system = s.system ∧
      Stacks top (Function.update words s.current (frame s.get pairs.reverse ++ words s.current))
        (exec call (pushes pairs) s) := by
  induction pairs generalizing s words with
  | nil =>
    rw [List.reverse_nil, frame, List.flatMap_nil, List.nil_append, Function.update_eq_self]
    exact ⟨rfl, rfl, rfl, h⟩
  | cons p pairs ih =>
    rw [List.length_cons] at hsmall
    have hfirst : Stacks top _ (step call s (.stp p.1 p.2)) := h.push (by omega) p.1 p.2
    obtain ⟨hx, hpstate, hsystem, hstacks⟩ := ih hfirst (by
      change (Function.update words s.current _ s.current).length + _ < _
      rw [Function.update_self, List.length_cons, List.length_cons]
      omega)
    refine ⟨hx, hpstate, hsystem, ?_⟩
    change Stacks top (Function.update (Function.update words s.current _) s.current
      (frame s.get pairs.reverse ++ Function.update words s.current _ s.current)) _ at hstacks
    rw [Function.update_self, Function.update_idem] at hstacks
    rw [List.reverse_cons, frame, List.flatMap_append, List.append_assoc]
    exact hstacks

/-- Pops load the registers with the values on the stack. -/
theorem exec_pops (call : F → Cpu → Cpu) {value : ℕ → Word} {rest : List Word}
    (pairs : List (ℕ × ℕ)) (h : Stacks top words s)
    (hwords : words s.current = frame value pairs ++ rest) :
    (∀ i, (exec call (pops pairs) s).x i =
        if i ∈ pairs.flatMap (fun p ↦ [p.1, p.2]) then value i else s.x i) ∧
      (exec call (pops pairs) s).pstate = s.pstate ∧ (exec call (pops pairs) s).system = s.system ∧
      Stacks top (Function.update words s.current rest) (exec call (pops pairs) s) := by
  induction pairs generalizing s words with
  | nil =>
    have hrest : words s.current = rest := hwords
    rw [← hrest, Function.update_eq_self]
    exact ⟨fun i ↦ rfl, rfl, rfl, h⟩
  | cons p pairs ih =>
    have hfirst : words s.current = value p.1 :: value p.2 :: (frame value pairs ++ rest) := hwords
    have hnext : Stacks top _ (step call s (.ldp p.1 p.2)) := h.pop hfirst p.1 p.2
    obtain ⟨hx, hpstate, hsystem, hstacks⟩ := ih hnext (Function.update_self _ _ _)
    refine ⟨fun i ↦ ?_, hpstate, hsystem, ?_⟩
    · refine (hx i).trans ?_
      rw [h.pop_x hfirst p.1 p.2, List.flatMap_cons]
      by_cases hmem : i ∈ pairs.flatMap fun p ↦ [p.1, p.2]
      · rw [if_pos hmem, if_pos (List.mem_append_right _ hmem)]
      · rw [if_neg hmem]
        by_cases hsecond : i = p.2
        · subst hsecond
          simp
        · by_cases hfirst : i = p.1
          · subst hfirst
            simp [hsecond]
          · simp [hfirst, hsecond, hmem]
    · change Stacks top (Function.update (Function.update words s.current _) s.current rest)
        _ at hstacks
      rwa [Function.update_idem] at hstacks

/-- The code that loads pairs of registers from where `x0` points, downwards. -/
def loads (pairs : List (ℕ × ℕ)) : List (Instr F) := pairs.map fun p ↦ .ldpFrom p.1 p.2 0 (-16)

/-- Loads set the registers to the words in memory, and lower `x0`. -/
theorem exec_loads (call : F → Cpu → Cpu) {value : ℕ → Word} (pairs : List (ℕ × ℕ))
    (hvalue : ∀ k (hk : k < pairs.length),
      s.memory .kernel (s.x 0 - BitVec.ofNat 64 (16 * k)) = value pairs[k].1 ∧
        s.memory .kernel (s.x 0 - BitVec.ofNat 64 (16 * k) + 8) = value pairs[k].2)
    (hne : ∀ p ∈ pairs, p.1 ≠ 0 ∧ p.2 ≠ 0) :
    (exec call (loads pairs) s).x 0 = s.x 0 - BitVec.ofNat 64 (16 * pairs.length) ∧
      (∀ i ≠ 0, (exec call (loads pairs) s).x i =
        if i ∈ pairs.flatMap (fun p ↦ [p.1, p.2]) then value i else s.x i) ∧
      (exec call (loads pairs) s).sp = s.sp ∧ (exec call (loads pairs) s).system = s.system ∧
      (exec call (loads pairs) s).memory = s.memory := by
  induction pairs generalizing s with
  | nil => exact ⟨(BitVec.sub_zero _).symm, fun i _ ↦ rfl, rfl, rfl, rfl⟩
  | cons p pairs ih =>
    obtain ⟨hfirst, hsecond⟩ := hvalue 0 (Nat.zero_lt_succ _)
    obtain ⟨hp₁, hp₂⟩ := hne p List.mem_cons_self
    have hzero : s.x 0 - BitVec.ofNat 64 (16 * 0) = s.x 0 := BitVec.sub_zero _
    rw [hzero] at hfirst hsecond
    have hx : (step call s (.ldpFrom p.1 p.2 0 (-16))).x =
        Function.update (Function.update (Function.update s.x 0 (s.x 0 + -16)) p.1 (value p.1)) p.2
        (value p.2) := by
      simp only [step, effect, Cpu.next, Cpu.set, hfirst, hsecond]
      rfl
    have hbase : (step call s (.ldpFrom p.1 p.2 0 (-16))).x 0 = s.x 0 - 16 := by
      rw [hx, Function.update_of_ne hp₂.symm, Function.update_of_ne hp₁.symm, Function.update_self]
      bv_omega
    obtain ⟨hx0, hxi, hsp, hsystem, hmemory⟩ := ih (s := step call s (.ldpFrom p.1 p.2 0 (-16)))
      (fun k hk ↦ by
      have hnext := hvalue (k + 1) (Nat.succ_lt_succ hk)
      have haddress :
          s.x 0 - 16 - BitVec.ofNat 64 (16 * k) = s.x 0 - BitVec.ofNat 64 (16 * (k + 1)) := by
        bv_omega
      rw [hbase, haddress]
      exact hnext) fun q hq ↦ hne q (List.mem_cons_of_mem p hq)
    refine ⟨hx0.trans ?_, fun i hi ↦ (hxi i hi).trans ?_, hsp, hsystem, hmemory⟩
    · rw [hbase, List.length_cons]
      bv_omega
    · rw [hx, List.flatMap_cons]
      by_cases hmem : i ∈ pairs.flatMap fun p ↦ [p.1, p.2]
      · rw [if_pos hmem, if_pos (List.mem_append_right _ hmem)]
      · rw [if_neg hmem]
        by_cases hsecond : i = p.2
        · subst hsecond
          simp
        · by_cases hfirst : i = p.1
          · subst hfirst
            simp [hsecond]
          · simp [hfirst, hsecond, hmem, hi]

end Rules

end SysresOs.AArch64
