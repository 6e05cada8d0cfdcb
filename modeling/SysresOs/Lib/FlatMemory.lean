import SysresOs.Lib.AArch64
import SysresOs.Lib.AddressSpace

/-!
# Entry code over one memory

The instructions of `AArch64` on a processor whose stack pointers and pointers all go to one memory
of bytes, for code that reads what a C function may have written. Code that neither stores nor calls
a function does what it does over two memories that show the same words (`Machine.cpu_exec`), so
that the rules for loads apply to it.
-/

set_option autoImplicit false
set_option relaxedAutoImplicit false

namespace SysresOs.AArch64

open SysresOs.AddressSpace (loadWord storeWord)

/-- A processor with one memory. -/
structure Machine where
  /-- The general registers. -/
  x : ℕ → Word
  /-- `SP_EL0` and `SP_EL1`. -/
  sp : Space → Word
  pc : Word
  pstate : Word
  system : SystemRegister → Word
  bytes : AddressSpace.Bytes 64

namespace Machine

/-- The processor with the words that its memory has at every address. -/
def cpu (s : Machine) : Cpu where
  x := s.x
  sp := s.sp
  pc := s.pc
  pstate := s.pstate
  system := s.system
  memory _ a := loadWord s.bytes a

/-- The registers of another processor. -/
def adopt (s : Machine) (c : Cpu) : Machine where
  x := c.x
  sp := c.sp
  pc := c.pc
  pstate := c.pstate
  system := c.system
  bytes := s.bytes

/-- The space of the stack pointer in use. -/
def current (s : Machine) : Space := Cpu.spaceOf s.pstate

/-- The stack pointer in use. -/
def stack (s : Machine) : Word := s.sp s.current

/-- The memory after a pair of registers is pushed. -/
def pushed (s : Machine) (a b : ℕ) : AddressSpace.Bytes 64 :=
  storeWord (storeWord s.bytes (s.stack - 16) (s.cpu.get a)) (s.stack - 16 + 8) (s.cpu.get b)

variable {F : Type}

/-- What an instruction does before the next one. -/
def effect (call : F → Machine → Machine) (s : Machine) : Instr F → Machine
  | .stp a b => { s with
      sp := Function.update s.sp s.current (s.stack - 16)
      bytes := s.pushed a b }
  | .bl f => { call f { s with x := Function.update s.x 30 (s.pc + 4) } with pc := s.pc }
  | i => s.adopt (AArch64.effect (fun _ ↦ id) s.cpu i)

/-- An instruction is executed. -/
def step (call : F → Machine → Machine) (s : Machine) (i : Instr F) : Machine :=
  { effect call s i with pc := (effect call s i).pc + 4 }

/-- Instructions are executed one after another. -/
def exec (call : F → Machine → Machine) (code : List (Instr F)) (s : Machine) : Machine :=
  code.foldl (step call) s

/-- `eret` -/
def eret (s : Machine) : Machine := { s with pc := s.system .elrEl1, pstate := s.system .spsrEl1 }

/-- A branch. -/
def jump (address : Word) (s : Machine) : Machine := { s with pc := address }

end Machine

/-! ### A pair of registers on the stack -/

section Pushed

open SysresOs.AddressSpace

variable (s : Machine) (a b : ℕ)

theorem Machine.pushed_of_not_within {x : Word} (h : ¬ Within (s.stack - 16) 16 x) :
    s.pushed a b x = s.bytes x := by
  unfold Within at h
  rw [pushed, storeWord_of_not_within, storeWord_of_not_within]
  · unfold Within
    bv_omega
  · unfold Within
    bv_omega

theorem Machine.loadWord_pushed : loadWord (s.pushed a b) (s.stack - 16) = s.cpu.get a := by
  refine (loadWord_congr fun i hi ↦ storeWord_of_not_within ?_).trans
    (loadWord_storeWord (by decide))
  unfold Within
  bv_omega

end Pushed

/-! ### Code that neither stores nor calls -/

/-- The instruction neither stores nor calls a function. -/
def Instr.Loads {F : Type} : Instr F → Prop
  | .stp .. | .bl .. => False
  | _ => True

namespace Machine

variable {F : Type} (call : F → Machine → Machine) (call' : F → Cpu → Cpu) {code : List (Instr F)}
  {i : Instr F}

theorem exec_cons (i : Instr F) (code : List (Instr F)) (s : Machine) :
    exec call (i :: code) s = exec call code (step call s i) := rfl

theorem exec_append (code code' : List (Instr F)) (s : Machine) :
    exec call (code ++ code') s = exec call code' (exec call code s) := List.foldl_append

/-- It leaves the memory alone, and does what it does over memories of words. -/
theorem cpu_step (hi : i.Loads) (s : Machine) :
    (step call s i).cpu = AArch64.step call' s.cpu i ∧ (step call s i).bytes = s.bytes := by
  cases i with
  | stp => exact hi.elim
  | bl => exact hi.elim
  | _ => exact ⟨rfl, rfl⟩

theorem cpu_exec (hcode : ∀ i ∈ code, i.Loads) (s : Machine) :
    (exec call code s).cpu = AArch64.exec call' code s.cpu ∧
      (exec call code s).bytes = s.bytes := by
  induction code generalizing s with
  | nil => exact ⟨rfl, rfl⟩
  | cons i code ih =>
    obtain ⟨hfirst, hrest⟩ := List.forall_mem_cons.mp hcode
    obtain ⟨hstep, hbytes⟩ := cpu_step call call' hfirst s
    obtain ⟨hcpu, hbytes'⟩ := ih hrest (step call s i)
    rw [hstep] at hcpu
    exact ⟨hcpu, hbytes'.trans hbytes⟩

end Machine

end SysresOs.AArch64
