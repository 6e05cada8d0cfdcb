import SysresOs.Proc.Context
import SysresOs.Trap.Switch

/-!
# The context switch

A process that traps has its registers saved in its descriptor, and `restore_and_run` loads them
again when it is run next. They come back as they were, except for `x0` where a system call has a
result, as long as no message or status is stored over what the kernel keeps: `write_buff_svc` does
not look at the address that the process has given it, the variables of the kernel are mapped for
every process, and `restore_and_run` keeps its pointer to the registers right below the stack
pointer of the process (`contextSwitch_same`).
-/

set_option autoImplicit false
set_option relaxedAutoImplicit false

namespace SysresOs.Trap

open SysresOs.AArch64 SysresOs.Proc SysresOs.Trace

open SysresOs.AddressSpace (Bytes Patch Within loadWord storeWord)

/-! ### The variables of the kernel -/

/-- The words of `context` in memory. -/
def savedWord (d : Context) (i : ℕ) : Word :=
  if h : i < nReg then d.registers ⟨i, h⟩ else if i = 31 then d.pc else if i = 32 then d.sp
    else d.pstate

/-- The words up to `pstate`. -/
def contextWords : ℕ := nReg + 3

/-- `&sys_state.procs[q].saved_context`, behind `curr_pid` and `last_pid`. -/
def savedContextAt (sysState : Word) (q : Pid) : Word :=
  sysState + BitVec.ofNat 64 (8 + 1512 * q.val + 32)

/-- What is at the same addresses in the tables of the kernel and of all processes: `sys_state` and
the other variables on which the work of the kernel depends. -/
structure KernelData where
  sysState : Word
  globals : Word → Prop
  /-- The bytes of stack that a C function uses. -/
  room : ℕ
  inside : ∀ q a, Within (savedContextAt sysState q) (8 * contextWords) a → globals a
  room_lt : room < 2 ^ 32

namespace KernelData

variable (data : KernelData)

/-- The address is in the saved context of a process. -/
def InContext (a : Word) : Prop := ∃ q, Within (savedContextAt data.sysState q) (8 * contextWords) a

/-- The saved contexts are in memory. -/
def Held (k : Kernel) (m : Bytes 64) : Prop :=
  ∀ q, ∀ i < contextWords, loadWord m (savedContextAt data.sysState q + BitVec.ofNat 64 (8 * i)) =
    savedWord (k.sys.procs q).savedContext i

end KernelData

/-- The address is in the `n` bytes below a stack pointer. -/
def Below (sp : Word) (n : ℕ) (a : Word) : Prop := Within (sp - BitVec.ofNat 64 n) n a

/-! ### Messages -/

/-- `write_buff_svc` finds the variables of `m`, and its frames are apart from them and from the
message. -/
structure CanWrite (data : KernelData) (m : Bytes 64) (write : Patch 64) (s : Machine) : Prop where
  globals : ∀ a, data.globals a → s.bytes a = m a
  frames : ∀ a, Below s.stack data.room a → ¬ data.globals a ∧ ¬ write.Covers a

/-- What `write_buff_svc` leaves of memory: the message is stored, and otherwise nothing changes but
its frames and variables that are no saved context, such as `buffer.write_addr`. -/
structure WritesMessage (data : KernelData) (m : Bytes 64) (write : Patch 64)
    (f : Machine → Machine) : Prop where
  sp : ∀ s, CanWrite data m write s → (f s).sp = s.sp
  current : ∀ s, CanWrite data m write s → (f s).current = s.current
  system : ∀ s, CanWrite data m write s → (f s).system = s.system
  bytes : ∀ s a, CanWrite data m write s → ¬ Below s.stack data.room a → data.InContext a ∨
    ¬ data.globals a → (f s).bytes a = write.store s.bytes a

/-! ### The variables along a run -/

/-- The process that the last step of a run resumes. -/
def resumedLast (history : History) : Option Resume := history.head?.bind (·.label.resume)

/-- What a resumption stores: the message, and what `restore_and_run` and `write_buff_svc` push. -/
def Touches (data : KernelData) (k : Kernel) (resume : Resume) (a : Word) : Prop :=
  Patch.Covers resume.write a ∨ Below (k.sys.procs resume.pid).savedContext.sp (16 + data.room) a

/-- What the entry code and `save_context` push for a trap. -/
def TrapTouches (data : KernelData) (frame : Frame) (a : Word) : Prop :=
  Below frame.sp (8 * 32 + data.room) a

/-- A step stores nothing over the variables of the kernel: neither the resumption before it nor its
own trap. -/
structure SparesGlobals (data : KernelData) (past : History) (k : Kernel) (e : Event) : Prop where
  resumed : ∀ resume, resumedLast past = some resume → ∀ a, Touches data k resume a →
    ¬ data.globals a
  trapped : ∀ frame, e.action.frame = some frame → ∀ a, TrapTouches data frame a → ¬ data.globals a

/-- A run of the system with the memory in which the last step leaves the variables of the kernel. A
resumption changes what it stores, and a process stores nothing over the variables by itself. The C
code works on the saved contexts as the transitions do while nothing has been stored over its
variables. -/
inductive DataRun (data : KernelData) : History → Kernel → Bytes 64 → Prop
  | start {k : Kernel} {m : Bytes 64} (hboot : Booted k) (hheld : data.Held k m) :
      DataRun data [] k m
  | next {past : History} {k k' : Kernel} {e : Event} {m m' m'' : Bytes 64}
      (hrun : DataRun data past k m) (hresumed : ∀ a, data.InContext a →
        (∀ resume, resumedLast past = some resume → ¬ Touches data k resume a) → m' a = m a)
      (hstep : Step k e k')
      (hkernel : SparesGlobals data past k e → data.Held k m' → data.Held k' m'') :
      DataRun data (⟨k, e, k'⟩ :: past) k' m''

/-- No step of the run has stored anything over the variables of the kernel. -/
def Undisturbed (data : KernelData) : History → Prop
  | [] => True
  | t :: past => SparesGlobals data past t.pre t.label ∧ Undisturbed data past

section Runs

variable {data : KernelData} {history : History} {k : Kernel} {m m' : Bytes 64}

theorem DataRun.sysRun (h : DataRun data history k m) : SysRun history k := by
  induction h with
  | start hboot hheld => exact .start hboot
  | next hrun hresumed hstep hkernel ih => exact .next ih hstep

theorem KernelData.Held.congr (h : data.Held k m) (hsame : ∀ a, data.InContext a → m' a = m a) :
    data.Held k m' := by
  intro q i hi
  rw [← h q i hi]
  refine AddressSpace.loadWord_congr fun j hj ↦ hsame _ ⟨q, ?_⟩
  rw [BitVec.add_assoc, ← BitVec.ofNat_add]
  exact AddressSpace.within_add _ (by omega) (by decide)

/-- In such a run the saved contexts of all processes are in memory. -/
theorem DataRun.held (h : DataRun data history k m) (hu : Undisturbed data history) :
    data.Held k m := by
  induction h with
  | start hboot hheld => exact hheld
  | next hrun hresumed hstep hkernel ih =>
    obtain ⟨hspares, hpast⟩ := hu
    refine hkernel hspares ((ih hpast).congr fun a ha ↦
      hresumed a ha fun resume hresume htouches ↦ ?_)
    obtain ⟨q, hq⟩ := ha
    exact hspares.resumed resume hresume a htouches (data.inside q a hq)

end Runs

/-! ### Restoring -/

/-- `switch_to_proc`: the call of `restore_and_run` for the process in the slot `p`. -/
def switchToProc (data : KernelData) (p : Pid) (ttbr0 : Word) (s : Machine) : Machine :=
  let registers := savedContextAt data.sysState p
  { s with x := fun
      | 0 => registers + BitVec.ofNat 64 (8 * 30)
      | 1 => loadWord s.bytes (registers + BitVec.ofNat 64 (8 * 31))
      | 2 => loadWord s.bytes (registers + BitVec.ofNat 64 (8 * 32))
      | 3 => loadWord s.bytes (registers + BitVec.ofNat 64 (8 * 33))
      | 4 => ttbr0
      | i => s.x i }

/-- The pairs of registers that are loaded with a write-back. -/
def loadedPairs : List (ℕ × ℕ) :=
  [(28, 29), (26, 27), (24, 25), (22, 23), (20, 21), (18, 19), (16, 17), (14, 15), (12, 13),
    (10, 11), (8, 9), (6, 7), (4, 5), (2, 3)]

/-- The code of `restore_and_run` before the message is written. -/
def entering : Code :=
  [.msr .ttbr0El1 4, .isb, .msr .spsrEl1 3, .msr .elrEl1 1, .isb, .msrSpSel 31, .movSp 2]

/-- The code between the message and the first register. -/
def leaving : Code := [.mov 2 1, .msrSpSel 2, .mov 2 0x3F200000, .movSp 2]

/-- The code that loads the registers. -/
def loading : Code := .ldrFrom 30 0 (-16) :: (loads loadedPairs ++ [.ldpFrom 0 1 0 0])

theorem restoreAndRun_eq : restoreAndRun = entering ++ .stp 0 1 :: .bl .writeBuffSvc :: .ldp 0 1 ::
    (leaving ++ loading) := rfl

theorem loads_entering : ∀ i ∈ entering, i.Loads := by simp [entering, Instr.Loads]

theorem loads_leaving :
    ∀ i ∈ leaving ++ loading, i.Loads := by simp [leaving, loading, loads, loadedPairs, Instr.Loads]

/-! ### While the message is stored -/

section Storing

variable {data : KernelData} {m : Bytes 64} {write : Patch 64} {call : Callee → Machine → Machine}
  {s : Machine}

/-- Nothing that `restore_and_run` does from here on is stored over the variables or over its
pointer to the registers. -/
structure Clear (data : KernelData) (m : Bytes 64) (write : Patch 64) (s : Machine) : Prop where
  current : s.current = .process
  globals : ∀ a, data.globals a → s.bytes a = m a
  stack : ∀ a, Below s.stack (16 + data.room) a → ¬ data.globals a
  message : ∀ a, write.Covers a → ¬ data.globals a
  pointer : ∀ a, write.Covers a →
    ¬ Within (s.stack - BitVec.ofNat 64 (16 + data.room)) (8 + data.room) a

/-- The state in which `write_buff_svc` is called. -/
def called (s : Machine) : Machine :=
  let s := Machine.step (fun (_ : Callee) s ↦ s) s (.stp 0 1)
  { s with x := Function.update s.x 30 (s.pc + 4) }

theorem stack_called (s : Machine) : (called s).stack = s.stack - 16 := by
  change Function.update s.sp s.current (s.stack - 16) s.current = _
  exact Function.update_self _ _ _

theorem Clear.canWrite (h : Clear data m write s) : CanWrite data m write (called s) where
  globals a ha := by
    have hbelow : ¬ Below s.stack (16 + data.room) a := fun hbelow ↦ h.stack a hbelow ha
    have hroom := data.room_lt
    refine (s.pushed_of_not_within 0 1 ?_).trans (h.globals a ha)
    unfold Below Within at hbelow
    unfold Within
    bv_omega
  frames a ha := by
    have hroom := data.room_lt
    rw [stack_called] at ha
    unfold Below Within at ha
    refine ⟨h.stack a ?_, fun hcovers ↦ h.pointer a hcovers ?_⟩
    · unfold Below Within
      bv_omega
    · unfold Within
      bv_omega

/-- The pointer to the registers comes back from the stack, and the saved contexts stay. -/
theorem exec_message (hwrites : WritesMessage data m write (call .writeBuffSvc))
    (h : Clear data m write s) {t : Machine}
    (ht : t = (((s.step call (.stp 0 1)).step call (.bl .writeBuffSvc)).step call (.ldp 0 1))) :
    t.x 0 = s.x 0 ∧ t.sp .process = s.sp .process ∧ t.system = s.system ∧ ∀ a, data.InContext a →
      t.bytes a = m a := by
  have hcan := h.canWrite
  have hstack := stack_called s
  have hroom := data.room_lt
  set u := call .writeBuffSvc (called s) with hu
  have hsp : u.sp = (called s).sp := hwrites.sp _ hcan
  have hcurrent : u.current = .process := (hwrites.current _ hcan).trans h.current
  have hbytes : ∀ a, ¬ Below (s.stack - 16) data.room a → data.InContext a ∨ ¬ data.globals a →
      u.bytes a = write.store (s.pushed 0 1) a := by
    rw [← hstack]
    exact fun a ↦ hwrites.bytes (called s) a hcan
  have hstack' : u.sp u.current = s.stack - 16 := by
    rw [hsp, hcurrent, ← hstack, Machine.stack]
    exact congrArg _ h.current.symm
  have hword : loadWord u.bytes (s.stack - 16) = s.x 0 := by
    refine (AddressSpace.loadWord_congr fun i hi ↦ ?_).trans (s.loadWord_pushed 0 1)
    rw [hbytes, Patch.store_of_not_covers fun hcovers ↦ h.pointer _ hcovers ?_]
    · unfold Within
      bv_omega
    · unfold Below Within
      bv_omega
    · refine .inr (h.stack _ ?_)
      unfold Below Within
      bv_omega
  have htx : t.x = Function.update (Function.update u.x 0 (loadWord u.bytes (u.sp u.current))) 1
      (loadWord u.bytes (u.sp u.current + 8)) := by
    rw [ht]
    rfl
  have htsp : t.sp = Function.update u.sp u.current (u.sp u.current + 16) := by
    rw [ht]
    rfl
  refine ⟨?_, ?_, ?_, fun a ha ↦ ?_⟩
  · rw [htx, hstack', Function.update_of_ne zero_ne_one, Function.update_self, hword]
  · rw [htsp, hstack', hcurrent, Function.update_self, Machine.stack, h.current]
    bv_omega
  · rw [ht]
    exact hwrites.system _ hcan
  · have hglobal : data.globals a := ha.elim fun q ↦ data.inside q a
    rw [ht]
    change u.bytes a = m a
    rw [hbytes a (fun hbelow ↦ h.stack a ?_ hglobal) (.inl ha),
      Patch.store_of_not_covers fun hcovers ↦ h.message a hcovers hglobal]
    · exact hcan.globals a hglobal
    · unfold Below Within at hbelow ⊢
      bv_omega

end Storing

/-! ### The registers -/

section Restore

variable {array : Word}

/-- A stack pointer is set. -/
theorem sp_movSp (call : Callee → Cpu → Cpu) {v : Cpu} {space : Space}
    (hcurrent : v.current = space) :
    (step call v (.movSp 2)).sp = Function.update v.sp space (v.x 2) := by
  subst hcurrent
  rfl

theorem exec_entering (call : Callee → Cpu → Cpu) (u : Cpu) :
    (exec call entering u).current = .process ∧ (exec call entering u).sp .process = u.x 2 ∧
    (exec call entering u).x = u.x ∧
    (exec call entering u).memory = u.memory ∧ (exec call entering u).system .spsrEl1 = u.x 3 ∧
    (exec call entering u).system .elrEl1 = u.x 1 := by
  have hcode : entering = [.msr .ttbr0El1 4, .isb, .msr .spsrEl1 3, .msr .elrEl1 1, .isb] ++
    ([.msrSpSel 31] ++ [.movSp 2]) := rfl
  rw [hcode, exec_append, exec_append]
  generalize hv : exec call [.msr .ttbr0El1 4, .isb, .msr .spsrEl1 3, .msr .elrEl1 1, .isb] u = v
  have hx : v.x = u.x := by simp [← hv, exec, AArch64.step, effect, Cpu.next]
  have hmemory : v.memory = u.memory := by simp [← hv, exec, AArch64.step, effect, Cpu.next]
  have hspsr : v.system .spsrEl1 = u.x 3 := by
    simp [← hv, exec, AArch64.step, effect, Cpu.next, Cpu.get]
  have helr : v.system .elrEl1 = u.x 1 := by
    simp [← hv, exec, AArch64.step, effect, Cpu.next, Cpu.get]
  have hcurrent : (step call v (.msrSpSel 31)).current = .process := current_msrSpSel_xzr call v
  have hsp := sp_movSp call hcurrent
  refine ⟨hcurrent, ?_, hx, hmemory, hspsr, helr⟩
  refine (congrFun hsp _).trans ((Function.update_self _ _ _).trans ?_)
  exact congrFun hx 2

/-- The words from an address on are the values of the registers. -/
def HoldsWords (array : Word) (value : ℕ → Word) (memory : Word → Word) : Prop :=
  ∀ n < nReg, memory (array + BitVec.ofNat 64 (8 * n)) = value n

theorem loadedPairs_get :
    ∀ k (hk : k < loadedPairs.length), loadedPairs[k] = (28 - 2 * k, 29 - 2 * k) := by decide

section Load

variable {value : ℕ → Word} {t : Cpu}

/-- The first load of `restore_and_run`. -/
theorem load_first (call : Callee → Cpu → Cpu) (hx0 : t.x 0 = array + BitVec.ofNat 64 (8 * 30))
    (hholds : HoldsWords array value (t.memory .kernel)) :
    (step call t (.ldrFrom 30 0 (-16))).x 30 = value 30 ∧
      (step call t (.ldrFrom 30 0 (-16))).x 0 = array + BitVec.ofNat 64 (8 * 28) := by
  have hx : (step call t (.ldrFrom 30 0 (-16))).x =
    Function.update (Function.update t.x 0 (t.x 0 + -16)) 30 (t.memory .kernel (t.x 0)) := rfl
  rw [hx, hx0, hholds 30 (by decide)]
  refine ⟨Function.update_self _ _ _, ?_⟩
  rw [Function.update_of_ne (by decide), Function.update_self]
  bv_omega

/-- The words that the loads with a write-back find. -/
theorem words_loadedPairs (hx0 : t.x 0 = array + BitVec.ofNat 64 (8 * 28))
    (hholds : HoldsWords array value (t.memory .kernel)) (k : ℕ) (hk : k < loadedPairs.length) :
    t.memory .kernel (t.x 0 - BitVec.ofNat 64 (16 * k)) = value loadedPairs[k].1 ∧
      t.memory .kernel (t.x 0 - BitVec.ofNat 64 (16 * k) + 8) = value loadedPairs[k].2 := by
  have hlt : k < 14 := hk
  have hreg : nReg = 31 := rfl
  have hfirst : t.x 0 - BitVec.ofNat 64 (16 * k) = array + BitVec.ofNat 64 (8 * (28 - 2 * k)) := by
    rw [hx0]
    bv_omega
  have hsecond :
      t.x 0 - BitVec.ofNat 64 (16 * k) + 8 = array + BitVec.ofNat 64 (8 * (29 - 2 * k)) := by
    rw [hx0]
    bv_omega
  rw [loadedPairs_get k hk, hsecond, hfirst]
  exact ⟨hholds _ (by omega), hholds _ (by omega)⟩

/-- The last load of `restore_and_run`. -/
theorem load_last (call : Callee → Cpu → Cpu) (hx0 : t.x 0 = array)
    (hholds : HoldsWords array value (t.memory .kernel)) {u : Cpu}
    (hu : u = exec call [.ldpFrom 0 1 0 0] t) :
    u.x = Function.update (Function.update t.x 0 (value 0)) 1 (value 1) ∧ u.sp = t.sp ∧
      u.system = t.system := by
  have hx : u.x = Function.update (Function.update (Function.update t.x 0 (t.x 0 + 0)) 0
      (t.memory .kernel (t.x 0))) 1 (t.memory .kernel (t.x 0 + 8)) := by
    simp [hu, exec, AArch64.step, effect, Cpu.next, Cpu.set]
  have hfirst := hholds 0 (by decide)
  have hsecond := hholds 1 (by decide)
  have hzero : array + BitVec.ofNat 64 (8 * 0) = array := BitVec.add_zero _
  have height : BitVec.ofNat 64 (8 * 1) = (8 : Word) := rfl
  rw [hzero] at hfirst
  rw [height] at hsecond
  refine ⟨?_, ?_, ?_⟩
  · rw [hx, Function.update_idem, hx0, hfirst, hsecond]
  · simp [hu, exec, AArch64.step, effect, Cpu.next, Cpu.set]
  · simp [hu, exec, AArch64.step, effect, Cpu.next, Cpu.set]

/-- The loads of `restore_and_run`. -/
theorem exec_registers (call : Callee → Cpu → Cpu) (hx0 : t.x 0 = array + BitVec.ofNat 64 (8 * 30))
    (hholds : HoldsWords array value (t.memory .kernel)) {u : Cpu}
    (hu : u = exec call (.ldrFrom 30 0 (-16) :: (loads loadedPairs ++ [.ldpFrom 0 1 0 0])) t) :
    (∀ n < nReg, u.x n = value n) ∧ u.sp = t.sp ∧ u.system = t.system := by
  rw [exec_cons, exec_append] at hu
  obtain ⟨hlast, hbase⟩ := load_first call hx0 hholds
  have hmemory : (step call t (.ldrFrom 30 0 (-16))).memory = t.memory := rfl
  have hsp : (step call t (.ldrFrom 30 0 (-16))).sp = t.sp := rfl
  have hsystem : (step call t (.ldrFrom 30 0 (-16))).system = t.system := rfl
  generalize step call t (.ldrFrom 30 0 (-16)) = s at hu hlast hbase hmemory hsp hsystem
  rw [← hmemory] at hholds
  obtain ⟨hx0, hx, hsp', hsystem', hmemory'⟩ :=
    exec_loads call loadedPairs (words_loadedPairs hbase hholds) (by decide)
  generalize exec call (loads loadedPairs) s = v at hu hx0 hx hsp' hsystem' hmemory'
  have hdown : v.x 0 = array := by
    have hsize : BitVec.ofNat 64 (16 * loadedPairs.length) = BitVec.ofNat 64 (8 * 28) := rfl
    rw [hx0, hbase, hsize, BitVec.add_sub_cancel]
  rw [← hmemory'] at hholds
  obtain ⟨hux, husp, husystem⟩ := load_last call hdown hholds hu
  refine ⟨fun n hn ↦ ?_, ?_, ?_⟩
  · rw [hux]
    by_cases h₁ : n = 1
    · rw [h₁, Function.update_self]
    · by_cases h₀ : n = 0
      · rw [h₀, Function.update_of_ne zero_ne_one, Function.update_self]
      · rw [Function.update_of_ne h₁, Function.update_of_ne h₀, hx n h₀]
        by_cases h₃₀ : n = 30
        · have hnot : (30 : ℕ) ∉ loadedPairs.flatMap fun p ↦ [p.1, p.2] := by decide
          rw [h₃₀, if_neg hnot, hlast]
        · have hmem : ∀ n < 30, n ≠ 0 → n ≠ 1 → n ∈ loadedPairs.flatMap fun p ↦ [p.1, p.2] := by
            decide
          have hlt : n < 31 := hn
          rw [if_pos (hmem n (by omega) h₀ h₁)]
  · rw [husp, hsp', hsp]
  · rw [husystem, hsystem', hsystem]

end Load

/-- Behind the message the stack pointer of the kernel is set. -/
theorem exec_leaving (call : Callee → Cpu → Cpu) {u v : Cpu} (hv : v = exec call leaving u) :
    v.x 0 = u.x 0 ∧ v.sp .process = u.sp .process ∧ v.memory = u.memory ∧ v.system = u.system := by
  have hcode : leaving = [.mov 2 1, .msrSpSel 2] ++ ([.mov 2 0x3F200000] ++ [.movSp 2]) := rfl
  rw [hcode, exec_append, exec_append] at hv
  generalize hw : exec call [.mov 2 1, .msrSpSel 2] u = w at hv
  have hcurrent : w.current = .kernel := by
    rw [← hw]
    simp [exec, AArch64.step, effect, Cpu.next, Cpu.set, Cpu.current, Cpu.get]
    rfl
  have hx : w.x 0 = u.x 0 := by simp [← hw, exec, AArch64.step, effect, Cpu.next, Cpu.set]
  have hsp : w.sp = u.sp := by simp [← hw, exec, AArch64.step, effect, Cpu.next, Cpu.set]
  have hmemory : w.memory = u.memory := by
    simp [← hw, exec, AArch64.step, effect, Cpu.next, Cpu.set]
  have hsystem : w.system = u.system := by
    simp [← hw, exec, AArch64.step, effect, Cpu.next, Cpu.set]
  clear hw
  generalize hw' : exec call [.mov 2 0x3F200000] w = w' at hv
  have hcurrent' : w'.current = .kernel := by
    refine Eq.trans ?_ hcurrent
    simp [← hw', exec, AArch64.step, effect, Cpu.next, Cpu.set, Cpu.current]
  have hmoved : v.sp = Function.update w'.sp .kernel (w'.x 2) := by
    rw [hv]
    exact sp_movSp call hcurrent'
  have hsp' : w'.sp = w.sp := by simp [← hw', exec, AArch64.step, effect, Cpu.next, Cpu.set]
  refine ⟨?_, ?_, ?_, ?_⟩
  · rw [hv, ← hx]
    simp [← hw', exec, AArch64.step, effect, Cpu.next, Cpu.set]
  · rw [hmoved, Function.update_of_ne (by decide), hsp', hsp]
  · rw [hv, ← hmemory]
    simp [← hw', exec, AArch64.step, effect, Cpu.next, Cpu.set]
  · rw [hv, ← hsystem]
    simp [← hw', exec, AArch64.step, effect, Cpu.next, Cpu.set]

variable {data : KernelData} {write : Patch 64} {call : Callee → Machine → Machine} {p : Pid}
  {d : Context} {u v : Machine}

/-- `restore_and_run` loads the saved context of the process. -/
theorem runRestoreAndRun_spec (link : Linkage) (ttbr0 : Word)
    (hwrites : WritesMessage data u.bytes write (call .writeBuffSvc))
    (hheld : ∀ i < contextWords,
      loadWord u.bytes (savedContextAt data.sysState p + BitVec.ofNat 64 (8 * i)) = savedWord d i)
    (hstack : ∀ a, Below d.sp (16 + data.room) a → ¬ data.globals a)
    (hmessage : ∀ a, write.Covers a → ¬ data.globals a)
    (hpointer : ∀ a, write.Covers a → ¬ Within (d.sp - BitVec.ofNat 64 (16 + data.room))
    (8 + data.room) a) (hv : v = runRestoreAndRun link call (switchToProc data p ttbr0 u)) :
    (∀ i : Fin nReg, v.x i = d.registers i) ∧ v.sp .process = d.sp ∧ v.pc = d.pc ∧
      v.pstate = d.pstate := by
  unfold runRestoreAndRun at hv
  set a := (switchToProc data p ttbr0 u).jump (link.address .restoreAndRun) with ha
  have hx0 : a.x 0 = savedContextAt data.sysState p + BitVec.ofNat 64 (8 * 30) := rfl
  have hx1 : a.x 1 = d.pc := hheld 31 (by decide)
  have hx2 : a.x 2 = d.sp := hheld 32 (by decide)
  have hx3 : a.x 3 = d.pstate := hheld 33 (by decide)
  have hbytes : a.bytes = u.bytes := rfl
  clear_value a
  rw [restoreAndRun_eq, Machine.exec_append, Machine.exec_cons, Machine.exec_cons,
    Machine.exec_cons] at hv
  obtain ⟨hcpu, hbytes'⟩ := Machine.cpu_exec call idle loads_entering a
  obtain ⟨hcurrent, hsp, hx, -, hspsr, helr⟩ := exec_entering idle a.cpu
  rw [← hcpu] at hcurrent hsp hx hspsr helr
  generalize Machine.exec call entering a = b at hv hbytes' hcurrent hsp hx hspsr helr
  have hstack' : b.stack = d.sp := by
    rw [Machine.stack, ← hx2]
    exact (congrArg b.sp hcurrent).trans hsp
  have hclear : Clear data u.bytes write b := by
    refine ⟨hcurrent, fun c _ ↦ by rw [hbytes', hbytes], ?_, hmessage, ?_⟩
    · rwa [hstack']
    · rwa [hstack']
  obtain ⟨hbase, hsp', hsystem, hkept⟩ := exec_message hwrites hclear rfl
  generalize ((b.step call (.stp 0 1)).step call (.bl .writeBuffSvc)).step call (.ldp 0 1) = t
    at hv hbase hsp' hsystem hkept
  obtain ⟨hcpu', -⟩ := Machine.cpu_exec call idle loads_leaving t
  rw [AArch64.exec_append] at hcpu'
  obtain ⟨hbase', hsp'', hmemory, hsystem'⟩ := exec_leaving idle (u := t.cpu) rfl
  generalize AArch64.exec idle leaving t.cpu = w at hcpu' hbase' hsp'' hmemory hsystem'
  have hwords : HoldsWords (savedContextAt data.sysState p) (savedWord d) (w.memory .kernel) := by
    intro n hn
    rw [hmemory, ← hheld n (by simp only [contextWords]; omega)]
    refine AddressSpace.loadWord_congr fun j hj ↦ hkept _ ⟨p, ?_⟩
    rw [BitVec.add_assoc, ← BitVec.ofNat_add]
    refine AddressSpace.within_add _ ?_ (by decide)
    simp only [contextWords]
    omega
  obtain ⟨hregisters, hspr, hsystemr⟩ := exec_registers idle
    (hbase'.trans (hbase.trans ((congrFun hx 0).trans hx0))) hwords hcpu'
  rw [hv]
  refine ⟨fun i ↦ ?_, ?_, ?_, ?_⟩
  · refine (hregisters i i.isLt).trans ?_
    rw [savedWord, dif_pos i.isLt]
  · exact (congrFun hspr _).trans (hsp''.trans (hsp'.trans (hsp.trans hx2)))
  · refine (congrFun hsystemr _).trans ((congrFun hsystem' _).trans ((congrFun hsystem _).trans ?_))
    exact helr.trans hx1
  · refine (congrFun hsystemr _).trans ((congrFun hsystem' _).trans ((congrFun hsystem _).trans ?_))
    exact hspsr.trans hx3

end Restore

/-! ### From a trap to the next resumption -/

section Switch

variable (link : Linkage) (call : Callee → Cpu → Cpu) (call' : Callee → Machine → Machine) (s : Cpu)
  {data : KernelData} {past : History} {t : Transition Kernel Event} {k : Kernel} {p : Pid}
  {write : Patch 64} {a : Action} {ttbr0 : Word} {u : Machine}

/-- The process `p` has trapped in the state `s`, and the last step of the run resumes it, with the
memory of `u`. The C functions are `call` at the trap and `call'` at the resumption. -/
structure Suspension (data : KernelData) (past : History) (t : Transition Kernel Event)
    (k : Kernel) (p : Pid) (write : Patch 64) (a : Action) (u : Machine) : Prop where
  run : DataRun data (t :: past) k u.bytes
  resumed : t.label.resume = some ⟨p, write⟩
  trapped : lastTrap (t :: past) p = some a
  entry : Traps link call s a
  aapcs : Aapcs s.sp (call .maskTimerIrq) ∧ Aapcs s.sp (call .isTimerIrq)
  system : KeepsSystem (call .maskTimerIrq) ∧ KeepsSystem (call .isTimerIrq)
  message : WritesMessage data u.bytes write (call' .writeBuffSvc)

/-- The message for the process is not stored where `restore_and_run` and `write_buff_svc` use its
stack, from the pointer to its registers downwards. -/
def SparesStack (data : KernelData) (write : Patch 64) (sp : Word) : Prop :=
  ∀ a, write.Covers a → ¬ Within (sp - BitVec.ofNat 64 (16 + data.room)) (8 + data.room) a

/-- The state `v` of a process is `s`, but for the result of a system call in `x0`. -/
structure Same (s : Cpu) (v : Machine) (a : Action) (x0 : Word) : Prop where
  registers : ∀ i, 1 ≤ i → i ≤ 30 → v.x i = s.x i
  result : v.x 0 = x0
  x0 : a.Silent → v.x 0 = s.x 0
  sp : v.sp .process = s.sp .process
  pc : v.pc = s.pc
  pstate : v.pstate = s.pstate

variable {link call call' s}

/-- Between a trap and the next resumption of the process its state stays the same, in every run in
which no message and no status is stored over the variables of the kernel, or over the stack that
the resumption itself uses. -/
theorem contextSwitch_same (h : Suspension link call call' s data past t k p write a u)
    (hundisturbed : Undisturbed data (t :: past))
    (hresumed : ∀ a, Touches data k ⟨p, write⟩ a → ¬ data.globals a)
    (hpointer : SparesStack data write (s.sp .process)) :
    Same s (runRestoreAndRun link call' (switchToProc data p ttbr0 u)) a
      ((k.sys.procs p).reg 0) := by
  obtain ⟨frame, hframe, hregisters, hplace⟩ := h.entry.frame_eq h.aapcs h.system
  obtain ⟨hp, hready⟩ := h.run.sysRun.ready_of_resume h.resumed
  have hlive : k.sys.states p ≠ .free := fun hfree ↦ nomatch hready.symm.trans hfree
  have hsaved := h.run.sysRun.saved hp hlive h.trapped hframe
  have hplaced : (k.sys.procs p).place = ⟨s.pc, s.sp .process, s.pstate⟩ :=
    hsaved.place.trans hplace
  have hpc : (k.sys.procs p).savedContext.pc = s.pc := congrArg Place.pc hplaced
  have hsp : (k.sys.procs p).savedContext.sp = s.sp .process := congrArg Place.sp hplaced
  have hpstate : (k.sys.procs p).savedContext.pstate = s.pstate := congrArg Place.pstate hplaced
  rw [← hsp] at hpointer
  obtain ⟨hx, hspv, hpcv, hpstatev⟩ := runRestoreAndRun_spec link ttbr0 h.message
    (h.run.held hundisturbed p)
    (fun b hb ↦ hresumed b (.inr hb)) (fun b hb ↦ hresumed b (.inl hb)) hpointer rfl
  generalize runRestoreAndRun link call' (switchToProc data p ttbr0 u) = v at *
  have hx0 : v.x 0 = (k.sys.procs p).reg 0 := hx 0
  refine ⟨fun i hlow hhigh ↦ ?_, hx0, fun hsilent ↦ ?_, hspv.trans hsp, hpcv.trans hpc,
    hpstatev.trans hpstate⟩
  · have hlt : i < nReg := Nat.lt_succ_of_le hhigh
    have hne : (⟨i, hlt⟩ : Fin nReg) ≠ 0 := fun hzero ↦ Nat.not_lt_zero 0 (by
      have hval : i = 0 := congrArg Fin.val hzero
      omega)
    exact (hx ⟨i, hlt⟩).trans ((hsaved.registers _ hne).trans (hregisters ⟨i, hlt⟩))
  · exact hx0.trans ((hsaved.x0 hsilent).1.trans (hregisters 0))

end Switch

/-! ### A process that waits for its child -/

/-- A memory with the saved contexts of all processes. -/
def image (sysState : Word) (k : Kernel) : Bytes 64 := fun a ↦
  let offset := (a - sysState).toNat - 8
  if h : offset / 1512 < maxProc then
    let d := (k.sys.procs ⟨offset / 1512, h⟩).savedContext
    (ByteMemory.toBytes 8
      (savedWord d ((offset % 1512 - 32) / 8)).toNat)[(offset % 1512 - 32) % 8]?.getD 0
  else 0

theorem held_image (data : KernelData) (k : Kernel) : data.Held k (image data.sysState k) := by
  intro q i hi
  have hq : q.val < 32 := q.isLt
  have hi' : i < 34 := hi
  have hread : AddressSpace.read (image data.sysState k)
      (savedContextAt data.sysState q + BitVec.ofNat 64 (8 * i)) 8 =
        ByteMemory.toBytes 8 (savedWord (k.sys.procs q).savedContext i).toNat := by
    refine List.ext_getElem (by simp [AddressSpace.read]) fun j hj hj' ↦ ?_
    rw [ByteMemory.length_toBytes] at hj'
    have haddress : savedContextAt data.sysState q + BitVec.ofNat 64 (8 * i) + BitVec.ofNat 64 j =
        data.sysState + BitVec.ofNat 64 (8 + 1512 * q.val + (32 + (8 * i + j))) := by
      rw [savedContextAt, BitVec.add_assoc, BitVec.add_assoc, ← BitVec.ofNat_add,
        ← BitVec.ofNat_add, Nat.add_assoc]
    have hoffset : (data.sysState + BitVec.ofNat 64 (8 + 1512 * q.val + (32 + (8 * i + j))) -
        data.sysState).toNat - 8 = 1512 * q.val + (32 + (8 * i + j)) := by
      rw [AddressSpace.toNat_add_sub _ (by omega)]
      omega
    have hslot : (1512 * q.val + (32 + (8 * i + j))) / 1512 = q.val := by omega
    have hrest : (1512 * q.val + (32 + (8 * i + j))) % 1512 - 32 = 8 * i + j := by omega
    have hword : (8 * i + j) / 8 = i := by omega
    have hbyte : (8 * i + j) % 8 = j := by omega
    simp only [AddressSpace.read, List.getElem_map, List.getElem_range, haddress, image, hoffset,
      hslot, hrest, hword, hbyte, Fin.eta]
    rw [dif_pos q.isLt, List.getElem?_eq_getElem, Option.getD_some]
  rw [AddressSpace.loadWord, hread, ByteMemory.ofBytes_toBytes (savedWord _ i).isLt,
    BitVec.ofNat_toNat, BitVec.setWidth_eq]

/-- Every run of the system is one with its variables in memory. -/
theorem dataRun_image (data : KernelData) {history : History} {k : Kernel} (h : SysRun history k) :
    DataRun data history k (image data.sysState k) := by
  induction h with
  | start hboot => exact .start hboot (held_image data _)
  | next hrun hstep ih => exact .next ih (fun _ _ _ ↦ rfl) hstep fun _ _ ↦ held_image data _

/-- `write_buff_svc`, which stores its message and changes nothing else. -/
def storing (write : Patch 64) : Callee → Machine → Machine
  | .writeBuffSvc, s => { s with bytes := write.store s.bytes }
  | _, s => s

theorem writesMessage_storing (data : KernelData) (m : Bytes 64) (write : Patch 64) :
    WritesMessage data m write (storing write .writeBuffSvc) :=
  ⟨fun _ _ ↦ rfl, fun _ _ ↦ rfl, fun _ _ ↦ rfl, fun _ _ _ _ _ ↦ rfl⟩

/-- An image with its `sys_state`. -/
def sampleData : KernelData where
  sysState := 0x82000
  globals := Within 0x82000 48592
  room := 256
  inside q a h := by
    have hq : q.val < 32 := q.isLt
    have hend : 8 + 1512 * q.val + 32 + 8 * contextWords ≤ 48592 := by
      unfold contextWords nReg
      omega
    exact h.of_add hend (by decide)
  room_lt := by decide

/-- The processor of the kernel when it resumes a process. -/
def kernelMachine (k : Kernel) : Machine where
  x _ := 0
  sp _ := 0
  pc := 0
  pstate := 0
  system _ := 0
  bytes := image sampleData.sysState k

/-- The state of the process that is resumed. -/
def resumedCpu (k : Kernel) (write : Patch 64) : Machine :=
  runRestoreAndRun sampleLink (storing write)
    (switchToProc sampleData initPid 0x400000 (kernelMachine k))

/-- Whether the last trap of `init` was the system call `code` of the process `svcCpu x0`. -/
def trappedWith (code : BitVec 16) (x0 : Word) (history : History) : Bool :=
  match lastTrap history initPid with
  | some (.svc code' frame) =>
      decide (code' = code ∧ (∀ i : Fin nReg, frame.registers i = (svcCpu x0).x i) ∧
      frame.place = ⟨sampleCpu.pc, sampleCpu.sp .process, sampleCpu.pstate⟩)
  | _ => false

/-- The run of a process that traps with the system call `code` and is resumed. -/
theorem exists_suspension {code : BitVec 16} {x0 esr : Word} (actions : List Action)
    (write : Patch 64) (Q : History → Kernel → Bool) {v : Cpu}
    (hrun : runSatisfies sampleBoot actions (fun history k ↦ trappedWith code x0 history ∧
      resumedLast history = some ⟨initPid, write⟩ ∧ Q history k) = true)
    (hsvc : runSvc sampleLink idle esr 0 (svcCpu x0) = some v)
    (hcode : (v.x 5).setWidth 16 = code) :
    ∃ past t k frame, Suspension sampleLink idle (storing write) (svcCpu x0) sampleData past t
      k initPid write
      (.svc code frame) (kernelMachine k) ∧ Q (t :: past) k := by
  obtain ⟨history, k, hsys, hstate⟩ := exists_run sampleBoot actions _ hrun
  obtain ⟨htrapped, hresume, hQ⟩ := of_decide_eq_true hstate
  clear hrun
  cases history with
  | nil => exact nomatch hresume
  | cons t past =>
    unfold trappedWith at htrapped
    split at htrapped
    next code' frame htrap =>
      obtain ⟨rfl, hregisters, hplace⟩ := of_decide_eq_true htrapped
      have hof : (saveContext (fun _ ↦ 0) v).Of (svcCpu x0) :=
        runSvc_stored sampleLink (aapcs_idle _ _) (keepsSystem_idle _) hsvc
      have hframe : frame.place = ⟨(svcCpu x0).pc, (svcCpu x0).sp .process, (svcCpu x0).pstate⟩ :=
        hplace
      have hframed : (saveContext (fun _ ↦ 0) v).Framed frame := by
        refine ⟨fun i ↦ (hregisters i).trans (hof.registers i (Nat.le_of_lt_succ i.isLt)).symm,
          ?_, ?_, ?_⟩
        · exact (congrArg Place.pc hframe).trans hof.pc.symm
        · exact (congrArg Place.sp hframe).trans hof.sp.symm
        · exact (congrArg Place.pstate hframe).trans hof.pstate.symm
      exact ⟨past, t, k, frame,
        ⟨dataRun_image sampleData hsys, hresume, htrap, .svc hsvc hcode hframed,
        ⟨aapcs_idle _ _, aapcs_idle _ _⟩, ⟨keepsSystem_idle _, keepsSystem_idle _⟩,
        writesMessage_storing _ _ _⟩, hQ⟩
    next => exact nomatch htrapped

/-- `init` forks a child and waits for it, and has its status stored at `address`. -/
def waitingRun (address : Word) : List Action :=
  let frame (registers : List Word) : Frame := { sampleFrame registers with sp := 0x3f1ffe00 }
  [.start, .svc 0 (frame [15]), .schedule 0, .svc 1 (frame []), .schedule 0,
    .svc 2 (cpuFrame (svcCpu address)), .schedule 0]

/-- The status of a child that has exited without an error. -/
def status (address : Word) : Patch 64 := some (address, List.replicate 16 0)

/-- There is a run in which `init` waits for its child with a buffer for the status at `address`,
and is resumed in another state than that of its trap. -/
def LosesState (address : Word) : Prop :=
  ∃ past t k frame, Suspension sampleLink idle (storing (status address)) (svcCpu address)
    sampleData past t k initPid (status address) (.svc 2 frame) (kernelMachine k) ∧
    ¬ Same (svcCpu address) (resumedCpu k (status address)) (.svc 2 frame)
      ((k.sys.procs initPid).reg 0)

/-- The registers of a process that waits for its child are lost if `x30` is. -/
theorem losesState_of_link {address : Word} {v : Cpu} (hne : (svcCpu address).x 30 ≠ 0)
    (hrun : runSatisfies sampleBoot (waitingRun address)
      (fun history k ↦ trappedWith 2 address history ∧
      resumedLast history = some ⟨initPid, status address⟩ ∧
        (decide ((resumedCpu k (status address)).x 30 = 0) : Bool)) = true)
    (hsvc : runSvc sampleLink idle 0x56000002 0 (svcCpu address) = some v)
    (hcode : (v.x 5).setWidth 16 = 2) : LosesState address := by
  obtain ⟨past, t, k, frame, hsuspension, hlost⟩ := exists_suspension (waitingRun address)
    (status address) (fun _ k ↦ decide ((resumedCpu k (status address)).x 30 = 0)) hrun hsvc hcode
  refine ⟨past, t, k, frame, hsuspension, fun hsame ↦ hne ?_⟩
  exact (hsame.registers 30 (by decide) le_rfl).symm.trans (of_decide_eq_true hlost)

/-- The kernel stores the status where it keeps its pointer to the registers, right below the stack
pointer of `init`, or over `x29` and `x30` of `init` in `sys_state`. -/
theorem not_contextSwitch_same_wait :
    LosesState 0x3f1ffdf0 ∧ LosesState (savedContextAt 0x82000 initPid + 232) := by
  constructor
  · have hsvc :
        ((runSvc sampleLink idle 0x56000002 0 (svcCpu 0x3f1ffdf0)).map fun v ↦
        (v.x 5).setWidth 16) = some (2 : BitVec 16) := by decide +kernel
    obtain ⟨v, hv, hcode⟩ := Option.map_eq_some_iff.mp hsvc
    exact losesState_of_link (by simp [svcCpu, sampleCpu]) (by decide +kernel) hv hcode
  · have hsvc :
        ((runSvc sampleLink idle 0x56000002 0 (svcCpu (savedContextAt 0x82000 initPid + 232))).map
          fun v ↦ (v.x 5).setWidth 16) = some (2 : BitVec 16) := by decide +kernel
    obtain ⟨v, hv, hcode⟩ := Option.map_eq_some_iff.mp hsvc
    exact losesState_of_link (by simp [svcCpu, sampleCpu]) (by decide +kernel) hv hcode

/-! ### A status in a buffer of the stack -/

/-- The stack pointer is that of a process. -/
def highStack (sp : Word) : Bool := decide (0x3f000000 ≤ sp)

/-- The message is for the stack of a process. -/
def highMessage : Patch 64 → Bool
  | none => true
  | some (address, bytes) =>
    decide (0x3f000000 ≤ address ∧ address ≤ 0x3f200000 ∧ bytes.length ≤ 16)

/-- Whether the stacks and the messages of a run are those of processes. -/
def high : History → Bool
  | [] => true
  | t :: past =>
    (resumedLast past).all (fun r ↦ highMessage r.write &&
      highStack (t.pre.sys.procs r.pid).savedContext.sp) &&
      t.label.action.frame.all (fun frame ↦ highStack frame.sp) && high past

theorem not_globals_of_below {sp a : Word} {n : ℕ} (hsp : highStack sp) (hn : n ≤ 0x1000)
    (h : Below sp n a) : ¬ sampleData.globals a := by
  have hlow : (0x3f000000 : Word) ≤ sp := of_decide_eq_true hsp
  change ¬ Within 0x82000 48592 a
  unfold Below Within at h
  unfold Within
  bv_omega

theorem not_globals_of_covers {write : Patch 64} {a : Word} (hwrite : highMessage write)
    (h : write.Covers a) : ¬ sampleData.globals a := by
  cases write with
  | none => exact h.elim
  | some message =>
    obtain ⟨hlow, hhigh, hsize⟩ := of_decide_eq_true hwrite
    change ¬ Within 0x82000 48592 a
    change (a - message.1).toNat < message.2.length at h
    unfold Within
    bv_omega

theorem undisturbed_of_high {history : History} (h : high history) :
    Undisturbed sampleData history := by
  induction history with
  | nil => trivial
  | cons t past ih =>
    rw [high, Bool.and_eq_true, Bool.and_eq_true] at h
    obtain ⟨⟨hresumed, htrapped⟩, hpast⟩ := h
    refine ⟨⟨fun resume hresume a htouches ↦ ?_, fun frame hframe a hpushed ↦ ?_⟩, ih hpast⟩
    · rw [hresume, Option.all_some, Bool.and_eq_true] at hresumed
      exact htouches.elim (not_globals_of_covers hresumed.1)
        (not_globals_of_below hresumed.2 (by decide))
    · rw [hframe, Option.all_some] at htrapped
      exact not_globals_of_below htrapped (by decide) hpushed

/-- `init` waits with a buffer for the status on its stack, and finds all its registers as they
were. -/
theorem contextSwitch_same_wait :
    ∃ past t k frame, Suspension sampleLink idle (storing (status 0x3f1ffe10))
    (svcCpu 0x3f1ffe10) sampleData past t k initPid (status 0x3f1ffe10) (.svc 2 frame)
    (kernelMachine k) ∧
      Same (svcCpu 0x3f1ffe10) (resumedCpu k (status 0x3f1ffe10)) (.svc 2 frame)
      ((k.sys.procs initPid).reg 0) := by
  have hsvc :
      ((runSvc sampleLink idle 0x56000002 0 (svcCpu 0x3f1ffe10)).map fun v ↦ (v.x 5).setWidth 16) =
      some (2 : BitVec 16) := by decide +kernel
  obtain ⟨v, hv, hcode⟩ := Option.map_eq_some_iff.mp hsvc
  obtain ⟨past, t, k, frame, hsuspension, hhigh⟩ := exists_suspension (waitingRun 0x3f1ffe10)
    (status 0x3f1ffe10)
    (fun history k ↦ high history && highStack (k.sys.procs initPid).savedContext.sp)
    (by decide +kernel) hv hcode
  obtain ⟨hhistory, hsp⟩ := Bool.and_eq_true_iff.mp hhigh
  refine ⟨past, t, k, frame, hsuspension,
    contextSwitch_same hsuspension (undisturbed_of_high hhistory) (fun a htouches ↦ ?_)
    fun a hcovers ↦ ?_⟩
  · exact htouches.elim (not_globals_of_covers (by decide)) (not_globals_of_below hsp (by decide))
  · change (a - 0x3f1ffe10).toNat < 16 at hcovers
    change ¬ (a - (0x3f1ffe00 - BitVec.ofNat 64 (16 + 256))).toNat < 8 + 256
    bv_omega

end SysresOs.Trap
