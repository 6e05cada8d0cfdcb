import SysresOs.Memory.BootPool
import SysresOs.Memory.Running

/-!
# The memory of a process that has exited

A fork takes two pages for the stack of the child, and counts each page that the child shares once
more. Nothing undoes this: `process_exit` of `mmu.c` would, and neither `syscall_exit` nor
`handle_zombie_child` calls it. A round is a fork, the exit of the child and the wait of its parent,
with no fault in between. Every round loses two pages (`Round.takes_two`), so that only as many
rounds can be run as there are pairs of free pages (`round_leaks`).
-/

set_option autoImplicit false
set_option relaxedAutoImplicit false

namespace SysresOs.Mmu

open SysresOs.Trace

open SysresOs.Proc (Kernel Pid initPid)

/-- The number of free pages, those of `map` from `head` on. -/
def freePageCount (s : MmuState) : ℕ :=
  s.physicalMemoryMap.size.toNat - s.physicalMemoryMap.head.toNat

/-- As many pages are free in one memory as in another, and no page is bound more or less often. -/
structure Balanced (s t : MmuState) : Prop where
  free : freePageCount t = freePageCount s
  counters : ∀ pa : Word, s.idPagingSize ≤ pa → ¬ IsPeripheral pa →
    getBindCounter t pa = getBindCounter s pa

/-- In a transition that is no fork the process `pid` executes `SVC #code`. -/
def CallsAs (pid : Pid) (code : BitVec 16) (u : Transition OsState OsEvent) : Prop :=
  u.pre.kernel.sys.currPid = pid ∧ ∃ e, u.label = .kernel e ∧ e.action.code = some code

/-- `parent` forks `child` in the transition `t`, `child` exits and `parent` waits for it, until the
slot of the child is free. Meanwhile the kernel may schedule, but there is no fork, no fault and no
release. -/
structure Round (L : Layout) (past later : OsHistory) (t : Transition OsState OsEvent) (σ : OsState)
    (parent child : Pid) : Prop where
  run : OsRun L (later ++ t :: past) σ
  caller : t.pre.kernel.sys.currPid = parent
  forks : ∃ e, t.label = .fork e child
  quiet : ∀ u ∈ later, ∃ e, u.label = .kernel e
  exits : ∃ u ∈ later, CallsAs child 1 u
  waits : ∃ u ∈ later, CallsAs parent 2 u
  freed : σ.kernel.sys.states child = .free

/-- A number of rounds, one after the other. -/
inductive Rounds (L : Layout) (past : OsHistory) (σ₀ : OsState) : ℕ → OsHistory → OsState → Prop
  | zero : Rounds L past σ₀ 0 past σ₀
  | succ {n : ℕ} {mid later : OsHistory} {t : Transition OsState OsEvent} {σ : OsState}
      {parent child : Pid}
      (hrounds : Rounds L past σ₀ n mid t.pre) (hround : Round L mid later t σ parent child) :
      Rounds L past σ₀ (n + 1) (later ++ t :: mid) σ

variable {L : Layout} {past later history : OsHistory} {t : Transition OsState OsEvent}
  {σ₀ σ : OsState} {parent child : Pid} {n : ℕ}

theorem freePageCount_of_rest {s t : MmuState} {m : PhysicalMemoryMap}
    (hs : s.physicalMemoryMap = m) (ht : t.physicalMemoryMap = m.rest.rest)
    (hhead : m.head < m.size) (hhead' : m.rest.head < m.size) :
    freePageCount t + 2 = freePageCount s := by
  have hone : m.rest.head = m.head + 1 := rfl
  have htwo : m.rest.rest.head = m.head + 1 + 1 := rfl
  have hsize : m.rest.rest.size = m.size := rfl
  rw [hone] at hhead'
  rw [freePageCount, freePageCount, hs, ht, htwo, hsize]
  bv_omega

/-- A step of the kernel takes no page and gives none back, whether it stores a message or not. -/
theorem freePageCount_of_kernel {e : Proc.Event} {σ' : OsState} (h : OsStep L σ (.kernel e) σ') :
    freePageCount σ'.mmu = freePageCount σ.mmu := by
  cases h with
  | @kernel k k' e mmu buff hstep hfree =>
    obtain ⟨pages, hmessage⟩ := writeMessage_eq k' buff mmu e.resume
    rw [hmessage]
    rfl

/-- A fork takes two pages. -/
theorem freePageCount_of_fork {e : Proc.Event} {σ' : OsState} (hrun : OsRun L past σ)
    (h : OsStep L σ (.fork e child) σ') : freePageCount σ'.mmu + 2 = freePageCount σ.mmu := by
  cases h with
  | fork hkernel hfree hnew hinit =>
    obtain ⟨hglobals, hhead, hhead'⟩ :=
      cInitMmu_globals (child_ne (OsRun.sane hrun) hkernel hfree hnew) rfl _ hinit
    exact freePageCount_of_rest rfl hglobals.map hhead hhead'

/-- A round takes two pages and gives none back. -/
theorem Round.takes_two (h : Round L past later t σ parent child) :
    freePageCount σ.mmu + 2 = freePageCount t.pre.mmu := by
  obtain ⟨-, hstep, hpast⟩ := h.run.upTo.last
  obtain ⟨e, hfork⟩ := h.forks
  have hrest : freePageCount σ.mmu = freePageCount t.post.mmu := by
    refine Run.segment (P := fun σ ↦ freePageCount σ.mmu = freePageCount t.post.mmu) h.run rfl
      fun u hu _ _ hstep hpre ↦ ?_
    obtain ⟨e, hkernel⟩ := h.quiet u hu
    rw [hkernel] at hstep
    exact (freePageCount_of_kernel hstep).trans hpre
  rw [hfork] at hstep
  rw [hrest]
  exact freePageCount_of_fork hpast hstep

theorem Rounds.takes (h : Rounds L past σ₀ n history σ) :
    freePageCount σ.mmu + 2 * n = freePageCount σ₀.mmu := by
  induction h with
  | zero => rfl
  | succ _ hround ih =>
    have hlost := hround.takes_two
    omega

/-- After any number of rounds the memory is not as it was, and the number is bounded by the free
pages at the start. -/
theorem round_leaks (h : Rounds L past σ₀ n history σ) (hn : 0 < n) :
    ¬ Balanced σ₀.mmu σ.mmu ∧ 2 * n ≤ freePageCount σ₀.mmu := by
  have hlost := h.takes
  refine ⟨fun hbalanced ↦ ?_, by omega⟩
  have hfree := hbalanced.free
  omega

/-- `init` forks a process that exits when it is first scheduled, and waits for it. -/
theorem exists_round : ∃ past later t σ, Round sampleLayout past later t σ initPid 2 := by
  obtain ⟨past, k, history, mmu, -, hos, hmirrors, -, hP⟩ := exists_sampleRun
    [.start, .svc 0 (Proc.sampleFrame [15]), .schedule 0, .svc 1 (Proc.sampleFrame []), .schedule 0,
      .svc 2 (Proc.sampleFrame [])]
    (fun past k ↦ match past with
      | [wait, again, exit, first, fork, _] =>
          decide (takenSlot fork = some 2 ∧ takenSlot first = none ∧
          takenSlot exit = none ∧ takenSlot again = none ∧ takenSlot wait = none ∧
          fork.pre.sys.currPid = initPid ∧ exit.pre.sys.currPid = 2 ∧
          exit.label.action.code = some 1 ∧
          wait.pre.sys.currPid = initPid ∧ wait.label.action.code = some 2 ∧ k.sys.states 2 = .free)
      | _ => false) (by decide +kernel)
  split at hP
  · rename_i wait again exit first fork start
    obtain ⟨hfork, hfirst, hexit, hagain, hwait, hcaller, hexiting, hexits, hwaiting,
        hwaits, hfreed⟩ :=
      of_decide_eq_true hP
    rcases hmirrors with _ | ⟨hwait', _ | ⟨hagain', _ | ⟨hexit', _ | ⟨hfirst', _ | ⟨hfork', -⟩⟩⟩⟩⟩
    rename_i W A X F T history
    have hkernel {U : Transition OsState OsEvent} {u : Transition Kernel Proc.Event}
        (hmirror : Mirrors U u) (hu : takenSlot u = none) : U.label = .kernel u.label := by
      rw [hmirror.2.2, hu]
      rfl
    refine ⟨history, [W, A, X, F], T, _, hos, ?_, ⟨fork.label, ?_⟩, ?_,
      ⟨X, by simp, ?_, _, hkernel hexit' hexit, hexits⟩,
      ⟨W, by simp, ?_, _, hkernel hwait' hwait, hwaits⟩, hfreed⟩
    · rw [hfork'.1, hcaller]
    · rw [hfork'.2.2, hfork]
      rfl
    · simp only [List.forall_mem_cons]
      exact ⟨⟨_, hkernel hwait' hwait⟩, ⟨_, hkernel hagain' hagain⟩, ⟨_, hkernel hexit' hexit⟩,
        ⟨_, hkernel hfirst' hfirst⟩, List.forall_mem_nil _⟩
    · rw [hexit'.1, hexiting]
    · rw [hwait'.1, hwaiting]
  · cases hP

/-- One round of `init` and its first child. -/
theorem round_leaks_first :
    ∃ (past later : OsHistory) (t : Transition OsState OsEvent) (σ : OsState),
    Rounds sampleLayout past t.pre 1 (later ++ t :: past) σ ∧ ¬ Balanced t.pre.mmu σ.mmu := by
  obtain ⟨past, later, t, σ, hround⟩ := exists_round
  have hrounds : Rounds sampleLayout past t.pre 1 (later ++ t :: past) σ := .succ .zero hround
  exact ⟨past, later, t, σ, hrounds, (round_leaks hrounds (by decide)).1⟩

/-- After this round two pages are missing. -/
theorem not_balanced_first :
    ∃ (past later : OsHistory) (t : Transition OsState OsEvent) (σ : OsState),
    Round sampleLayout past later t σ initPid 2 ∧
    freePageCount σ.mmu + 2 = freePageCount t.pre.mmu ∧
      ¬ Balanced t.pre.mmu σ.mmu := by
  obtain ⟨past, later, t, σ, hround⟩ := exists_round
  refine ⟨past, later, t, σ, hround, hround.takes_two, fun hbalanced ↦ ?_⟩
  have hlost := hround.takes_two
  have hfree := hbalanced.free
  omega

end SysresOs.Mmu
