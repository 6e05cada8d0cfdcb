import SysresOs.Memory.TableRoot
import SysresOs.Memory.Lineage
import SysresOs.Memory.Messages
import SysresOs.Proc.Channel
import SysresOs.Proc.Roots

/-!
# The processes and their memory

The kernel of `Proc.Machine` together with the tables and the pool of `mmu.c`: a fork sets up the
tables of its child, the running process may fault, and the memory manager releases pages for the
others. The functions of `mmu.c` edit the tables of the global `lvl2_table_address`. A fork and the
handlers of translation faults and access flag faults assign it, and in a run it is that of the last
process that was forked or has raised such a fault (`OsRun.lvl2TableAddress_eq`).
-/

set_option autoImplicit false
set_option relaxedAutoImplicit false

namespace SysresOs.Mmu

open SysresOs.Outcome SysresOs.Trace

open SysresOs.Proc
    (Pid SystemState AllocConf Boot BootRun Event Kernel Step ofPid initPid initProc kernelPid)

/-! ### States and steps -/

/-- The kernel with the memory of its processes. Whenever the kernel runs, the entry code has set
`TTBR0_EL1` to the tables of the kernel, so that its value here never changes. -/
structure OsState where
  kernel : Kernel
  mmu : MmuState

/-- The faults that are handled, with the globals of the allocator at the time of a translation
fault. -/
inductive Fault
  | translation (alloc : AllocConf) (va : Word) (lowerEl : Bool)
  | accessFlag (va : Word)
  | permission (va : Word) (lowerEl : Bool)

/-- The handler that `instruction_abort_handler` and `data_abort_handler` call. -/
def Fault.handle (sys : SystemState) (pid : Pid) (s : MmuState) : Fault → Except Stop MmuState
  | .translation alloc va lowerEl => translationFaultHandler sys alloc va lowerEl pid s
  | .accessFlag va => accessFlagFaultLvl3Handler sys va pid s
  | .permission va lowerEl => permissionFaultHandler va lowerEl s

/-- What happens in a running system. -/
inductive OsEvent
  /-- A step of the kernel that takes no slot, with the message of a process that it resumes. -/
  | kernel (e : Event)
  /-- A fork that makes a process. -/
  | fork (e : Event) (child : Pid)
  /-- The running process faults. -/
  | fault (f : Fault)
  /-- The memory manager releases a page for a process. -/
  | release (va : Word) (pid : Pid)

/-- The steps of the system. A message is stored from the buffer at `buff`. What `c_init_mmu` reads
of the process table, the parent of the child and the roots of the parent and the kernel, is the
same in the middle of the fork as after it; a fork resumes no process. -/
inductive OsStep (L : Layout) : OsState → OsEvent → OsState → Prop
  | kernel {k k' : Kernel} {e : Event} {mmu : MmuState} (buff : Word) (hstep : Step k e k')
      (hfree : ∀ q, k.sys.states q = .free → k'.sys.states q = .free) :
      OsStep L ⟨k, mmu⟩ (.kernel e) ⟨k', writeMessage k' buff mmu e.resume⟩
  | fork {k k' : Kernel} {e : Event} {child : Pid} {mmu mmu' : MmuState} (hstep : Step k e k')
      (hfree : k.sys.states child = .free) (hnew : k'.sys.states child ≠ .free)
      (hinit : cInitMmu L k'.sys child mmu = .ok mmu') :
      OsStep L ⟨k, mmu⟩ (.fork e child) ⟨k', mmu'⟩
  | fault {k : Kernel} {f : Fault} {mmu mmu' : MmuState}
      (h : f.handle k.sys k.sys.currPid mmu = .ok mmu') : OsStep L ⟨k, mmu⟩ (.fault f) ⟨k, mmu'⟩
  | release {k : Kernel} {va status : Word} {pid : Pid} {mmu mmu' : MmuState}
      (hmanager : k.sys.currPid = memManagerPid)
      (h : memManagerFreeVirtualPage k.sys va pid mmu = .ok (mmu', status)) :
      OsStep L ⟨k, mmu⟩ (.release va pid) ⟨k, mmu'⟩

/-- The linker symbols of the two halves agree, and the boot code has loaded the tables of the
kernel. -/
structure Layout.Boots (L : Layout) (boot : Boot) : Prop where
  mmuTablesStart : boot.mmuTablesStart = L.mmuTablesStart
  endAddr : boot.endAddr = L.endAddr
  ttbr0El1 : boot.ttbr0El1 = L.mmuTablesStart

/-- The system after `init_proc`, when the tables of the kernel and then those of `init` have been
set up. Neither call of `c_init_mmu` reads the process table. -/
def OsBooted (L : Layout) (σ : OsState) : Prop :=
  ∃ boot sys s s₁, L.Boots boot ∧ initProc boot = .ok σ.kernel ∧ s.ttbr0El1 = boot.ttbr0El1 ∧
    cInitMmu L sys kernelPid s = .ok s₁ ∧ cInitMmu L sys initPid s₁ = .ok σ.mmu

/-- A history of the system: its transitions, the most recent first. -/
abbrev OsHistory := List (Transition OsState OsEvent)

/-- The runs of the system. -/
abbrev OsRun (L : Layout) : OsHistory → OsState → Prop := Run (OsBooted L) (OsStep L)

variable {L : Layout} {history : OsHistory} {σ σ' : OsState} {e : OsEvent}

/-! ### The kernel in a run -/

/-- The kernel of a run is one of a run of the kernel. -/
theorem OsRun.kernel (hrun : OsRun L history σ) :
    ∃ boot past, L.Boots boot ∧ BootRun boot past σ.kernel := by
  refine Run.state_invariant (I := fun σ ↦ ∃ boot past, L.Boots boot ∧
    BootRun boot past σ.kernel) ?_ ?_ hrun
  · rintro σ ⟨boot, sys, s, s₁, hboots, hboot, -⟩
    exact ⟨boot, [], hboots, .start hboot⟩
  · rintro σ e σ' ⟨boot, past, hboots, hpast⟩ hstep
    cases hstep with
    | kernel buff hstep => exact ⟨boot, _, hboots, .next hpast hstep⟩
    | fork hstep => exact ⟨boot, _, hboots, .next hpast hstep⟩
    | fault => exact ⟨boot, past, hboots, hpast⟩
    | release => exact ⟨boot, past, hboots, hpast⟩

theorem OsRun.sane (hrun : OsRun L history σ) :
    Proc.Sane σ.kernel.sys.views σ.kernel.sys.currPid := by
  obtain ⟨boot, past, -, hpast⟩ := hrun.kernel
  exact hpast.sysRun.sane

/-- Neither the kernel nor `init` is forked. -/
theorem child_ne {k k' : Kernel} {e : Event} {child : Pid}
    (hsane : Proc.Sane k.sys.views k.sys.currPid) (hstep : Step k e k')
    (hfree : k.sys.states child = .free) (hnew : k'.sys.states child ≠ .free) :
    child ≠ kernelPid ∧ child ≠ initPid := by
  rcases (Proc.rootsKept_of_step hsane hstep).2 with ⟨-, hkept⟩ | ⟨slot, hslot, -, hstates, -⟩
  · exact absurd (hkept child hfree) hnew
  · obtain rfl : child = slot := by
      by_contra hne
      rw [hstates, Function.update_of_ne hne] at hnew
      exact hnew hfree
    constructor
    · rintro rfl
      exact absurd hslot (by decide)
    · rintro rfl
      exact absurd hslot (by decide)

/-- The root of a slot, without the identifier of its process. -/
theorem slotRoot_and (L : Layout) (pid : Pid) :
    Proc.slotRoot L.mmuTablesStart pid &&& mask 47 1 = L.zoneRoot pid := by
  have hzone := L.zoneRoot_zone pid
  have haligned := hzone.aligned
  have hbounded := hzone.bounded
  have hasid : ∀ p : Pid, ofPid p <<< 48 &&& mask 47 1 = 0 := by decide
  have hroot : L.mmuTablesStart + ofPid pid * 0x200000#64 = L.zoneRoot pid := by
    rw [Layout.zoneRoot, BitVec.mul_assoc]
    rfl
  have hmask : (0xfffffffffffe#64 : Word) &&& mask 47 1 = mask 47 1 := by decide
  have hzero (w : Word) : 0 ||| w = w := BitVec.zero_or
  rw [Proc.slotRoot, BitVec.and_comm, BitVec.and_or_distrib_left,
    BitVec.and_comm _ (ofPid pid <<< 48), hasid, hzero,
    hroot, BitVec.and_comm, BitVec.and_assoc, hmask]
  apply BitVec.eq_of_toNat_eq
  rw [toNat_and_mask _ (by omega) (by omega)]
  omega

/-- The address of the tables has no identifier in it. -/
theorem Layout.mmuTablesStart_and (L : Layout) :
    L.mmuTablesStart &&& mask 47 1 = L.mmuTablesStart := by
  have haligned := L.mmuTablesStart_aligned
  have hbelow := L.below_peripherals
  apply BitVec.eq_of_toNat_eq
  rw [toNat_and_mask _ (by omega) (by omega)]
  omega

/-- Every process has the tables of its slot. -/
theorem root_of_bootRun {boot : Boot} {past : Proc.History} {k : Kernel} (hboots : L.Boots boot)
    (hrun : BootRun boot past k) {q : Pid} (hq : k.sys.states q ≠ .free) :
    getLvl2AddressFromSysState k.sys q = L.zoneRoot q := by
  change k.sys.roots q &&& mask 47 1 = L.zoneRoot q
  rw [hrun.roots.2 q hq, Proc.bootRoot, hboots.mmuTablesStart, hboots.ttbr0El1]
  split_ifs with hkernel
  · rw [hkernel, L.zoneRoot_kernel, L.mmuTablesStart_and]
  · exact slotRoot_and L q

theorem OsRun.root_eq (hrun : OsRun L history σ) {q : Pid} (hq : σ.kernel.sys.states q ≠ .free) :
    getLvl2AddressFromSysState σ.kernel.sys q = L.zoneRoot q := by
  obtain ⟨boot, past, hboots, hpast⟩ := hrun.kernel
  exact root_of_bootRun hboots hpast hq

theorem kernel_live {past : Proc.History} {k : Kernel} (hrun : Proc.SysRun past k) :
    k.sys.states kernelPid ≠ .free := by
  have hkernel := (hrun.settled.proper kernelPid).kernel rfl
  change (k.sys.views kernelPid).state ≠ .free
  rw [hkernel]
  decide

/-- The process that the kernel works for is there. -/
theorem OsRun.current_live (hrun : OsRun L history σ) :
    σ.kernel.sys.states σ.kernel.sys.currPid ≠ .free := by
  obtain ⟨boot, past, -, hpast⟩ := hrun.kernel
  by_cases hcurr : σ.kernel.sys.currPid = 0
  · rw [hcurr]
    exact kernel_live hpast.sysRun
  · have hrunning := (Proc.SysRun.sane hpast.sysRun).running hcurr
    change (σ.kernel.sys.views σ.kernel.sys.currPid).state ≠ .free
    rw [hrunning]
    decide

/-! ### The tables that are edited -/

/-- The process whose tables an event leaves in `lvl2_table_address`, if it assigns it. -/
def OsEvent.rooted (σ : OsState) : OsEvent → Option Pid
  | .fork _ child => some child
  | .fault (.translation _ _ _) => some σ.kernel.sys.currPid
  | .fault (.accessFlag _) => some σ.kernel.sys.currPid
  | _ => none

/-- The last process that was forked or has raised a translation fault or an access flag fault. -/
def lastRooted : OsHistory → Pid
  | [] => initPid
  | t :: history => (t.label.rooted t.pre).getD (lastRooted history)

/-- `lvl2_table_address` is that of the last process that was forked or has raised a translation
fault or an access flag fault. -/
theorem OsRun.lvl2TableAddress_eq (hrun : OsRun L history σ) :
    σ.mmu.lvl2TableAddress = L.zoneRoot (lastRooted history) := by
  refine Run.invariant (I := fun history σ ↦
    σ.mmu.lvl2TableAddress = L.zoneRoot (lastRooted history)) ?_ ?_ hrun
  · rintro σ ⟨boot, sys, s, s₁, -, -, -, hkernel, hinit⟩
    obtain ⟨s₀, hbooted⟩ := booted_of_boot hkernel hinit
    exact hbooted.root'
  · rintro history σ e σ' hrun ih hstep
    cases hstep with
    | @kernel k k' e mmu buff =>
      obtain ⟨pages, hwrite⟩ := writeMessage_eq k' buff mmu e.resume
      rw [hwrite]
      exact ih
    | @fork k k' e child mmu mmu' hstep hfree hnew hinit =>
      exact (cInitMmu_globals (child_ne (OsRun.sane hrun) hstep hfree hnew) rfl _ hinit).1.root
    | @fault k f mmu mmu' h =>
      cases f with
      | translation alloc va lowerEl =>
        exact (translationFaultHandler_root alloc va lowerEl _ _ h).trans
          (OsRun.root_eq hrun (OsRun.current_live hrun))
      | accessFlag va =>
        exact (accessFlagFaultLvl3Handler_root va _ _ h).trans
          (OsRun.root_eq hrun (OsRun.current_live hrun))
      | permission va lowerEl => exact permissionFaultHandler_root va lowerEl ih _ h
    | release hmanager h => exact memManagerFreeVirtualPage_root _ _ ih _ h

/-! ### The assertion of the memory manager -/

/-- `mem_manager_free_virtual_page` finds the tables of the memory manager, and its assertion holds
for every request. -/
def ManagerRooted (σ : OsState) : Prop :=
  σ.mmu.lvl2TableAddress = getLvl2AddressFromSysState σ.kernel.sys memManagerPid ∧
    ∀ va pid, memManagerFreeVirtualPage σ.kernel.sys va pid σ.mmu ≠ .error (.assertion .managerRoot)

/-- The release of a page has other assertions. -/
theorem freeVirtualPage_avoids (s : MmuState) (va : Word) :
    Avoids (freeVirtualPage s va) (· = .assertion .managerRoot) := by
  refine Avoids.bind (assert_avoids nofun) fun _ _ ↦ Avoids.bind ?_ fun _ _ ↦ Avoids.ok
  refine Avoids.ite (fun _ ↦ ?_) fun _ ↦ Avoids.ok
  refine Avoids.bind (assert_avoids nofun) fun _ _ ↦ Avoids.bind (assert_avoids nofun) fun _ _ ↦ ?_
  exact Avoids.bind (assert_avoids nofun) fun _ _ ↦ Avoids.ok

/-- Whenever the memory manager runs, its assertion is right if and only if it was the last process
that was forked or raised a translation fault or an access flag fault. -/
theorem managerRooted_iff (hrun : OsRun L history σ)
    (hmanager : σ.kernel.sys.currPid = memManagerPid) :
    ManagerRooted σ ↔ lastRooted history = memManagerPid := by
  have hroot := OsRun.root_eq hrun (OsRun.current_live hrun)
  rw [hmanager] at hroot
  rw [ManagerRooted, OsRun.lvl2TableAddress_eq hrun, hroot, L.zoneRoot_inj, and_iff_left_iff_imp]
  rintro hlast va pid hstop
  rw [memManagerFreeVirtualPage, OsRun.lvl2TableAddress_eq hrun, hroot, hlast, assert_pos rfl,
    ok_bind] at hstop
  rcases bind_eq_error.mp hstop with hfree | ⟨r, -, hok⟩
  · exact freeVirtualPage_avoids _ _ _ hfree rfl
  · cases hok

/-! ### Runs of the kernel -/

/-- The slot that a transition of the kernel takes. -/
def takenSlot (t : Transition Kernel Event) : Option Pid :=
  (List.finRange Proc.maxProc).find? fun q ↦ t.pre.sys.states q = .free ∧
    t.post.sys.states q ≠ .free

/-- The slots that have been in use. -/
def usedSlots : Proc.History → Finset Pid
  | [] => {kernelPid, initPid}
  | t :: past => (takenSlot t).elim (usedSlots past) (insert · (usedSlots past))

/-- No slot is taken twice. -/
def FreshSlots : Proc.History → Prop
  | [] => True
  | t :: past => (∀ c ∈ takenSlot t, c ∉ usedSlots past) ∧ FreshSlots past

/-- The slot that was taken last. -/
def lastTaken : Proc.History → Pid
  | [] => initPid
  | t :: past => (takenSlot t).getD (lastTaken past)

instance decidableFreshSlots : (past : Proc.History) → Decidable (FreshSlots past)
  | [] => inferInstanceAs (Decidable True)
  | t :: past =>
    have := decidableFreshSlots past
    inferInstanceAs (Decidable ((∀ c ∈ takenSlot t, c ∉ usedSlots past) ∧ FreshSlots past))

/-- The transition of a system in which the kernel makes a transition and no process faults. -/
def Mirrors (T : Transition OsState OsEvent) (t : Transition Kernel Event) : Prop :=
  T.pre.kernel = t.pre ∧ T.post.kernel = t.post ∧
    T.label = (takenSlot t).elim (.kernel t.label) (.fork t.label)

section Steps

variable {k k' : Kernel} {e : Event}

theorem takenSlot_eq_none (h : ∀ q, k.sys.states q = .free → k'.sys.states q = .free) :
    takenSlot ⟨k, e, k'⟩ = none := by
  rw [takenSlot, List.find?_eq_none]
  intro q _ htaken
  exact (of_decide_eq_true htaken).2 (h q (of_decide_eq_true htaken).1)

theorem takenSlot_eq_some {child : Pid} (hfree : k.sys.states child = .free)
    (hstates : k'.sys.states = Function.update k.sys.states child .runnable) :
    takenSlot ⟨k, e, k'⟩ = some child := by
  have hiff (q : Pid) : (k.sys.states q = .free ∧ k'.sys.states q ≠ .free) ↔ q = child := by
    rw [hstates]
    constructor
    · rintro ⟨hq, hq'⟩
      by_contra hne
      rw [Function.update_of_ne hne] at hq'
      exact hq' hq
    · rintro rfl
      rw [Function.update_self]
      exact ⟨hfree, by decide⟩
  cases hfind : takenSlot ⟨k, e, k'⟩ with
  | none =>
    rw [takenSlot, List.find?_eq_none] at hfind
    exact absurd (decide_eq_true ((hiff child).mpr rfl)) (hfind child (List.mem_finRange child))
  | some q =>
    have hfound := List.find?_some (show List.find? _ _ = some q from hfind)
    rw [(hiff q).mp (of_decide_eq_true hfound)]

/-- The parent of a process that is forked is the process that makes the call. -/
theorem parent_of_fork {past : Proc.History} {child : Pid} (hrun : Proc.SysRun past k)
    (hstep : Step k e k') (hfree : k.sys.states child = .free)
    (hnew : k'.sys.states child ≠ .free) :
    getParentPid k'.sys child = k.sys.currPid ∧ k.sys.states k.sys.currPid = .runnable := by
  obtain ⟨kids, hfamily, -⟩ := hrun.familyInv
  obtain ⟨kids', hmove⟩ := Proc.treeMove_of_step hfamily hrun.sane hstep
  have hparent : getParentPid k'.sys child = k'.sys.kin.parent child := rfl
  rw [hparent]
  generalize k'.sys.kin = N' at hmove ⊢
  generalize k'.sys.states = st' at hmove hnew
  generalize e.action.code = code at hmove
  -- of the steps on the tree only a fork takes a free slot
  have hne (p : Pid) (hp : k.sys.states p ≠ .free) : child ≠ p := by
    rintro rfl
    exact hp hfree
  cases hmove with
  | quiet hcode hsame =>
    rcases hsame child with hkept | ⟨-, hother⟩
    · exact absurd (hkept.trans hfree) hnew
    · exact absurd (.inl hfree) hother
  | @forks c links hrunning hslot hlow hlinks =>
    by_cases hchild : child = c
    · rw [hchild]
      exact ⟨Function.update_self _ _ _, hrunning⟩
    · rw [Function.update_of_ne hchild] at hnew
      exact absurd hfree hnew
  | exits hrunning hwait =>
    rw [Function.update_of_ne (hne _ (by rw [hrunning]; decide))] at hnew
    exact absurd hfree hnew
  | exitReaped hrunning hslot hwait hw hz =>
    rw [Function.update_of_ne (hne _ (by rw [hwait]; decide)),
      Function.update_of_ne (hne _ (by rw [hrunning]; decide))] at hnew
    exact absurd hfree hnew
  | reaps hrunning hc hzombie hw hz =>
    rw [Function.update_of_ne (hne _ (by rw [hrunning]; decide)),
      Function.update_of_ne (hne _ (by rw [hzombie]; decide))] at hnew
    exact absurd hfree hnew
  | waits hrunning hkids hnone =>
    rw [Function.update_of_ne (hne _ (by rw [hrunning]; decide))] at hnew
    exact absurd hfree hnew

end Steps

/-- A run of the kernel in which no slot is taken twice is one of the system: every fork finds the
memory that it needs. -/
theorem exists_osRun {boot : Boot} {past : Proc.History} {k : Kernel} (hboots : L.Boots boot)
    (hroom : 512 * L.kernelTables + 64 ≤ 0x3f006) (hrun : BootRun boot past k)
    (hfresh : FreshSlots past) :
    ∃ history mmu, OsRun L history ⟨k, mmu⟩ ∧ List.Forall₂ Mirrors history past ∧
      Settled L (usedSlots past) mmu (2 * (usedSlots past).card) ∧ ∀ q, k.sys.states q ≠ .free →
      q ∈ usedSlots past := by
  induction hrun with
  | @start k hinit =>
    obtain ⟨s₀, s₁, s₂, hkernel, hinit', hbooted⟩ := exists_booted L k.sys
      { sampleTables 0 with ttbr0El1 := L.mmuTablesStart }
    refine ⟨[], s₂, .start ⟨boot, k.sys, _, s₁, hboots, hinit, hboots.ttbr0El1.symm, hkernel,
      hinit'⟩, .nil, ?_, fun q hq ↦ ?_⟩
    · exact hbooted.settled L.mmuTablesStart_and
    · rw [usedSlots, Finset.mem_insert, Finset.mem_singleton]
      by_cases hkernel : q = kernelPid
      · exact .inl hkernel
      · exact .inr (Proc.slot_of_boot ⟨boot, hinit⟩ hkernel hq)
  | @next past k k' e hrun hstep ih =>
    obtain ⟨history, mmu, hos, hmirrors, hsettled, hused⟩ := ih hfresh.2
    have hsane := (BootRun.sysRun hrun).sane
    rcases (Proc.rootsKept_of_step hsane hstep).2 with ⟨-, hkept⟩ | ⟨child, -, hfree, hstates, -⟩
    · have hnone := takenSlot_eq_none (e := e) hkept
      obtain ⟨pages, hwrite⟩ := writeMessage_eq k' 0 mmu e.resume
      refine ⟨_, _, .next hos (.kernel 0 hstep hkept), .cons ⟨rfl, rfl, ?_⟩ hmirrors, ?_,
        fun q hq ↦ ?_⟩
      · rw [hnone]
        rfl
      · rw [usedSlots, hnone, hwrite]
        exact hsettled.congr_pages pages
      · rw [usedSlots, hnone]
        exact hused q fun h ↦ hq (hkept q h)
    · have hsome := takenSlot_eq_some (e := e) hfree hstates
      have hunused : child ∉ usedSlots past := hfresh.1 child hsome
      have hnew : k'.sys.states child ≠ .free := by
        rw [hstates, Function.update_self]
        decide
      have hlive (q : Pid) (hq : k'.sys.states q ≠ .free) : q = child ∨ q ∈ usedSlots past := by
        by_cases hself : q = child
        · exact .inl hself
        · rw [hstates, Function.update_of_ne hself] at hq
          exact .inr (hused q hq)
      obtain ⟨hparent, hrunning⟩ := parent_of_fork (BootRun.sysRun hrun) hstep hfree hnew
      have hcaller : k.sys.states k.sys.currPid ≠ .free := by
        rw [hrunning]
        decide
      have hcaller' : k'.sys.states k.sys.currPid ≠ .free := by
        rw [hstates, Function.update_of_ne (fun heq ↦ hcaller (by rw [heq]; exact hfree))]
        exact hcaller
      have hrun' : BootRun boot (⟨k, e, k'⟩ :: past) k' := .next hrun hstep
      have hchild : ChildOf L k'.sys (usedSlots past) child := {
        process := child_ne hsane hstep hfree hnew
        fresh := hunused
        parent := hparent ▸ hused _ hcaller
        parentRoot := hparent ▸ root_of_bootRun hboots hrun' hcaller'
        kernelRoot := (root_of_bootRun hboots hrun' (kernel_live (BootRun.sysRun hrun'))).trans
          L.zoneRoot_kernel }
      have hcard : (usedSlots past).card + 1 ≤ 32 := by
        rw [← Finset.card_insert_of_notMem hunused]
        exact (Finset.card_le_univ _).trans (by rw [Fintype.card_fin])
      obtain ⟨p, p', hready⟩ := hsettled.forkable hchild (by omega)
      obtain ⟨mmu', hinit, hforked⟩ := cInitMmu_forked hready.forkReady
      refine ⟨_, mmu', .next hos (.fork hstep hfree hnew hinit), .cons ⟨rfl, rfl, ?_⟩ hmirrors, ?_,
        fun q hq ↦ ?_⟩
      · rw [hsome]
        rfl
      · rw [usedSlots, hsome, Option.elim_some, Finset.card_insert_of_notMem hunused, Nat.mul_succ]
        exact hsettled.forked hready hforked (by omega)
      · rw [usedSlots, hsome, Option.elim_some, Finset.mem_insert]
        exact hlive q hq

/-- In such a run the fork that was last has left its tables in `lvl2_table_address`. -/
theorem lastRooted_eq {past : Proc.History} (h : List.Forall₂ Mirrors history past) :
    lastRooted history = lastTaken past := by
  induction h with
  | nil => rfl
  | @cons T t history past hmirrors _ ih =>
    rw [lastRooted, lastTaken, ih, hmirrors.2.2]
    cases takenSlot t with
    | none => rfl
    | some child => rfl

/-- The symbols of the image of the small layout. -/
def sampleImage : Boot := ⟨0x9000, 0x200000, 0x200000, 0x4400000⟩

theorem sampleImage_boots : sampleLayout.Boots sampleImage := ⟨rfl, by decide, rfl⟩

/-- A list of actions of the kernel as a run of the system. -/
theorem exists_sampleRun (actions : List Proc.Action) (P : Proc.History → Kernel → Bool)
    (h : Proc.runSatisfies sampleImage actions
      (fun past k ↦ decide (FreshSlots past) && P past k) = true) :
    ∃ past k history mmu, BootRun sampleImage past k ∧ OsRun sampleLayout history ⟨k, mmu⟩ ∧
      List.Forall₂ Mirrors history past ∧ Configured sampleLayout mmu ∧ P past k = true := by
  obtain ⟨past, k, hrun, hP⟩ := Proc.exists_bootRun _ _ _ h
  obtain ⟨hfresh, hP⟩ := Bool.and_eq_true_iff.mp hP
  obtain ⟨history, mmu, hos, hmirrors, hsettled, -⟩ :=
    exists_osRun sampleImage_boots (by decide) hrun (of_decide_eq_true hfresh)
  exact ⟨past, k, history, mmu, hrun, hos, hmirrors, hsettled.pool.configured, hP⟩

/-- The memory manager runs right after it is forked. -/
theorem managerRooted_iff_first : ∃ history σ, OsRun sampleLayout history σ ∧
    σ.kernel.sys.currPid = memManagerPid ∧ ManagerRooted σ := by
  obtain ⟨past, k, history, mmu, -, hos, hmirrors, -, hP⟩ := exists_sampleRun
    [.start, .svc 0 (Proc.sampleFrame [15]), .schedule 0]
    (fun past k ↦ decide (k.sys.currPid = memManagerPid ∧ lastTaken past = memManagerPid))
    (by decide +kernel)
  obtain ⟨hcurr, hlast⟩ := of_decide_eq_true hP
  exact ⟨history, _, hos, hcurr,
    (managerRooted_iff hos hcurr).mpr ((lastRooted_eq hmirrors).trans hlast)⟩

/-- The memory manager runs after `init` has forked the next manager, and the first request stops
the kernel. -/
theorem not_managerRooted_forked : ∃ history σ, OsRun sampleLayout history σ ∧
    σ.kernel.sys.currPid = memManagerPid ∧
    memManagerFreeVirtualPage σ.kernel.sys 0x5000000 3 σ.mmu = .error (.assertion .managerRoot) ∧
    ¬ ManagerRooted σ := by
  obtain ⟨past, k, history, mmu, -, hos, hmirrors, -, hP⟩ := exists_sampleRun
    [.start, .svc 0 (Proc.sampleFrame [15]), .schedule 0, .timer (Proc.sampleFrame []), .schedule 0,
      .svc 0 (Proc.sampleFrame [15]), .schedule 0, .timer (Proc.sampleFrame []), .schedule 0]
    (fun past k ↦ decide (k.sys.currPid = memManagerPid ∧ lastTaken past = 3)) (by decide +kernel)
  obtain ⟨hcurr, hlast⟩ := of_decide_eq_true hP
  have hroot := OsRun.root_eq hos (OsRun.current_live hos)
  have hne : mmu.lvl2TableAddress ≠ getLvl2AddressFromSysState k.sys memManagerPid := by
    rw [hcurr] at hroot
    rw [OsRun.lvl2TableAddress_eq hos, hroot, lastRooted_eq hmirrors, hlast]
    exact fun heq ↦ absurd (sampleLayout.zoneRoot_inj.mp heq) (by decide)
  refine ⟨history, _, hos, hcurr, ?_, fun hrooted ↦ hne hrooted.1⟩
  rw [memManagerFreeVirtualPage, assert_neg hne]
  rfl

end SysresOs.Mmu
