import SysresOs.Memory.Users

/-!
# The memory of the processes in a run

In a run whose events find what they rely on, and in which no more than 253 processes are forked, so
that the counters of 8 bits do not overflow, the kernel keeps the shared memory of `Protected`, and
every transition is one of processes that have memories of their own (`CarefulRun.privateStep`).
Every run of the kernel is one of these runs, as long as there are pages for the stacks of the
processes (`exists_carefulRun`).
-/

set_option autoImplicit false
set_option relaxedAutoImplicit false

namespace SysresOs.Mmu

open SysresOs.Outcome SysresOs.Sharing SysresOs.Trace

open SysresOs.AddressSpace (Patch)

open SysresOs.Proc
    (Pid SystemState AllocConf Boot BootRun Event Kernel Resume Step initPid kernelPid)

variable {L : Layout} {σ σ' : OsState} {k k' : Kernel} {mmu mmu' : MmuState} {gen gen' : Pid → ℕ}
  {m m' : SharedPages} {q pid child : Pid} {va pa : Word} {f v n : ℕ} {rest : List ℕ} {e : Event}
  {history : UserHistory}

/-! ### Forks -/

/-- What the fork of a process relies on. -/
theorem forks_of_step {boot : Boot} {past : Proc.History} (hboots : L.Boots boot)
    (hrun : BootRun boot past k) (hstep : Step k e k') (hfree : k.sys.states child = .free)
    (hnew : k'.sys.states child ≠ .free) :
    Forks L k'.sys (Live k) child k.sys.currPid ∧
      k'.sys.states = Function.update k.sys.states child .runnable := by
  have hsys := BootRun.sysRun hrun
  have hrun' : BootRun boot (⟨k, e, k'⟩ :: past) k' := .next hrun hstep
  obtain ⟨hparent, hrunning⟩ := parent_of_fork hsys hstep hfree hnew
  have hcaller : Live k k.sys.currPid := by
    rw [Live, hrunning]
    decide
  have hstates : k'.sys.states = Function.update k.sys.states child .runnable := by
    rcases (Proc.rootsKept_of_step hsys.sane hstep).2 with ⟨-, hkept⟩ | ⟨slot, -, -, hstates, -⟩
    · exact absurd (hkept child hfree) hnew
    · by_cases hslot : child = slot
      · rw [hslot, hstates]
      · rw [hstates, Function.update_of_ne hslot] at hnew
        exact absurd hfree hnew
  have hcaller' : Live k' k.sys.currPid := by
    rw [Live, hstates, Function.update_of_ne fun heq ↦ hcaller (by rw [heq]; exact hfree)]
    exact hcaller
  refine ⟨{
    process := child_ne hsys.sane hstep hfree hnew
    fresh := not_not.mpr hfree
    parent_eq := hparent
    parentLive := hcaller
    parentRoot := root_of_bootRun hboots hrun' hcaller'
    kernelRoot :=
      (root_of_bootRun hboots hrun' (kernel_live (BootRun.sysRun hrun'))).trans L.zoneRoot_kernel },
    hstates⟩

/-- A fork gives the child a copy of the memory of its parent. -/
theorem Protected.fork (h : Protected L ⟨k, mmu⟩ n gen m) (hstep : Step k e k')
    (hfree : k.sys.states child = .free) (hnew : k'.sys.states child ≠ .free)
    (hcareful : Careful L ⟨k, mmu⟩ (.os (.fork e child))) :
    ∃ mmu' gen' m', cInitMmu L k'.sys child mmu = .ok mmu' ∧
      Protected L ⟨k', mmu'⟩ (n + 1) gen' m' ∧
      mmu'.physicalMemoryMap.head.toNat = mmu.physicalMemoryMap.head.toNat + 2 ∧
      spaces L ⟨k', mmu'⟩ = Function.update (spaces L ⟨k, mmu⟩) child
      (spaces L ⟨k, mmu⟩ k.sys.currPid) ∧
      ∃ c, (child, c) ∉ m.procs ∧ gen' = Function.update gen child c ∧
        SharedMemory.Step stackPages m (.fork (k.sys.currPid, gen k.sys.currPid) (child, c))
        m' := by
  obtain ⟨boot, past, hboots, hpast⟩ := h.kernel
  obtain ⟨hforks, hstates⟩ := forks_of_step hboots hpast hstep hfree hnew
  -- two frames are free
  have hroom : mmu.physicalMemoryMap.head.toNat + 2 ≤ freeLimit L := hcareful
  have hlength : mmu.physicalMemoryMap.head.toNat + m.free.length = freeLimit L :=
    h.implements.free.head
  obtain ⟨f, f', rest, hpair⟩ : ∃ f f' rest, m.free = f :: f' :: rest := by
    match hm : m.free with
    | [] =>
      rw [hm, List.length_nil] at hlength
      omega
    | [f] =>
      rw [hm, List.length_singleton] at hlength
      omega
    | f :: f' :: rest => exact ⟨f, f', rest, rfl⟩
  -- the number of the child in its slot is new
  obtain ⟨c, hc⟩ := Infinite.exists_notMem_finset (m.procs.image Prod.snd)
  have hfresh : (child, c) ∉ m.procs := fun hmem ↦ hc (Finset.mem_image_of_mem Prod.snd hmem)
  obtain ⟨mmu', m', hinit, hop, ⟨hprocs, hrest⟩, himplements⟩ :=
    h.implements.fork h.sound h.hasPrivate hforks hpair hfresh
  have hlive (q : Pid) : Live k' q ↔ Live k q ∨ q = child := by
    rw [Live, hstates, Function.update_apply]
    by_cases hq : q = child
    · rw [if_pos hq]
      exact iff_of_true (by decide) (.inr hq)
    · rw [if_neg hq, or_iff_left hq]
      rfl
  have himplements' : Implements L (Live k') (Function.update gen child c) mmu' m' :=
    himplements.mono fun q hq ↦ (hlive q).mp hq
  refine ⟨mmu', _, m', hinit,
    ⟨⟨boot, _, hboots, .next hpast hstep⟩, himplements', hop.sound h.sound h.hasPrivate,
    hop.hasPrivate h.sound h.hasPrivate, ?_,
    fun f hf ↦ hop.accounted h.sound h.hasPrivate (h.accounted f hf)⟩, ?_, ?_, c, hfresh, rfl, hop⟩
  · rw [hprocs, Finset.card_insert_of_notMem hfresh, h.card]
  · have hlength' := himplements'.free.head
    rw [hrest] at hlength'
    rw [hpair, List.length_cons, List.length_cons] at hlength
    omega
  · have hspace :
        m'.space =
          Function.update m.space (child, c) (m.space (k.sys.currPid, gen k.sys.currPid)) :=
      (hop.space h.sound h.hasPrivate).eq_of_fork
    funext q v
    by_cases hq : q = child
    · rw [hq, himplements'.spaces_eq ((hlive child).mpr (.inr rfl)), Function.update_self,
        Function.update_self, hspace, Function.update_self, h.implements.spaces_eq h.current_live]
    · rw [Function.update_of_ne hq]
      by_cases hqlive : Live k q
      · rw [himplements'.spaces_eq ((hlive q).mpr (.inl hqlive)), h.implements.spaces_eq hqlive,
          Function.update_of_ne hq, hspace, Function.update_of_ne fun heq ↦
          hq (congrArg Prod.fst heq)]
      · have hnot : ¬ Live k' q := fun hlive' ↦ ((hlive q).mp hlive').elim hqlive hq
        have hfree : k.sys.states q = .free := of_not_not hqlive
        have hfree' : k'.sys.states q = .free := of_not_not hnot
        exact (spaces_of_free hfree' v).trans (spaces_of_free hfree v).symm

/-! ### Every step -/

/-- A step of the kernel that forks no process leaves the pages of the others as they are. -/
theorem Protected.ofKernel (h : Protected L ⟨k, mmu⟩ n gen m) (hstep : Step k e k')
    (hfree : ∀ q, k.sys.states q = .free → k'.sys.states q = .free) :
    Protected L ⟨k', mmu⟩ n gen m := by
  obtain ⟨boot, past, hboots, hpast⟩ := h.kernel
  exact ⟨⟨boot, _, hboots, .next hpast hstep⟩, h.implements.mono fun q hq hq' ↦ hq (hfree q hq'),
    h.sound, h.hasPrivate, h.card, h.accounted⟩

/-- A step of the kernel that forks no process: the memories of processes that are freed vanish, and
a process that is resumed finds its message. -/
theorem Protected.kernelStep (h : Protected L ⟨k, mmu⟩ n gen m) (buff : Word) (hstep : Step k e k')
    (hfree : ∀ q, k.sys.states q = .free → k'.sys.states q = .free)
    (hcareful : Careful L ⟨k, mmu⟩ (.os (.kernel e))) :
    ∃ m', Protected L ⟨k', writeMessage k' buff mmu e.resume⟩ n gen m' ∧
      (∀ r, e.resume = some r → ∀ a, Patch.Covers r.write a →
      (spaces L ⟨k, mmu⟩ r.pid (page a)).isSome) ∧
      spaces L ⟨k', writeMessage k' buff mmu e.resume⟩ =
        fun q v ↦ if k'.sys.states q = .free
        then none else receive (spaces L ⟨k, mmu⟩) e.resume q v := by
  obtain ⟨boot, past, hboots, hpast⟩ := h.kernel
  have hrun : BootRun boot (⟨k, e, k'⟩ :: past) k' := .next hpast hstep
  have hlive (r : Resume) (hr : e.resume = some r) : Live k' r.pid := by
    have hready := ((BootRun.sysRun hrun).ready_of_resume hr).2
    rw [Live, hready]
    decide
  have hlive' (r : Resume) (hr : e.resume = some r) : Live k r.pid :=
    fun hq ↦ hlive r hr (hfree _ hq)
  obtain ⟨m', hprotected, hspaces⟩ := (h.ofKernel hstep hfree).message buff hlive
    (fun pid addr bytes hr ↦ ((BootRun.sysRun hrun).length_le_of_resume hr).trans (by decide))
    hcareful
  refine ⟨m', hprotected, fun r hr a ha ↦ ?_, ?_⟩
  · obtain ⟨huser, x, hleaf, -⟩ := hcareful r hr a ha
    have hleaf' : leaf mmu.words (L.zoneRoot r.pid) (page a) = some x := hleaf
    rw [spaces, if_neg (hlive' r hr), userMapping_of_user huser, hleaf']
    rfl
  · rw [hspaces]
    funext q v
    -- the processes that are left had the same memory before the step
    have hsame (q : Pid) (hq : k'.sys.states q ≠ .free) (v : ℕ) :
        spaces L ⟨k', mmu⟩ q v = spaces L ⟨k, mmu⟩ q v :=
      (if_neg hq).trans (if_neg fun hq' ↦ hq (hfree q hq')).symm
    by_cases hq : k'.sys.states q = .free
    · rw [if_pos hq, ← Option.not_isSome_iff_eq_none, isSome_receive, spaces_of_free hq]
      exact Bool.false_ne_true
    · rw [if_neg hq]
      exact receive_congr (hsame q hq v)

/-- The processes that an event forks. -/
def UserEvent.forked : UserEvent → ℕ
  | .os (.fork _ _) => 1
  | _ => 0

theorem forks_cons (t : Transition OsState UserEvent) (history : UserHistory) :
    forks (t :: history) = forks history + t.label.forked := Nat.add_comm _ _

theorem forks_append (later history : UserHistory) :
    forks (later ++ history) = forks later + forks history := by
  induction later with
  | nil => exact (Nat.zero_add _).symm
  | cons t later ih => rw [List.cons_append, forks_cons, forks_cons, ih, Nat.add_right_comm]

/-- A fault that is handled keeps the shared memory, and at most adds a page to what the process
finds. -/
theorem Protected.next_fault {fault : Fault} (h : Protected L ⟨k, mmu⟩ n gen m) (hn : n ≤ 253)
    (hok : fault.handle k.sys k.sys.currPid mmu = .ok mmu')
    (hcareful : Careful L ⟨k, mmu⟩ (.os (.fault fault))) :
    ∃ m', Protected L ⟨k, mmu'⟩ n gen m' ∧
      PrivateStep (privateView L ⟨k, mmu⟩) (.os (.fault fault)) (privateView L ⟨k, mmu'⟩) := by
  have hlive := h.current_live
  cases fault with
  | translation alloc va lowerEl =>
    obtain ⟨f, rest, mmu'', hfree, hmap, hhandler, himplements, -⟩ := h.translation hcareful
    have hok' : translationFaultHandler k.sys alloc va lowerEl k.sys.currPid mmu = .ok mmu' :=
      hok
    rw [hhandler] at hok'
    split_ifs at hok'
    obtain rfl := Except.ok.inj hok'
    have hop :
        SharedMemory.Step stackPages m (.take (k.sys.currPid, gen k.sys.currPid) (page va)) _ :=
      .take (h.implements.procs _ hlive) hmap hfree
    refine ⟨_, h.step hop himplements rfl, ?_⟩
    rw [privateView, privateView,
      h.implements.spaces_setPage himplements hlive SharedMemory.space_setMap]
    refine .translation _ ?_
    rw [h.implements.spaces_eq hlive, SharedMemory.space, SharedMemory.frameOf, hmap]
    rfl
  | accessFlag va =>
    obtain ⟨-, mmu'', -, hhandler, himplements, -⟩ := h.accessFlag hcareful
    obtain rfl := Except.ok.inj (hhandler.symm.trans hok)
    refine ⟨m, h.same himplements, ?_⟩
    rw [privateView, privateView, h.implements.spaces_same himplements rfl]
    exact .accessFlag
  | permission va lowerEl =>
    obtain ⟨q, e, -, -, hop, himplements, -⟩ := h.permission hn hcareful hok
    refine ⟨_, h.step hop himplements rfl, ?_⟩
    rw [privateView, privateView, h.implements.spaces_same himplements
      (hop.space h.sound h.hasPrivate).eq_of_own]
    exact .permission

/-- A step of a careful run keeps the shared memory, and changes what the processes find as if they
had memories of their own. -/
theorem Protected.next {e : UserEvent} (h : Protected L σ n gen m) (hn : n ≤ 253)
    (hstep : UserStep L σ e σ') (hcareful : Careful L σ e) :
    ∃ gen' m', Protected L σ' (n + e.forked) gen' m' ∧
      PrivateStep (privateView L σ) e (privateView L σ') := by
  cases hstep with
  | os hstep =>
    cases hstep with
    | @kernel k k' e mmu buff hstep hfree =>
      obtain ⟨m', hprotected, hsome, hspaces⟩ := h.kernelStep buff hstep hfree hcareful
      refine ⟨gen, m', hprotected, ?_⟩
      rw [privateView, privateView, hspaces]
      exact .kernel hstep hsome
    | @fork k k' e child mmu mmu' hstep hfree hnew hinit =>
      obtain ⟨mmu'', gen', m', hinit', hprotected, -, hspaces, -⟩ :=
        h.fork hstep hfree hnew hcareful
      obtain rfl := Except.ok.inj (hinit.symm.trans hinit')
      refine ⟨gen', m', hprotected, ?_⟩
      rw [privateView, privateView, hspaces]
      exact .fork hstep hfree hnew
    | @fault k f mmu mmu' hok =>
      obtain ⟨m', h', hprivate⟩ := h.next_fault hn hok hcareful
      exact ⟨gen, m', h', hprivate⟩
    | @release k va status pid mmu mmu' hmanager hok =>
      obtain ⟨f, mmu'', status', hhandler, -, hop, himplements⟩ := h.release hn hcareful
      rw [hhandler] at hok
      split_ifs at hok
      obtain ⟨rfl, -⟩ := Prod.mk.inj (Except.ok.inj hok)
      have hlive : Live k pid := hcareful.2.live
      refine ⟨gen, _, h.step hop himplements rfl, ?_⟩
      rw [privateView, privateView,
        h.implements.spaces_setPage himplements hlive SharedMemory.space_setMap]
      refine .release hmanager ?_
      rw [h.implements.spaces_eq hlive]
      exact (hop.space h.sound h.hasPrivate).isSome_of_drop
  | @store k mmu va pa b hpage haccess =>
    rw [h.root_eq h.current_live] at haccess
    obtain ⟨e, hleaf, hbit, rfl⟩ := userTranslation_eq_some haccess
    obtain ⟨m', d, h', hsome, hspaces⟩ := h.write h.current_live hpage hleaf (hbit rfl) b
    refine ⟨gen, m', h', ?_⟩
    rw [privateView, privateView, hspaces]
    exact .store hsome
  | @push k mmu pid va b =>
    obtain ⟨hlive, hwritable⟩ := hcareful
    obtain ⟨e, hleaf, hbit, htranslation⟩ := h.kernelTranslation_eq hlive hwritable
    obtain ⟨m', d, h', hsome, hspaces⟩ := h.write hlive hwritable.1 hleaf hbit b
    refine ⟨gen, m', ?_⟩
    rw [Mmu.storeBytes, htranslation]
    refine ⟨h', ?_⟩
    dsimp only [Mmu.storeBytes]
    rw [privateView, privateView, hspaces]
    exact .push hsome

/-! ### Runs -/

/-- The boot leaves such a memory. -/
theorem protected_of_booted (hroom : L.kernelTables < 504) (h : OsBooted L σ) :
    Protected L σ 0 (fun _ ↦ 0) (bootPages L σ.mmu) := by
  obtain ⟨boot, sys, s, s₁, hboots, hboot, hhardware, hkernel, hinit⟩ := h
  obtain ⟨s₀, hbooted⟩ := booted_of_boot hkernel hinit
  have htables : s.ttbr0El1 &&& mask 47 1 = L.mmuTablesStart := by
    rw [hhardware, hboots.ttbr0El1, L.mmuTablesStart_and]
  refine ⟨⟨boot, [], hboots, .start hboot⟩, (hbooted.implements hroom htables).mono fun q hq ↦ ?_,
    hbooted.sound hroom htables, Booted.hasPrivate fun q hq ↦
    hbooted.stackWritable hkernel hinit hq, rfl, fun f hf ↦ hbooted.accounted hroom htables hf⟩
  by_cases hkernel : q = kernelPid
  · exact .inl hkernel
  · exact .inr (Proc.slot_of_boot ⟨boot, hboot⟩ hkernel hq)

/-- After the boot the processes have nothing but their stacks. -/
theorem privateBooted_of_booted (hroom : L.kernelTables < 504) (h : OsBooted L σ) :
    PrivateBooted (privateView L σ) := by
  have hprotected := protected_of_booted hroom h
  obtain ⟨boot, sys, s, s₁, -, hboot, -, hkernel, hinit⟩ := h
  obtain ⟨s₀, hbooted⟩ := booted_of_boot hkernel hinit
  refine ⟨⟨boot, hboot⟩, fun q v ↦ ?_⟩
  obtain ⟨k, mmu⟩ := σ
  change (spaces L ⟨k, mmu⟩ q v).isSome ↔ Live k q ∧ IsStackPage v
  by_cases hq : Live k q
  · rw [and_iff_right hq]
    by_cases hv : v ∈ stackPages
    · obtain ⟨f, hmap⟩ := hprotected.hasPrivate _ (hprotected.implements.procs q hq) v hv
      refine iff_of_true ?_ (mem_stackPages.mp hv)
      rw [hprotected.implements.spaces_eq hq, SharedMemory.space, SharedMemory.frameOf_eq_some hmap]
      rfl
    · have hfirst : q = kernelPid ∨ q = initPid := by
        by_cases hkernel : q = kernelPid
        · exact .inl hkernel
        · exact .inr (Proc.slot_of_boot ⟨boot, hboot⟩ hkernel hq)
      have hnone : spaces L ⟨k, mmu⟩ q v = none := by
        rw [spaces, if_neg hq, userMapping]
        split_ifs with huser
        · rw [hbooted.leaf_none hfirst huser hv]
          rfl
        · rfl
      rw [hnone]
      exact iff_of_false Bool.false_ne_true fun hstack ↦ hv (mem_stackPages.mpr hstack)
  · have hfree : k.sys.states q = .free := of_not_not hq
    have hnone : spaces L ⟨k, mmu⟩ q v = none := spaces_of_free hfree v
    rw [hnone]
    exact iff_of_false Bool.false_ne_true fun hand ↦ hq hand.1

/-- The shared memory of a careful run. -/
theorem CarefulRun.protected (hroom : L.kernelTables < 504) (hrun : CarefulRun L history σ)
    (hforks : forks history ≤ 253) : ∃ gen m, Protected L σ (forks history) gen m := by
  induction hrun with
  | start hinit => exact ⟨_, _, protected_of_booted hroom hinit⟩
  | next hrun hstep ih =>
    rw [forks_cons] at hforks ⊢
    obtain ⟨gen, m, h⟩ := ih (by omega)
    obtain ⟨gen', m', h', -⟩ := h.next (by omega) hstep.1 hstep.2
    exact ⟨gen', m', h'⟩

/-- Every transition of a careful run is one where the processes have memories of their own. -/
theorem CarefulRun.privateStep (hroom : L.kernelTables < 504) (hrun : CarefulRun L history σ)
    (hforks : forks history ≤ 253) {t : Transition OsState UserEvent} (ht : t ∈ history) :
    PrivateStep (privateView L t.pre) t.label (privateView L t.post) := by
  obtain ⟨later, past, rfl⟩ := List.append_of_mem ht
  rw [forks_append, forks_cons] at hforks
  obtain ⟨-, hstep, hpast⟩ := (Run.upTo hrun).last
  obtain ⟨gen, m, h⟩ := CarefulRun.protected hroom hpast (by omega)
  obtain ⟨-, -, -, hprivate⟩ := h.next (by omega) hstep.1 hstep.2
  exact hprivate

/-! ### Runs of the kernel -/

/-- The number of the slots that a run of the kernel takes. -/
def taken (past : Proc.History) : ℕ := past.countP fun t ↦ (takenSlot t).isSome

theorem taken_cons (t : Transition Kernel Event) (past : Proc.History) :
    taken (t :: past) = taken past + if (takenSlot t).isSome then 1 else 0 := List.countP_cons

/-- A run of the kernel without messages is one of the system, as long as there are pages for the
stacks of the processes. No process has a page but its stack then. -/
theorem exists_carefulRun {boot : Boot} {past : Proc.History} (hboots : L.Boots boot)
    (hlayout : L.kernelTables < 504) (hrun : BootRun boot past k)
    (hsilent : ∀ t ∈ past, t.label.resume.bind Resume.write = none)
    (hcount : taken past ≤ 253) (hroom : 2 * taken past + 4 ≤ freeLimit L) :
    ∃ history mmu, CarefulRun L history ⟨k, mmu⟩ ∧ forks history = taken past ∧
      mmu.physicalMemoryMap.head.toNat = 2 * taken past + 4 ∧
      ∀ q, ∀ v ∉ stackPages, spaces L ⟨k, mmu⟩ q v = none := by
  induction hrun with
  | @start k hinit =>
    obtain ⟨s₀, s₁, s₂, hkernel, hinit', hbooted⟩ := exists_booted L k.sys
      { sampleTables 0 with ttbr0El1 := L.mmuTablesStart }
    have hstart : OsBooted L ⟨k, s₂⟩ :=
      ⟨boot, k.sys, _, s₁, hboots, hinit, hboots.ttbr0El1.symm, hkernel, hinit'⟩
    refine ⟨[], s₂, .start hstart, rfl, hbooted.pool₂.head, fun q v hv ↦ ?_⟩
    rw [← Option.not_isSome_iff_eq_none]
    exact fun hsome ↦
      hv (mem_stackPages.mpr (((privateBooted_of_booted hlayout hstart).2 q v).mp hsome).2)
  | @next past k k' e hrun hstep ih =>
    rw [taken_cons] at hcount hroom
    obtain ⟨hsilent, hpast⟩ := List.forall_mem_cons.mp hsilent
    have hnowrite (r : Resume) (hr : e.resume = some r) : r.write = none :=
      (congrArg (fun o ↦ Option.bind o Resume.write) hr).symm.trans hsilent
    obtain ⟨history, mmu, hcareful, hforks, hhead, hnone⟩ := ih hpast (by omega) (by omega)
    have hsane := (BootRun.sysRun hrun).sane
    rcases (Proc.rootsKept_of_step hsane hstep).2 with ⟨-, hkept⟩ | ⟨child, -, hfree, hstates, -⟩
    · have htaken := takenSlot_eq_none (e := e) hkept
      have hready : Careful L ⟨k, mmu⟩ (.os (.kernel e)) := by
        intro r hr a ha
        rw [hnowrite r hr] at ha
        exact ha.elim
      have hevent : OsStep L ⟨k, mmu⟩ (.kernel e) _ := .kernel 0 hstep hkept
      rw [writeMessage_of_none k' 0 mmu hnowrite] at hevent
      refine ⟨_, mmu, .next hcareful ⟨.os hevent, hready⟩, ?_, ?_, fun q v hv ↦ ?_⟩
      · rw [forks_cons, taken_cons, htaken, hforks]
        rfl
      · rw [taken_cons, htaken, hhead]
        rfl
      · by_cases hq : k'.sys.states q = .free
        · exact if_pos hq
        · have hq' : k.sys.states q ≠ .free := fun h ↦ hq (hkept q h)
          exact (if_neg hq).trans ((if_neg hq').symm.trans (hnone q v hv))
    · have htaken := takenSlot_eq_some (e := e) hfree hstates
      rw [htaken, Option.isSome_some, if_pos rfl] at hcount hroom
      have hnew : k'.sys.states child ≠ .free := by
        rw [hstates, Function.update_self]
        decide
      obtain ⟨gen, m, h⟩ := CarefulRun.protected hlayout hcareful (by omega)
      have hready : Careful L ⟨k, mmu⟩ (.os (.fork e child)) := by
        change mmu.physicalMemoryMap.head.toNat + 2 ≤ freeLimit L
        omega
      obtain ⟨mmu', -, -, hinit, -, hhead', hspaces, -⟩ := h.fork hstep hfree hnew hready
      refine ⟨_, mmu', .next hcareful ⟨.os (.fork hstep hfree hnew hinit), hready⟩, ?_, ?_,
        fun q v hv ↦ ?_⟩
      · rw [forks_cons, taken_cons, htaken, hforks]
        rfl
      · rw [taken_cons, htaken, Option.isSome_some, if_pos rfl, hhead', hhead]
        omega
      · rw [hspaces, Function.update_apply]
        split_ifs
        · exact hnone _ v hv
        · exact hnone q v hv

/-! ### The heap of `init` -/

/-- A heap of one page. -/
def sampleAlloc : AllocConf := ⟨0x8000000, 0x1000, 0⟩

/-- `init` faults at a page of its heap, and then writes a byte to it. -/
def heapHistory (history : UserHistory) (k : Kernel) (s t u : MmuState) : UserHistory :=
  ⟨⟨k, t⟩, .store 0x8000123 0xab, ⟨k, u⟩⟩ ::
    ⟨⟨k, s⟩, .os (.fault (.translation sampleAlloc 0x8000123 true)), ⟨k, t⟩⟩ :: history

/-- A run in which `init` writes a byte to a page of its heap that was not mapped. -/
structure HeapRun (history : UserHistory) (k : Kernel) (s t u : MmuState) : Prop where
  start : CarefulRun sampleLayout history ⟨k, s⟩
  careful : Careful sampleLayout ⟨k, s⟩ (.os (.fault (.translation sampleAlloc 0x8000123 true)))
  handled : translationFaultHandler k.sys sampleAlloc 0x8000123 true k.sys.currPid s = .ok t
  store : CarefulRun sampleLayout (heapHistory history k s t u) ⟨k, u⟩
  current : k.sys.currPid = initPid
  writable : ∀ va, page va = 0x8000 → KernelWritable sampleLayout ⟨k, u⟩ initPid va
  room : u.physicalMemoryMap.head.toNat + 3 ≤ freeLimit sampleLayout

theorem forks_heapHistory (history : UserHistory) (k : Kernel) (s t u : MmuState) :
    forks (heapHistory history k s t u) = forks history := by
  rw [heapHistory, forks_cons, forks_cons]
  rfl

theorem exists_heapRun {past : Proc.History} (hrun : BootRun sampleImage past k)
    (hsilent : ∀ t ∈ past, t.label.resume.bind Resume.write = none) (htaken : taken past ≤ 1)
    (hcurr : k.sys.currPid = initPid) :
    ∃ history s t u, HeapRun history k s t u ∧ forks history = taken past := by
  have hsample : freeLimit sampleLayout = 0x3ac00 := by decide
  obtain ⟨history, s, hcareful, hforks, hhead, hnone⟩ := exists_carefulRun sampleImage_boots
    (by decide) hrun hsilent (by omega) (by omega)
  obtain ⟨gen, m, h⟩ := CarefulRun.protected (by decide) hcareful (by omega)
  -- the page is mapped
  have hlive := h.current_live
  have huser : IsUserPage sampleLayout (page 0x8000123) := by decide
  have hleaf : leaf s.words (sampleLayout.zoneRoot k.sys.currPid) (page 0x8000123) = none := by
    have hspace := hnone k.sys.currPid (page 0x8000123) (by decide)
    rw [spaces, if_neg hlive, userMapping_of_user huser, Option.map_eq_none_iff,
      Option.map_eq_none_iff] at hspace
    exact hspace
  have hready :
      Careful sampleLayout ⟨k, s⟩ (.os (.fault (.translation sampleAlloc 0x8000123 true))) := by
    refine ⟨?_, huser, by decide, hleaf⟩
    change s.physicalMemoryMap.head.toNat < freeLimit sampleLayout
    omega
  obtain ⟨f, rest, t, hpages, -, hhandler, himplements, hentry⟩ := h.translation hready
  rw [if_pos (by decide)] at hhandler
  have hfault :
      UserStep sampleLayout ⟨k, s⟩ (.os (.fault (.translation sampleAlloc 0x8000123 true)))
        ⟨k, t⟩ :=
    .os (.fault hhandler)
  -- the byte is written
  have hwrite := userTranslation_userPage (by decide) hentry true
  have hroot : getLvl2AddressFromSysState k.sys k.sys.currPid = sampleLayout.zoneRoot
      k.sys.currPid := h.root_eq hlive
  have hstore := UserStep.store (k := k) 0xab huser (hroot ▸ hwrite)
  refine ⟨history, s, t, _,
    ⟨hcareful, hready, hhandler, .next (.next hcareful ⟨hfault, hready⟩) ⟨hstore, trivial⟩,
    hcurr, fun va hva ↦ ?_, ?_⟩, hforks⟩
  · rw [hcurr] at hentry
    have hpage : page va = page 0x8000123 := hva
    refine ⟨hpage ▸ huser, _, hpage ▸ hentry, ?_⟩
    rw [withAttributes_and _ _ _ (by decide), withAttributes_and _ _ _ (by decide)]
    exact ⟨by decide, by decide⟩
  · have hlength : s.physicalMemoryMap.head.toNat + m.free.length = freeLimit sampleLayout :=
      h.implements.free.head
    have hlength' : t.physicalMemoryMap.head.toNat + rest.length = freeLimit sampleLayout :=
      himplements.free.head
    rw [hpages, List.length_cons] at hlength
    change t.physicalMemoryMap.head.toNat + 3 ≤ freeLimit sampleLayout
    omega

/-- `init` forks after it has written its byte. -/
def forkHistory (history : UserHistory) (k k' : Kernel) (e : Event) (s t u w : MmuState) :
    UserHistory :=
  ⟨⟨k, u⟩, .os (.fork e 2), ⟨k', w⟩⟩ :: heapHistory history k s t u

/-- `init` traps after it has written its byte, and is resumed. -/
def statusHistory (history : UserHistory) (k k' k'' : Kernel) (e e' : Event) (s t u w : MmuState) :
    UserHistory :=
  ⟨⟨k', u⟩, .os (.kernel e'), ⟨k'', w⟩⟩ :: ⟨⟨k, u⟩, .os (.kernel e), ⟨k', u⟩⟩ ::
    heapHistory history k s t u

theorem forks_forkHistory (history : UserHistory) (k k' : Kernel) (e : Event) (s t u w : MmuState) :
    forks (forkHistory history k k' e s t u w) = forks history + 1 := by
  rw [forkHistory, forks_cons, forks_heapHistory]
  rfl

theorem forks_statusHistory (history : UserHistory) (k k' k'' : Kernel) (e e' : Event)
    (s t u w : MmuState) : forks (statusHistory history k k' k'' e e' s t u w) = forks history := by
  rw [statusHistory, forks_cons, forks_cons, forks_heapHistory]
  rfl

/-- `init` has forked a child after it has written its byte, and shares the page `f` with it. When
it drops the page, the child is the only one that holds it. -/
structure SharedRun (history : UserHistory) (k : Kernel) (s : MmuState) (child : Pid)
    (gen : Pid → ℕ) (m : SharedPages) (f : ℕ) : Prop where
  run : CarefulRun sampleLayout history ⟨k, s⟩
  kept : Protected sampleLayout ⟨k, s⟩ (forks history) gen m
  root : s.lvl2TableAddress = sampleLayout.zoneRoot child
  room : s.physicalMemoryMap.head.toNat + 1 ≤ freeLimit sampleLayout
  frame : IsFrame sampleLayout f
  parent : m.map (initPid, gen initPid) (page 0x8000123) = some ⟨f, false⟩
  holders : (m.drop (initPid, gen initPid) (page 0x8000123) f).holders f = {(child, gen child)}
  child_map :
    (m.drop (initPid, gen initPid) (page 0x8000123) f).map (child, gen child) (page 0x8000123) =
      some ⟨f, false⟩

/-- `init` shares its page with its child. -/
theorem HeapRun.fork {s t u : MmuState} {e : Event} (h : HeapRun history k s t u)
    (hforks : forks history ≤ 252) (hstep : Step k e k') (hfree : k.sys.states 2 = .free)
    (hnew : k'.sys.states 2 ≠ .free) :
    ∃ w gen m f, SharedRun (forkHistory history k k' e s t u w) k' w 2 gen m f := by
  rw [← forks_heapHistory history k s t u] at hforks
  obtain ⟨gen, m, hkept⟩ := CarefulRun.protected (by decide) h.store (by omega)
  have hcaller : Live k initPid := h.current ▸ hkept.current_live
  -- `init` may write to its page
  obtain ⟨huser, x, hleaf, -, hbit⟩ := h.writable 0x8000123 rfl
  obtain ⟨hmap, -, hf⟩ := hkept.implements.frame_of_leaf hcaller huser hleaf
  have hmapping : mappingOf x = ⟨(mappingOf x).frame, true⟩ := by
    rw [mappingOf, decide_eq_true hbit]
  rw [hmapping] at hmap
  -- the fork shares it
  have hready : Careful sampleLayout ⟨k, u⟩ (.os (.fork e 2)) := Nat.le_of_succ_le h.room
  obtain ⟨w, gen', m', hinit, hkept', hhead, -, c, hfresh, rfl, hop⟩ :=
    hkept.fork hstep hfree hnew hready
  have hroom := h.room
  rw [h.current] at hop
  obtain ⟨hne, hforked⟩ := SharedMemory.forked_of_step hop hkept.sound hkept.hasPrivate
  have hstack : page 0x8000123 ∉ stackPages := by decide
  obtain ⟨hholders, hchild⟩ := hforked.holders_drop hkept.sound hfresh hne hstack hmap
  have hgen : Function.update gen 2 c initPid = gen initPid := Function.update_of_ne (by decide) _ _
  have hgen' : Function.update gen 2 c 2 = c := Function.update_self ..
  obtain ⟨boot, past, -, hpast⟩ := hkept.kernel
  have hroot :=
    (cInitMmu_globals (child_ne (BootRun.sysRun hpast).sane hstep hfree hnew) rfl _ hinit).1.root
  refine ⟨w, Function.update gen 2 c, m', (mappingOf x).frame,
    ⟨.next h.store ⟨.os (.fork hstep hfree hnew hinit), hready⟩, ?_, ?_, by omega, hf, ?_, ?_, ?_⟩⟩
  · rw [forkHistory, forks_cons]
    exact hkept'
  · exact hroot
  · rw [hgen]
    exact hforked.map_parent hne hstack hmap
  · rw [hgen, hgen']
    exact hholders
  · rw [hgen, hgen']
    exact hchild

/-- `init` shares its page with the memory manager then. -/
theorem exists_forkHistory : ∃ history k k' e s t u w, HeapRun history k s t u ∧ forks history = 0 ∧
    CarefulRun sampleLayout (forkHistory history k k' e s t u w) ⟨k', w⟩ := by
  obtain ⟨past, k', hrun, hP⟩ := Proc.exists_bootRun sampleImage [.start,
    .svc 0 (Proc.sampleFrame [15])] (fun past k' ↦ match past with
      | t :: past =>
          decide (taken past = 0 ∧ (∀ t ∈ past, t.label.resume.bind Resume.write = none) ∧
          t.pre.sys.currPid = initPid ∧ t.pre.sys.states 2 = .free ∧ t.post.sys.states 2 ≠ .free)
      | [] => false) (by decide +kernel)
  cases hrun with
  | start => cases hP
  | @next past k k' e hrun hstep =>
    obtain ⟨htaken, hsilent, hcurr, hfree, hnew⟩ := of_decide_eq_true hP
    dsimp only at hcurr hfree hnew
    obtain ⟨history, s, t, u, h, hforks⟩ := exists_heapRun hrun hsilent (by omega) hcurr
    rw [htaken] at hforks
    obtain ⟨w, gen, m, f, hshared⟩ := h.fork (by omega) hstep hfree hnew
    exact ⟨history, k, k', e, s, t, u, w, h, hforks, hshared.run⟩

/-- A child of `init` has exited, and `init` waits for it: it is resumed with the status on its
page, next to the byte. -/
theorem exists_statusHistory :
    ∃ history k k' k'' e e' bytes s t u w, HeapRun history k s t u ∧ forks history = 1 ∧
    Live k' initPid ∧ Live k'' initPid ∧ e.resume = none ∧
    e'.resume = some ⟨initPid, some (0x8000100, bytes)⟩ ∧
    bytes.length = 16 ∧ CarefulRun sampleLayout
    (statusHistory history k k' k'' e e' s t u w) ⟨k'', w⟩ := by
  obtain ⟨past, k'', hrun, hP⟩ := Proc.exists_bootRun sampleImage [.start,
      .svc 0 (Proc.sampleFrame [15]), .schedule 0, .svc 1 (Proc.sampleFrame []), .schedule 0,
      .svc 2 (Proc.sampleFrame [0x8000100]), .schedule 0]
    (fun past k'' ↦ match past with
      | again :: wait :: past => decide (taken past = 1 ∧
          (∀ t ∈ past, t.label.resume.bind Resume.write = none) ∧ wait.pre.sys.currPid = initPid ∧
          (∀ q, wait.pre.sys.states q = .free → wait.post.sys.states q = .free) ∧
          (∀ q, again.pre.sys.states q = .free → again.post.sys.states q = .free) ∧
          wait.post.sys.states initPid ≠ .free ∧ k''.sys.states initPid ≠ .free ∧
          wait.label.resume = none ∧ again.label.resume.map Resume.pid = some initPid ∧
          (again.label.resume.bind Resume.write).map (fun w ↦ (w.1, w.2.length)) =
          some (0x8000100, 16))
      | _ => false) (by decide +kernel)
  cases hrun with
  | start => cases hP
  | @next past k' k'' e' hrun hagain =>
    cases hrun with
    | start => cases hP
    | @next past k k' e hrun hwait =>
      obtain ⟨htaken, hsilent, hcurr, hfree, hfree', hlive, hlive', hnone, hpid, hwrite⟩ :=
        of_decide_eq_true hP
      dsimp only at hcurr hfree hfree' hlive hnone hpid hwrite
      obtain ⟨history, s, t, u, h, hforks⟩ := exists_heapRun hrun hsilent (by omega) hcurr
      -- the message is the status of the child
      obtain ⟨⟨pid, write⟩, hresume, hpid⟩ := Option.map_eq_some_iff.mp hpid
      obtain rfl : pid = initPid := hpid
      rw [hresume, Option.bind_some] at hwrite
      obtain ⟨⟨addr, bytes⟩, rfl, hpair⟩ := Option.map_eq_some_iff.mp hwrite
      obtain ⟨rfl, hsize⟩ := Prod.mk.inj hpair
      -- `init` traps
      have hsilent' (r : Resume) (hr : e.resume = some r) : r.write = none :=
        nomatch hnone.symm.trans hr
      have hready : Careful sampleLayout ⟨k, u⟩ (.os (.kernel e)) :=
        fun r hr ↦ nomatch hnone.symm.trans hr
      have htrap : OsStep sampleLayout ⟨k, u⟩ (.kernel e) _ := .kernel 0 hwait hfree
      rw [writeMessage_of_none k' 0 u hsilent'] at htrap
      -- and finds the status on its page
      have hready' : Careful sampleLayout ⟨k', u⟩ (.os (.kernel e')) := by
        intro r hr a ha
        obtain rfl := Option.some.inj (hr.symm.trans hresume)
        refine h.writable a ?_
        have hoffset : (a - 0x8000100).toNat < bytes.length := ha
        rw [hsize, BitVec.toNat_sub] at hoffset
        change a.toNat / 0x1000 = 0x8000
        have hbase : (0x8000100 : Word).toNat = 0x8000100 := rfl
        omega
      refine ⟨history, k, k', k'', e, e', bytes, s, t, u, _, h, hforks.trans htaken, hlive, hlive',
        hnone, hresume, hsize, .next (.next h.store ⟨.os htrap, hready⟩)
        ⟨.os (.kernel 0 hagain hfree'), hready'⟩⟩

end SysresOs.Mmu
