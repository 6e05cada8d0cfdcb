import SysresOs.Proc.Reaping

/-!
# Orphans

A process is recorded as a child twice: its `parent_pid` names its parent, and it is in the list of
children of its parent. `exit` gives the children of a process to `init` in the first record only,
so that the two records agree (`KinAgree`) as long as no process but `init` exits before its
children, and disagree from the first such exit on. `kinAgree_iff` is this equivalence over runs.
-/

set_option autoImplicit false
set_option relaxedAutoImplicit false

namespace SysresOs.Proc

open SysresOs.Ring SysresOs.Outcome SysresOs.Trace

/-! ### The list of `init` -/

/-- The list of `init` has all the processes whose parent is `init`. -/
def Complete (N : Kinship) (st : Pid → ProcState) (kids : Pid → List Pid) : Prop :=
  (st initPid).Alive → ∀ c, Member st c → N.parent c = initPid → c ∈ kids initPid

section Moves

variable {N N' : Kinship} {st st' : Pid → ProcState} {kids kids' : Pid → List Pid} {p c w z : Pid}
  {code : Option (BitVec 16)}

theorem Complete.congr (h : Complete N st kids) (hfree : ∀ q, st' q = .free ↔ st q = .free)
    (hzombie : ∀ q, st' q = .zombie ↔ st q = .zombie) : Complete N st' kids := by
  intro hinit c hc hparent
  refine h ⟨fun hst ↦ hinit.1 ((hfree _).mpr hst), fun hst ↦ hinit.2 ((hzombie _).mpr hst)⟩ c ?_
    hparent
  exact ⟨hc.1, fun hst ↦ hc.2 ((hfree c).mpr hst)⟩

theorem Complete.adopt (h : Complete N st kids) (hslot : 2 ≤ c.val) {links : Option (Pid × Pid)} :
    Complete (N.adopt p c links) (Function.update st c .runnable)
      (adoptKids kids p c) := by
  have hinit : initPid ≠ c := by
    rintro rfl
    exact absurd hslot (by decide)
  intro hlive d hd hparent
  have hparent : Function.update N.parent c p d = initPid := hparent
  rw [Function.update_of_ne hinit] at hlive
  by_cases hdc : d = c
  · rw [hdc, Function.update_self] at hparent
    rw [hdc, hparent, adoptKids_self]
    exact List.mem_cons_self
  · rw [Function.update_of_ne hdc] at hparent
    have hmem : d ∈ kids initPid := by
      refine h hlive d ⟨hd.1, ?_⟩ hparent
      have hfree := hd.2
      rwa [Function.update_of_ne hdc] at hfree
    by_cases hp : initPid = p
    · rw [← hp, adoptKids_self]
      exact List.mem_cons_of_mem c hmem
    · rwa [adoptKids_of_ne hp hinit]

/-- The report of the exit of a listed child. -/
theorem complete_reap_iff (hc : c ∈ kids p) (hslot : 2 ≤ c.val) (hparent : N.parent c = p)
    (hlive : (st p).Alive) (hpc : p ≠ c) :
    Complete (N.remove p c w z) (Function.update (Function.update st c .free) p .runnable)
      (Function.update kids p ((kids p).erase c)) ↔ Complete N st kids := by
  have hinit : initPid ≠ c := by
    rintro rfl
    exact absurd hslot (by decide)
  have hstate : ∀ d, d ≠ c → (Function.update (Function.update st c .free) p .runnable d = .free ↔
      st d = .free) := by
    intro d hd
    by_cases hdp : d = p
    · rw [hdp, Function.update_self]
      exact iff_of_false nofun hlive.1
    · rw [Function.update_of_ne hdp, Function.update_of_ne hd]
  have hroot : (Function.update (Function.update st c .free) p .runnable initPid).Alive ↔
      (st initPid).Alive := by
    by_cases hp : initPid = p
    · rw [hp, Function.update_self]
      exact iff_of_true ⟨nofun, nofun⟩ hlive
    · rw [Function.update_of_ne hp, Function.update_of_ne hinit]
  have hgone : Function.update (Function.update st c .free) p .runnable c = .free := by
    rw [Function.update_of_ne hpc.symm, Function.update_self]
  have hkids : ∀ d, d ≠ c → (d ∈ Function.update kids p ((kids p).erase c) initPid ↔
      d ∈ kids initPid) := by
    intro d hd
    by_cases hp : initPid = p
    · rw [hp, Function.update_self]
      exact List.mem_erase_of_ne hd
    · rw [Function.update_of_ne hp]
  constructor
  · intro h hlive' d hd hd'
    by_cases hdc : d = c
    · rw [hdc, hparent] at hd'
      rwa [hdc, ← hd']
    · exact (hkids d hdc).mp (h (hroot.mpr hlive') d ⟨hd.1, mt (hstate d hdc).mp hd.2⟩ hd')
  · intro h hlive' d hd hd'
    have hdc : d ≠ c := by
      rintro rfl
      exact hd.2 hgone
    exact (hkids d hdc).mpr (h (hroot.mp hlive') d ⟨hd.1, mt (hstate d hdc).mpr hd.2⟩ hd')

/-- An exit keeps the list of `init` complete unless it orphans a process. -/
theorem complete_exit_iff (hfamily : Family N st kids) (h : Complete N st kids)
    (hlive : (st p).Alive) :
    Complete (N.orphan (kids p)) (Function.update st p .zombie) kids ↔
      ¬ (p ≠ initPid ∧ kids p ≠ [] ∧ (st initPid).Alive) := by
  have hmember : ∀ d, Member (Function.update st p .zombie) d ↔ Member st d := by
    intro d
    refine and_congr_right fun _ ↦ ?_
    by_cases hd : d = p
    · rw [hd, Function.update_self]
      exact iff_of_true nofun hlive.1
    · rw [Function.update_of_ne hd]
  constructor
  · rintro hcomplete ⟨hne, hkids, hinit⟩
    obtain ⟨c, hc⟩ := List.exists_mem_of_ne_nil _ hkids
    have hmem : c ∈ kids initPid := by
      refine hcomplete ?_ c ((hmember c).mpr (hfamily.mem p hlive c hc).1) (if_pos hc)
      rwa [Function.update_of_ne hne.symm]
    exact hne (hfamily.disjoint hlive hinit hc hmem)
  · intro hnone hinit d hd hparent
    have hne : p ≠ initPid := by
      rintro rfl
      rw [Function.update_self] at hinit
      exact hinit.2 rfl
    rw [Function.update_of_ne hne.symm] at hinit
    have hkids : kids p = [] := by
      by_contra hkids
      exact hnone ⟨hne, hkids, hinit⟩
    have hsame : (N.orphan (kids p)).parent d = N.parent d := if_neg (by rw [hkids]; nofun)
    exact h hinit d ((hmember d).mp hd) (hsame.symm.trans hparent)

/-- The parent of a process that is not `init` has it in its list. -/
theorem Family.mem_parent (h : Family N st kids) (hcomplete : Complete N st kids)
    (hc : Member st c) (hlive : (st (N.parent c)).Alive) : c ∈ kids (N.parent c) := by
  by_cases hinit : N.parent c = initPid
  · rw [hinit] at hlive ⊢
    exact hcomplete hlive c hc hinit
  · exact h.complete _ hlive hinit c hc rfl

/-- A step keeps the list of `init` complete exactly if it orphans no process. -/
theorem Complete.move_iff (h : Complete N st kids) (hfamily : Family N st kids)
    (hmove : TreeMove N st kids p code N' st' kids') : Complete N' st' kids' ↔
      ¬ (code = some 1 ∧ p ≠ initPid ∧ kids p ≠ [] ∧ (st initPid).Alive) := by
  have hother : ∀ {code : BitVec 16} {P : Prop}, code ≠ 1 → ¬ (some code = some 1 ∧ P) :=
    fun hcode hand ↦ hcode (Option.some.inj hand.1)
  cases hmove with
  | quiet hcode hsame =>
    refine iff_of_true ?_ fun hand ↦ hcode hand.1
    exact h.congr (treeState_iff hsame (.inl rfl)) (treeState_iff hsame (.inr (.inl rfl)))
  | forks hrun hfree hslot hlinks => exact iff_of_true (h.adopt hslot) (hother (by decide))
  | exits hrun hwait =>
    rw [complete_exit_iff hfamily h (alive_of_runnable hrun)]
    simp only [true_and]
  | @exitReaped w z hrun hslot hwait hw hz =>
    have hlive := alive_of_runnable hrun
    have hwaiting := alive_of_waiting hwait
    have hne : N.parent p ≠ p := by
      intro heq
      rw [heq, hrun] at hwait
      exact nomatch hwait
    have hmem := hfamily.mem_parent h ⟨hslot, by rw [hrun]; nofun⟩ hwaiting
    have hkept : (Function.update st p .zombie (N.parent p)).Alive := by
      rwa [Function.update_of_ne hne]
    have hreap := complete_reap_iff (w := w) (z := z) hmem hslot (hfamily.parent_orphan hlive)
      hkept hne
    rw [Function.update_idem] at hreap
    rw [hreap, complete_exit_iff hfamily h hlive]
    simp only [true_and]
  | @reaps c w z hrun hc hzombie hw hz =>
    have hlive := alive_of_runnable hrun
    obtain ⟨hmember, hparent⟩ := hfamily.mem p hlive c hc
    have hne : p ≠ c := by
      rintro rfl
      exact hfamily.not_mem_self hlive hc
    exact iff_of_true ((complete_reap_iff hc hmember.1 hparent hlive hne).mpr h)
      (hother (by decide))
  | waits hrun hne hnone =>
    refine iff_of_true (h.congr (fun q ↦ ?_) fun q ↦ ?_) (hother (by decide))
    all_goals
      by_cases hq : q = p
      · rw [hq, Function.update_self, hrun]
        exact iff_of_false nofun nofun
      · rw [Function.update_of_ne hq]

/-- A process that exits was running. -/
theorem TreeMove.exits_runnable (hmove : TreeMove N st kids p (some 1) N' st' kids') :
    st p = .runnable := by
  generalize hcode : some (1 : BitVec 16) = code at hmove
  cases hmove with
  | quiet hne hsame => exact absurd hcode.symm hne
  | forks hrun hfree hslot hlinks => exact hrun
  | exits hrun hwait => exact hrun
  | exitReaped hrun hslot hwait hw hz => exact hrun
  | reaps hrun hc hzombie hw hz => exact hrun
  | waits hrun hne hnone => exact hrun

/-- No step changes the parent of the kernel. -/
theorem TreeMove.parent_kernel (hfamily : Family N st kids)
    (hmove : TreeMove N st kids p code N' st' kids') :
    N'.parent kernelPid = N.parent kernelPid := by
  have horphan : (st p).Alive → (N.orphan (kids p)).parent kernelPid = N.parent kernelPid := by
    intro hlive
    refine if_neg fun hmem ↦ ?_
    exact absurd (hfamily.mem p hlive kernelPid hmem).1.1 (by decide)
  cases hmove with
  | quiet hcode hsame => rfl
  | @forks c links hrun hfree hslot hlinks =>
    have hne : kernelPid ≠ c := by
      rintro rfl
      exact absurd hslot (by decide)
    exact Function.update_of_ne hne ..
  | exits hrun hwait => exact horphan (alive_of_runnable hrun)
  | exitReaped hrun hslot hwait hw hz => exact horphan (alive_of_runnable hrun)
  | reaps hrun hc hzombie hw hz => rfl
  | waits hrun hne hnone => rfl

end Moves

/-! ### The two records -/

/-- The lists of children and the parents agree: the list of a process alive has exactly the other
processes that name it as their parent. -/
def KinAgree (s : SystemState) : Prop :=
  ∀ p, (s.states p).Alive → ∀ c, c ∈ children s p ↔
    s.states c ≠ .free ∧ c ≠ p ∧ (s.procs c).parentPid = (s.procs p).pid

/-- A process other than `init` exits before its children, and `init` has not exited. -/
def Orphans (t : Transition Kernel Event) : Prop :=
  t.label.action.code = some 1 ∧ t.pre.sys.currPid ≠ initPid ∧
    children t.pre.sys t.pre.sys.currPid ≠ [] ∧ (t.pre.sys.states initPid).Alive

instance (st : ProcState) : Decidable st.Alive := inferInstanceAs (Decidable (_ ∧ _))

instance (t : Transition Kernel Event) : Decidable (Orphans t) :=
  inferInstanceAs (Decidable (_ ∧ _ ∧ _ ∧ _))

theorem kinAgree_iff_complete {s : SystemState} {kids : Pid → List Pid}
    (hfamily : Family s.kin s.states kids) (hpid : ∀ q, s.states q ≠ .free → (s.procs q).pid = q)
    (hkernel : s.kin.parent kernelPid = kernelPid) :
    KinAgree s ↔ Complete s.kin s.states kids := by
  have hmem : ∀ p, (s.states p).Alive → ∀ c ∈ kids p,
      s.states c ≠ .free ∧ c ≠ p ∧ (s.procs c).parentPid = (s.procs p).pid := by
    intro p hp c hc
    obtain ⟨hmember, hparent⟩ := hfamily.mem p hp c hc
    refine ⟨hmember.2, ?_, hparent.trans (hpid p hp.1).symm⟩
    rintro rfl
    exact hfamily.not_mem_self hp hc
  -- The kernel and `init` are their own parents.
  have hmember : ∀ p c, s.states c ≠ .free → c ≠ p → s.kin.parent c = p → Member s.states c := by
    intro p c hc hne hparent
    refine ⟨?_, hc⟩
    have hzero : c.val ≠ 0 := by
      intro hval
      obtain rfl : c = kernelPid := Fin.ext hval
      exact hne (hkernel.symm.trans hparent)
    have hone : c.val ≠ 1 := by
      intro hval
      obtain rfl : c = initPid := Fin.ext hval
      exact hne (hfamily.root.symm.trans hparent)
    omega
  constructor
  · intro h hinit c hc hparent
    rw [← hfamily.children_eq hinit]
    refine (h initPid hinit c).mpr ⟨hc.2, ?_, hparent.trans (hpid initPid hinit.1).symm⟩
    rintro rfl
    exact absurd hc.1 (by decide)
  · intro h p hp c
    rw [hfamily.children_eq hp]
    refine ⟨hmem p hp c, ?_⟩
    rintro ⟨hc, hne, hparent⟩
    have hparent : s.kin.parent c = p := hparent.trans (hpid p hp.1)
    by_cases hinit : p = initPid
    · subst hinit
      exact h hp c (hmember _ c hc hne hparent) hparent
    · exact hfamily.complete p hp hinit c (hmember _ c hc hne hparent) hparent

/-- In every reachable state the kernel is its own parent. -/
theorem SysRun.parent_kernel {history : History} {k : Kernel} (hrun : SysRun history k) :
    k.sys.kin.parent kernelPid = kernelPid := by
  refine hrun.invariant (I := fun _ k ↦ k.sys.kin.parent kernelPid = kernelPid)
    (fun k hk ↦ (Booted.kin hk).2.1) fun history k e k' hrun h hstep ↦ ?_
  obtain ⟨kids, hfamily, -⟩ := SysRun.familyInv hrun
  obtain ⟨kids', hmove⟩ := treeMove_of_step hfamily (SysRun.sane hrun) hstep
  exact (hmove.parent_kernel hfamily).trans h

/-- The records agree after a step exactly if it orphans no process. -/
theorem SysRun.kinAgree_step {history : History} {k k' : Kernel} {e : Event}
    (hrun : SysRun history k) (hstep : Step k e k') (h : KinAgree k.sys) :
    KinAgree k'.sys ↔ ¬ Orphans ⟨k, e, k'⟩ := by
  have hrun' : SysRun (⟨k, e, k'⟩ :: history) k' := .next hrun hstep
  obtain ⟨kids, hfamily, -⟩ := hrun.familyInv
  obtain ⟨kids', hmove⟩ := treeMove_of_step hfamily hrun.sane hstep
  rw [kinAgree_iff_complete hfamily hrun.sane.pid hrun.parent_kernel] at h
  rw [kinAgree_iff_complete (hfamily.move hmove) hrun'.sane.pid hrun'.parent_kernel,
    h.move_iff hfamily hmove]
  refine not_congr (and_congr_right fun hcode ↦ ?_)
  rw [hcode] at hmove
  rw [← hfamily.children_eq (alive_of_runnable hmove.exits_runnable)]

theorem kinAgree_boot {k : Kernel} (h : Booted k) : KinAgree k.sys := by
  obtain ⟨kids, hfamily, -⟩ := familyInv_boot h
  have hrun : SysRun [] k := .start h
  rw [kinAgree_iff_complete hfamily hrun.sane.pid hrun.parent_kernel]
  exact fun _ c hc _ ↦ absurd hc (Booted.not_member h c)

/-- The records agree in all states of a run exactly if the run orphans no process: if no process
other than `init` exits before its children while `init` has not exited. -/
theorem kinAgree_iff {history : History} {k : Kernel} (hrun : SysRun history k) :
    (KinAgree k.sys ∧ ∀ t ∈ history, KinAgree t.pre.sys) ↔ ∀ t ∈ history, ¬ Orphans t := by
  induction hrun with
  | start hboot => exact iff_of_true ⟨kinAgree_boot hboot, nofun⟩ nofun
  | next hrun hstep ih =>
    rw [List.forall_mem_cons, List.forall_mem_cons, ← ih]
    constructor
    · rintro ⟨hpost, hpre, hpast⟩
      exact ⟨(SysRun.kinAgree_step hrun hstep hpre).mp hpost, hpre, hpast⟩
    · rintro ⟨hnone, hpre, hpast⟩
      exact ⟨(SysRun.kinAgree_step hrun hstep hpre).mpr hnone, hpre, hpast⟩

theorem kinAgree_iff_reapChild : ∃ history k, SysRun history k ∧ history.length = 7 ∧
    KinAgree k.sys := by
  obtain ⟨history, k, hrun, hstate⟩ := exists_run sampleBoot reapChild
    (fun history _ ↦ history.length = 7 ∧ ∀ t ∈ history, ¬ Orphans t) (by decide +kernel)
  obtain ⟨hlength, hnone⟩ := of_decide_eq_true hstate
  exact ⟨history, k, hrun, hlength, ((kinAgree_iff hrun).mpr hnone).1⟩

/-- `init` forks, its child forks, and the child exits before its own child. -/
def orphanChild : List Action :=
  [.start, .svc 0 (sampleFrame [15]), .schedule 0, .svc 0 (sampleFrame [15]), .schedule 0,
    .timer (sampleFrame []), .schedule 0, .timer (sampleFrame []), .schedule 0,
    .svc 1 (sampleFrame [7, 9])]

/-- The orphan has `init` as parent, and is not in the list of `init`. -/
theorem not_kinAgree_orphanChild : ∃ history k, SysRun history k ∧ ¬ KinAgree k.sys := by
  obtain ⟨history, k, hrun, hstate⟩ := exists_run sampleBoot orphanChild
    (fun _ k ↦ (k.sys.states initPid).Alive ∧ 3 ∉ children k.sys initPid ∧
      k.sys.states 3 ≠ .free ∧ (k.sys.procs 3).parentPid = (k.sys.procs initPid).pid)
    (by decide +kernel)
  obtain ⟨hinit, hlist, hfree, hparent⟩ := of_decide_eq_true hstate
  refine ⟨history, k, hrun, fun hagree ↦ hlist ?_⟩
  exact (hagree initPid hinit 3).mpr ⟨hfree, by decide, hparent⟩

end SysresOs.Proc
