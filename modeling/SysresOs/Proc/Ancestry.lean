import SysresOs.Lib.Forest
import SysresOs.Proc.Orphan

/-!
# Ancestors

The field `parent_pid` of a process is written when it is forked and when its parent exits. `fork`
takes a slot that is free, so that no process has it as its parent, and `exit` names `init` as the
parent of all the children of the process, so that no parent has exited but `init`.
`ancestors_reach_init` says what follows over runs: from every process that was forked the parents
lead to `init`, by processes that have not exited, and none of them is met twice.
-/

set_option autoImplicit false
set_option relaxedAutoImplicit false

namespace SysresOs.Proc

open SysresOs.Forest SysresOs.Trace

/-- A process that was forked and has neither exited nor been reaped. -/
def Living (st : Pid → ProcState) (c : Pid) : Prop := 2 ≤ c.val ∧ (st c).Alive

/-- The parents of every process that was forked lead to `init` by processes that live. -/
def LeadsToInit (N : Kinship) (st : Pid → ProcState) : Prop :=
  ∀ c, Member st c → Climbs N.parent (Living st) initPid c

theorem Living.member {st : Pid → ProcState} {c : Pid} (h : Living st c) :
    Member st c := ⟨h.1, h.2.1⟩

section Moves

variable {N N' : Kinship} {st st' : Pid → ProcState} {kids kids' : Pid → List Pid} {p c w z : Pid}
  {code : Option (BitVec 16)}

/-- States that are free or exited where the others are, with the same parents. -/
theorem LeadsToInit.congr (h : LeadsToInit N st) (hparent : N'.parent = N.parent)
    (hfree : ∀ q, st' q = .free ↔ st q = .free) (hzombie : ∀ q, st' q = .zombie ↔ st q = .zombie) :
    LeadsToInit N' st' := by
  intro c hc
  have hliving : ∀ q, Living st q → Living st' q := fun q hq ↦
    ⟨hq.1, fun hst ↦ hq.2.1 ((hfree q).mp hst), fun hst ↦ hq.2.2 ((hzombie q).mp hst)⟩
  rw [hparent]
  exact (h c ⟨hc.1, fun hst ↦ hc.2 ((hfree c).mpr hst)⟩).mono (fun _ _ ↦ .inl rfl) fun d _ hlive _ ↦
    hliving _ hlive

/-- A new process is below its parent, and no process is below it. -/
theorem LeadsToInit.adopt (h : LeadsToInit N st) (hrun : st p = .runnable) (hp : p ≠ kernelPid)
    (hfree : st c = .free) (links : Option (Pid × Pid)) :
    LeadsToInit (N.adopt p c links) (Function.update st c .runnable) := by
  have hpc : p ≠ c := by
    rintro rfl
    exact nomatch hrun.symm.trans hfree
  have hnot : ∀ d, Living st d → d ≠ c := by
    rintro d hd rfl
    exact hd.2.1 hfree
  have hliving : ∀ d, Living st d → Living (Function.update st c .runnable) d := by
    intro d hd
    rw [Living, Function.update_of_ne (hnot d hd)]
    exact hd
  have hold : ∀ d, d ≠ c → Member st d →
      Climbs (N.adopt p c links).parent (Living (Function.update st c .runnable)) initPid d := by
    intro d hdc hd
    refine (h d hd).mono (fun e he ↦ .inl (Function.update_of_ne ?_ ..)) fun e _ hlive _ ↦
      hliving _ hlive
    rcases he with rfl | he
    · exact hdc
    · exact hnot e he
  intro d hd
  by_cases hdc : d = c
  · have hparent : (N.adopt p c links).parent d = p := by
      rw [hdc]
      exact Function.update_self ..
    by_cases hinit : p = initPid
    · exact .last (hparent.trans hinit)
    · have hzero : p.val ≠ 0 := fun hval ↦ hp (Fin.ext hval)
      have hone : p.val ≠ 1 := fun hval ↦ hinit (Fin.ext hval)
      have hlive : Living st p := ⟨by omega, alive_of_runnable hrun⟩
      refine .up ?_ ?_
      · rw [hparent]
        exact hliving p hlive
      · rw [hparent]
        exact hold p hpc hlive.member
  · refine hold d hdc ⟨hd.1, fun hst ↦ hd.2 ?_⟩
    rwa [Function.update_of_ne hdc]

/-- An exit gives the processes below the one that exits to `init`. -/
theorem LeadsToInit.exit (h : LeadsToInit N st) (hfamily : Family N st kids)
    (hlive : (st p).Alive) : LeadsToInit (N.orphan (kids p)) (Function.update st p .zombie) := by
  intro c hc
  have hmember : Member st c := by
    refine ⟨hc.1, fun hst ↦ ?_⟩
    have hcp : c ≠ p := by
      rintro rfl
      exact hlive.1 hst
    have hfree := hc.2
    rw [Function.update_of_ne hcp] at hfree
    exact hfree hst
  have hway : ∀ d, d = c ∨ Living st d → Member st d := by
    rintro d (rfl | hd)
    · exact hmember
    · exact hd.member
  have hedit : ∀ d, (N.orphan (kids p)).parent d = if d ∈ kids p then initPid else N.parent d :=
    fun _ ↦ rfl
  refine (h c hmember).mono (fun d _ ↦ ?_) fun d hd hparent hroot ↦ ?_
  · rw [hedit]
    split_ifs
    · exact .inr rfl
    · exact .inl rfl
  · -- A process whose parent exits is one of its children, and these get `init` as parent.
    have hne : N.parent d ≠ p := by
      intro hdp
      have hpinit : p ≠ initPid := by
        rintro rfl
        rw [hdp] at hparent
        exact absurd hparent.1 (by decide)
      rw [hedit, if_pos (hfamily.complete p hlive hpinit d (hway d hd) hdp)] at hroot
      exact hroot rfl
    rw [Living, Function.update_of_ne hne]
    exact hparent

/-- The report of an exit frees a slot below which there is no process. -/
theorem LeadsToInit.reap (h : LeadsToInit N st) (hzombie : st c = .zombie) (hp : (st p).Alive) :
    LeadsToInit (N.remove p c w z) (Function.update (Function.update st c .free) p .runnable) := by
  have hpc : p ≠ c := by
    rintro rfl
    exact hp.2 hzombie
  have hfree : ∀ d, d ≠ c → Function.update (Function.update st c .free) p .runnable d ≠ .free →
      st d ≠ .free := by
    intro d hdc hne hst
    have hdp : d ≠ p := by
      rintro rfl
      exact hp.1 hst
    rw [Function.update_of_ne hdp, Function.update_of_ne hdc] at hne
    exact hne hst
  have hgone : Function.update (Function.update st c .free) p .runnable c = .free := by
    rw [Function.update_of_ne hpc.symm, Function.update_self]
  have hliving : ∀ d, Living st d →
      Living (Function.update (Function.update st c .free) p .runnable) d := by
    intro d hd
    have hdc : d ≠ c := by
      rintro rfl
      exact hd.2.2 hzombie
    refine ⟨hd.1, ?_⟩
    by_cases hdp : d = p
    · rw [hdp, Function.update_self]
      exact alive_of_runnable rfl
    · rw [Function.update_of_ne hdp, Function.update_of_ne hdc]
      exact hd.2
  intro d hd
  have hdc : d ≠ c := by
    rintro rfl
    exact hd.2 hgone
  exact (h d ⟨hd.1, hfree d hdc hd.2⟩).mono (fun _ _ ↦ .inl rfl) fun _ _ hlive _ ↦ hliving _ hlive

/-- A step keeps the parents of all processes on their way to `init`. -/
theorem LeadsToInit.move (h : LeadsToInit N st) (hfamily : Family N st kids)
    (hkernel : st kernelPid ≠ .runnable) (hmove : TreeMove N st kids p code N' st' kids') :
    LeadsToInit N' st' := by
  cases hmove with
  | quiet hcode hsame =>
    exact h.congr rfl (treeState_iff hsame (.inl rfl)) (treeState_iff hsame (.inr (.inl rfl)))
  | @forks c links hrun hfree hslot hlinks =>
    refine h.adopt hrun ?_ hfree links
    rintro rfl
    exact hkernel hrun
  | exits hrun hwait => exact h.exit hfamily (alive_of_runnable hrun)
  | @exitReaped w z hrun hslot hwait hw hz =>
    have hne : N.parent p ≠ p := by
      intro heq
      rw [heq, hrun] at hwait
      exact nomatch hwait
    have hexit := h.exit hfamily (alive_of_runnable hrun)
    have hwaiting : (Function.update st p .zombie (N.parent p)).Alive := by
      rw [Function.update_of_ne hne]
      exact alive_of_waiting hwait
    have hreap := hexit.reap (w := w) (z := z) (Function.update_self p .zombie st) hwaiting
    rwa [Function.update_idem] at hreap
  | reaps hrun hc hzombie hw hz => exact h.reap hzombie (alive_of_runnable hrun)
  | waits hrun hne hnone =>
    refine h.congr rfl (fun q ↦ ?_) fun q ↦ ?_
    all_goals
      by_cases hq : q = p
      · rw [hq, Function.update_self, hrun]
        exact iff_of_false nofun nofun
      · rw [Function.update_of_ne hq]

end Moves

/-- In every reachable state the parents of the processes lead to `init`. -/
theorem SysRun.leadsToInit {history : History} {k : Kernel} (hrun : SysRun history k) :
    LeadsToInit k.sys.kin k.sys.states := by
  refine hrun.invariant (I := fun _ k ↦ LeadsToInit k.sys.kin k.sys.states)
    (fun k hk c hc ↦ absurd hc (Booted.not_member hk c)) fun history k e k' hrun h hstep ↦ ?_
  obtain ⟨kids, hfamily, -⟩ := SysRun.familyInv hrun
  obtain ⟨kids', hmove⟩ := treeMove_of_step hfamily (SysRun.sane hrun) hstep
  refine h.move hfamily (fun hkernel ↦ ?_) hmove
  exact nomatch (((SysRun.settled hrun).proper kernelPid).kernel rfl).symm.trans hkernel

/-- In every reachable state the parents of a process that was forked lead to `init` after fewer
than `MAX_PROC` steps. The processes between them were forked and have neither exited nor been
reaped, and none of these, nor the process itself, is its own ancestor. -/
theorem ancestors_reach_init {history : History} {k : Kernel} (hrun : SysRun history k) {q : Pid}
    (hq : Member k.sys.states q) :
    (∃ n < maxProc, (fun c ↦ (k.sys.procs c).parentPid)^[n] q = initPid ∧
      ∀ m < n, (fun c ↦ (k.sys.procs c).parentPid)^[m] q ≠ initPid ∧
        (0 < m → Living k.sys.states ((fun c ↦ (k.sys.procs c).parentPid)^[m] q))) ∧
      ∀ m, (fun c ↦ (k.sys.procs c).parentPid)^[m + 1] q ≠ q := by
  obtain ⟨kids, hfamily, -⟩ := hrun.familyInv
  have hclimbs := hrun.leadsToInit q hq
  have hinit : q ≠ initPid := by
    rintro rfl
    exact absurd hq.1 (by decide)
  refine ⟨?_, hclimbs.iterate_ne hfamily.root hinit⟩
  have hiterate := hclimbs.iterate
  rwa [Fintype.card_fin] at hiterate

/-- `init` forks, and its child forks. -/
def grandchild : List Action :=
  [.start, .svc 0 (sampleFrame [15]), .schedule 0, .svc 0 (sampleFrame [15])]

theorem ancestors_reach_init_grandchild :
    ∃ history k, SysRun history k ∧ (k.sys.procs 3).parentPid = 2 ∧
    ∃ n < maxProc, (fun c ↦ (k.sys.procs c).parentPid)^[n] 3 = initPid := by
  obtain ⟨history, k, hrun, hstate⟩ := exists_run sampleBoot grandchild
    (fun _ k ↦ k.sys.states 3 = .runnable ∧ (k.sys.procs 3).parentPid = 2) (by decide +kernel)
  obtain ⟨hstate, hparent⟩ := of_decide_eq_true hstate
  have hmember : Member k.sys.states 3 := ⟨by decide, by rw [hstate]; decide⟩
  obtain ⟨⟨n, hn, hinit, -⟩, -⟩ := ancestors_reach_init hrun hmember
  exact ⟨history, k, hrun, hparent, n, hn, hinit⟩

end SysresOs.Proc
