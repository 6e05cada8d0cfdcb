import SysresOs.Proc.Priority

/-!
# The pids of the managers

The processes call the memory, the input and output and the file manager by constant pids, and
`init` asserts that its first forks return them. `fork` takes the first free slot. `forks_numbered`
says what follows over runs: until a slot is freed, the calls of `fork` that succeed return `2`,
`3`, `4` and so on, whichever processes make them.
-/

set_option autoImplicit false
set_option relaxedAutoImplicit false

namespace SysresOs.Proc

open SysresOs.Outcome SysresOs.Trace

/-- `MEM_MANAGER_PID`. -/
def memManagerPid : Pid := 2

/-- `IO_MANAGER_PID`. -/
def ioManagerPid : Pid := 3

/-- `FS_MANAGER_PID`. -/
def fsManagerPid : Pid := 4

/-- What a call of `fork` that succeeds returns to the parent. -/
def forkReturn (t : Transition Kernel Event) : Option (BitVec 64) :=
  if t.label.action.code = some 0 ∧
    (t.post.sys.procs t.pre.sys.currPid).reg 0 ≠ BitVec.allOnes 64 then
    some ((t.post.sys.procs t.pre.sys.currPid).reg 0)
  else none

theorem ofPid_ne_allOnes (p : Pid) : ofPid p ≠ BitVec.allOnes 64 := by
  revert p
  decide

/-- A call of `fork` returns the first free slot and makes it runnable, or it fails and leaves the
states. -/
theorem syscallFork_returns {s : SystemState} (hrun : s.states s.lastPid = .runnable)
    (mmuTablesStart : BitVec 64) : Yields (syscallFork mmuTablesStart s) fun s' ↦
      ((s'.procs s.lastPid).reg 0 = BitVec.allOnes 64 ∧ s'.states = s.states) ∨
      ∃ child, findFreeProc s = some child ∧ (s'.procs s.lastPid).reg 0 = ofPid child ∧
        s'.states = Function.update s.states child .runnable := by
  intro s' hs'
  obtain ⟨-, houtcome⟩ := syscallFork_outcome mmuTablesStart s' hs'
  have hview : (s'.procs s.lastPid).reg 0 = (s'.views s.lastPid).registers 0 := rfl
  have hstates : s'.states = fun q ↦ (s'.views q).state := rfl
  have hlive : s.states s.lastPid ≠ .free := by
    rw [hrun]
    decide
  have hcore := syscallFork_core mmuTablesStart s' hs'
  generalize s'.views = V' at hview hstates houtcome
  cases houtcome with
  | failed h =>
    cases h with
    | fork no =>
      refine .inl ⟨?_, ?_⟩
      · rw [hview, Views.set_self]
        rfl
      · rw [hstates]
        funext q
        rw [Views.set_apply]
        split_ifs with hq
        · rw [hq]
          rfl
        · rfl
  | forked child prio hchild hfree hprio hle =>
    have hne : child ≠ s.lastPid := by
      rintro rfl
      exact hlive hfree
    have hnew : s'.states = Function.update s.states child .runnable := by
      rw [hstates]
      funext q
      rw [Views.set_apply, Function.update_apply]
      split_ifs with hq
      · rfl
      · rw [Views.set_apply]
        split_ifs with hq'
        · rw [hq']
          rfl
        · rfl
    refine .inr ⟨child, ?_, ?_, hnew⟩
    · have hborn : s'.states child = .runnable := by rw [hnew, Function.update_self]
      rcases hcore with ⟨-, hsame⟩ | ⟨found, hfind, -, -, hfound⟩
      · rw [hsame] at hborn
        exact nomatch hborn.symm.trans hfree
      · by_cases heq : child = found
        · rw [heq]
          exact hfind
        · rw [hfound, Function.update_of_ne heq] at hborn
          exact nomatch hborn.symm.trans hfree
    · rw [hview, Views.set_of_ne _ _ hne.symm, Views.set_self]
      rfl

/-- In every step the caller of a `fork` that succeeds gets the first free slot, and this is the
only slot that is taken in the step; no other step takes one. -/
theorem forkReturn_of_step {k k' : Kernel} {e : Event} (hsane : Sane k.sys.views k.sys.currPid)
    (hstep : Step k e k') :
    (forkReturn ⟨k, e, k'⟩ = none ∧ ∀ q, k.sys.states q = .free → k'.sys.states q = .free) ∨
    ∃ child, findFreeProc k.sys = some child ∧ forkReturn ⟨k, e, k'⟩ = some (ofPid child) ∧
      k'.sys.states = Function.update k.sys.states child .runnable := by
  by_cases hcode : e.action.code = some 0
  · obtain ⟨frame, haction⟩ : ∃ frame, e.action = .svc 0 frame := by
      obtain ⟨action, resume⟩ := e
      cases action with
      | svc code frame => exact ⟨frame, by rw [Option.some.inj hcode]⟩
      | start => exact nomatch hcode
      | timer frame => exact nomatch hcode
      | schedule counter => exact nomatch hcode
    have hreturn : ∀ ret, (k'.sys.procs k.sys.currPid).reg 0 = ret →
        forkReturn ⟨k, e, k'⟩ = if ret ≠ BitVec.allOnes 64 then some ret else none := by
      rintro ret rfl
      simp only [forkReturn, hcode, true_and]
    rw [Step, haction, step] at hstep
    split_ifs at hstep with hcurr
    obtain ⟨t, ht, hok⟩ := bind_eq_ok.mp hstep
    obtain ⟨hlast, hstates, -⟩ := trap_leaves ht
    obtain ⟨s, hs, hok⟩ := bind_eq_ok.mp (show (do
      let s ← syscallFork t.mmuTablesStart t.sys
      Except.ok ({ t with sys := s }, none)) = Except.ok (k', e.resume) from hok)
    obtain ⟨rfl, -⟩ := Prod.mk.inj (Except.ok.inj hok)
    have hrun : t.sys.states t.sys.lastPid = .runnable := by
      rw [hstates, hlast]
      exact hsane.running hcurr
    have hfork := syscallFork_returns hrun t.mmuTablesStart s hs
    rw [hlast, hstates, findFreeProc_congr hstates] at hfork
    rcases hfork with ⟨hret, hsame⟩ | ⟨child, hfind, hret, hnew⟩
    · refine .inl ⟨?_, fun q hq ↦ ?_⟩
      · rw [hreturn _ hret, if_neg (not_not_intro rfl)]
      · exact (congrFun hsame q).trans hq
    · refine .inr ⟨child, hfind, ?_, hnew⟩
      rw [hreturn _ hret, if_pos (ofPid_ne_allOnes child)]
  · refine .inl ⟨if_neg fun h ↦ hcode h.1, fun q hq ↦ stays_free_of_step hsane hstep ?_ hq⟩
    intro frame haction
    exact hcode (by rw [haction]; rfl)

/-- The pids that the calls of `fork` have returned so far are those from `2` on, and they are the
slots in use. -/
def Numbered (history : History) (k : Kernel) (n : ℕ) : Prop :=
  n + 2 ≤ maxProc ∧ history.reverse.filterMap forkReturn = (List.range' 2 n).map (BitVec.ofNat 64) ∧
    ∀ q, k.sys.states q = .free ↔ n + 2 ≤ q.val

theorem Numbered.boot {k : Kernel} (hk : Booted k) : Numbered [] k 0 := by
  have hstate : ∀ q, k.sys.states q = (bootViews q).state := fun q ↦
    congrArg View.state (congrFun (Booted.views hk).1 q)
  have hkernel : (bootViews kernelPid).state ≠ .free := by decide
  have hinit : (bootViews initPid).state ≠ .free := by decide
  refine ⟨by decide, rfl, fun q ↦ ⟨fun hfree ↦ not_lt.mp fun hslot ↦ ?_, fun hslot ↦ ?_⟩⟩
  · rw [hstate] at hfree
    have hval : q.val = 0 ∨ q.val = 1 := by omega
    rcases hval with hval | hval
    · obtain rfl : q = kernelPid := Fin.ext hval
      exact hkernel hfree
    · obtain rfl : q = initPid := Fin.ext hval
      exact hinit hfree
  · by_contra hlive
    exact Booted.not_member hk q ⟨by omega, hlive⟩

/-- A step that frees no slot. -/
theorem Numbered.next {history : History} {k k' : Kernel} {e : Event} {n : ℕ}
    (h : Numbered history k n) (hsane : Sane k.sys.views k.sys.currPid) (hstep : Step k e k')
    (hkept : ∀ q, k.sys.states q ≠ .free → k'.sys.states q ≠ .free) :
    ∃ m, Numbered (⟨k, e, k'⟩ :: history) k' m := by
  obtain ⟨hn, hreturns, hfree⟩ := h
  have hlist : ((⟨k, e, k'⟩ : Transition Kernel Event) :: history).reverse.filterMap forkReturn =
      (List.range' 2 n).map (BitVec.ofNat 64) ++ (forkReturn ⟨k, e, k'⟩).toList := by
    rw [List.reverse_cons, List.filterMap_append, hreturns, List.filterMap_cons]
    cases forkReturn ⟨k, e, k'⟩ <;> rfl
  rcases forkReturn_of_step hsane hstep with ⟨hnone, hsame⟩ | ⟨child, hfind, hsome, hstates⟩
  · refine ⟨n, hn, ?_, fun q ↦ ?_⟩
    · rw [hlist, hnone]
      exact List.append_nil _
    · rw [← hfree]
      exact ⟨fun h ↦ not_not.mp fun hlive ↦ hkept q hlive h, hsame q⟩
  · -- The first free slot is the next number.
    have hchild : child.val = n + 2 := by
      have hle := (hfree child).mp (findFreeProc_free hfind).2
      refine le_antisymm (not_lt.mp fun hlt ↦ ?_) hle
      have hslot : n + 2 < maxProc := hlt.trans child.isLt
      have hnot := find?_finRange_first hfind (show (⟨n + 2, hslot⟩ : Pid) < child from hlt)
      refine hnot (decide_eq_true ⟨Nat.le_add_left 2 n, ?_⟩)
      exact (hfree ⟨n + 2, hslot⟩).mpr le_rfl
    refine ⟨n + 1, ?_, ?_, fun q ↦ ?_⟩
    · have := child.isLt
      omega
    · rw [hlist, hsome, List.range'_1_concat, List.map_append, ofPid, hchild, Nat.add_comm n 2]
      rfl
    · rw [hstates, Function.update_apply]
      split_ifs with hq
      · rw [hq, hchild]
        exact iff_of_false (by decide) (by omega)
      · have hval : q.val ≠ n + 2 := fun hval ↦ hq (Fin.ext (hval.trans hchild.symm))
        rw [hfree]
        omega

/-- The first three of the pids are those of the managers. -/
theorem take_pids_managers (n : ℕ) :
    ((List.range' 2 n).map (BitVec.ofNat 64)).take 3 <+:
      [memManagerPid, ioManagerPid, fsManagerPid].map ofPid := by
  have hpids : [memManagerPid, ioManagerPid, fsManagerPid].map ofPid = (List.range' 2 3).map
      (BitVec.ofNat 64) := rfl
  rw [hpids, ← List.map_take]
  refine List.IsPrefix.map _ ?_
  rcases le_total n 3 with hn | hn
  · rw [List.take_range'_of_length_le hn]
    exact ⟨List.range' (2 + n) (3 - n), by rw [List.range'_append_1, Nat.add_sub_cancel' hn]⟩
  · rw [List.take_range'_of_length_ge hn]

/-- Until a slot is freed, the calls of `fork` that succeed return the pids from `2` on, in order
and without a gap, and these are the slots in use beside those of the kernel and of `init`. The
three managers get their pids if they are forked first. -/
theorem forks_numbered {history : History} {k : Kernel} (hrun : SysRun history k)
    (hkept : ∀ t ∈ history, ∀ q, t.pre.sys.states q ≠ .free → t.post.sys.states q ≠ .free) :
    (∃ n, Numbered history k n) ∧
      (history.reverse.filterMap forkReturn).take 3 <+:
        [memManagerPid, ioManagerPid, fsManagerPid].map ofPid := by
  have hnumbered : ∃ n, Numbered history k n := by
    refine hrun.invariant (I := fun history k ↦ (∀ t ∈ history, ∀ q, t.pre.sys.states q ≠ .free →
      t.post.sys.states q ≠ .free) → ∃ n, Numbered history k n) (fun k hk _ ↦ ⟨0, .boot hk⟩)
      (fun history k e k' hrun ih hstep hkept ↦ ?_) hkept
    obtain ⟨hlast, hbefore⟩ := List.forall_mem_cons.mp hkept
    obtain ⟨n, hn⟩ := ih hbefore
    exact hn.next (SysRun.sane hrun) hstep hlast
  refine ⟨hnumbered, ?_⟩
  obtain ⟨n, -, hreturns, -⟩ := hnumbered
  rw [hreturns]
  exact take_pids_managers n

/-- `init` forks three times, and the others are interrupted when they are chosen. -/
def startManagers : List Action :=
  [.start, .svc 0 (sampleFrame [15]), .schedule 0, .timer (sampleFrame []), .schedule 0,
    .svc 0 (sampleFrame [15]), .schedule 0, .timer (sampleFrame []), .schedule 0,
    .timer (sampleFrame []), .schedule 0, .svc 0 (sampleFrame [15])]

theorem forks_numbered_startManagers : ∃ history k, SysRun history k ∧
    history.reverse.filterMap forkReturn = [2, 3, 4] ∧ ∃ n, Numbered history k n := by
  obtain ⟨history, k, hrun, hstate⟩ := exists_run sampleBoot startManagers
    (fun history _ ↦ (∀ t ∈ history, ∀ q, t.pre.sys.states q ≠ .free →
      t.post.sys.states q ≠ .free) ∧
      history.reverse.filterMap forkReturn = [2, 3, 4]) (by decide +kernel)
  obtain ⟨hkept, hreturns⟩ := of_decide_eq_true hstate
  exact ⟨history, k, hrun, hreturns, (forks_numbered hrun hkept).1⟩

end SysresOs.Proc
