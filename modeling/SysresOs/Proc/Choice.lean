import SysresOs.Proc.Core
import SysresOs.Proc.Reaping

/-!
# The choice of the next process

`schedule` runs a process of the highest priority if one is runnable, one of priority `0` if no
other is, and otherwise draws a priority from `1` to `14` at random, with a weight for each queue
that is not empty. `schedule_chooses` says that it always finds a process that way, whatever the
hardware counter is.
-/

set_option autoImplicit false
set_option relaxedAutoImplicit false

namespace SysresOs.Proc

open SysresOs.Ring SysresOs.Outcome SysresOs.Trace

/-! ### The draw -/

/-- The loop of `random_law` ends at an index with a weight. -/
theorem randomLawLoop_weight {val sum : ℕ} {law : List (BitVec 32)} (last i : ℕ) (hle : sum ≤ val)
    (hlt : val < sum + (law.map BitVec.toNat).sum) :
    ∃ (j : ℕ) (hj : j < law.length), randomLawLoop val last i sum law = i + j ∧
      0 < (law[j]).toNat := by
  induction law generalizing i sum with
  | nil =>
    rw [List.map_nil, List.sum_nil] at hlt
    omega
  | cons w law ih =>
    rw [List.map_cons, List.sum_cons] at hlt
    rw [randomLawLoop]
    split_ifs with hw
    · exact ⟨0, by simp, rfl, by rw [List.getElem_cons_zero]; omega⟩
    · obtain ⟨j, hj, hloop, hpos⟩ := ih (i + 1) (show sum + w.toNat ≤ val by omega) (by omega)
      refine ⟨j + 1, by simpa using hj, by omega, ?_⟩
      rw [List.getElem_cons_succ]
      exact hpos

/-- The sum of the first `j` weights. -/
def partialSum (law : List (BitVec 32)) (j : ℕ) : ℕ := ((law.take j).map BitVec.toNat).sum

theorem partialSum_succ {law : List (BitVec 32)} {j : ℕ} (hj : j < law.length) :
    partialSum law (j + 1) = partialSum law j + (law[j]).toNat := by
  rw [partialSum, partialSum, List.take_succ_eq_append_getElem hj, List.map_append, List.sum_append,
    List.map_singleton, List.sum_singleton]

theorem partialSum_le (law : List (BitVec 32)) (j : ℕ) :
    partialSum law j ≤ (law.map BitVec.toNat).sum := by
  calc partialSum law j ≤ partialSum law j + ((law.drop j).map BitVec.toNat).sum :=
        Nat.le_add_right _ _
    _ = ((law.take j ++ law.drop j).map BitVec.toNat).sum := by
      rw [List.map_append, List.sum_append, partialSum]
    _ = (law.map BitVec.toNat).sum := by rw [List.take_append_drop]

/-- The loop of `random_law` ends at the index in whose part of the range from `sum` on the value
is. -/
theorem randomLawLoop_eq_iff {val sum j : ℕ} {law : List (BitVec 32)} (last i : ℕ) (hle : sum ≤ val)
    (hj : j < law.length) (hlt : val < sum + (law.map BitVec.toNat).sum) :
    randomLawLoop val last i sum law = i + j ↔
      sum + partialSum law j ≤ val ∧ val < sum + partialSum law (j + 1) := by
  induction law generalizing i sum j with
  | nil => exact absurd hj (Nat.not_lt_zero j)
  | cons w law ih =>
    have hfirst : ∀ k, partialSum (w :: law) (k + 1) = w.toNat + partialSum law k := fun k ↦ rfl
    have hzero : ∀ law : List (BitVec 32), partialSum law 0 = 0 := fun _ ↦ rfl
    rw [List.map_cons, List.sum_cons] at hlt
    rw [randomLawLoop]
    split_ifs with hw
    · cases j with
      | zero =>
        rw [hfirst, hzero, hzero]
        omega
      | succ j =>
        rw [hfirst]
        omega
    · cases j with
      | zero =>
        obtain ⟨k, -, hloop, -⟩ := randomLawLoop_weight last (i + 1) (Nat.not_lt.mp hw)
          (show val < sum + w.toNat + (law.map BitVec.toNat).sum by omega)
        rw [hloop, hfirst, hzero, hzero]
        omega
      | succ j =>
        have hnext := ih (i + 1) (Nat.not_lt.mp hw) (Nat.lt_of_succ_lt_succ hj) (by omega)
        rw [hfirst, hfirst, show i + (j + 1) = i + 1 + j by omega, hnext]
        omega

/-- The index that `random_law` returns for a value. -/
def chosen (law : List (BitVec 32)) (val : ℕ) : ℕ := randomLawLoop val (law.length - 1) 0 0 law

theorem chosen_eq_iff {law : List (BitVec 32)} {val j : ℕ} (hval : val < (law.map BitVec.toNat).sum)
    (hj : j < law.length) :
    chosen law val = j ↔ partialSum law j ≤ val ∧ val < partialSum law (j + 1) := by
  have hloop := randomLawLoop_eq_iff (law.length - 1) 0 (Nat.zero_le val) hj (by rwa [Nat.zero_add])
  rwa [Nat.zero_add, Nat.zero_add, Nat.zero_add] at hloop

/-- The loop ends before the return statement behind it. -/
theorem randomLawLoop_last {law : List (BitVec 32)} {val : ℕ}
    (hval : val < (law.map BitVec.toNat).sum) (last : ℕ) :
    randomLawLoop val last 0 0 law = chosen law val := by
  have hrange : val < 0 + (law.map BitVec.toNat).sum := by rwa [Nat.zero_add]
  obtain ⟨j, hj, hloop, -⟩ := randomLawLoop_weight last 0 (Nat.zero_le val) hrange
  have hpart := (randomLawLoop_eq_iff last 0 (Nat.zero_le val) hj hrange).mp hloop
  have hsame := (randomLawLoop_eq_iff (law.length - 1) 0 (Nat.zero_le val) hj hrange).mpr hpart
  rw [hloop, ← hsame, chosen]

/-- `random_law` returns the index that it chooses for the counter modulo the sum of the weights.
This index has a weight, the return statement behind the loop plays no part, and each index is
chosen for as many residues as its weight says. -/
theorem randomLaw_distribution {law : List (BitVec 32)} (hsum : 0 < (law.map BitVec.toNat).sum) :
    (∀ counter, randomLaw law counter =
      .ok (chosen law (counter.toNat % (law.map BitVec.toNat).sum))) ∧
      (∀ r < (law.map BitVec.toNat).sum,
        (∃ h : chosen law r < law.length, 0 < (law[chosen law r]).toNat) ∧
        ∀ last, randomLawLoop r last 0 0 law = chosen law r) ∧
      ∀ (i : ℕ) (hi : i < law.length),
        ((Finset.range (law.map BitVec.toNat).sum).filter fun r ↦ chosen law r = i).card =
        (law[i]).toNat := by
  refine ⟨fun counter ↦ bind_eq_ok.mpr ⟨_, if_neg hsum.ne', rfl⟩,
    fun r hr ↦ ⟨?_, randomLawLoop_last hr⟩, fun i hi ↦ ?_⟩
  · obtain ⟨j, hj, hloop, hpos⟩ :=
      randomLawLoop_weight (law.length - 1) 0 (Nat.zero_le r) (by rwa [Nat.zero_add])
    rw [Nat.zero_add] at hloop
    obtain rfl : chosen law r = j := hloop
    exact ⟨hj, hpos⟩
  · have hpart : (Finset.range (law.map BitVec.toNat).sum).filter (fun r ↦ chosen law r = i) =
        Finset.Ico (partialSum law i) (partialSum law (i + 1)) := by
      ext r
      rw [Finset.mem_filter, Finset.mem_range, Finset.mem_Ico]
      have hle := partialSum_le law (i + 1)
      constructor
      · exact fun h ↦ (chosen_eq_iff h.1 hi).mp h.2
      · exact fun h ↦ ⟨by omega, (chosen_eq_iff (by omega) hi).mpr h⟩
    rw [hpart, Nat.card_Ico, partialSum_succ hi, Nat.add_sub_cancel_left]

/-- The weights `0`, `2`, `0` and `1`. -/
theorem randomLaw_distribution_law :
    (∀ counter, randomLaw [0, 2, 0, 1] counter = .ok (chosen [0, 2, 0, 1] (counter.toNat % 3))) ∧
      (∀ r < 3, (∃ h : chosen [0, 2, 0, 1] r < 4,
        0 < ([0, 2, 0, 1] : List (BitVec 32))[chosen [0, 2, 0, 1] r].toNat) ∧
        ∀ last, randomLawLoop r last 0 0 [0, 2, 0, 1] = chosen [0, 2, 0, 1] r) ∧
      ∀ (i : ℕ) (hi : i < 4), ((Finset.range 3).filter fun r ↦ chosen [0, 2, 0, 1] r = i).card =
        (([0, 2, 0, 1] : List (BitVec 32))[i]).toNat :=
  randomLaw_distribution (show 0 <
    (([0, 2, 0, 1] : List (BitVec 32)).map BitVec.toNat).sum by decide)

/-- `random_law` returns an index with a weight, if there is one. -/
theorem randomLaw_weight {law : List (BitVec 32)} (counter : BitVec 64)
    (hlaw : ∃ w ∈ law, 0 < w.toNat) :
    ∃ (j : ℕ) (hj : j < law.length), randomLaw law counter = .ok j ∧ 0 < (law[j]).toNat := by
  obtain ⟨w, hw, hpos⟩ := hlaw
  have hsum : 0 < (law.map BitVec.toNat).sum := by
    refine lt_of_lt_of_le hpos (List.single_le_sum (fun _ _ ↦ Nat.zero_le _) _ ?_)
    exact List.mem_map_of_mem hw
  obtain ⟨j, hj, hloop, hweight⟩ := randomLawLoop_weight (law.length - 1) 0
    (Nat.zero_le (counter.toNat % _))
    (lt_of_lt_of_eq (Nat.mod_lt counter.toNat hsum) (Nat.zero_add _).symm)
  refine ⟨j, hj, bind_eq_ok.mpr ⟨_, if_neg hsum.ne', ?_⟩, hweight⟩
  rw [hloop, Nat.zero_add]

/-- A counter is positive exactly if its queue is not empty. -/
theorem Represents.count_pos {s : SystemState} {queues : Prio → List Pid} (h : Represents s queues)
    (prio : Prio) : 0 < s.prioProcN prio ↔ queues prio ≠ [] := by
  rw [BitVec.lt_def, h.count_toNat]
  exact List.length_pos_iff

/-- The number of runnable processes is that of the runnable processes of one priority exactly if no
other queue has any. -/
theorem Represents.total_eq_count {s : SystemState} {queues : Prio → List Pid}
    (h : Represents s queues) (prio : Prio) :
    s.nRunnableProcs = s.prioProcN prio ↔ ∀ p, p ≠ prio → queues p = [] := by
  have htotal : s.nRunnableProcs = s.prioProcN prio ↔
      ∑ p, (queues p).length = (queues prio).length := by
    rw [← BitVec.toNat_inj, h.total_toNat, h.count_toNat]
  have hsplit := Finset.add_sum_erase Finset.univ (fun p ↦ (queues p).length) (Finset.mem_univ prio)
  have hrest : ∑ p, (queues p).length = (queues prio).length ↔
      ∑ p ∈ Finset.univ.erase prio, (queues p).length = 0 := by
    omega
  rw [htotal, hrest, Finset.sum_eq_zero_iff]
  simp only [Finset.mem_erase, Finset.mem_univ, and_true, List.length_eq_zero_iff]

/-- The weights of `schedule`: those of the priorities from `1` on with a queue. -/
theorem proba_weight {s : SystemState} {queues : Prio → List Pid} (h : Represents s queues) {j : ℕ}
    (hj : j < (proba s).length) (hj' : j < maxPrio + 1) :
    0 < ((proba s)[j]).toNat ↔ j ≠ 0 ∧ queues ⟨j, hj'⟩ ≠ [] := by
  have hget : (proba s)[j] = if j = 0 then 0 else if 0 < s.prioProcN ⟨j, hj'⟩ then
      BitVec.ofNat 32 (j * j) + s.prioProcN ⟨j, hj'⟩ else 0 := by
    simp [proba]
  have hlt : j < maxPrio := by rwa [length_proba] at hj
  have hcount := h.count_toNat ⟨j, hj'⟩
  have hlength := h.length_le ⟨j, hj'⟩
  rw [hget]
  by_cases hzero : j = 0
  · rw [if_pos hzero]
    exact iff_of_false (by decide) fun hand ↦ hand.1 hzero
  · rw [if_neg hzero]
    have hpos := h.count_pos ⟨j, hj'⟩
    by_cases hqueue : queues ⟨j, hj'⟩ = []
    · rw [if_neg fun hn ↦ hpos.mp hn hqueue]
      exact iff_of_false (by decide) fun hand ↦ hand.2 hqueue
    · rw [if_pos (hpos.mpr hqueue), BitVec.toNat_add, BitVec.toNat_ofNat, hcount]
      refine iff_of_true ?_ ⟨hzero, hqueue⟩
      have hlist : 0 < (queues ⟨j, hj'⟩).length := List.length_pos_iff.mpr hqueue
      have hsquare : j * j ≤ 15 * 15 := Nat.mul_le_mul hlt.le hlt.le
      have hmax : maxProc = 32 := rfl
      rw [Nat.mod_eq_of_lt (by omega : j * j < 2 ^ 32), Nat.mod_eq_of_lt (by omega)]
      omega

/-! ### What a runnable process has -/

/-- In every reachable state every process in use has been set up. -/
theorem SysRun.initialized {history : History} {k : Kernel} (hrun : SysRun history k) {q : Pid}
    (hq : q ≠ 0) (hstate : k.sys.states q ≠ .free) : (k.sys.procs q).initialized = true := by
  refine hrun.invariant (I := fun _ k ↦ k.sys.states q ≠ .free →
    (k.sys.procs q).initialized = true) (fun k hk hstate ↦ ?_)
    (fun history k e k' hrun ih hstep hstate ↦ ?_) hstate
  · obtain ⟨boot, hboot⟩ := hk
    obtain rfl := slot_of_boot ⟨boot, hboot⟩ hq hstate
    obtain ⟨s, -, hsys⟩ := initProc_eq_ok hboot
    rw [hsys, SystemState.modify_procs, if_pos rfl]
  · have hsane := SysRun.sane hrun
    cases coreChange_of_step hsane hstep hq with
    | kept hresume htrap hfree hcore =>
      exact (congrArg Core.initialized hcore).trans (ih fun h ↦ hstate (hfree h))
    | trapped haction hresume hcurr hcore =>
      refine (congrArg Core.initialized hcore).trans (ih ?_)
      have hrunning : k.sys.states k.sys.currPid = .runnable := hsane.running (hcurr ▸ hq)
      rw [hcurr, hrunning]
      decide
    | born haction hresume hfree hnew hle hcore => exact congrArg Core.initialized hcore
    | resumed haction hresume halloc hcore => exact congrArg Core.initialized hcore
    | again haction hresume hcurr halloc hcore => exact congrArg Core.initialized hcore

/-! ### The selection ends -/

/-- The loop of `print_prio_lists` over a list of runnable processes of its priority. -/
theorem printPrioList_ends {s : SystemState} {prio : Prio} {head proc : Pid} {l : List Pid}
    {bound : ℕ} (hchain : List.IsChain (Link (nextPrio s) (prevPrio s)) (proc :: (l ++ [head])))
    (hmem : ∀ q ∈ proc :: l, (s.procs q).state = .runnable ∧ (s.procs q).priority = (prio.val : ℤ))
    (hbound : l.length < bound) : Ends (printPrioList s prio head bound proc) := by
  induction l generalizing proc bound with
  | nil =>
    obtain ⟨n, rfl⟩ : ∃ n, bound = n + 1 := ⟨bound - 1, by simp at hbound; omega⟩
    obtain ⟨hstate, hprio⟩ := hmem proc List.mem_cons_self
    have hnext : (s.procs proc).nextSamePrio = some head := (List.isChain_cons_cons.mp hchain).1.1
    refine Ends.bind (assert_ends (decide_eq_true hprio)) fun _ _ ↦
      Ends.bind (assert_ends (decide_eq_true hstate)) fun _ _ ↦
      Ends.bind ⟨head, deref_eq_ok.mpr hnext⟩ fun next hn ↦ ?_
    obtain rfl := Option.some.inj (hnext.symm.trans (deref_eq_ok.mp hn))
    exact ⟨(), if_pos rfl⟩
  | cons b m ih =>
    obtain ⟨n, rfl⟩ : ∃ n, bound = n + 1 := ⟨bound - 1, by simp at hbound; omega⟩
    obtain ⟨hstate, hprio⟩ := hmem proc List.mem_cons_self
    obtain ⟨hlink, hrest⟩ := List.isChain_cons_cons.mp hchain
    have hnext : (s.procs proc).nextSamePrio = some b := hlink.1
    refine Ends.bind (assert_ends (decide_eq_true hprio)) fun _ _ ↦
      Ends.bind (assert_ends (decide_eq_true hstate)) fun _ _ ↦
      Ends.bind ⟨b, deref_eq_ok.mpr hnext⟩ fun next hb ↦ ?_
    obtain rfl := Option.some.inj (hnext.symm.trans (deref_eq_ok.mp hb))
    exact Ends.ite (fun _ ↦ .ok) fun _ ↦
      ih hrest (fun q hq ↦ hmem q (List.mem_cons_of_mem proc hq)) (by simpa using hbound)

theorem Represents.printPrioLists_ends {s : SystemState} {queues : Prio → List Pid}
    (h : Represents s queues) : Ends (printPrioLists s) := by
  refine Ends.forM fun prio _ ↦ ?_
  have hhead := h.head prio
  have hring := h.ring prio
  have hmem := h.mem prio
  have hlength := h.length_le prio
  rw [hhead]
  cases hqueue : queues prio with
  | nil => exact .ok
  | cons head l =>
    rw [hqueue] at hring hmem hlength
    exact printPrioList_ends hring.closed (fun q hq ↦ (hmem q).mp hq) hlength

theorem switchToProc_ends {k : Kernel} {proc : Pid} (hcurr : k.sys.currPid = proc)
    (hwritten : Ends (k.sys.procs proc).buffer.written) : Ends (switchToProc k proc) := by
  subst hcurr
  refine Ends.bind ?_ fun _ _ ↦ .ok
  have hself := SystemState.modify_procs k.sys k.sys.currPid k.sys.currPid
    fun d ↦ { d with initialized := true }
  rw [if_pos rfl] at hself
  exact (congrArg ProcDescriptor.buffer hself).symm ▸ hwritten

/-- `run_process` ends for a process that is ready to run. -/
theorem runProcess_ends {k : Kernel} {proc : Pid} (hcurr : k.sys.currPid = 0) (hproc : proc ≠ 0)
    (hpid : (k.sys.procs proc).pid = proc) (hstate : (k.sys.procs proc).state = .runnable)
    (htime : (k.sys.procs proc).schedConf.timeLeft ≠ 0)
    (hinit : (k.sys.procs proc).initialized = true)
    (hwritten : Ends (k.sys.procs proc).buffer.written) : Ends (runProcess k proc) := by
  refine Ends.bind (assert_ends (decide_eq_true ?_)) fun _ _ ↦
    Ends.bind (assert_ends (decide_eq_true hstate)) fun _ _ ↦
    Ends.bind (assert_ends ?_) fun _ _ ↦ Ends.bind (assert_ends (decide_eq_true hcurr)) fun _ _ ↦
    Ends.bind (assert_ends hinit) fun _ _ ↦ ?_
  · rw [hpid]
    exact Fin.pos_iff_ne_zero.mpr hproc
  · have hpos : 0 < (k.sys.procs proc).schedConf.timeLeft := by
      rw [BitVec.lt_def]
      exact Nat.pos_of_ne_zero fun hzero ↦ htime (BitVec.eq_of_toNat_eq hzero)
    rw [decide_eq_true hpos, Bool.or_true]
  · refine switchToProc_ends hpid ?_
    rwa [saveAllocConf, SystemState.modify_procs, if_neg hproc]

/-- `run_priority` ends for a queue that is not empty, and runs its head. -/
theorem SysRun.runPriority_ends {history : History} {k : Kernel} (hrun : SysRun history k)
    {queues : Prio → List Pid} (h : Represents k.sys queues) (hcurr : k.sys.currPid = 0)
    {prio : Prio} (hqueue : queues prio ≠ []) :
    ∃ k' r, runPriority k prio = .ok (k', r) ∧ r.pid ∈ queues prio := by
  obtain ⟨proc, l, hl⟩ := List.exists_cons_of_ne_nil hqueue
  have hmem : proc ∈ queues prio := by
    rw [hl]
    exact List.mem_cons_self
  have hhead : k.sys.prioProc prio = some proc := by
    rw [h.head, hl, List.head?_cons]
  obtain ⟨hstate, -⟩ := (h.mem prio proc).mp hmem
  have hused : k.sys.states proc ≠ .free := fun hfree ↦ nomatch hfree.symm.trans hstate
  have hproc : proc ≠ 0 := by
    intro hzero
    exact nomatch (((SysRun.settled hrun).proper proc).kernel hzero).symm.trans hstate
  have hpid : (k.sys.procs proc).pid = proc := (SysRun.sane hrun).pid proc hused
  have hwritten : Ends (k.sys.procs proc).buffer.written := by
    refine (written_avoids (E := fun _ ↦ True) fun _ ↦ ?_).ends
    exact (SysRun.owned hrun proc).bounded (.inl hstate)
  have hsame : ∀ {β : Type} {part : ProcDescriptor → β}, (∀ d c, part { d with
      schedConf := c } = part d) →
      part ((rotated k.sys prio proc).procs proc) = part (k.sys.procs proc) := fun hpart ↦
    Has.rotated (fun _ ↦ rfl) hpart prio proc proc
  have hbuffer : (k.sys.procs proc).buffer = ((rotated k.sys prio proc).procs proc).buffer :=
    (hsame fun _ _ ↦ rfl).symm
  have htime : ((rotated k.sys prio proc).procs proc).schedConf.timeLeft ≠ 0 := by
    unfold rotated
    dsimp only
    split_ifs with hzero
    · rw [SystemState.modify_procs, if_pos rfl]
      exact (by decide : quantum ≠ 0)
    · exact hzero
  have hcurr' : (rotated k.sys prio proc).currPid = 0 := by
    unfold rotated
    dsimp only
    split_ifs <;> exact hcurr
  obtain ⟨r, hr⟩ := runProcess_ends (k := { k with sys := rotated k.sys prio proc }) hcurr' hproc
    ((hsame fun _ _ ↦ rfl).trans hpid) ((hsame fun _ _ ↦ rfl).trans hstate) htime
    ((hsame fun _ _ ↦ rfl).trans (SysRun.initialized hrun hproc hused))
    (hbuffer ▸ hwritten)
  refine ⟨r.1, r.2, ?_, ?_⟩
  · rw [runPriority_eq, hhead]
    exact hr
  · rw [(runProcess_eq_ok hr).2.2.2.2.1, show ((rotated k.sys prio proc).procs proc).pid = _ from
      hsame fun _ _ ↦ rfl, hpid]
    exact hmem

/-- `schedule` runs a queue that is not empty: that of the highest priority if there is one, and
that of priority `0` only if there is no other. -/
theorem Represents.schedule_eq {k : Kernel} {queues : Prio → List Pid} (h : Represents k.sys queues)
    (hready : ∃ prio, queues prio ≠ []) (counter : BitVec 64) :
    ∃ prio, Proc.schedule k counter = Proc.runPriority k prio ∧ queues prio ≠ [] ∧
      (queues (Fin.last maxPrio) ≠ [] → prio = Fin.last maxPrio) ∧
      (prio = 0 → ∀ p, p ≠ 0 → queues p = []) := by
  obtain ⟨own, hown⟩ := hready
  obtain ⟨_, hprint⟩ := h.printPrioLists_ends
  have hsome : k.sys.nRunnableProcs ≠ 0 := by
    intro hzero
    have hpos : 0 < k.sys.nRunnableProcs.toNat := by
      rw [h.total_toNat]
      exact Finset.sum_pos' (fun _ _ ↦ Nat.zero_le _)
        ⟨own, Finset.mem_univ own, List.length_pos_iff.mpr hown⟩
    rw [hzero] at hpos
    exact absurd hpos (by decide)
  unfold Proc.schedule
  rw [hprint, ok_bind, if_neg hsome, if_congr (h.count_pos _) rfl rfl,
    if_congr (h.total_eq_count 0) rfl rfl]
  by_cases hhigh : queues (Fin.last maxPrio) = []
  · rw [if_neg fun hne ↦ hne hhigh]
    by_cases hlow : ∀ p, p ≠ 0 → queues p = []
    · refine ⟨0, if_pos hlow, ?_, fun hne ↦ absurd hhigh hne, fun _ ↦ hlow⟩
      by_cases hzero : own = 0
      · rwa [hzero] at hown
      · exact absurd (hlow own hzero) hown
    · rw [if_neg hlow]
      push Not at hlow
      obtain ⟨p, hp, hqueue⟩ := hlow
      have hlast : p.val < maxPrio := by
        have hle : p.val ≤ maxPrio := Nat.le_of_lt_succ p.isLt
        refine lt_of_le_of_ne hle fun heq ↦ hqueue ?_
        rwa [show p = Fin.last maxPrio from Fin.ext heq]
      have hindex : p.val < (proba k.sys).length := by rwa [length_proba]
      have hweight : 0 < ((proba k.sys)[p.val]).toNat :=
        (proba_weight h hindex p.isLt).mpr ⟨fun heq ↦ hp (Fin.ext heq), hqueue⟩
      obtain ⟨j, hj, hdraw, hpos⟩ := randomLaw_weight counter
        ⟨_, List.getElem_mem hindex, hweight⟩
      have hj' : j < maxPrio := by rwa [length_proba] at hj
      obtain ⟨hne, hqueue'⟩ := (proba_weight h hj (hj'.trans (Nat.lt_succ_self _))).mp hpos
      refine ⟨⟨j, hj'.trans (Nat.lt_succ_self _)⟩, ?_, hqueue', fun hne ↦ absurd hhigh hne,
        fun hzero ↦ absurd (congrArg Fin.val hzero) hne⟩
      rw [hdraw, ok_bind]
      rw [show prioIndex (j : ℤ) = .ok ⟨j, _⟩ from prioIndex_ok ⟨j, hj'.trans (Nat.lt_succ_self _)⟩,
        ok_bind]
  · rw [if_pos hhigh]
    refine ⟨_, rfl, hhigh, fun _ ↦ rfl, fun hzero ↦ ?_⟩
    exact absurd hzero (by decide)

/-- In every reachable state in which the kernel runs and some process is runnable, for every value
of the hardware counter, `schedule` runs a process that is runnable and set up. It has the highest
priority if some runnable process has it, and priority `0` only if every runnable process has. No
assertion fails on the way, no empty queue is used and `random` is not called with the bound `0`. -/
theorem schedule_chooses {history : History} {k : Kernel} (hrun : SysRun history k)
    (hcurr : k.sys.currPid = 0) (hready : ∃ q, k.sys.states q = .runnable) (counter : BitVec 64) :
    ∃ k' r, schedule k counter = .ok (k', r) ∧ k.sys.states r.pid = .runnable ∧
      (k.sys.procs r.pid).initialized = true ∧
      ((∃ q, k.sys.states q = .runnable ∧ (k.sys.procs q).priority = maxPrio) →
        (k.sys.procs r.pid).priority = maxPrio) ∧
      ((k.sys.procs r.pid).priority = 0 →
        ∀ q, k.sys.states q = .runnable → (k.sys.procs q).priority = 0) := by
  obtain ⟨queues, h⟩ := Reachable.queueInv ⟨history, hrun⟩
  have hqueued : ∀ q, k.sys.states q = .runnable → ∃ prio : Prio, q ∈ queues prio := by
    intro q hq
    obtain ⟨prio, hprio⟩ := h.inRange q hq
    exact ⟨prio, (h.mem prio q).mpr ⟨hq, hprio⟩⟩
  obtain ⟨prio, hschedule, hqueue, hhigh, hlow⟩ := h.schedule_eq
    (hready.elim fun q hq ↦ (hqueued q hq).imp fun _ hmem ↦ List.ne_nil_of_mem hmem) counter
  obtain ⟨k', r, hr, hmem⟩ := SysRun.runPriority_ends hrun h hcurr hqueue
  obtain ⟨hstate, hpriority⟩ := (h.mem prio r.pid).mp hmem
  have hused : k.sys.states r.pid ≠ .free := fun hfree ↦ nomatch hfree.symm.trans hstate
  have hzero : r.pid ≠ 0 := fun hzero ↦
    nomatch (((SysRun.settled hrun).proper r.pid).kernel hzero).symm.trans hstate
  refine ⟨k', r, hschedule.trans hr, hstate, SysRun.initialized hrun hzero hused, ?_, ?_⟩
  · rintro ⟨q, hq, hmax⟩
    rw [hpriority, hhigh (List.ne_nil_of_mem ((h.mem (Fin.last maxPrio) q).mpr ⟨hq, hmax⟩))]
    rfl
  · intro hnone q hq
    rw [hpriority] at hnone
    have hprio : prio = 0 := by exact_mod_cast hnone
    obtain ⟨p, hp⟩ := hqueued q hq
    have hpzero : p = 0 := by
      by_contra hne
      rw [hlow hprio p hne] at hp
      exact nomatch hp
    rw [((h.mem p q).mp hp).2, hpzero]
    rfl

/-- After `init` has made a child of priority `3`, the scheduler runs `init`. -/
theorem schedule_chooses_init : ∃ history k, SysRun history k ∧ k.sys.states 2 = .runnable ∧
    ∃ k' r, schedule k 77 = .ok (k', r) ∧ (k.sys.procs r.pid).priority = maxPrio := by
  obtain ⟨history, k, hrun, hstate⟩ := exists_run sampleBoot [.start, .svc 0 (sampleFrame [3])]
    (fun _ k ↦ k.sys.currPid = 0 ∧ k.sys.states 2 = .runnable ∧ k.sys.states 1 = .runnable ∧
      (k.sys.procs 1).priority = maxPrio) (by decide +kernel)
  obtain ⟨hcurr, hchild, hinit, hprio⟩ := of_decide_eq_true hstate
  obtain ⟨k', r, hr, -, -, hhigh, -⟩ := schedule_chooses hrun hcurr ⟨2, hchild⟩ 77
  exact ⟨history, k, hrun, hchild, k', r, hr, hhigh ⟨1, hinit, hprio⟩⟩

end SysresOs.Proc
