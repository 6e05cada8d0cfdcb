import SysresOs.Proc.Core
import SysresOs.Proc.Reaping

/-!
# Priorities

`fork` takes the priority of the child from a register of the parent and checks that it is at most
the priority of the parent. It does not check that it is not negative, and `change_state` uses it as
an index of the run queues. `priorities_bounded_iff` says that this is the only way to leave the
range of the priorities.
-/

set_option autoImplicit false
set_option relaxedAutoImplicit false

namespace SysresOs.Proc

open SysresOs.Ring SysresOs.Outcome SysresOs.Trace

/-! ### Reachable priorities -/

/-- In every reachable state the priorities of all slots are indices of the run queues. -/
theorem SysRun.indexed {history : History} {k : Kernel} (hrun : SysRun history k) (q : Pid) :
    ∃ prio : Prio, (k.sys.procs q).priority = prio.val := by
  refine hrun.invariant (I := fun _ k ↦ ∃ prio : Prio, (k.sys.procs q).priority = (prio.val : ℤ))
    (fun k hk ↦ ?_) fun history k e k' hrun ih hstep ↦ ?_
  · change ∃ prio : Prio, (k.sys.views q).priority = prio.val
    rw [(Booted.views hk).1, bootViews]
    split_ifs
    · exact ⟨15, rfl⟩
    · exact ⟨0, rfl⟩
    · exact ⟨0, rfl⟩
  · have hrun' : SysRun (⟨k, e, k'⟩ :: history) k' := .next hrun hstep
    have hproper := (SysRun.settled hrun').proper q
    by_cases hq : q = 0
    · exact hproper.priority (by rw [hproper.kernel hq]; decide)
    · have hsame : k'.sys.cores q = k.sys.cores q ∨ (k'.sys.cores q).priority =
          (k.sys.cores q).priority ∨ k'.sys.states q = .runnable := by
        cases coreChange_of_step (SysRun.sane hrun) hstep hq with
        | kept hresume htrap hfree hcore => exact .inl hcore
        | trapped haction hresume hcurr hcore => exact .inr (.inl (by rw [hcore]))
        | born haction hresume hfree hnew hle hcore => exact .inr (.inr hnew)
        | resumed haction hresume halloc hcore => exact .inr (.inl (by rw [hcore]))
        | again haction hresume hcurr halloc hcore => exact .inr (.inl (by rw [hcore]))
      rcases hsame with hcore | hpriority | hnew
      · rw [show (k'.sys.procs q).priority = _ from congrArg Core.priority hcore]
        exact ih
      · rw [show (k'.sys.procs q).priority = _ from hpriority]
        exact ih
      · refine hproper.priority ?_
        change k'.sys.states q ≠ .free
        rw [hnew]
        decide

/-- The process in slot `q` was made by a `fork` of a process whose priority was at least
`priority`, and is in its slot since. -/
def MadeBelow (history : History) (q : Pid) (priority : ℤ) : Prop :=
  ∃ later t past, history = later ++ t :: past ∧ t.label.action.code = some 0 ∧ Born t q ∧
    (∀ u ∈ later, u.post.sys.states q ≠ .free) ∧
    priority ≤ (t.pre.sys.procs t.pre.sys.currPid).priority

theorem MadeBelow.next {history : History} {q : Pid} {priority : ℤ}
    (h : MadeBelow history q priority) {t : Transition Kernel Event}
    (ht : t.post.sys.states q ≠ .free) : MadeBelow (t :: history) q priority := by
  obtain ⟨later, u, past, rfl, hcode, hborn, hlater, hle⟩ := h
  exact ⟨t :: later, u, past, rfl, hcode, hborn, List.forall_mem_cons.mpr ⟨ht, hlater⟩, hle⟩

/-- Every process that was made by a `fork` has at most the priority that its parent had then. -/
theorem SysRun.madeBelow {history : History} {k : Kernel} (hrun : SysRun history k) {q : Pid}
    (hq : Member k.sys.states q) : MadeBelow history q (k.sys.procs q).priority := by
  refine hrun.invariant (I := fun history k ↦ Member k.sys.states q →
    MadeBelow history q (k.sys.procs q).priority) (fun k hk hmember ↦ ?_)
    (fun history k e k' hrun ih hstep hmember ↦ ?_) hq
  · exact absurd hmember (Booted.not_member hk q)
  · have hsane := SysRun.sane hrun
    have hne : q ≠ 0 := by
      rintro rfl
      exact absurd hmember.1 (by decide)
    have hstays : (∀ frame, e.action ≠ .svc 0 frame) → Member k.sys.states q := fun hother ↦
      ⟨hmember.1, fun hfree ↦ hmember.2 (stays_free_of_step hsane hstep hother hfree)⟩
    have hrunning : q = k.sys.currPid → Member k.sys.states q := by
      rintro rfl
      have hrunnable : k.sys.states k.sys.currPid = .runnable := hsane.running hne
      exact ⟨hmember.1, by rw [hrunnable]; decide⟩
    have hkeep : Member k.sys.states q →
        (k'.sys.procs q).priority = (k.sys.procs q).priority →
        MadeBelow (⟨k, e, k'⟩ :: history) q (k'.sys.procs q).priority := by
      intro hmember' hpriority
      rw [hpriority]
      exact (ih hmember').next hmember.2
    cases coreChange_of_step hsane hstep hne with
    | kept hresume htrap hfree hcore =>
      exact hkeep ⟨hmember.1, fun h ↦ hmember.2 (hfree h)⟩ (congrArg Core.priority hcore)
    | trapped haction hresume hcurr hcore =>
      exact hkeep (hrunning hcurr) (congrArg Core.priority hcore)
    | born haction hresume hfree hnew hle hcore =>
      refine ⟨[], _, history, rfl, ?_, ⟨hfree, hmember.2⟩, nofun, ?_⟩
      · rw [haction]
        rfl
      · rw [show (k'.sys.procs q).priority = _ from congrArg Core.priority hcore]
        exact hle
    | resumed haction hresume halloc hcore =>
      refine hkeep (hstays fun frame hsvc ↦ ?_) (congrArg Core.priority hcore)
      rw [hsvc] at haction
      exact nomatch haction
    | again haction hresume hcurr halloc hcore =>
      exact hkeep (hrunning hcurr) (congrArg Core.priority hcore)

/-! ### Indices -/

/-- The running process asks `fork` for a child with a negative priority, and there is a free
slot. -/
def NegativeFork (k : Kernel) (a : Action) : Prop :=
  ∃ frame, a = .svc 0 frame ∧ k.sys.currPid ≠ 0 ∧ (findFreeProc k.sys).isSome ∧
    toInt (frame.registers 0) < 0

theorem findFreeProc_congr {s t : SystemState} (h : t.states = s.states) :
    findFreeProc t = findFreeProc s := by
  unfold findFreeProc
  refine congrArg (List.find? · _) (funext fun i ↦ ?_)
  rw [show (t.procs i).state = (s.procs i).state from congrFun h i]

/-- What a trap leaves: the states, the kinship and the priorities are as they were, and the
arguments of the call are in the saved registers. -/
theorem trap_leaves {k t : Kernel} {frame : Frame} {code : BitVec 16}
    (ht : saveContext k frame (some code) = .ok t) : t.sys.lastPid = k.sys.currPid ∧
      t.sys.states = k.sys.states ∧ t.sys.kin = k.sys.kin ∧
      Has ProcDescriptor.priority k.sys.priorities t.sys ∧
      (t.sys.procs k.sys.currPid).reg 0 = frame.registers 0 := by
  obtain ⟨hview, hlast, -⟩ := saveContext_views k frame (some code) t ht
  refine ⟨hlast, saveContext_states t ht, saveContext_kin t ht,
    priority_idle.saveContext (fun _ ↦ rfl) frame _ t ht, ?_⟩
  change (t.sys.views k.sys.currPid).registers 0 = _
  rw [hview, Views.set_self]
  rfl

theorem handleChannelAck_avoids {E : Stop → Prop} (hE : ∀ e, E e → e = .outOfBounds)
    {s : SystemState} (h : Indexed E s) (receiver sender : Pid) :
    Avoids (handleChannelAck s receiver sender) E := by
  have hwatched : ∀ e, E e → Watched e := fun e he ↦ hE e he ▸ .outOfBounds
  refine Avoids.ite (fun _ ↦ .ok) fun _ ↦ Avoids.bind (assert_avoids fun he ↦ nomatch hE _ he)
    fun _ _ ↦ Avoids.bind (assert_avoids fun he ↦ nomatch hE _ he) fun _ _ ↦
    Avoids.bind (storeBytes_avoids _ fun he ↦ nomatch hE _ he) fun _ _ ↦
    changeState_avoids hwatched ?_
  refine Indexed.modify ?_ sender fun _ ↦ rfl
  refine Indexed.modify ?_ receiver fun _ ↦ rfl
  refine Indexed.modify ?_ sender fun _ ↦ rfl
  refine Indexed.modify ?_ sender fun _ ↦ rfl
  refine Indexed.modify ?_ sender fun _ ↦ rfl
  exact h.modify receiver fun _ ↦ rfl

/-- No other step indexes the run queues outside their bounds. -/
theorem SysRun.avoids_outOfBounds {history : History} {k : Kernel} (hrun : SysRun history k)
    {a : Action} (h : ¬ NegativeFork k a) : Avoids (step k a) (· = .outOfBounds) := by
  have hE : ∀ e, e = Stop.outOfBounds → Watched e := by
    rintro _ rfl
    exact .outOfBounds
  have hcopies : ¬ Copies (· = Stop.outOfBounds) := by
    rintro (he | he | he) <;> exact nomatch he
  have hsane := SysRun.sane hrun
  have hindexed : ∀ {frame : Frame} {code : BitVec 16} {t : Kernel},
      saveContext k frame (some code) = .ok t → Indexed (· = .outOfBounds) t.sys := by
    intro frame code t ht he q
    rw [(trap_leaves ht).2.2.2.1 q]
    exact SysRun.indexed hrun q
  have hrunning : ∀ {frame : Frame} {code : BitVec 16} {t : Kernel}, k.sys.currPid ≠ 0 →
      saveContext k frame (some code) = .ok t →
      (t.sys.views t.sys.lastPid).state = .runnable ∧
        (t.sys.views t.sys.lastPid).pid = t.sys.lastPid := by
    intro frame code t hcurr ht
    obtain ⟨hview, hlast, -⟩ := saveContext_views k frame (some code) t ht
    obtain ⟨hstate, hpid, -⟩ := trapped_invariant hsane (SysRun.settled hrun) hcurr frame code
    rw [hview, hlast]
    exact ⟨hstate, hpid _ (by rw [hstate]; decide)⟩
  refine step_avoids hE (fun _ ↦ SysRun.indexed hrun) (fun _ frame t hcurr ha ht hfree ↦ ?_)
    (fun q hq ↦ hsane.pid q fun hfree ↦ nomatch hfree.symm.trans hq)
    (fun _ q _ ↦ written_avoids fun he ↦ nomatch he)
    (fun frame t hcurr ht ↦ ⟨(hrunning hcurr ht).2, written_avoids fun he ↦ nomatch he⟩)
    fun code frame t hcurr ha ht ↦ ⟨fun _ ↦ ?_, fun _ ↦ ?_, fun _ ↦ ?_⟩
  · obtain ⟨hlast, hstates, -, -, hreg⟩ := trap_leaves ht
    rw [findFreeProc_congr hstates] at hfree
    rw [hlast, hreg]
    exact not_lt.mp fun hneg ↦ h ⟨frame, ha, hcurr, hfree, hneg⟩
  · exact syscallSend_avoids hE (hindexed ht) (hrunning hcurr ht).1 fun he ↦ absurd he hcopies
  · exact syscallReceive_avoids hE (hindexed ht) fun he ↦ absurd he hcopies
  · refine Avoids.ite (fun _ ↦ .ok) fun _ ↦ handleChannelAck_avoids (fun _ he ↦ he) ?_ _ _
    exact (hindexed ht).modify _ fun _ ↦ rfl

theorem addChild_ends {s : SystemState} {parent child : Pid}
    (h : ∀ head, (s.procs parent).child = some head →
      head ≠ child ∧ ∃ prev, (s.procs head).prevSibling = some prev) :
    Ends (addChild s parent child) := by
  refine Ends.bind ?_ fun _ _ ↦ .ok
  cases hchild : (s.procs parent).child with
  | none => exact .ok
  | some head =>
    obtain ⟨hne, prev, hprev⟩ := h head hchild
    refine Ends.bind ⟨prev, deref_eq_ok.mpr ?_⟩ fun _ _ ↦ .ok
    simp [hne, hne.symm, hprev]

/-- A process with a negative priority does not enter a run queue. -/
theorem changeState_negative {s : SystemState} {q : Pid} (hstate : s.states q = .free)
    (hneg : (s.procs q).priority < 0) : changeState s q .runnable = .error .outOfBounds := by
  have hindex : prioIndex (s.procs q).priority = .error .outOfBounds :=
    dif_neg fun h ↦ absurd h.1 (not_le.mpr hneg)
  have hfree : (s.procs q).state = .free := hstate
  refine bind_eq_error.mpr (.inl ?_)
  have hleave : ¬ ((s.procs q).state = .runnable ∧ ProcState.runnable ≠ .runnable) :=
    fun h ↦ h.2 rfl
  have henter : (s.procs q).state ≠ .runnable ∧ ProcState.runnable = .runnable := by
    rw [hfree]
    exact ⟨nofun, rfl⟩
  rw [changeQueue, if_neg hleave, if_pos henter]
  exact bind_eq_error.mpr (.inl hindex)

theorem syscallFork_negative {s : SystemState} {kids : Pid → List Pid} {mmuTablesStart : BitVec 64}
    (hfamily : Family s.kin s.states kids) (hrun : s.states s.lastPid = .runnable)
    (hpid : (s.procs s.lastPid).pid = s.lastPid) (hprio : 0 ≤ (s.procs s.lastPid).priority)
    (hfree : (findFreeProc s).isSome) (hneg : toInt ((s.procs s.lastPid).reg 0) < 0) :
    syscallFork mmuTablesStart s = .error .outOfBounds := by
  have hlive := alive_of_runnable hrun
  obtain ⟨n, hn⟩ := printChildren_ends hfamily hlive
  obtain ⟨child, hfind⟩ := Option.isSome_iff_exists.mp hfree
  obtain ⟨hslot, hfree⟩ := findFreeProc_free hfind
  have hne : s.lastPid ≠ child := by
    intro heq
    rw [heq] at hrun
    exact nomatch hfree.symm.trans hrun
  refine bind_eq_error.mpr (.inr ⟨n, hn, ?_⟩)
  rw [hfind]
  refine (if_neg (not_lt.mpr (hneg.le.trans hprio))).trans ?_
  change (addChild (forkSlot s child) s.lastPid child >>= _) = _
  obtain ⟨hkin, hstates⟩ := forkSlot_kin hpid hfree
  have hadd : Ends (addChild (forkSlot s child) s.lastPid child) := by
    refine addChild_ends fun head hhead ↦ ?_
    have hsame : (forkSlot s child).kin.child s.lastPid = s.kin.child s.lastPid := by
      rw [hkin]
      exact Function.update_of_ne hne ..
    have hhead : s.kin.child s.lastPid = some head := hsame.symm.trans hhead
    have hother := hfamily.ne_of_free hlive hfree hhead
    have hmem : head ∈ kids s.lastPid := List.mem_of_head? ((hfamily.head _ hlive).symm.trans hhead)
    obtain ⟨-, prev, -, hlink⟩ := (hfamily.ring _ hlive).links_of_mem hmem
    refine ⟨hother, prev, ?_⟩
    change (forkSlot s child).kin.prev head = some prev
    rw [hkin]
    exact (Function.update_of_ne hother ..).trans hlink.2
  obtain ⟨t, ht⟩ := hadd
  refine bind_eq_error.mpr (.inr ⟨t, ht, bind_eq_error.mpr (.inl (changeState_negative ?_ ?_))⟩)
  · refine (state_unlinked.addChild (congrFun hstates) s.lastPid child t ht child).trans ?_
    exact hfree
  · have hslot := has_forkSlot ProcDescriptor.priority (fun _ _ ↦ rfl) s child
    rw [forkSlot_child] at hslot
    rw [priority_rooted.toUnlinked.addChild hslot s.lastPid child t ht child, Function.update_self]
    exact hneg

/-- A fork with a negative priority indexes the run queues outside their bounds. -/
theorem SysRun.step_negativeFork {history : History} {k : Kernel} (hrun : SysRun history k)
    {a : Action} (h : NegativeFork k a) : step k a = .error .outOfBounds := by
  obtain ⟨frame, rfl, hcurr, hfree, hneg⟩ := h
  obtain ⟨t, ht⟩ : Ends (saveContext k frame (some 0)) := saveContext_avoids.ends
  obtain ⟨hlast, hstates, hkin, hpriority, hreg⟩ := trap_leaves ht
  obtain ⟨kids, hfamily, -⟩ := SysRun.familyInv hrun
  have hsane := SysRun.sane hrun
  obtain ⟨hview, -⟩ := saveContext_views k frame (some 0) t ht
  rw [step_svc hcurr (by decide) ht]
  rw [← hkin, ← hstates] at hfamily
  refine bind_eq_error.mpr (.inl (syscallFork_negative hfamily ?_ ?_ ?_ ?_ ?_))
  · rw [hlast, hstates]
    exact hsane.running hcurr
  · rw [hlast]
    change (t.sys.views k.sys.currPid).pid = _
    rw [hview, Views.set_self]
    refine hsane.pid _ ?_
    rw [hsane.running hcurr]
    decide
  · rw [hpriority]
    obtain ⟨prio, hprio⟩ := SysRun.indexed hrun t.sys.lastPid
    change 0 ≤ (k.sys.procs t.sys.lastPid).priority
    omega
  · rwa [findFreeProc_congr hstates]
  · rwa [hlast, hreg]

/-- The priorities of the processes of a state that a run reaches are in their range, and at most
those that the parents had when the processes were made. -/
def PrioritiesBounded (history : History) (k : Kernel) : Prop :=
  ∀ q, k.sys.states q ≠ .free →
    0 ≤ (k.sys.procs q).priority ∧ (k.sys.procs q).priority ≤ maxPrio ∧
      (2 ≤ q.val → MadeBelow history q (k.sys.procs q).priority)

/-- When exactly priorities are in range and index the run queues within their bounds: in every run,
whatever is done next, unless it is a fork with a negative priority. -/
theorem priorities_bounded_iff {history : History} {k : Kernel} (hrun : SysRun history k)
    (a : Action) :
    (PrioritiesBounded history k ∧ step k a ≠ .error .outOfBounds) ↔ ¬ NegativeFork k a := by
  constructor
  · rintro ⟨-, hstep⟩ hneg
    exact hstep (SysRun.step_negativeFork hrun hneg)
  · intro h
    refine ⟨fun q hq ↦ ?_, fun herror ↦ SysRun.avoids_outOfBounds hrun h _ herror rfl⟩
    obtain ⟨prio, hprio⟩ := SysRun.indexed hrun q
    have hlt : prio.val < maxPrio + 1 := prio.isLt
    refine ⟨by omega, by omega, fun hslot ↦ SysRun.madeBelow hrun ⟨hslot, hq⟩⟩

theorem priorities_bounded_iff_forks : ∃ history k, SysRun history k ∧ history.length = 3 ∧
    (k.sys.procs 2).priority = 3 ∧ PrioritiesBounded history k := by
  obtain ⟨history, k, hrun, hstate⟩ := exists_run sampleBoot
    [.start, .svc 0 (sampleFrame [3]), .schedule 0]
    (fun history k ↦ history.length = 3 ∧ (k.sys.procs 2).priority = 3) (by decide +kernel)
  obtain ⟨hlength, hpriority⟩ := of_decide_eq_true hstate
  refine ⟨history, k, hrun, hlength, hpriority, ?_⟩
  exact ((priorities_bounded_iff hrun (.schedule 0)).mpr fun ⟨_, h, _⟩ ↦ nomatch h).1

/-- `init` asks for a child of priority `-1`. -/
theorem not_bounded_negativeFork : ∃ history k, SysRun history k ∧
    step k (.svc 0 (sampleFrame [BitVec.allOnes 64])) = .error .outOfBounds := by
  obtain ⟨history, k, hrun, hstate⟩ := exists_run sampleBoot [.start]
    (fun _ k ↦ match step k (.svc 0 (sampleFrame [BitVec.allOnes 64])) with
      | .error .outOfBounds => true
      | _ => false) (by decide +kernel)
  refine ⟨history, k, hrun, ?_⟩
  cases hstep : step k (.svc 0 (sampleFrame [BitVec.allOnes 64])) with
  | ok r =>
    rw [hstep] at hstate
    exact nomatch hstate
  | error e =>
    rw [hstep] at hstate
    cases e with
    | outOfBounds => rfl
    | _ => exact nomatch hstate

end SysresOs.Proc
