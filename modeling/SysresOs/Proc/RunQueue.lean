import SysresOs.Lib.Outcome
import SysresOs.Lib.Ring
import SysresOs.Proc.Effect
import Mathlib.Algebra.BigOperators.Group.Finset.Basic
import Mathlib.Algebra.BigOperators.Fin
import Mathlib.Algebra.Order.BigOperators.Group.Finset

/-!
# The run queues are lists
-/

set_option autoImplicit false
set_option relaxedAutoImplicit false

namespace SysresOs.Proc

open SysresOs.Ring SysresOs.Outcome

/-! ### The abstract queues -/

/-- The run queue of a priority, read from its head along `next_same_prio`. -/
def queue (s : SystemState) (prio : Prio) : List Pid :=
  readRing (nextPrio s) maxProc (s.prioProc prio)

/-- The system state represents the given lists of processes, one for each priority: the lists are
the rings entered at `prio_proc`, they hold the runnable processes of their priority, and the
counters count them. -/
structure Represents (s : SystemState) (queues : Prio → List Pid) : Prop where
  ring : ∀ prio, IsRing (nextPrio s) (prevPrio s) (queues prio)
  head : ∀ prio, s.prioProc prio = (queues prio).head?
  mem : ∀ prio q, q ∈ queues prio ↔
    (s.procs q).state = .runnable ∧ (s.procs q).priority = (prio.val : ℤ)
  inRange : ∀ q, (s.procs q).state = .runnable → ∃ prio : Prio, (s.procs q).priority = prio.val
  count : ∀ prio, s.prioProcN prio = BitVec.ofNat 32 (queues prio).length
  total : s.nRunnableProcs = BitVec.ofNat 32 (∑ prio, (queues prio).length)

/-- The represented lists are those read along the pointers. -/
theorem Represents.queue_eq {s : SystemState} {queues : Prio → List Pid} (h : Represents s queues)
    (prio : Prio) : queue s prio = queues prio := by
  unfold queue
  rw [h.head prio]
  refine (h.ring prio).readRing_eq ?_
  simpa using List.Nodup.length_le_card (h.ring prio).nodup

/-- Two states with the same run-queue data represent the same lists. -/
theorem Represents.congr {s s' : SystemState} {queues : Prio → List Pid} (h : Represents s queues)
    (hnext : ∀ q, (s'.procs q).nextSamePrio = (s.procs q).nextSamePrio)
    (hprev : ∀ q, (s'.procs q).prevSamePrio = (s.procs q).prevSamePrio)
    (hstate : ∀ q, (s'.procs q).state = .runnable ↔ (s.procs q).state = .runnable)
    (hprio : ∀ q, (s'.procs q).priority = (s.procs q).priority)
    (hhead : s'.prioProc = s.prioProc) (hn : s'.prioProcN = s.prioProcN)
    (htotal : s'.nRunnableProcs = s.nRunnableProcs) : Represents s' queues where
  ring prio := (h.ring prio).congr (fun q _ ↦ hnext q) fun q _ ↦ hprev q
  head prio := by rw [hhead, h.head]
  mem prio q := by rw [h.mem, hstate, hprio]
  inRange q hq := by
    rw [hprio]
    exact h.inRange q ((hstate q).mp hq)
  count prio := by rw [hn, h.count]
  total := by rw [htotal, h.total]

/-- A process is in the queue of at most one priority. -/
theorem Represents.prio_unique {s : SystemState} {queues : Prio → List Pid}
    (h : Represents s queues) {prio prio' : Prio} {q : Pid} (hq : q ∈ queues prio)
    (hq' : q ∈ queues prio') : prio = prio' := by
  have hprio := ((h.mem prio q).mp hq).2.symm.trans ((h.mem prio' q).mp hq').2
  exact Fin.ext (by exact_mod_cast hprio)

/-- Changing the list of one priority changes the total length by the difference. -/
theorem sum_update_length (queues : Prio → List Pid) (prio : Prio) (l : List Pid) :
    ∑ p, (Function.update queues prio l p).length + (queues prio).length =
      ∑ p, (queues p).length + l.length := by
  have hsplit := Finset.add_sum_erase Finset.univ
    (fun p ↦ (Function.update queues prio l p).length) (Finset.mem_univ prio)
  have hsplit' := Finset.add_sum_erase Finset.univ (fun p ↦ (queues p).length)
    (Finset.mem_univ prio)
  have hrest : ∑ p ∈ Finset.univ.erase prio, (Function.update queues prio l p).length =
      ∑ p ∈ Finset.univ.erase prio, (queues p).length := by
    refine Finset.sum_congr rfl fun p hp ↦ ?_
    rw [Function.update_of_ne (Finset.ne_of_mem_erase hp)]
  simp only [Function.update_self] at hsplit
  omega

/-! ### Leaving and entering a queue -/

theorem ofNat_sub_one {n : ℕ} (hn : 0 < n) : BitVec.ofNat 32 n - 1 = BitVec.ofNat 32 (n - 1) := by
  obtain ⟨m, rfl⟩ : ∃ m, n = m + 1 := ⟨n - 1, by omega⟩
  rw [BitVec.ofNat_add]
  simp

theorem priority_eq_of_table {s s' : SystemState} (h : s'.table = s.table) (q : Pid) :
    (s'.procs q).priority = (s.procs q).priority ∧ (s'.procs q).state = (s.procs q).state := by
  have hprio := congrArg ProcDescriptor.priority (congrFun h q)
  have hstate := congrArg ProcDescriptor.state (congrFun h q)
  exact ⟨hprio, hstate⟩

theorem nextPrio_setState (s : SystemState) (q : Pid) (st : ProcState) :
    nextPrio (s.modify q (·.setState st)) = nextPrio s := by
  funext r
  unfold nextPrio
  rw [SystemState.modify_procs]
  split_ifs with hr
  · rw [hr]
    rfl
  · rfl

theorem prevPrio_setState (s : SystemState) (q : Pid) (st : ProcState) :
    prevPrio (s.modify q (·.setState st)) = prevPrio s := by
  funext r
  unfold prevPrio
  rw [SystemState.modify_procs]
  split_ifs with hr
  · rw [hr]
    rfl
  · rfl

section Dequeue

variable {s s' : SystemState} {queues : Prio → List Pid} {prio : Prio} {q next prev : Pid}

theorem Represents.dequeue_ring (h : Represents s queues) (hq : q ∈ queues prio)
    (heff : Dequeued s s' q prio next prev) (p : Prio) :
    IsRing (nextPrio s') (prevPrio s')
      (Function.update queues prio ((queues prio).erase q) p) := by
  have hremove := (h.ring prio).remove hq heff.prev_eq heff.next_eq
  rw [← heff.nextPrio, ← heff.prevPrio] at hremove
  by_cases hp : p = prio
  · rw [hp, Function.update_self]
    exact hremove
  · rw [Function.update_of_ne hp]
    -- The links that change belong to members of the queue of `q`.
    have hnotmem : ∀ r ∈ queues p, r ∉ queues prio := fun r hr hr' ↦ hp (h.prio_unique hr hr')
    obtain ⟨⟨b, hb, hqb⟩, ⟨c, hc, hcq⟩⟩ := (h.ring prio).links_of_mem hq
    obtain rfl : b = next := Option.some.inj (hqb.1.symm.trans heff.next_eq)
    obtain rfl : c = prev := Option.some.inj (hcq.2.symm.trans heff.prev_eq)
    refine (h.ring p).congr (fun r hr ↦ ?_) fun r hr ↦ ?_
    · rw [heff.nextPrio, Function.update_of_ne]
      rintro rfl
      exact hnotmem r hr hc
    · rw [heff.prevPrio, Function.update_of_ne]
      rintro rfl
      exact hnotmem r hr hb

theorem Represents.dequeue_head (h : Represents s queues)
    (heff : Dequeued s s' q prio next prev) (p : Prio) :
    s'.prioProc p = (Function.update queues prio ((queues prio).erase q) p).head? := by
  rw [heff.prioProc]
  by_cases hp : p = prio
  · rw [hp, Function.update_self, (h.ring prio).head?_erase heff.next_eq, ← h.head]
    split_ifs with hhead
    · exact Function.update_self ..
    · exact Function.update_self ..
    · rfl
  · rw [Function.update_of_ne hp, ← h.head]
    split_ifs with hhead
    · exact Function.update_of_ne hp ..
    · exact Function.update_of_ne hp ..
    · rfl

theorem Represents.dequeue_mem (h : Represents s queues) (hq : q ∈ queues prio)
    (p : Prio) (r : Pid) :
    r ∈ Function.update queues prio ((queues prio).erase q) p ↔ r ≠ q ∧ r ∈ queues p := by
  by_cases hp : p = prio
  · rw [hp, Function.update_self, (h.ring prio).nodup.mem_erase_iff]
  · rw [Function.update_of_ne hp]
    refine (and_iff_right_of_imp fun hr ↦ ?_).symm
    rintro rfl
    exact hp (h.prio_unique hr hq)

/-- A runnable process leaves its queue: the represented list loses it and the others do not
change. -/
theorem Represents.dequeue (h : Represents s queues) (hq : q ∈ queues prio)
    (heff : Dequeued s s' q prio next prev) {newState : ProcState} (hnew : newState ≠ .runnable) :
    Represents (s'.modify q (·.setState newState))
      (Function.update queues prio ((queues prio).erase q)) where
  ring p := by
    rw [nextPrio_setState, prevPrio_setState]
    exact h.dequeue_ring hq heff p
  head p := h.dequeue_head heff p
  mem p r := by
    obtain ⟨hprio, hstate⟩ := priority_eq_of_table heff.table r
    rw [h.dequeue_mem hq, h.mem, SystemState.modify_procs]
    by_cases hr : r = q
    · simp [hr, ProcDescriptor.setState, hnew]
    · rw [if_neg hr, hprio, hstate]
      exact and_iff_right hr
  inRange r hr := by
    obtain ⟨hprio, hstate⟩ := priority_eq_of_table heff.table r
    rw [SystemState.modify_procs] at hr ⊢
    by_cases hrq : r = q
    · simp [hrq, ProcDescriptor.setState, hnew] at hr
    · rw [if_neg hrq, hstate] at hr
      rw [if_neg hrq, hprio]
      exact h.inRange r hr
  count p := by
    rw [SystemState.modify_prioProcN, heff.prioProcN]
    by_cases hp : p = prio
    · rw [hp, Function.update_self, Function.update_self, h.count, List.length_erase_of_mem hq]
      exact ofNat_sub_one (List.length_pos_of_mem hq)
    · rw [Function.update_of_ne hp, Function.update_of_ne hp, h.count]
  total := by
    have hsum := sum_update_length queues prio ((queues prio).erase q)
    have hlength := List.length_erase_of_mem hq
    have hpos := List.length_pos_of_mem hq
    have htotal : ∑ p, (queues p).length - 1 =
        ∑ p, (Function.update queues prio ((queues prio).erase q) p).length := by omega
    rw [SystemState.modify_nRunnableProcs, heff.nRunnableProcs, h.total,
      ofNat_sub_one (by omega), htotal]

end Dequeue

section Enqueue

variable {s s' : SystemState} {queues : Prio → List Pid} {prio : Prio} {q : Pid}

theorem Represents.enqueue_ring (h : Represents s queues) (hq : (s.procs q).state ≠ .runnable)
    (heff : Enqueued s s' q prio) (p : Prio) :
    IsRing (nextPrio s') (prevPrio s') (Function.update queues prio (q :: queues prio) p) := by
  have hout : ∀ p, q ∉ queues p := fun p hmem ↦ hq ((h.mem p q).mp hmem).1
  have hhead := h.head prio
  rcases heff.links with ⟨hempty, hnext, hprev⟩ | ⟨head, prev, hsome, hlast, hnext, hprev⟩
  · rw [hempty] at hhead
    have hnil : queues prio = [] := List.head?_eq_none_iff.mp hhead.symm
    rw [hnext, hprev]
    by_cases hp : p = prio
    · rw [hp, Function.update_self, hnil]
      exact isRing_singleton (Function.update_self ..) (Function.update_self ..)
    · rw [Function.update_of_ne hp]
      have hne : ∀ r ∈ queues p, r ≠ q := fun r hr heq ↦ hout p (heq ▸ hr)
      exact (h.ring p).congr (fun r hr ↦ Function.update_of_ne (hne r hr) ..)
        fun r hr ↦ Function.update_of_ne (hne r hr) ..
  · rw [hsome] at hhead
    obtain ⟨l, hl⟩ : ∃ l, queues prio = head :: l := List.head?_eq_some_iff.mp hhead.symm
    have hring := h.ring prio
    have hmem : head ∈ queues prio := by rw [hl]; exact List.mem_cons_self
    have hne : head ≠ q := fun heq ↦ hout prio (heq ▸ hmem)
    rw [if_neg hne] at hlast
    rw [hnext, hprev]
    by_cases hp : p = prio
    · rw [hp, Function.update_self, hl]
      rw [hl] at hring
      exact hring.insert (hl ▸ hout prio) hlast
    · rw [Function.update_of_ne hp]
      -- The links that change belong to `q` or to members of the queue it enters.
      have hnotmem : ∀ r ∈ queues p, r ∉ queues prio := fun r hr hr' ↦ hp (h.prio_unique hr hr')
      obtain ⟨-, ⟨c, hc, hlink⟩⟩ := hring.links_of_mem hmem
      obtain rfl : c = prev := Option.some.inj (hlink.2.symm.trans hlast)
      refine (h.ring p).congr (fun r hr ↦ ?_) fun r hr ↦ ?_
      · have hrc : r ≠ c := fun heq ↦ hnotmem r hr (heq ▸ hc)
        have hrq : r ≠ q := fun heq ↦ hout p (heq ▸ hr)
        rw [Function.update_of_ne hrc, Function.update_of_ne hrq]
      · have hrh : r ≠ head := fun heq ↦ hnotmem r hr (heq ▸ hmem)
        have hrq : r ≠ q := fun heq ↦ hout p (heq ▸ hr)
        rw [Function.update_of_ne hrh, Function.update_of_ne hrq]

/-- A process that is not runnable enters the queue of its priority: it becomes the first of the
represented list and the others do not change. -/
theorem Represents.enqueue (h : Represents s queues) (hq : (s.procs q).state ≠ .runnable)
    (heff : Enqueued s s' q prio) :
    Represents (s'.modify q (·.setState .runnable))
      (Function.update queues prio (q :: queues prio)) where
  ring p := by
    rw [nextPrio_setState, prevPrio_setState]
    exact h.enqueue_ring hq heff p
  head p := by
    rw [SystemState.modify_prioProc, heff.prioProc]
    by_cases hp : p = prio
    · rw [hp, Function.update_self, Function.update_self, List.head?_cons]
    · rw [Function.update_of_ne hp, Function.update_of_ne hp, h.head]
  mem p r := by
    obtain ⟨hprio, hstate⟩ := priority_eq_of_table heff.table r
    have hprioq := heff.priority
    rw [SystemState.modify_procs]
    by_cases hr : r = q
    · subst hr
      have hpq : ((prio.val : ℤ) = p.val) ↔ p = prio := by
        rw [eq_comm, Fin.ext_iff]
        exact_mod_cast Iff.rfl
      have hout : r ∉ queues p := fun hmem ↦ hq ((h.mem p r).mp hmem).1
      rw [if_pos rfl]
      simp only [ProcDescriptor.setState, hprio, hprioq, true_and, hpq]
      by_cases hp : p = prio
      · simp [hp]
      · simp [hp, hout]
    · rw [if_neg hr, hprio, hstate, ← h.mem]
      by_cases hp : p = prio
      · simp [hp, hr]
      · rw [Function.update_of_ne hp]
  inRange r hr := by
    obtain ⟨hprio, hstate⟩ := priority_eq_of_table heff.table r
    rw [SystemState.modify_procs] at hr ⊢
    by_cases hrq : r = q
    · rw [if_pos hrq]
      subst hrq
      exact ⟨prio, hprio.trans heff.priority⟩
    · rw [if_neg hrq, hstate] at hr
      rw [if_neg hrq, hprio]
      exact h.inRange r hr
  count p := by
    rw [SystemState.modify_prioProcN, heff.prioProcN]
    by_cases hp : p = prio
    · rw [hp, Function.update_self, Function.update_self, h.count, List.length_cons,
        BitVec.ofNat_add]
      rfl
    · rw [Function.update_of_ne hp, Function.update_of_ne hp, h.count]
  total := by
    have hsum := sum_update_length queues prio (q :: queues prio)
    have htotal : ∑ p, (Function.update queues prio (q :: queues prio) p).length =
        ∑ p, (queues p).length + 1 := by
      rw [List.length_cons] at hsum
      omega
    rw [SystemState.modify_nRunnableProcs, heff.nRunnableProcs, h.total, htotal, BitVec.ofNat_add]
    rfl

end Enqueue

/-! ### `change_state` and `run_priority` on the lists -/

/-- The lists after `change_state` of `q` to `newState`. -/
def changeQueues (s : SystemState) (queues : Prio → List Pid) (q : Pid) (newState : ProcState) :
    Prio → List Pid :=
  if (s.procs q).state = .runnable ∧ newState ≠ .runnable then
    fun prio ↦ (queues prio).erase q
  else if (s.procs q).state ≠ .runnable ∧ newState = .runnable then
    fun prio ↦ if (s.procs q).priority = prio.val then q :: queues prio else queues prio
  else queues

/-- Every successful `change_state` keeps a representation, with the list meaning of its branch. -/
theorem Represents.changeState {s s' : SystemState} {queues : Prio → List Pid}
    (h : Represents s queues) {q : Pid} {newState : ProcState}
    (hs : changeState s q newState = .ok s') :
    Represents s' (changeQueues s queues q newState) := by
  obtain ⟨t, ht, hs⟩ := bind_eq_ok.mp hs
  obtain rfl := Except.ok.inj hs
  unfold changeQueue at ht
  unfold changeQueues
  split_ifs at ht ⊢ with hleave henter
  · obtain ⟨prio, next, prev, heff⟩ := dequeued_of_dequeue ht
    have hq : q ∈ queues prio := (h.mem prio q).mpr ⟨hleave.1, heff.priority⟩
    have hupdate : Function.update queues prio ((queues prio).erase q) =
        fun p ↦ (queues p).erase q := by
      funext p
      by_cases hp : p = prio
      · rw [hp, Function.update_self]
      · rw [Function.update_of_ne hp, List.erase_of_not_mem]
        exact fun hmem ↦ hp (h.prio_unique hmem hq)
    rw [← hupdate]
    exact h.dequeue hq heff hleave.2
  · obtain ⟨prio, heff⟩ := enqueued_of_enqueue ht
    have hupdate : Function.update queues prio (q :: queues prio) =
        fun p ↦ if (s.procs q).priority = p.val then q :: queues p else queues p := by
      funext p
      have hpq : (s.procs q).priority = p.val ↔ p = prio := by
        rw [heff.priority, eq_comm, Fin.ext_iff]
        exact_mod_cast Iff.rfl
      by_cases hp : p = prio
      · rw [if_pos (hpq.mpr hp), hp, Function.update_self]
      · rw [if_neg (fun heq ↦ hp (hpq.mp heq)), Function.update_of_ne hp]
    rw [← hupdate, henter.2]
    exact h.enqueue henter.1 heff
  · obtain rfl := Except.ok.inj ht
    refine h.congr (congrFun (nextPrio_setState s q newState))
      (congrFun (prevPrio_setState s q newState)) (fun r ↦ ?_) (fun r ↦ ?_) rfl rfl rfl
    · rw [SystemState.modify_procs]
      split_ifs with hr
      · subst hr
        have hnew : ((s.procs r).setState newState).state = newState := rfl
        rw [hnew]
        tauto
      · rfl
    · rw [SystemState.modify_procs]
      split_ifs with hr
      · rw [hr]
        rfl
      · rfl

/-- `change_state` does not stop on a represented state, except for a process whose priority is not
an index of `prio_proc` and that would enter a queue. -/
theorem Represents.changeState_ok {s : SystemState} {queues : Prio → List Pid}
    (h : Represents s queues) (q : Pid) (newState : ProcState)
    (hq : newState = .runnable → ∃ prio : Prio, (s.procs q).priority = prio.val) :
    ∃ s', Proc.changeState s q newState = .ok s' := by
  suffices hqueue : ∃ t, changeQueue s q newState = .ok t by
    obtain ⟨t, ht⟩ := hqueue
    exact ⟨_, by rw [Proc.changeState, ht]; rfl⟩
  unfold changeQueue
  split_ifs with hleave henter
  · obtain ⟨prio, hprio⟩ := h.inRange q hleave.1
    obtain ⟨⟨next, -, hnext⟩, ⟨prev, -, hprev⟩⟩ :=
      (h.ring prio).links_of_mem ((h.mem prio q).mpr ⟨hleave.1, hprio⟩)
    exact dequeue_ok hprio hnext.1 hprev.2
  · obtain ⟨prio, hprio⟩ := hq henter.2
    refine enqueue_ok hprio fun head hhead ↦ ?_
    have hmem : head ∈ queues prio := List.mem_of_head? ((h.head prio).symm.trans hhead)
    obtain ⟨-, ⟨prev, -, hprev⟩⟩ := (h.ring prio).links_of_mem hmem
    refine ⟨?_, prev, hprev.2⟩
    rintro rfl
    exact henter.1 ((h.mem prio head).mp hmem).1
  · exact ⟨s, rfl⟩

/-- Moving `prio_proc[prio]` to the successor of the head rotates the list. -/
theorem Represents.rotate {s : SystemState} {queues : Prio → List Pid} (h : Represents s queues)
    {prio : Prio} {q : Pid} (hq : s.prioProc prio = some q) :
    Represents (s.setPrioProc prio (s.procs q).nextSamePrio)
      (Function.update queues prio ((queues prio).rotate 1)) := by
  obtain ⟨l, hl⟩ : ∃ l, queues prio = q :: l :=
    List.head?_eq_some_iff.mp ((h.head prio).symm.trans hq)
  have hring := h.ring prio
  rw [hl] at hring
  have hrotate : (queues prio).rotate 1 = l ++ [q] := by rw [hl]; simp
  have hmem : ∀ p r, r ∈ Function.update queues prio (l ++ [q]) p ↔ r ∈ queues p := by
    intro p r
    by_cases hp : p = prio
    · rw [hp, Function.update_self, hl]
      simp [or_comm]
    · rw [Function.update_of_ne hp]
  have hlength : ∀ p, (Function.update queues prio (l ++ [q]) p).length = (queues p).length := by
    intro p
    by_cases hp : p = prio
    · rw [hp, Function.update_self, hl]
      simp
    · rw [Function.update_of_ne hp]
  rw [hrotate]
  constructor
  case ring =>
    intro p
    by_cases hp : p = prio
    · rw [hp, Function.update_self]
      exact isRing_rotate.mp hring
    · rw [Function.update_of_ne hp]
      exact h.ring p
  case head =>
    intro p
    rw [SystemState.setPrioProc_prioProc]
    by_cases hp : p = prio
    · rw [hp, Function.update_self, Function.update_self]
      have hnext : (s.procs q).nextSamePrio = some ((l ++ [q]).head (by simp)) :=
        hring.head_links.1.1
      rw [hnext, List.head?_eq_some_head]
    · rw [Function.update_of_ne hp, Function.update_of_ne hp, h.head]
  case mem =>
    intro p r
    rw [hmem, h.mem]
    rfl
  case inRange => exact h.inRange
  case count =>
    intro p
    rw [hlength]
    exact h.count p
  case total =>
    simp only [hlength]
    exact h.total

/-! ### Every step keeps a representation -/

/-- The state represents some lists. -/
def QueueInv (s : SystemState) : Prop := ∃ queues, Represents s queues

/-- The run-queue data of a descriptor. -/
def ProcDescriptor.queueData (d : ProcDescriptor) : Ptr × Ptr × ProcState × ℤ :=
  (d.nextSamePrio, d.prevSamePrio, d.state, d.priority)

theorem Represents.modify {s : SystemState} {queues : Prio → List Pid} (h : Represents s queues)
    (p : Pid) {f : ProcDescriptor → ProcDescriptor} (hf : ∀ d, (f d).queueData = d.queueData) :
    Represents (s.modify p f) queues := by
  have hdata : ∀ q, ((s.modify p f).procs q).queueData = (s.procs q).queueData := by
    intro q
    rw [SystemState.modify_procs]
    split_ifs with hq
    · rw [hq, hf]
    · rfl
  refine h.congr (fun q ↦ ?_) (fun q ↦ ?_) (fun q ↦ ?_) (fun q ↦ ?_) rfl rfl rfl
  · exact congrArg (·.1) (hdata q)
  · exact congrArg (·.2.1) (hdata q)
  · exact Eq.congr_left (congrArg (·.2.2.1) (hdata q))
  · exact congrArg (·.2.2.2) (hdata q)

theorem QueueInv.modify {s : SystemState} (h : QueueInv s) (p : Pid)
    {f : ProcDescriptor → ProcDescriptor} (hf : ∀ d, (f d).queueData = d.queueData) :
    QueueInv (s.modify p f) := by
  obtain ⟨queues, h⟩ := h
  exact ⟨queues, h.modify p hf⟩

/-- A descriptor outside the queues may be replaced by another one that is not runnable. -/
theorem Represents.replace {s : SystemState} {queues : Prio → List Pid} (h : Represents s queues)
    {p : Pid} {d : ProcDescriptor} (hp : (s.procs p).state ≠ .runnable) (hd : d.state ≠ .runnable) :
    Represents (s.modify p fun _ ↦ d) queues := by
  have hout : ∀ prio, ∀ q ∈ queues prio, q ≠ p := by
    rintro prio q hq rfl
    exact hp ((h.mem prio q).mp hq).1
  have hkeep : ∀ q, q ≠ p → (s.modify p fun _ ↦ d).procs q = s.procs q := by
    intro q hq
    rw [SystemState.modify_procs, if_neg hq]
  have hself : (s.modify p fun _ ↦ d).procs p = d := by
    rw [SystemState.modify_procs, if_pos rfl]
  refine ⟨fun prio ↦ ?_, h.head, fun prio q ↦ ?_, fun q hq ↦ ?_, h.count, h.total⟩
  · refine (h.ring prio).congr (fun q hq ↦ ?_) fun q hq ↦ ?_
    · unfold nextPrio
      rw [hkeep q (hout prio q hq)]
    · unfold prevPrio
      rw [hkeep q (hout prio q hq)]
  · by_cases hq : q = p
    · subst hq
      rw [h.mem, hself]
      simp [hp, hd]
    · rw [hkeep q hq, h.mem]
  · by_cases hqp : q = p
    · subst hqp
      rw [hself] at hq
      exact absurd hq hd
    · rw [hkeep q hqp] at hq ⊢
      exact h.inRange q hq

theorem QueueInv.changeState {s : SystemState} (h : QueueInv s) (q : Pid) (newState : ProcState) :
    Yields (Proc.changeState s q newState) QueueInv := by
  intro s' hs'
  obtain ⟨queues, h⟩ := h
  exact ⟨_, h.changeState hs'⟩

/-- A property that changes of a descriptor keep, unless they change its run-queue data. -/
def Neutral (P : SystemState → Prop) : Prop :=
  ∀ {s : SystemState} (p : Pid) {f : ProcDescriptor → ProcDescriptor}, P s →
    (∀ d, (f d).queueData = d.queueData) → P (s.modify p f)

section Neutral

variable {P : SystemState → Prop} {s : SystemState}

theorem Neutral.linkSibling (hP : Neutral P) (h : P s) (child : Pid) (head : Ptr) :
    Yields (Proc.linkSibling s child head) P := by
  cases head with
  | none => exact .ok (hP child h fun _ ↦ rfl)
  | some head =>
    refine Yields.bind_any fun prev ↦ .ok ?_
    refine hP prev ?_ fun _ ↦ rfl
    refine hP head ?_ fun _ ↦ rfl
    refine hP child ?_ fun _ ↦ rfl
    exact hP child h fun _ ↦ rfl

theorem Neutral.addChild (hP : Neutral P) (h : P s) (parent child : Pid) :
    Yields (Proc.addChild s parent child) P :=
  (hP.linkSibling h child _).bind fun _ ht ↦ .ok (hP parent ht fun _ ↦ rfl)

theorem Neutral.removeChild (hP : Neutral P) (h : P s) (parent child : Pid) :
    Yields (Proc.removeChild s parent child) P := by
  refine Yields.bind_any fun prev ↦ Yields.bind_any fun next ↦ ?_
  have hlinked :=
      hP prev (f := fun d ↦ { d with nextSibling := (s.procs child).nextSibling }) h fun _ ↦ rfl
  refine Yields.ite (fun _ ↦ .ok ?_) fun _ ↦ .ok ?_
  · refine hP parent ?_ fun _ ↦ rfl
    exact hP next hlinked fun _ ↦ rfl
  · exact hP next hlinked fun _ ↦ rfl

theorem Neutral.reportStatus (hP : Neutral P) (h : P s) (parent child : Pid)
    (retStatusAddr : BitVec 64) : Yields (Proc.reportStatus s parent child retStatusAddr) P :=
  Yields.ite (fun _ ↦ .ok h) fun _ ↦ Yields.bind_any fun _ ↦ .ok (hP parent h fun _ ↦ rfl)

theorem Neutral.reparentLoop (hP : Neutral P) (h : P s) (head : Pid) (bound : ℕ) (child : Pid) :
    Yields (Proc.reparentLoop head bound s child) P := by
  induction bound generalizing s child with
  | zero => exact .error
  | succ bound ih =>
    have hstep := hP child (f := fun d ↦ { d with parentPid := initPid }) h fun _ ↦ rfl
    exact Yields.bind_any fun next ↦ Yields.ite (fun _ ↦ .ok hstep) fun _ ↦ ih hstep next

end Neutral

theorem QueueInv.neutral : Neutral QueueInv := fun p _ h hf ↦ h.modify p hf

/-- The slot that `fork` fills is in no queue. -/
theorem Represents.forkSlot {s : SystemState} {queues : Prio → List Pid} (h : Represents s queues)
    {child : Pid} (hfree : (s.procs child).state = .free) :
    Represents (Proc.forkSlot s child) queues := by
  have hparent := h.modify s.lastPid (f := (·.setX0 (ofPid child))) fun _ ↦ rfl
  have hnot : ((s.modify s.lastPid (·.setX0 (ofPid child))).procs child).state ≠ .runnable := by
    rw [SystemState.modify_procs]
    split_ifs with heq
    · rw [← heq]
      simp [ProcDescriptor.setX0, hfree]
    · simp [hfree]
  have hborn := hparent.replace hnot (d := makeChildProcDescriptor
    ((s.modify s.lastPid (·.setX0 (ofPid child))).procs s.lastPid) child
    (toInt ((s.procs s.lastPid).reg 0))) (by simp [makeChildProcDescriptor, newProcDescriptor])
  exact hborn.modify child (f := (·.setX0 0)) fun _ ↦ rfl

theorem QueueInv.syscallFork {s : SystemState} (h : QueueInv s) (mmuTablesStart : BitVec 64) :
    Yields (Proc.syscallFork mmuTablesStart s) QueueInv := by
  intro s' hs'
  cases forks_of_syscallFork mmuTablesStart s s' hs' with
  | failed no => exact h.modify _ fun _ ↦ rfl
  | forked child t u hfind _ ht hu =>
    obtain ⟨queues, h⟩ := h
    have hslot : QueueInv (Proc.forkSlot s child) :=
      ⟨queues, h.forkSlot (findFreeProc_free hfind).2⟩
    have hadded := QueueInv.neutral.addChild hslot s.lastPid child t ht
    have hrunnable := hadded.changeState child .runnable u hu
    refine QueueInv.modify ?_ child fun _ ↦ rfl
    exact hrunnable.modify child fun _ ↦ rfl

theorem QueueInv.handleZombieChild {s : SystemState} (h : QueueInv s) (parent child : Pid) :
    Yields (Proc.handleZombieChild s parent child) QueueInv := by
  have hx0 := h.modify parent (f := (·.setX0 (ofPid (s.procs child).pid))) fun _ ↦ rfl
  refine (QueueInv.neutral.reportStatus hx0 parent child _).bind fun t ht ↦ ?_
  refine (QueueInv.neutral.removeChild ht parent child).bind fun t ht ↦ ?_
  exact (ht.changeState child .free).bind fun t ht ↦ ht.changeState parent .runnable

theorem QueueInv.syscallWait {s : SystemState} (h : QueueInv s) :
    Yields (Proc.syscallWait s) QueueInv := by
  refine Yields.bind_any fun _ ↦ ?_
  cases hchild : (s.procs s.lastPid).child with
  | none => exact .ok (h.modify _ fun _ ↦ rfl)
  | some head =>
    refine Yields.ite (fun _ ↦ h.handleZombieChild _ head) fun _ ↦ Yields.bind_any fun child ↦ ?_
    exact Yields.ite (fun _ ↦ h.handleZombieChild _ child) fun _ ↦ h.changeState _ .waiting

theorem QueueInv.syscallExit {s : SystemState} (h : QueueInv s) :
    Yields (Proc.syscallExit s) QueueInv := by
  refine Yields.bind (P := QueueInv) ?_ fun t ht ↦ Yields.ite
    (fun _ ↦ ht.handleZombieChild _ _) fun _ ↦ ht.changeState _ .zombie
  have herr := h.modify s.lastPid (f := fun d ↦
    { d with err := { d.err with no := (d.reg 0).setWidth 32, data := d.reg 1 } }) fun _ ↦ rfl
  unfold reparent
  split
  · exact .ok herr
  · exact QueueInv.neutral.reparentLoop herr _ _ _

theorem QueueInv.handleChannelConnection {s : SystemState} (h : QueueInv s)
    (sender receiver : Pid) :
    Yields (Proc.handleChannelConnection s sender receiver) QueueInv := by
  refine Yields.ite (fun _ ↦ .ok ?_) fun _ ↦ Yields.bind_any fun _ ↦ Yields.bind_any fun _ ↦
    Yields.bind_any fun buff ↦
      Yields.bind (P := QueueInv) ?_ fun t ht ↦ ht.changeState receiver .runnable
  · exact h.modify _ fun _ ↦ rfl
  refine QueueInv.changeState ?_ sender .sendingCh
  refine QueueInv.modify ?_ receiver fun _ ↦ rfl
  refine QueueInv.modify ?_ receiver fun _ ↦ rfl
  refine QueueInv.modify ?_ sender fun _ ↦ rfl
  refine QueueInv.modify ?_ receiver fun _ ↦ rfl
  refine QueueInv.modify ?_ receiver fun _ ↦ rfl
  exact h.modify sender fun _ ↦ rfl

theorem QueueInv.syscallSend {s : SystemState} (h : QueueInv s) :
    Yields (Proc.syscallSend s) QueueInv := by
  unfold Proc.syscallSend
  by_cases htarget : 0 ≤ toInt ((s.procs s.lastPid).reg 0) ∧
      (toInt ((s.procs s.lastPid).reg 0)).toNat < maxProc
  · simp only [dif_pos htarget]
    refine Yields.ite (fun _ ↦ .ok (h.modify _ fun _ ↦ rfl)) fun _ ↦
      Yields.ite (fun _ ↦ .ok (h.modify _ fun _ ↦ rfl)) fun _ ↦ ?_
    refine Yields.ite (fun _ ↦ QueueInv.handleChannelConnection ?_ _ _)
      fun _ ↦ QueueInv.changeState ?_ _ _
    · exact h.modify _ fun _ ↦ rfl
    · exact h.modify _ fun _ ↦ rfl
  · simp only [dif_neg htarget]
    exact .ok (h.modify _ fun _ ↦ rfl)

theorem QueueInv.syscallReceive {s : SystemState} (h : QueueInv s) :
    Yields (Proc.syscallReceive s) QueueInv := by
  refine Yields.bind (QueueInv.changeState ?_ _ _) fun t ht ↦ ?_
  · exact h.modify _ fun _ ↦ rfl
  · cases findWaitingSender t (t.procs s.lastPid).pid with
    | none => exact .ok ht
    | some sender => exact ht.handleChannelConnection sender _

theorem QueueInv.handleChannelAck {s : SystemState} (h : QueueInv s) (receiver sender : Pid) :
    Yields (Proc.handleChannelAck s receiver sender) QueueInv := by
  refine Yields.ite (fun _ ↦ .ok (h.modify _ fun _ ↦ rfl)) fun _ ↦ Yields.bind_any fun _ ↦
    Yields.bind_any fun _ ↦ Yields.bind_any fun buff ↦ QueueInv.changeState ?_ sender .runnable
  refine QueueInv.modify ?_ sender fun _ ↦ rfl
  refine QueueInv.modify ?_ receiver fun _ ↦ rfl
  refine QueueInv.modify ?_ sender fun _ ↦ rfl
  refine QueueInv.modify ?_ sender fun _ ↦ rfl
  refine QueueInv.modify ?_ sender fun _ ↦ rfl
  exact h.modify receiver fun _ ↦ rfl

theorem QueueInv.syscallAcknowledge {s : SystemState} (h : QueueInv s) :
    Yields (Proc.syscallAcknowledge s) QueueInv := by
  refine Yields.ite (fun _ ↦ .ok (h.modify _ fun _ ↦ rfl)) fun _ ↦ QueueInv.handleChannelAck ?_ _ _
  exact h.modify _ fun _ ↦ rfl

/-- Every system call keeps a representation. -/
theorem QueueInv.syscall {s : SystemState} (h : QueueInv s) (code : BitVec 16)
    (mmuTablesStart : BitVec 64) : Yields (Proc.syscall code mmuTablesStart s) QueueInv :=
  Yields.ite (fun _ ↦ h.syscallFork mmuTablesStart) fun _ ↦
    Yields.ite (fun _ ↦ h.syscallExit) fun _ ↦
    Yields.ite (fun _ ↦ h.syscallWait) fun _ ↦
    Yields.ite (fun _ ↦ h.syscallSend) fun _ ↦
    Yields.ite (fun _ ↦ h.syscallReceive) fun _ ↦
    Yields.ite (fun _ ↦ h.syscallAcknowledge) fun _ ↦ .error

/-! ### The kernel keeps a representation -/

theorem Represents.setPids {s : SystemState} {queues : Prio → List Pid} (h : Represents s queues)
    (currPid lastPid : Pid) :
    Represents { s with currPid := currPid, lastPid := lastPid } queues :=
  h.congr (fun _ ↦ rfl) (fun _ ↦ rfl) (fun _ ↦ Iff.rfl) (fun _ ↦ rfl) rfl rfl rfl

theorem Represents.saveContext {k : Kernel} {queues : Prio → List Pid} (h : Represents k.sys queues)
    (frame : Frame) (svcCode : Option (BitVec 16)) :
    Yields (Proc.saveContext k frame svcCode) fun k' ↦ Represents k'.sys queues := by
  intro t ht
  obtain ⟨buffer, rfl⟩ := saveContext_eq_ok ht
  have hsaved := h.modify k.sys.currPid (f := (·.trapped frame svcCode buffer)) fun _ ↦ rfl
  exact hsaved.setPids _ _

theorem QueueInv.saveContext {k : Kernel} (h : QueueInv k.sys) (frame : Frame)
    (svcCode : Option (BitVec 16)) :
    Yields (Proc.saveContext k frame svcCode) fun k' ↦ QueueInv k'.sys := by
  obtain ⟨queues, h⟩ := h
  exact (h.saveContext frame svcCode).mono fun t ht ↦ ⟨queues, ht⟩

theorem Represents.runProcess {k k' : Kernel} {queues : Prio → List Pid}
    (h : Represents k.sys queues) {proc : Pid} {r : Resume}
    (hr : Proc.runProcess k proc = .ok (k', r)) : Represents k'.sys queues := by
  obtain ⟨-, -, -, hsys, -⟩ := runProcess_eq_ok hr
  rw [hsys]
  refine Represents.modify ?_ _ fun _ ↦ rfl
  refine Represents.modify ?_ _ fun _ ↦ rfl
  have hkernel := h.modify kernelPid
    (f := fun d ↦ { d with memConf := { d.memConf with alloc := k.alloc } }) fun _ ↦ rfl
  exact hkernel.setPids _ _

/-- `run_priority` rotates the list of its priority and leaves the others alone. -/
theorem Represents.runPriority {k k' : Kernel} {queues : Prio → List Pid}
    (h : Represents k.sys queues) {prio : Prio} {r : Resume}
    (hr : Proc.runPriority k prio = .ok (k', r)) :
    Represents k'.sys (Function.update queues prio ((queues prio).rotate 1)) := by
  obtain ⟨proc, hproc, hr⟩ := bind_eq_ok.mp hr
  have hrotate := h.rotate (deref_eq_ok.mp hproc)
  refine Represents.runProcess ?_ hr
  split_ifs
  · exact hrotate.modify proc
      (f := fun d ↦ { d with schedConf := { d.schedConf with timeLeft := quantum } }) fun _ ↦ rfl
  · exact hrotate

theorem QueueInv.runProcess {k : Kernel} (h : QueueInv k.sys) (proc : Pid) :
    Yields (Proc.runProcess k proc) fun r ↦ QueueInv r.1.sys := by
  intro r hr
  obtain ⟨queues, h⟩ := h
  exact ⟨queues, h.runProcess hr⟩

theorem QueueInv.runPriority {k : Kernel} (h : QueueInv k.sys) (prio : Prio) :
    Yields (Proc.runPriority k prio) fun r ↦ QueueInv r.1.sys := by
  intro r hr
  obtain ⟨queues, h⟩ := h
  exact ⟨_, h.runPriority hr⟩

theorem QueueInv.schedule {k : Kernel} (h : QueueInv k.sys) (counter : BitVec 64) :
    Yields (Proc.schedule k counter) fun r ↦ QueueInv r.1.sys :=
  Yields.bind_any fun _ ↦ Yields.ite (fun _ ↦ .error) fun _ ↦
    Yields.ite (fun _ ↦ h.runPriority _) fun _ ↦ Yields.ite (fun _ ↦ h.runPriority _) fun _ ↦
      Yields.bind_any fun _ ↦ Yields.bind_any fun prio ↦ h.runPriority prio

/-- Every step of the system keeps a representation. -/
theorem QueueInv.step {k : Kernel} (h : QueueInv k.sys) (a : Action) :
    Yields (Proc.step k a) fun r ↦ QueueInv r.1.sys := by
  cases a with
  | start =>
    exact Yields.ite (fun _ ↦ (h.runProcess initPid).bind fun _ hr ↦ .ok hr) fun _ ↦ .error
  | svc code frame =>
    refine Yields.ite (fun _ ↦ .error) fun _ ↦ (h.saveContext frame _).bind fun t ht ↦ ?_
    exact Yields.ite (fun _ ↦ (ht.runProcess _).bind fun _ hr ↦ .ok hr) fun _ ↦
      (ht.syscall code _).bind fun _ hs ↦ .ok hs
  | timer frame =>
    exact Yields.ite (fun _ ↦ .error) fun _ ↦ (h.saveContext frame _).bind fun _ ht ↦ .ok ht
  | schedule counter =>
    exact Yields.ite (fun _ ↦ (h.schedule counter).bind fun _ hr ↦ .ok hr) fun _ ↦ .error

/-- `init_proc` leaves a represented state. -/
theorem queueInv_of_initProc (boot : Boot) :
    Yields (initProc boot) fun k ↦ QueueInv k.sys := by
  intro k hk
  obtain ⟨s, hs, hsys⟩ := initProc_eq_ok hk
  have hempty : ∀ q, ((bootSys boot).procs q).state ≠ .runnable := by
    intro q
    simp only [bootSys]
    split_ifs <;> simp [newProcDescriptor, zeroDescriptor]
  have hboot : QueueInv (bootSys boot) := by
    refine ⟨fun _ ↦ [], fun _ ↦ isRing_nil _ _, fun _ ↦ rfl, fun prio q ↦ ?_, fun q hq ↦ ?_,
      fun _ ↦ rfl, rfl⟩
    · simp [hempty q]
    · exact absurd hq (hempty q)
  rw [hsys]
  refine QueueInv.modify ?_ _ fun _ ↦ rfl
  refine QueueInv.modify ?_ _ fun _ ↦ rfl
  refine QueueInv.modify ?_ _ fun _ ↦ rfl
  refine QueueInv.modify ?_ _ fun _ ↦ rfl
  exact hboot.changeState initPid .runnable s hs

/-- Every reachable state is represented by lists. -/
theorem Reachable.queueInv {k : Kernel} (hk : Reachable k) : QueueInv k.sys := by
  obtain ⟨history, hrun⟩ := hk
  refine hrun.state_invariant (I := fun k ↦ QueueInv k.sys) ?_ ?_
  · rintro k ⟨boot, hboot⟩
    exact queueInv_of_initProc boot k hboot
  · intro k e k' h hstep
    exact h.step e.action _ hstep

/-! ### The refinement -/

/-- A state that represents the lists read along its pointers. -/
def WellQueued (s : SystemState) : Prop := Represents s (queue s)

theorem QueueInv.wellQueued {s : SystemState} (h : QueueInv s) : WellQueued s := by
  obtain ⟨queues, h⟩ := h
  have hqueue : queue s = queues := funext h.queue_eq
  unfold WellQueued
  rwa [hqueue]

theorem Represents.length_le {s : SystemState} {queues : Prio → List Pid}
    (h : Represents s queues) (prio : Prio) : (queues prio).length ≤ maxProc := by
  simpa using List.Nodup.length_le_card (h.ring prio).nodup

/-- The counters hold the lengths themselves: no queue has more than `MAX_PROC` members. -/
theorem Represents.count_toNat {s : SystemState} {queues : Prio → List Pid}
    (h : Represents s queues) (prio : Prio) :
    (s.prioProcN prio).toNat = (queues prio).length := by
  have hle := h.length_le prio
  rw [h.count, BitVec.toNat_ofNat, Nat.mod_eq_of_lt]
  exact hle.trans_lt (by decide)

theorem Represents.total_toNat {s : SystemState} {queues : Prio → List Pid}
    (h : Represents s queues) :
    s.nRunnableProcs.toNat = ∑ prio, (queues prio).length := by
  have hle : ∑ prio, (queues prio).length ≤ ∑ _prio : Prio, maxProc :=
    Finset.sum_le_sum fun prio _ ↦ h.length_le prio
  have hconst : ∑ _prio : Prio, maxProc = 512 := by simp [maxProc, maxPrio]
  rw [h.total, BitVec.toNat_ofNat, Nat.mod_eq_of_lt]
  omega

/-- The run queues refine lists. In every reachable state the pointers of each priority form a ring,
entered at `prio_proc`, of the runnable processes of that priority, and the counters count them. On
every state with that property `change_state` inserts at the head or erases, and `run_priority`
rotates by one. -/
theorem runQueues_refine_lists {k : Kernel} (hk : Reachable k) :
    (∀ prio, IsRing (nextPrio k.sys) (prevPrio k.sys) (queue k.sys prio) ∧
      k.sys.prioProc prio = (queue k.sys prio).head? ∧
      (∀ q, q ∈ queue k.sys prio ↔
        (k.sys.procs q).state = .runnable ∧ (k.sys.procs q).priority = (prio.val : ℤ)) ∧
      (k.sys.prioProcN prio).toNat = (queue k.sys prio).length) ∧
    k.sys.nRunnableProcs.toNat = ∑ prio, (queue k.sys prio).length ∧
    WellQueued k.sys ∧
    (∀ s, WellQueued s → ∀ q newState,
      (newState = .runnable → ∃ prio : Prio, (s.procs q).priority = prio.val) →
      ∃ s', changeState s q newState = .ok s' ∧ WellQueued s' ∧
        ((s.procs q).state ≠ .runnable → newState = .runnable → ∀ prio : Prio,
          queue s' prio =
            if (s.procs q).priority = prio.val then q :: queue s prio else queue s prio) ∧
        ((s.procs q).state = .runnable → newState ≠ .runnable → ∀ prio : Prio,
          queue s' prio =
            if (s.procs q).priority = prio.val then (queue s prio).erase q else queue s prio) ∧
        (((s.procs q).state = .runnable ↔ newState = .runnable) → queue s' = queue s)) ∧
    (∀ k k' prio r, WellQueued k.sys → runPriority k prio = .ok (k', r) →
      WellQueued k'.sys ∧ ∀ p, queue k'.sys p =
        if p = prio then (queue k.sys p).rotate 1 else queue k.sys p) := by
  have h := hk.queueInv.wellQueued
  refine ⟨fun prio ↦ ⟨h.ring prio, h.head prio, h.mem prio, h.count_toNat prio⟩, h.total_toNat, h,
    fun s hs q newState hprio ↦ ?_, fun k k' prio r hk hr ↦ ?_⟩
  · obtain ⟨s', hs'⟩ := hs.changeState_ok q newState hprio
    have hrep := hs.changeState hs'
    have hqueue : queue s' = changeQueues s (queue s) q newState := funext hrep.queue_eq
    refine ⟨s', hs', QueueInv.wellQueued ⟨_, hrep⟩, fun hnot hnew prio ↦ ?_,
      fun hrun hnew prio ↦ ?_, fun hiff ↦ ?_⟩
    · rw [hqueue, changeQueues, if_neg fun hand ↦ hnot hand.1, if_pos ⟨hnot, hnew⟩]
    · rw [hqueue, changeQueues, if_pos ⟨hrun, hnew⟩]
      split_ifs with hp
      · rfl
      · exact List.erase_of_not_mem fun hmem ↦ hp ((hs.mem prio q).mp hmem).2
    · rw [hqueue, changeQueues, if_neg fun hand ↦ hand.2 (hiff.mp hand.1),
        if_neg fun hand ↦ hand.1 (hiff.mpr hand.2)]
  · have hrep := Represents.runPriority hk hr
    refine ⟨QueueInv.wellQueued ⟨_, hrep⟩, fun p ↦ ?_⟩
    rw [hrep.queue_eq, Function.update_apply]
    split_ifs with hp
    · rw [hp]
    · rfl

/-- Two children of the same priority: the lists after two forks and a selection by the
scheduler. -/
theorem runQueues_refine_lists_forks :
    ∃ k, Reachable k ∧ queue k.sys 15 = [3, 1, 2] ∧
      (k.sys.prioProcN 15).toNat = (queue k.sys 15).length := by
  obtain ⟨history, k, hrun, hqueue⟩ := exists_run sampleBoot
    [.start, .svc 0 (sampleFrame [15]), .schedule 0, .svc 0 (sampleFrame [15])]
    (fun _ k ↦ queue k.sys 15 = [3, 1, 2]) (by decide +kernel)
  exact ⟨k, ⟨history, hrun⟩, of_decide_eq_true hqueue,
    ((runQueues_refine_lists ⟨history, hrun⟩).1 15).2.2.2⟩

end SysresOs.Proc
