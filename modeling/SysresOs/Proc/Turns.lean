import SysresOs.Lib.Rotation
import SysresOs.Proc.Choice
import SysresOs.Proc.Priority

/-!
# Turns

`run_priority` runs the head of a queue and puts it at the end, and `change_state` puts a process
that becomes runnable at the head, before those that have waited. `turns_bounded` says what this
means for a process that is runnable and not chosen: the processes of its priority are chosen at
most as often as there are processes before it and as processes of its priority become runnable
meanwhile. It waits for ever only if its priority is no more chosen, or others of its priority
become runnable again and again.
-/

set_option autoImplicit false
set_option relaxedAutoImplicit false

namespace SysresOs.Proc

open SysresOs.Ring SysresOs.Outcome SysresOs.Rotation SysresOs.Trace

/-! ### What a step does to the queues -/

/-- The queues of the state are those at the start of a step, without some of their members and with
some of the entrants before the others. -/
def Follows (start : Prio → List Pid) (entrant : Pid → Prop) (s : SystemState) : Prop :=
  ∃ queues, Represents s queues ∧ ∀ prio, ∃ ins rest, queues prio = ins ++ rest ∧
    rest.Sublist (start prio) ∧ ∀ q ∈ ins, entrant q

section Follows

variable {start : Prio → List Pid} {entrant : Pid → Prop} {s : SystemState}

theorem Represents.follows (h : Represents s start) : Follows start entrant s :=
  ⟨start, h, fun prio ↦ ⟨[], start prio, rfl, List.Sublist.refl _,
    fun _ hq ↦ absurd hq List.not_mem_nil⟩⟩

theorem Follows.modify (h : Follows start entrant s) (p : Pid) {f : ProcDescriptor → ProcDescriptor}
    (hf : ∀ d, (f d).queueData = d.queueData) : Follows start entrant (s.modify p f) := by
  obtain ⟨queues, hrep, hshape⟩ := h
  exact ⟨queues, hrep.modify p hf, hshape⟩

/-- A process that becomes runnable enters at the head, and one that becomes blocked leaves. -/
theorem Follows.changeState (h : Follows start entrant s) {q : Pid} {newState : ProcState}
    (hq : newState = .runnable → (s.procs q).state ≠ .runnable → entrant q) :
    Yields (Proc.changeState s q newState) (Follows start entrant) := by
  intro s' hs'
  obtain ⟨queues, hrep, hshape⟩ := h
  refine ⟨_, hrep.changeState hs', fun prio ↦ ?_⟩
  obtain ⟨ins, rest, hsplit, hrest, hins⟩ := hshape prio
  unfold changeQueues
  split_ifs with hleave henter
  all_goals beta_reduce
  · rw [hsplit, List.erase_append]
    split_ifs with hmem
    · exact ⟨ins.erase q, rest, rfl, hrest, fun r hr ↦ hins r (List.mem_of_mem_erase hr)⟩
    · exact ⟨ins, rest.erase q, rfl, (List.erase_sublist).trans hrest, hins⟩
  · by_cases hprio : (s.procs q).priority = prio.val
    · rw [if_pos hprio, hsplit]
      exact ⟨q :: ins, rest, rfl, hrest, List.forall_mem_cons.mpr ⟨hq henter.2 henter.1, hins⟩⟩
    · rw [if_neg hprio]
      exact ⟨ins, rest, hsplit, hrest, hins⟩
  · exact ⟨ins, rest, hsplit, hrest, hins⟩

/-- A process that leaves its queue. -/
theorem Follows.block (h : Follows start entrant s) (q : Pid) {newState : ProcState}
    (hnew : newState ≠ .runnable) :
    Yields (Proc.changeState s q newState) (Follows start entrant) :=
  h.changeState fun heq ↦ absurd heq hnew

/-- A process that enters its queue. -/
theorem Follows.wake (h : Follows start entrant s) {q : Pid} (hq : entrant q) :
    Yields (Proc.changeState s q .runnable) (Follows start entrant) :=
  h.changeState fun _ _ ↦ hq

theorem Follows.neutral : Neutral (Follows start entrant) := fun p _ h hf ↦ h.modify p hf

/-- `fork` lets the child enter. -/
theorem Follows.syscallFork (h : Follows start entrant s)
    (hentrant : ∀ q, s.states q ≠ .runnable → entrant q)
    (mmuTablesStart : BitVec 64) :
    Yields (Proc.syscallFork mmuTablesStart s) (Follows start entrant) := by
  intro s' hs'
  cases forks_of_syscallFork mmuTablesStart s s' hs' with
  | failed no => exact h.modify _ fun _ ↦ rfl
  | forked child t u hfind _ ht hu =>
    have hfree : s.states child = .free := (findFreeProc_free hfind).2
    obtain ⟨queues, hrep, hshape⟩ := h
    have hslot : Follows start entrant (forkSlot s child) := ⟨queues, hrep.forkSlot hfree, hshape⟩
    have hadded := Follows.neutral.addChild hslot s.lastPid child t ht
    have henters : entrant child := hentrant child (by rw [hfree]; decide)
    have hrunnable := hadded.wake henters u hu
    refine Follows.modify ?_ child fun _ ↦ rfl
    exact hrunnable.modify child fun _ ↦ rfl

/-- The parent to which an exit is reported enters, if it was not runnable. -/
theorem Follows.handleZombieChild (h : Follows start entrant s) {parent child : Pid}
    (hparent : s.states parent ≠ .runnable → entrant parent) (hne : parent ≠ child) :
    Yields (Proc.handleZombieChild s parent child) (Follows start entrant) := by
  have hstates := states_modify s parent (f := (·.setX0 (ofPid (s.procs child).pid))) fun _ ↦ rfl
  have hx0 := h.modify parent (f := (·.setX0 (ofPid (s.procs child).pid))) fun _ ↦ rfl
  refine Yields.bind (P := fun t ↦ Follows start entrant t ∧ t.states = s.states)
    (fun t ht ↦ ?_) fun t ht ↦ ?_
  · exact ⟨Follows.neutral.reportStatus hx0 parent child _ t ht,
      (reportStatus_kin t ht).1.trans hstates⟩
  refine Yields.bind (P := fun u ↦ Follows start entrant u ∧ u.states = s.states)
    (fun u hu ↦ ?_) fun u hu ↦ ?_
  · exact ⟨Follows.neutral.removeChild ht.1 parent child u hu, (removeChild_kin u hu).1.trans ht.2⟩
  refine Yields.bind (P := fun v ↦ Follows start entrant v ∧ v.states parent = s.states parent)
    (fun v hv ↦ ?_) fun v hv ↦ hv.1.changeState fun _ hstate ↦ hparent ?_
  · refine ⟨hu.1.block child (by decide) v hv, ?_⟩
    rw [(changeState_kin hv).2, Function.update_of_ne hne, hu.2]
  · rw [← hv.2]
    exact hstate

/-- The process that waits for its children was runnable, and stays in its place when it need not
wait. -/
theorem Follows.syscallWait (h : Follows start entrant s) (hrun : s.states s.lastPid = .runnable) :
    Yields (Proc.syscallWait s) (Follows start entrant) := by
  have hzombie : ∀ child, (s.procs child).state = .zombie →
      Yields (Proc.handleZombieChild s s.lastPid child) (Follows start entrant) := by
    intro child hchild
    refine h.handleZombieChild (fun hnot ↦ absurd hrun hnot) ?_
    rintro rfl
    exact nomatch hrun.symm.trans hchild
  refine Yields.bind_any fun _ ↦ ?_
  cases hchild : (s.procs s.lastPid).child with
  | none => exact .ok (h.modify _ fun _ ↦ rfl)
  | some head =>
    refine Yields.ite (fun hhead ↦ hzombie head hhead) fun _ ↦ Yields.bind_any fun child ↦ ?_
    exact Yields.ite (fun hfound ↦ hzombie child hfound) fun _ ↦ h.block _ (by decide)

/-- `exit` lets the parent enter if it waits. -/
theorem Follows.syscallExit (h : Follows start entrant s)
    (hentrant : ∀ q, s.states q ≠ .runnable → entrant q)
    (hrun : s.states s.lastPid = .runnable) :
    Yields (Proc.syscallExit s) (Follows start entrant) := by
  have herr := h.modify s.lastPid (f := fun d ↦
    { d with err := { d.err with no := (d.reg 0).setWidth 32, data := d.reg 1 } }) fun _ ↦ rfl
  refine Yields.bind (P := fun t ↦ Follows start entrant t ∧ t.states = s.states) ?_ fun t ht ↦ ?_
  · have hstates : (exitingState s).states = s.states := (exitingState_kin s).2
    unfold reparent
    split
    · exact .ok ⟨herr, hstates⟩
    · have hneutral : Neutral fun t ↦ Follows start entrant t ∧ t.states = s.states :=
        fun p _ h hf ↦
        ⟨h.1.modify p hf, (states_modify _ p fun d ↦ congrArg (·.2.2.1) (hf d)).trans h.2⟩
      exact hneutral.reparentLoop ⟨herr, hstates⟩ _ _ _
  refine Yields.ite (fun hwait ↦ ?_) fun _ ↦ ht.1.block _ (by decide)
  have hwaiting : t.states (t.procs s.lastPid).parentPid = .waiting := hwait
  have hrunning : t.states s.lastPid = .runnable := by rw [ht.2, hrun]
  refine ht.1.handleZombieChild (fun hnot ↦ hentrant _ ?_) fun heq ↦ ?_
  · rwa [← ht.2]
  · rw [heq, hrunning] at hwaiting
    exact nomatch hwaiting

/-- The receiver enters when a message is delivered. -/
theorem Follows.handleChannelConnection (h : Follows start entrant s) (sender : Pid)
    {receiver : Pid} (hreceiver : entrant receiver) :
    Yields (Proc.handleChannelConnection s sender receiver) (Follows start entrant) := by
  refine Yields.ite (fun _ ↦ .ok (h.modify _ fun _ ↦ rfl)) fun _ ↦ Yields.bind_any fun _ ↦
    Yields.bind_any fun _ ↦
    Yields.bind_any fun buff ↦ Yields.bind (P := Follows start entrant) ?_ fun t ht ↦
    ht.wake hreceiver
  refine Follows.block ?_ sender (by decide)
  refine Follows.modify ?_ receiver fun _ ↦ rfl
  refine Follows.modify ?_ receiver fun _ ↦ rfl
  refine Follows.modify ?_ sender fun _ ↦ rfl
  refine Follows.modify ?_ receiver fun _ ↦ rfl
  refine Follows.modify ?_ receiver fun _ ↦ rfl
  exact h.modify sender fun _ ↦ rfl

/-- `send` lets the target enter if it listens. -/
theorem Follows.syscallSend (h : Follows start entrant s)
    (hentrant : ∀ q, s.states q ≠ .runnable → entrant q) :
    Yields (Proc.syscallSend s) (Follows start entrant) := by
  unfold Proc.syscallSend
  by_cases htarget : 0 ≤ toInt ((s.procs s.lastPid).reg 0) ∧
      (toInt ((s.procs s.lastPid).reg 0)).toNat < maxProc
  · simp only [dif_pos htarget]
    refine Yields.ite (fun _ ↦ .ok (h.modify _ fun _ ↦ rfl)) fun _ ↦
      Yields.ite (fun _ ↦ .ok (h.modify _ fun _ ↦ rfl)) fun _ ↦ ?_
    refine Yields.ite (fun hlisten ↦ Follows.handleChannelConnection ?_ _ (hentrant _ ?_))
      fun _ ↦ Follows.block ?_ _ (by decide)
    · exact h.modify _ fun _ ↦ rfl
    · intro hrun
      rw [SystemState.modify_procs] at hlisten
      split_ifs at hlisten with hself
      · exact nomatch (hself ▸ hrun).symm.trans hlisten
      · exact nomatch hrun.symm.trans hlisten
    · exact h.modify _ fun _ ↦ rfl
  · simp only [dif_neg htarget]
    exact .ok (h.modify _ fun _ ↦ rfl)

/-- `receive` lets the caller enter again if a sender waits for it. -/
theorem Follows.syscallReceive (h : Follows start entrant s) (hcaller : entrant s.lastPid) :
    Yields (Proc.syscallReceive s) (Follows start entrant) := by
  refine Yields.bind (P := Follows start entrant) (Follows.block ?_ _ (by decide)) fun t ht ↦ ?_
  · exact h.modify _ fun _ ↦ rfl
  · cases findWaitingSender t (t.procs s.lastPid).pid with
    | none => exact .ok ht
    | some sender => exact ht.handleChannelConnection sender hcaller

/-- `acknowledge` lets the sender enter. -/
theorem Follows.handleChannelAck (h : Follows start entrant s)
    (hentrant : ∀ q, s.states q ≠ .runnable → entrant q) (receiver sender : Pid) :
    Yields (Proc.handleChannelAck s receiver sender) (Follows start entrant) := by
  refine Yields.ite (fun _ ↦ .ok (h.modify _ fun _ ↦ rfl)) fun hsending ↦ Yields.bind_any fun _ ↦
    Yields.bind_any fun _ ↦ Yields.bind_any fun buff ↦ Follows.wake ?_ (hentrant sender ?_)
  · refine Follows.modify ?_ sender fun _ ↦ rfl
    refine Follows.modify ?_ receiver fun _ ↦ rfl
    refine Follows.modify ?_ sender fun _ ↦ rfl
    refine Follows.modify ?_ sender fun _ ↦ rfl
    refine Follows.modify ?_ sender fun _ ↦ rfl
    exact h.modify receiver fun _ ↦ rfl
  · intro hrun
    refine hsending (.inr ?_)
    rw [show (s.procs sender).state = .runnable from hrun]
    decide

theorem Follows.syscallAcknowledge (h : Follows start entrant s)
    (hentrant : ∀ q, s.states q ≠ .runnable → entrant q) :
    Yields (Proc.syscallAcknowledge s) (Follows start entrant) := by
  have hstates := states_modify s s.lastPid (f := fun d ↦ { d with
    receiverData := { d.receiverData with returnCode := (d.reg 0).setWidth 32 } }) fun _ ↦ rfl
  refine Yields.ite (fun _ ↦ .ok (h.modify _ fun _ ↦ rfl)) fun _ ↦
    Follows.handleChannelAck ?_ (fun q hq ↦ ?_) _ _
  · exact h.modify _ fun _ ↦ rfl
  · rw [hstates] at hq
    exact hentrant q hq

/-- A system call lets processes enter that were not runnable, and the caller of `receive`. -/
theorem Follows.syscall (h : Follows start entrant s) (hrun : s.states s.lastPid = .runnable)
    (code : BitVec 16)
    (hentrant : ∀ q, s.states q ≠ .runnable ∨ code = 4 ∧ q = s.lastPid → entrant q)
    (mmuTablesStart : BitVec 64) :
    Yields (Proc.syscall code mmuTablesStart s) (Follows start entrant) := by
  have hblocked : ∀ q, s.states q ≠ .runnable → entrant q := fun q hq ↦ hentrant q (.inl hq)
  exact Yields.ite (fun _ ↦ h.syscallFork hblocked mmuTablesStart) fun _ ↦
    Yields.ite (fun _ ↦ h.syscallExit hblocked hrun) fun _ ↦
    Yields.ite (fun _ ↦ h.syscallWait hrun) fun _ ↦
    Yields.ite (fun _ ↦ h.syscallSend hblocked) fun _ ↦
    Yields.ite (fun hcode ↦ h.syscallReceive (hentrant _ (.inr ⟨hcode, rfl⟩))) fun _ ↦
    Yields.ite (fun _ ↦ h.syscallAcknowledge hblocked) fun _ ↦ .error

end Follows

/-- The processes that may enter a queue in a step: those that were not runnable, and the caller of
`receive`. -/
def Entrant (k : Kernel) (a : Action) (q : Pid) : Prop :=
  k.sys.states q ≠ .runnable ∨ a.code = some 4 ∧ q = k.sys.currPid

instance (k : Kernel) (a : Action) (q : Pid) : Decidable (Entrant k a q) :=
  inferInstanceAs (Decidable (_ ∨ _))

/-- A step that is not a selection. -/
theorem Represents.step_follows {k : Kernel} {queues : Prio → List Pid}
    (h : Represents k.sys queues) (hsane : Sane k.sys.views k.sys.currPid) (a : Action)
    (ha : ∀ counter, a ≠ .schedule counter) :
    Yields (step k a) fun r ↦ Follows queues (Entrant k a) r.1.sys := by
  cases a with
  | start =>
    refine Yields.ite (fun _ ↦ Yields.bind (P := fun r ↦ Represents r.1.sys queues)
      (fun r hr ↦ h.runProcess hr) fun r hr ↦ .ok hr.follows) fun _ ↦ .error
  | svc code frame =>
    refine Yields.ite (fun _ ↦ .error) fun hcurr ↦
      Yields.bind (P := fun t ↦ Represents t.sys queues ∧
      t.sys.lastPid = k.sys.currPid ∧ t.sys.states = k.sys.states) (fun t ht ↦ ?_) fun t ht ↦ ?_
    · obtain ⟨hlast, hstates, -⟩ := trap_leaves ht
      exact ⟨h.saveContext frame _ t ht, hlast, hstates⟩
    obtain ⟨hrep, hlast, hstates⟩ := ht
    refine Yields.ite (fun _ ↦ ?_) fun _ ↦ ?_
    · exact Yields.bind (P := fun r ↦ Represents r.1.sys queues) (fun r hr ↦ hrep.runProcess hr)
        fun r hr ↦ .ok hr.follows
    · refine (hrep.follows.syscall ?_ code (fun q hq ↦ ?_) _).bind fun u hu ↦ .ok hu
      · rw [hstates, hlast]
        exact hsane.running hcurr
      · rw [hstates, hlast] at hq
        exact hq.imp_right fun hand ↦ ⟨congrArg some hand.1, hand.2⟩
  | timer frame =>
    exact Yields.ite (fun _ ↦ .error) fun _ ↦ (h.saveContext frame none).bind fun t ht ↦
      .ok ht.follows
  | schedule counter => exact absurd rfl (ha counter)

/-- A selection runs the head of a queue and puts it at the end. -/
theorem Represents.runPriority_turn {k : Kernel} {queues : Prio → List Pid}
    (h : Represents k.sys queues) (hsane : Sane k.sys.views k.sys.currPid) (prio : Prio) :
    Yields (Proc.runPriority k prio) fun r ↦ (queues prio).head? = some r.2.pid ∧
      Represents r.1.sys (Function.update queues prio ((queues prio).rotate 1)) := by
  rintro ⟨k', r⟩ hr
  refine ⟨?_, h.runPriority hr⟩
  rw [runPriority_eq] at hr
  obtain ⟨proc, hproc, hr⟩ := bind_eq_ok.mp hr
  have hhead : (queues prio).head? = some proc := (h.head prio).symm.trans (deref_eq_ok.mp hproc)
  obtain ⟨hstate, -⟩ := (h.mem prio proc).mp (List.mem_of_head? hhead)
  have hpid : (k.sys.procs proc).pid = proc :=
    hsane.pid proc fun hfree ↦ nomatch hfree.symm.trans hstate
  have hpids : Has ProcDescriptor.pid (fun q ↦ (k.sys.procs q).pid) k.sys := fun _ ↦ rfl
  have hsame : ((rotated k.sys prio proc).procs proc).pid = (k.sys.procs proc).pid :=
    hpids.rotated (fun _ _ ↦ rfl) prio proc proc
  rw [hhead, (runProcess_eq_ok hr).2.2.2.2.1, hsame, hpid]

theorem Represents.schedule_turn {k : Kernel} {queues : Prio → List Pid}
    (h : Represents k.sys queues) (hsane : Sane k.sys.views k.sys.currPid) (counter : BitVec 64) :
    Yields (Proc.schedule k counter) fun r ↦ ∃ prio, (queues prio).head? = some r.2.pid ∧
      Represents r.1.sys (Function.update queues prio ((queues prio).rotate 1)) := by
  have hturn : ∀ prio, Yields (Proc.runPriority k prio) fun r ↦
      ∃ prio, (queues prio).head? = some r.2.pid ∧
      Represents r.1.sys (Function.update queues prio ((queues prio).rotate 1)) :=
    fun prio ↦ (h.runPriority_turn hsane prio).mono fun _ hr ↦ ⟨prio, hr⟩
  exact Yields.bind_any fun _ ↦ Yields.ite (fun _ ↦ .error) fun _ ↦
    Yields.ite (fun _ ↦ hturn _) fun _ ↦
    Yields.ite (fun _ ↦ hturn _) fun _ ↦ Yields.bind_any fun _ ↦ Yields.bind_any fun prio ↦
    hturn prio

/-! ### The count of the turns -/

/-- Whether the step is a selection of a process of the priority. -/
def selections (prio : Prio) (t : Transition Kernel Event) : ℕ :=
  match t.label.action, t.label.resume with
  | .schedule _, some r => if (t.pre.sys.procs r.pid).priority = prio.val then 1 else 0
  | _, _ => 0

/-- The number of the processes of the priority that become runnable in the step. A process that
calls `receive` and finds a sender does so too: it listens in between. -/
def entries (prio : Prio) (t : Transition Kernel Event) : ℕ :=
  (Finset.univ.filter fun q ↦ t.post.sys.states q = .runnable ∧
    (t.post.sys.procs q).priority = (prio.val : ℤ) ∧ Entrant t.pre t.label.action q).card

/-- A step that is not a selection puts before a process only those that enter. -/
theorem Follows.idxOf_le {k k' : Kernel} {e : Event} {queues queues' : Prio → List Pid}
    (h : Represents k.sys queues) (h' : Represents k'.sys queues')
    (hfollows : Follows queues (Entrant k e.action) k'.sys) {p : Pid} {prio : Prio}
    (hp : p ∈ queues' prio) :
    (queues' prio).idxOf p ≤ (queues prio).idxOf p + entries prio ⟨k, e, k'⟩ := by
  obtain ⟨_, hrep, hshape⟩ := hfollows
  obtain ⟨ins, rest, hsplit, hrest, hins⟩ := hshape prio
  rw [← hrep.queue_eq, h'.queue_eq] at hsplit
  have hnodup := (h'.ring prio).nodup
  rw [hsplit] at hp hnodup ⊢
  refine (idxOf_append_le hrest (h.ring prio).nodup hp).trans (Nat.add_le_add_left ?_ _)
  have hcard : ins.toFinset.card = ins.length := List.toFinset_card_of_nodup hnodup.of_append_left
  rw [← hcard]
  refine Finset.card_le_card fun q hq ↦ ?_
  have hq := List.mem_toFinset.mp hq
  have hmem : q ∈ queues' prio := by
    rw [hsplit]
    exact List.mem_append_left rest hq
  obtain ⟨hstate, hprio⟩ := (h'.mem prio q).mp hmem
  exact Finset.mem_filter.mpr ⟨Finset.mem_univ q, hstate, hprio, hins q hq⟩

/-- A selection of another process of the priority brings a process one place nearer. -/
theorem idxOf_schedule {k k' : Kernel} {r : Resume} {counter : BitVec 64}
    {queues queues' : Prio → List Pid} (h : Represents k.sys queues)
    (h' : Represents k'.sys queues') (hsane : Sane k.sys.views k.sys.currPid)
    (hr : Proc.schedule k counter = .ok (k', r)) {p : Pid} {prio : Prio} (hp : p ∈ queues prio)
    (hne : r.pid ≠ p) :
    (queues' prio).idxOf p + selections prio ⟨k, ⟨.schedule counter, some r⟩, k'⟩ =
      (queues prio).idxOf p := by
  obtain ⟨chosen, hhead, hrep⟩ := h.schedule_turn hsane counter _ hr
  have hqueue : queues' prio = Function.update queues chosen ((queues chosen).rotate 1) prio := by
    rw [← hrep.queue_eq, h'.queue_eq]
  have hmem : r.pid ∈ queues chosen := List.mem_of_head? hhead
  change _ + (if (k.sys.procs r.pid).priority = prio.val then 1 else 0) = _
  by_cases hprio : prio = chosen
  · subst hprio
    rw [if_pos ((h.mem prio r.pid).mp hmem).2, hqueue, Function.update_self]
    refine idxOf_rotate hp ?_
    rw [hhead]
    exact fun heq ↦ hne (Option.some.inj heq)
  · have hother : (k.sys.procs r.pid).priority ≠ prio.val := by
      intro hsame
      have hstate := ((h.mem chosen r.pid).mp hmem).1
      exact hprio (h.prio_unique ((h.mem prio r.pid).mpr ⟨hstate, hsame⟩) hmem)
    rw [if_neg hother, hqueue, Function.update_of_ne hprio]
    rfl

/-- In one step, a runnable process that is not run comes nearer by the selections of its priority,
and goes back by at most the entries. -/
theorem SysRun.turn_step {past : History} {k k' : Kernel} {e : Event} (hrun : SysRun past k)
    (hstep : Step k e k') {p : Pid} {prio : Prio} (hp : p ∈ queue k.sys prio)
    (hp' : p ∈ queue k'.sys prio) (hne : ∀ r, e.resume = some r → r.pid ≠ p) :
    (queue k'.sys prio).idxOf p + selections prio ⟨k, e, k'⟩ ≤
      (queue k.sys prio).idxOf p + entries prio ⟨k, e, k'⟩ := by
  have hsane := SysRun.sane hrun
  have h : Represents k.sys (queue k.sys) := (Reachable.queueInv ⟨past, hrun⟩).wellQueued
  have h' : Represents k'.sys (queue k'.sys) := (Reachable.queueInv ⟨_, hrun.next hstep⟩).wellQueued
  obtain ⟨action, resume⟩ := e
  cases action with
  | schedule counter =>
    have hschedule : Yields (Proc.step k (.schedule counter)) fun r ↦ ∃ r', r.2 = some r' ∧
        Proc.schedule k counter = .ok (r.1, r') :=
      Yields.ite (fun _ ↦ Yields.bind (P := fun r ↦ Proc.schedule k counter = .ok r) (fun _ hr ↦ hr)
        fun r hr ↦ .ok ⟨r.2, rfl, hr⟩) fun _ ↦ .error
    obtain ⟨r, hresume, hr⟩ := hschedule _ hstep
    obtain rfl : resume = some r := hresume
    exact (idxOf_schedule h h' hsane hr hp (hne r rfl)).le.trans (Nat.le_add_right _ _)
  | start =>
    exact Follows.idxOf_le h h' (h.step_follows hsane _ (fun counter heq ↦ by cases heq) _ hstep)
      hp'
  | svc code frame =>
    exact Follows.idxOf_le h h' (h.step_follows hsane _ (fun counter heq ↦ by cases heq) _ hstep)
      hp'
  | timer frame =>
    exact Follows.idxOf_le h h' (h.step_follows hsane _ (fun counter heq ↦ by cases heq) _ hstep)
      hp'

/-- A process that stays runnable keeps its priority. -/
theorem SysRun.priority_kept {past : History} {k k' : Kernel} {e : Event} (hrun : SysRun past k)
    (hstep : Step k e k') {p : Pid} (hp : k.sys.states p = .runnable) :
    (k'.sys.procs p).priority = (k.sys.procs p).priority := by
  have hzero : p ≠ 0 := by
    rintro rfl
    exact nomatch (((SysRun.settled hrun).proper kernelPid).kernel rfl).symm.trans hp
  cases coreChange_of_step (SysRun.sane hrun) hstep hzero with
  | kept hresume htrap hfree hcore => exact congrArg Core.priority hcore
  | trapped haction hresume hcurr hcore => exact congrArg Core.priority hcore
  | born haction hresume hfree hnew hle hcore => exact nomatch hp.symm.trans hfree
  | resumed haction hresume halloc hcore => exact congrArg Core.priority hcore
  | again haction hresume hcurr halloc hcore => exact congrArg Core.priority hcore

/-- In a stretch of a run in which a process stays runnable and is not run, the processes of its
priority are selected at most as often as there were processes before it in its queue and as
processes of its priority became runnable. In particular they are selected less often than the queue
had processes, if none became runnable. -/
theorem turns_bounded {later past : History} {t : Transition Kernel Event} {k : Kernel}
    (hrun : SysRun (later ++ t :: past) k) {p : Pid} {prio : Prio}
    (hready : t.post.sys.states p = .runnable)
    (hprio : (t.post.sys.procs p).priority = (prio.val : ℤ))
    (hlater : ∀ u ∈ later, u.post.sys.states p = .runnable ∧
      ∀ r, u.label.resume = some r → r.pid ≠ p) :
    (queue k.sys prio).idxOf p + (later.map (selections prio)).sum ≤
        (queue t.post.sys prio).idxOf p + (later.map (entries prio)).sum ∧
      (queue t.post.sys prio).idxOf p < (t.post.sys.prioProcN prio).toNat := by
  have hmem : ∀ {past : History} {k : Kernel}, SysRun past k → k.sys.states p = .runnable →
      (k.sys.procs p).priority = (prio.val : ℤ) → p ∈ queue k.sys prio := fun hrun hstate hprio ↦
    (((Reachable.queueInv ⟨_, hrun⟩).wellQueued).mem prio p).mpr ⟨hstate, hprio⟩
  refine ⟨(sum_cost_le (P := fun k ↦ k.sys.states p = .runnable ∧
    (k.sys.procs p).priority = (prio.val : ℤ))
    (fun k ↦ (queue k.sys prio).idxOf p) (selections prio) (entries prio) hrun ⟨hready, hprio⟩
    fun u hu before hbefore hstep ⟨hstate, hpre⟩ ↦ ?_).2, ?_⟩
  · obtain ⟨hpost, hne⟩ := hlater u hu
    have hkept := (SysRun.priority_kept hbefore hstep hstate).trans hpre
    exact ⟨⟨hpost, hkept⟩, SysRun.turn_step hbefore hstep (hmem hbefore hstate hpre)
      (hmem (hbefore.next hstep) hpost hkept) hne⟩
  · have hpast := hrun.upTo
    rw [((Reachable.queueInv ⟨_, hpast⟩).wellQueued).count_toNat]
    exact List.idxOf_lt_length_of_mem (hmem hpast hready hprio)

/-- `init` forks, and the child is chosen and interrupted. -/
def childFirst : List Action :=
  [.start, .svc 0 (sampleFrame [15]), .schedule 0, .timer (sampleFrame [])]

/-- `init` has waited for its child, and is the next. -/
theorem turns_bounded_childFirst :
    ∃ later t past k, SysRun (later ++ t :: past) k ∧ queue t.post.sys 15 = [2, 1] ∧
    later.length = 2 ∧ (later.map (entries 15)).sum = 0 ∧
    (queue k.sys 15).idxOf 1 + (later.map (selections 15)).sum ≤ 1 := by
  obtain ⟨history, k, hrun, hstate⟩ := exists_run sampleBoot childFirst
    (fun history _ ↦ (∀ u ∈ history.take 2, u.post.sys.states 1 = .runnable ∧
      ∀ r ∈ u.label.resume, r.pid ≠ 1) ∧
      ((history.take 2).length = 2 ∧ ((history.take 2).map (entries 15)).sum = 0) ∧
      ∃ t ∈ (history.drop 2).head?, t.post.sys.states 1 = .runnable ∧
        (t.post.sys.procs 1).priority = 15 ∧ queue t.post.sys 15 = [2, 1]) (by decide +kernel)
  obtain ⟨hlater, ⟨hlength, hentries⟩, t, ht, hready, hprio, hqueue⟩ := of_decide_eq_true hstate
  obtain ⟨past, hpast⟩ := List.head?_eq_some_iff.mp ht
  rw [← List.take_append_drop 2 history, hpast] at hrun
  have hprio : (t.post.sys.procs 1).priority = ((15 : Prio).val : ℤ) := hprio
  obtain ⟨hbound, -⟩ := turns_bounded hrun hready hprio hlater
  rw [hqueue, hentries] at hbound
  exact ⟨_, t, past, k, hrun, hqueue, hlength, hentries, hbound⟩

end SysresOs.Proc
