import SysresOs.Proc.Exchange

/-!
# The discipline of a server

The managers of the system are loops that receive a request and acknowledge it. `server_discipline`
is the contract they rely on: whatever the other processes do, a process that calls `receive` and
`acknowledge` in turns gets `0` from every acknowledgement, which releases exactly the process that
the preceding receive named, and that process is left alone from the one to the other.
-/

set_option autoImplicit false
set_option relaxedAutoImplicit false

namespace SysresOs.Proc

open SysresOs.Outcome SysresOs.Trace

/-! ### Alternation -/

/-- A transition in which `p` calls `receive`. -/
def Receives (t : Transition Kernel Event) (p : Pid) : Prop := ∃ frame, Traps t p 4 frame

/-- A transition in which `p` calls `acknowledge`. -/
def Answers (t : Transition Kernel Event) (p : Pid) : Prop := ∃ frame, Traps t p 5 frame

/-- Of the calls of `receive` and `acknowledge` that `p` has made since it was forked, the last is a
`receive`. -/
def Receiving : History → Pid → Prop
  | [], _ => False
  | t :: history, p => Receives t p ∨ (Receiving history p ∧ ¬ Answers t p ∧ ¬ Born t p)

/-- Since it was forked, `p` has called `receive` and `acknowledge` in turns, with sizes that the
kernel accepts. Its other system calls are not restricted. -/
def Alternates : History → Pid → Prop
  | [], _ => True
  | t :: history, p => Born t p ∨ (Alternates history p ∧ (Receives t p → ¬ Receiving history p) ∧
      (Answers t p → Receiving history p ∧ Acknowledges t p))

/-- Whether a step is a system call of the running process with a given code and a property of its
frame. -/
def Action.isSvc (code : BitVec 16) (P : Frame → Bool) : Action → Bool
  | .svc code' frame => code' = code && P frame
  | _ => false

theorem traps_iff (t : Transition Kernel Event) (p : Pid) (code : BitVec 16) (P : Frame → Bool) :
    (∃ frame, Traps t p code frame ∧ P frame) ↔
      t.pre.sys.currPid = p ∧ t.label.action.isSvc code P := by
  unfold Traps
  cases t.label.action with
  | svc code' frame =>
    simp only [Action.svc.injEq, Action.isSvc, Bool.and_eq_true, decide_eq_true_eq]
    constructor
    · rintro ⟨_, ⟨hp, hcode, rfl⟩, hP⟩
      exact ⟨hp, hcode, hP⟩
    · rintro ⟨hp, hcode, hP⟩
      exact ⟨frame, ⟨hp, hcode, rfl⟩, hP⟩
  | _ => simp [Action.isSvc]

instance (t : Transition Kernel Event) (p : Pid) : Decidable (Receives t p) :=
  decidable_of_iff _ ((traps_iff t p 4 fun _ ↦ true).symm.trans (by simp [Receives]))

instance (t : Transition Kernel Event) (p : Pid) : Decidable (Answers t p) :=
  decidable_of_iff _ ((traps_iff t p 5 fun _ ↦ true).symm.trans (by simp [Answers]))

instance (t : Transition Kernel Event) (p : Pid) : Decidable (Acknowledges t p) :=
  decidable_of_iff _ ((traps_iff t p 5 fun frame ↦ (frame.registers 2).toNat ≤ buffSize).symm.trans
    (by simp [Acknowledges]))

instance (t : Transition Kernel Event) (p : Pid) : Decidable (Born t p) :=
  inferInstanceAs (Decidable (_ ∧ _))

instance decidableReceiving : (history : History) → (p : Pid) → Decidable (Receiving history p)
  | [], _ => inferInstanceAs (Decidable False)
  | t :: history, p =>
    have := decidableReceiving history p
    inferInstanceAs (Decidable (Receives t p ∨ (Receiving history p ∧ ¬ Answers t p ∧ ¬ Born t p)))

instance decidableAlternates : (history : History) → (p : Pid) → Decidable (Alternates history p)
  | [], _ => inferInstanceAs (Decidable True)
  | t :: history, p =>
    have := decidableAlternates history p
    inferInstanceAs (Decidable (Born t p ∨ (Alternates history p ∧
      (Receives t p → ¬ Receiving history p) ∧
      (Answers t p → Receiving history p ∧ Acknowledges t p))))

section Steps

variable {V V' : Views} {currPid currPid' p : Pid} {e : Event}

/-- A process starts to listen only by calling `receive`. -/
theorem Move.listening (hsane : Sane V currPid) (hmove : Move V currPid e V' currPid')
    (hafter : (V' p).state = .listeningCh) :
    (V p).state = .listeningCh ∨ currPid = p ∧ ∃ frame, e.action = .svc 4 frame := by
  generalize hw : V' p = w at hafter
  have hchange := hw ▸ hmove.change hsane p
  cases hchange with
  | kept hcurr hresume => exact .inl hafter
  | unaware hq hresume => exact .inl hafter
  | resumed write hresume hcurr hrun hwrite => exact .inl hafter
  | timer frame hevent hcurr hq => exact .inl hafter
  | again frame write hevent hcurr hq hwrite => exact .inl hafter
  | active hevent hcurr hq hactive =>
    subst hq
    have hcode := (hactive.blocks (hsane.running hcurr)).2 hafter
    subst hcode
    exact .inr ⟨rfl, _, by rw [hevent]⟩
  | passive hevent hcurr hq hpassive => exact .inl (hpassive.listeningCh hafter)

/-- A process that listens goes on listening or gets a message. -/
theorem Move.from_listening (hsane : Sane V currPid) (hmove : Move V currPid e V' currPid')
    (hbefore : (V p).state = .listeningCh) :
    (V' p).state = .listeningCh ∨ (V' p).state = .runnable := by
  have hne : currPid ≠ 0 → p ≠ currPid := by
    rintro hcurr rfl
    exact nomatch hbefore.symm.trans (hsane.running hcurr)
  generalize hw : V' p = w
  have hchange := hw ▸ hmove.change hsane p
  cases hchange with
  | kept hcurr hresume => exact .inl hbefore
  | unaware hq hresume => exact .inl hbefore
  | resumed write hresume hcurr hrun hwrite => exact .inl hbefore
  | timer frame hevent hcurr hq => exact .inl hbefore
  | again frame write hevent hcurr hq hwrite => exact .inl hbefore
  | active hevent hcurr hq hactive => exact absurd hq (hne hcurr)
  | passive hevent hcurr hq hpassive =>
    cases hpassive with
    | kept => exact .inl hbefore
    | receives hlisten => exact .inr rfl
    | born prio hfree hslot => exact .inr rfl
    | woken hwait => exact .inr rfl
    | buried hzombie => exact nomatch hbefore.symm.trans hzombie
    | refused hwaits htarget => exact .inl hbefore
    | delivered hwaits htarget => exact nomatch hbefore.symm.trans hwaits
    | released hsize hack hstate htarget hsource => exact .inr rfl

/-- A process that calls `receive` listens afterwards or has a message. -/
theorem Move.receives (hsane : Sane V currPid) (hmove : Move V currPid e V' currPid')
    {frame : Frame} (he : e.action = .svc 4 frame) :
    (V' currPid).state = .listeningCh ∨ (V' currPid).state = .runnable := by
  obtain ⟨-, hcurr, -, houtcome⟩ := hmove.svc he (by decide)
  have hactive := houtcome.active (by rw [Views.set_self]; exact hsane.running hcurr)
  generalize hw : V' currPid = w at hactive
  generalize hcode : (4 : BitVec 16) = code at hactive
  cases hactive with
  | listens => exact .inl rfl
  | receives sender hwaits htarget => exact .inr rfl
  | failed no hcode' => exact absurd hcode.symm hcode'.2
  | _ => exact absurd hcode (by decide)

theorem Move.traps (hmove : Move V currPid e V' currPid') {code : BitVec 16} {frame : Frame}
    (he : e.action = .svc code frame) : currPid ≠ 0 := by
  cases hmove with
  | timer frame hcurr => exact hcurr
  | syscall hcurr hcode houtcome => exact hcurr
  | again frame write hcurr hwrite => exact hcurr
  | resume q write ha hcurr hp hrun hwrite =>
    rcases ha with rfl | ⟨counter, rfl⟩
    · exact nomatch he
    · exact nomatch he

end Steps

/-- A process that makes a system call is running. -/
theorem Traps.running {t : Transition Kernel Event} {p : Pid} {code : BitVec 16} {frame : Frame}
    (h : Traps t p code frame) (hsane : Sane t.pre.sys.views t.pre.sys.currPid)
    (hmove : Move t.pre.sys.views t.pre.sys.currPid t.label t.post.sys.views t.post.sys.currPid) :
    (t.pre.sys.views p).state = .runnable := by
  obtain ⟨hcurr, haction⟩ := h
  rw [← hcurr]
  exact hsane.running (hmove.traps haction)

section Discipline

variable {history : History} {k : Kernel} (hrun : SysRun history k) (p : Pid)
include hrun

/-- A process that listens has called `receive`. -/
theorem SysRun.receiving_of_listening (hlisten : (k.sys.views p).state = .listeningCh) :
    Receiving history p := by
  refine SysRun.induct (I := fun history V _ ↦ (V p).state = .listeningCh → Receiving history p)
    (fun hlisten ↦ ?_) (fun history k e k' hrun hsane ih hmove hlisten ↦ ?_) hrun hlisten
  · rcases bootViews_state p with hstate | hstate | hstate <;>
      exact nomatch hstate.symm.trans hlisten
  · rcases hmove.listening hsane hlisten with hbefore | ⟨hcurr, frame, haction⟩
    · refine .inr ⟨ih hbefore, ?_, fun hborn ↦ ?_⟩
      · rintro ⟨frame, htraps⟩
        exact nomatch hbefore.symm.trans (htraps.running hsane hmove)
      · exact nomatch hbefore.symm.trans hborn.1
    · exact .inl ⟨frame, hcurr, haction⟩

/-- A process that alternates and has called `receive` last is still listening or has a pending
message. -/
theorem SysRun.listening_or_linked (halternates : Alternates history p)
    (hreceiving : Receiving history p) :
    (k.sys.views p).state = .listeningCh ∨ Linked k.sys.views p := by
  refine SysRun.induct (I := fun history V _ ↦ Alternates history p → Receiving history p →
    (V p).state = .listeningCh ∨ Linked V p) (fun _ hreceiving ↦ hreceiving.elim)
    (fun history k e k' hrun hsane ih hmove halternates hreceiving ↦ ?_) hrun halternates hreceiving
  have hlinked := linked_step hsane (SysRun.settled hrun) hmove p
  have hcompletes : ((k.sys.views p).state = .listeningCh ∨ Receives ⟨k, e, k'⟩ p) →
      ((k'.sys.views p).state = .listeningCh ∨ (k'.sys.views p).state = .runnable) →
      (k'.sys.views p).state = .listeningCh ∨ Linked k'.sys.views p := by
    rintro hbefore (hlisten | hrunnable)
    · exact .inl hlisten
    · exact .inr (hlinked.mpr (.inl ⟨hbefore, hrunnable⟩))
  rcases hreceiving with hreceives | ⟨hreceiving, hanswers, hborn⟩
  · obtain ⟨frame, hcurr, haction⟩ := id hreceives
    have hafter := hmove.receives hsane haction
    rw [show k.sys.currPid = p from hcurr] at hafter
    exact hcompletes (.inr hreceives) hafter
  · rcases ih (halternates.resolve_left hborn).1 hreceiving with hlisten | hlinked'
    · exact hcompletes (.inl hlisten) (hmove.from_listening hsane hlisten)
    · refine .inr (hlinked.mpr (.inr ⟨hlinked', ?_, hborn⟩))
      rintro ⟨frame, htraps, -⟩
      exact hanswers ⟨frame, htraps⟩

/-- Between the step that completes the receive of a process that alternates and its
acknowledgement, it calls neither. -/
theorem SysRun.no_call_between {later past : History} {t : Transition Kernel Event}
    (hsplit : history = later ++ t :: past) (halternates : Alternates history p)
    (hcomplete : Completes t p) (hquiet : ∀ u ∈ later, ¬ Acknowledges u p ∧ ¬ Born u p) :
    ∀ u ∈ later, ¬ Receives u p ∧ ¬ Answers u p := by
  subst hsplit
  suffices hcalls : Receiving (later ++ t :: past) p ∧ ∀ u ∈ later, ¬ Receives u p ∧
    ¬ Answers u p from hcalls.2
  induction later generalizing k with
  | nil =>
    refine ⟨?_, nofun⟩
    obtain ⟨-, hstep, hpast⟩ := hrun.last
    have hsane := SysRun.sane hpast
    rcases hcomplete.1 with hlisten | hreceives
    · refine .inr ⟨SysRun.receiving_of_listening hpast p hlisten, ?_, fun hborn ↦ ?_⟩
      · rintro ⟨frame, htraps⟩
        exact nomatch hlisten.symm.trans (htraps.running hsane (move_of_step hsane hstep))
      · exact nomatch hlisten.symm.trans hborn.1
    · exact .inl hreceives
  | cons u later ih =>
    obtain ⟨hack, hborn⟩ := hquiet u (.head _)
    obtain ⟨hbefore, hreceives, hanswers⟩ := halternates.resolve_left hborn
    obtain ⟨hreceiving, hcalls⟩ :=
      ih (fun v hv ↦ hquiet v (.tail _ hv)) hrun.last.2.2 hbefore
    have hnone : ¬ Receives u p ∧ ¬ Answers u p :=
      ⟨fun h ↦ hreceives h hreceiving, fun h ↦ hack (hanswers h).2⟩
    refine ⟨.inr ⟨hreceiving, hnone.2, hborn⟩, fun v hv ↦ ?_⟩
    rcases List.mem_cons.mp hv with rfl | hv
    · exact hnone
    · exact hcalls v hv

end Discipline

/-- A process that is running again has been resumed. -/
theorem SysRun.exists_firstResume {later past : History} {t : Transition Kernel Event} {k : Kernel}
    {p : Pid} (hrun : SysRun (later ++ t :: past) k) (hzero : p ≠ 0)
    (hbefore : t.post.sys.currPid ≠ p) (hafter : k.sys.currPid = p) :
    ∃ u, FirstResume later p u := by
  have hresumed : ∃ u ∈ later, ∃ write, u.label.resume = some ⟨p, write⟩ := by
    by_contra hnone
    push Not at hnone
    refine hrun.segment (P := fun k ↦ k.sys.currPid ≠ p) hbefore
      (fun u hu past hpast hstep _ ↦ ?_) hafter
    exact (move_of_step (SysRun.sane hpast) hstep).not_running hzero (hnone u hu)
  obtain ⟨after, u, before, hsplit, hu, hnone⟩ := exists_first hresumed
  exact ⟨u, after, before, hsplit, hu, fun v hv write hwrite ↦ hnone v hv ⟨write, hwrite⟩⟩

/-- The kernel is current after a message has been taken. -/
theorem Takes.currPid {t : Transition Kernel Event} {sender receiver : Pid}
    (h : Takes t sender receiver)
    (hmove : Move t.pre.sys.views t.pre.sys.currPid t.label t.post.sys.views t.post.sys.currPid) :
    t.post.sys.currPid = 0 := by
  obtain ⟨code, frame, he, -, hconnects⟩ := h
  have hcode : code ≠ 101 := by
    rcases hconnects.code_eq with ⟨rfl, -⟩ | ⟨rfl, -, -⟩ <;> decide
  exact (hmove.svc (by rw [he]) hcode).2.2.1

/-- The contract of a server. When the running process has called `receive` and `acknowledge` in
turns and its last call was a `receive`, then that receive has returned the pid of a process that
has been blocked on it and left alone since, and an acknowledgement now returns `0`, releases that
process and changes the state of no other. -/
theorem server_discipline {history : History} {k : Kernel} (hrun : SysRun history k)
    (hcurr : k.sys.currPid ≠ 0) (halternates : Alternates history k.sys.currPid)
    (hreceiving : Receiving history k.sys.currPid) {frame : Frame}
    (hsize : (frame.registers 2).toNat ≤ buffSize) :
    ∃ later t past sender k', Exchange history later past t sender k.sys.currPid ∧
      (∀ u ∈ later, ¬ Receives u k.sys.currPid ∧ ¬ Answers u k.sys.currPid) ∧
      (∃ u, FirstResume later k.sys.currPid u ∧
        (u.post.sys.views k.sys.currPid).registers 0 = ofPid sender) ∧
      step k (.svc 5 frame) = .ok (k', none) ∧ (k'.sys.views sender).state = .runnable ∧
      (∀ q, q ≠ sender → (k'.sys.views q).state = (k.sys.views q).state) ∧
      ∀ after k'' u, SysRun (after ++ ⟨k, ⟨.svc 5 frame, none⟩, k'⟩ :: history) k'' →
        FirstResume after k.sys.currPid u → (u.post.sys.views k.sys.currPid).registers 0 = 0 := by
  have hself := (SysRun.sane hrun).running hcurr
  have hlinked : Linked k.sys.views k.sys.currPid := by
    rcases SysRun.listening_or_linked hrun _ halternates hreceiving with hlisten | hlinked
    · exact nomatch hlisten.symm.trans hself
    · exact hlinked
  have hne : k.sys.currPid ≠ (k.sys.views k.sys.currPid).receiverData.sourcePid := by
    intro heq
    rw [heq] at hself
    exact nomatch hself.symm.trans hlinked.1
  obtain ⟨later, t, past, hexchange, hquiet⟩ :=
    SysRun.pending_exchange hrun ((SysRun.pending_iff hrun _).mpr hlinked)
  obtain ⟨k', hstep, hzero, hx0, hreleased, hothers⟩ :=
    SysRun.acknowledge_releases hrun hcurr hlinked hsize
  have hsplit := hexchange.split
  rw [hsplit] at hrun
  obtain ⟨-, htaken, hpast⟩ := hrun.upTo.last
  have hsane := SysRun.sane hpast
  have hmove := move_of_step hsane htaken
  obtain ⟨-, -, hready, -, hreturn⟩ := hexchange.takes.connected hsane (SysRun.settled hpast)
  have hkernel := hexchange.takes.currPid hmove
  have hcomplete := (hexchange.takes.completes hsane (SysRun.settled hpast) _).mpr rfl
  obtain ⟨u, hu⟩ := SysRun.exists_firstResume hrun hcurr (by rw [hkernel]; exact hcurr.symm) rfl
  refine ⟨later, t, past, _, k', hexchange, ?_, ⟨u, hu, ?_⟩, hstep, hreleased, hothers, ?_⟩
  · rw [← hsplit] at hrun
    exact SysRun.no_call_between hrun _ hsplit halternates hcomplete fun u hu ↦ (hquiet u hu).2
  · rw [(SysRun.view_at_resume hrun hready (by rw [hkernel]; exact hcurr.symm) hu).1]
    exact hreturn
  · intro after k'' u hrun' hu
    have hanswered : (k'.sys.views k.sys.currPid).state = .runnable := by
      rw [hothers _ hne, hself]
    rw [(SysRun.view_at_resume hrun' hanswered (by rw [hzero]; exact hcurr.symm) hu).1]
    exact hx0

/-- A server whose request is pending: the child of `init` acknowledges the message it has
received. -/
theorem server_discipline_child : ∃ history k, SysRun history k ∧ k.sys.currPid = 2 ∧
    ∃ sender k', step k (.svc 5 (sampleFrame [7])) = .ok (k', none) ∧
      (k'.sys.views sender).state = .runnable := by
  obtain ⟨history, k, hrun, hstate⟩ := exists_run sampleBoot sendToChild
    (fun history k ↦ k.sys.currPid = 2 ∧ Alternates history 2 ∧ Receiving history 2)
    (by decide +kernel)
  obtain ⟨hcurr, halternates, hreceiving⟩ := of_decide_eq_true hstate
  rw [← hcurr] at halternates hreceiving
  obtain ⟨later, t, past, sender, k', -, -, -, hstep, hreleased, -⟩ :=
    server_discipline hrun (by rw [hcurr]; decide) halternates hreceiving
      (show ((sampleFrame [7]).registers 2).toNat ≤ buffSize by decide)
  exact ⟨history, k, hrun, hcurr, sender, k', hstep, hreleased⟩

end SysresOs.Proc
