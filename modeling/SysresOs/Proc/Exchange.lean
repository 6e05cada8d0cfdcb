import SysresOs.Proc.Pending

/-!
# Exchanges

An exchange goes from the step in which a receiver takes a message to the acknowledgement that
releases its sender. `Connects` is the step that starts one, the only kind of step that blocks a
sender on an acknowledgement or completes a receive (`Move.connects_or`). From then on the sender is
left alone by every step but the acknowledgement of its receiver (`Move.sending`).

`blocked_sender_answered` says which blocked senders can still be answered: those whose receiver has
neither exited nor completed another receive. `server_discipline` is the contract of a server that
alternates receives and acknowledgements.
-/

set_option autoImplicit false
set_option relaxedAutoImplicit false

namespace SysresOs.Proc

open SysresOs.Outcome SysresOs.Trace

/-! ### The start of an exchange -/

/-- A system call of `p` in which `receiver` takes the message of `sender`. -/
inductive Connects (V : Views) (p : Pid) : BitVec 16 → Pid → Pid → Views → Prop
  | send (target : Pid) (htarget : toInt ((V p).registers 0) = target.val)
      (hlisten : (V target).state = .listeningCh) (hsize : ((V p).registers 2).toNat ≤ buffSize)
      (hfits : ¬ TooLarge (V.set p ((V p).offering target)) p target) :
      Connects V p 3 p target ((V.set p ((V p).offering target)).connect p target)
  | receive (sender : Pid) (hwaits : WaitsFor V sender p)
      (hfits : ¬ TooLarge (V.set p (V p).listening) sender p) :
      Connects V p 4 sender p ((V.set p (V p).listening).connect sender p)

/-- No sender is blocked on an acknowledgement that was not before, and no receive completes. -/
def Quiet (V V' : Views) (p : Pid) (code : BitVec 16) : Prop :=
  ∀ q, ((V' q).state = .sendingCh → (V q).state = .sendingCh) ∧ ¬ CompletesIn V V' p q code

section Steps

variable {V V' W : Views} {p q : Pid} {code : BitVec 16}

theorem Quiet.refl (hcode : code ≠ 4) : Quiet V V p code := by
  refine fun q ↦ ⟨id, ?_⟩
  rintro ⟨hlisten | ⟨-, hcode'⟩, hstate⟩
  · exact nomatch hlisten.symm.trans hstate
  · exact hcode hcode'

theorem Quiet.set (h : Quiet V W p code) {v : View} (hv : v.state ≠ .sendingCh)
    (hlisten : (V q).state ≠ .listeningCh) (hself : q ≠ p ∨ code ≠ 4) :
    Quiet V (W.set q v) p code := by
  intro r
  rw [CompletesIn, Views.set_apply]
  split_ifs with hr
  · subst hr
    refine ⟨fun hsending ↦ absurd hsending hv, ?_⟩
    rintro ⟨hlisten' | ⟨hp, hcode⟩, -⟩
    · exact hlisten hlisten'
    · exact hself.elim (· hp) (· hcode)
  · exact h r

/-- A receive that is left waiting completes nothing. -/
theorem quiet_listening : Quiet V (V.set p (V p).listening) p code := by
  intro r
  rw [CompletesIn, Views.set_apply]
  split_ifs with hr
  · refine ⟨by rintro ⟨⟩, ?_⟩
    rintro ⟨-, hstate⟩
    cases hstate
  · refine ⟨id, ?_⟩
    rintro ⟨hlisten | ⟨hp, -⟩, hstate⟩
    · cases hlisten.symm.trans hstate
    · exact hr hp

/-- The system calls that start an exchange are those that block a sender on an acknowledgement or
complete a receive. -/
theorem SyscallOutcome.connects_or (h : SyscallOutcome V p code V')
    (hrun : (V p).state = .runnable) :
    (∃ sender receiver, Connects V p code sender receiver V') ∨ Quiet V V' p code := by
  have hself : (V p).state ≠ .sendingCh := by rw [hrun]; decide
  have hlisten : (V p).state ≠ .listeningCh := by rw [hrun]; decide
  cases h with
  | sent target htarget hlisten hsize hfits =>
    exact .inl ⟨p, target, .send target htarget hlisten hsize hfits⟩
  | received sender hwaits hfirst hfits => exact .inl ⟨sender, p, .receive sender hwaits hfits⟩
  | failed hfail =>
    refine .inr ?_
    cases hfail with
    | _ => exact (Quiet.refl (by decide)).set hself hlisten (.inr (by decide))
  | forked child prio hchild hfree hprio hle =>
    have hchild : Quiet V (V.set p ((V p).setX0 (ofPid child))) p 0 :=
      (Quiet.refl (by decide)).set hself hlisten (.inr (by decide))
    exact .inr (hchild.set nofun (by rw [hfree]; decide) (.inr (by decide)))
  | exited => exact .inr ((Quiet.refl (by decide)).set nofun hlisten (.inr (by decide)))
  | exitReaped parent hwait =>
    have hexit : Quiet V ((V.set p (V p).exiting).set p ((V.set p (V p).exiting p).setState .free))
        p 1 := by
      rw [Views.set_set]
      exact (Quiet.refl (by decide)).set nofun hlisten (.inr (by decide))
    exact .inr (hexit.set nofun (by rw [hwait]; decide) (.inr (by decide)))
  | waits => exact .inr ((Quiet.refl (by decide)).set nofun hlisten (.inr (by decide)))
  | reaped child hzombie =>
    have hburied : Quiet V (V.set child ((V child).setState .free)) p 2 :=
      (Quiet.refl (by decide)).set nofun (by rw [hzombie]; decide) (.inr (by decide))
    exact .inr (hburied.set nofun hlisten (.inr (by decide)))
  | sendWaits target htarget hlisten' hsize =>
    exact .inr ((Quiet.refl (by decide)).set nofun hlisten (.inr (by decide)))
  | listens hnone => exact .inr quiet_listening
  | refused sender hwaits hfirst hlarge =>
    have hne : sender ≠ p := by
      rintro rfl
      exact nomatch hwaits.1.symm.trans hrun
    have hwait : ((V sender).fail sendDataTooLarge).state = .waitListener := hwaits.1
    refine .inr (quiet_listening.set (by rw [hwait]; decide) (by rw [hwaits.1]; decide) (.inl hne))
  | acknowledged hsize hack hstate htarget =>
    have hacked : Quiet V ((V.set p (V p).acking).set p ((V.set p (V p).acking) p).acked) p 5 := by
      rw [Views.set_set, Views.set_self]
      exact (Quiet.refl (by decide)).set hself hlisten (.inr (by decide))
    exact .inr (hacked.set nofun (by rw [hstate]; decide) (.inr (by decide)))

/-- The sender is blocked on the receiver, which has its pid, and nobody else notices. -/
structure Connected (V V' : Views) (sender receiver : Pid) : Prop where
  ne : sender ≠ receiver
  before : (V sender).state ≠ .sendingCh
  blocked : SendsTo V' sender receiver
  ready : (V' receiver).state = .runnable
  source : (V' receiver).receiverData.sourcePid = sender
  x0 : (V' receiver).registers 0 = ofPid sender
  others : ∀ q, q ≠ sender → q ≠ receiver → V' q = V q

theorem connected_connect {sender receiver : Pid} (hne : sender ≠ receiver)
    (hpid : (W sender).pid = sender) (htarget : (W sender).senderData.targetPid = receiver)
    (hbefore : (V sender).state ≠ .sendingCh)
    (hothers : ∀ q, q ≠ sender → q ≠ receiver → W q = V q) :
    Connected V (W.connect sender receiver) sender receiver := by
  refine ⟨hne, hbefore, ?_, ?_, ?_, ?_, fun q hq hq' ↦ ?_⟩
  · rw [SendsTo, Views.connect, Views.set_of_ne _ _ hne, Views.set_self]
    exact ⟨rfl, htarget⟩
  · rw [Views.connect, Views.set_self]
    rfl
  · rw [Views.connect, Views.set_self]
    exact hpid
  · rw [Views.connect, Views.set_self]
    exact congrArg ofPid hpid
  · rw [Views.connect, Views.set_of_ne _ _ hq', Views.set_of_ne _ _ hq]
    exact hothers q hq hq'

theorem Connects.connected {sender receiver : Pid} (h : Connects V p code sender receiver V')
    (hrun : (V p).state = .runnable) (hpid : ∀ q, (V q).state ≠ .free → (V q).pid = q) :
    Connected V V' sender receiver := by
  cases h with
  | send target htarget hlisten hsize hfits =>
    have hne : p ≠ receiver := by
      rintro rfl
      exact nomatch hlisten.symm.trans hrun
    refine connected_connect hne ?_ ?_ (by rw [hrun]; decide) fun q hq _ ↦ Views.set_of_ne _ _ hq
    · rw [Views.set_self]
      exact hpid p (by rw [hrun]; decide)
    · rw [Views.set_self]
      rfl
  | receive sender hwaits hfits =>
    have hne : sender ≠ p := by
      rintro rfl
      exact nomatch hwaits.1.symm.trans hrun
    refine connected_connect hne ?_ ?_ (by rw [hwaits.1]; decide) fun q _ hq ↦
      Views.set_of_ne _ _ hq
    · rw [Views.set_of_ne _ _ hne]
      exact hpid sender (by rw [hwaits.1]; decide)
    · rw [Views.set_of_ne _ _ hne]
      exact hwaits.2

theorem Connects.code_eq {sender receiver : Pid} (h : Connects V p code sender receiver V') :
    (code = 3 ∧ p = sender) ∨ (code = 4 ∧ p = receiver ∧ (V sender).state = .waitListener) := by
  cases h with
  | send target htarget hlisten hsize hfits => exact .inl ⟨rfl, rfl⟩
  | receive sender hwaits hfits => exact .inr ⟨rfl, rfl, hwaits.1⟩

/-- The receive that completes in a connection is the receiver's. -/
theorem Connects.completes {sender receiver : Pid} (h : Connects V p code sender receiver V')
    (hrun : (V p).state = .runnable) (hpid : ∀ q, (V q).state ≠ .free → (V q).pid = q) :
    CompletesIn V V' p q code ↔ q = receiver := by
  have hconnected := h.connected hrun hpid
  constructor
  · rintro ⟨hbefore, hafter⟩
    by_contra hq
    have hs : q ≠ sender := by
      rintro rfl
      exact nomatch hconnected.blocked.1.symm.trans hafter
    rcases hbefore with hlisten | ⟨rfl, hcode⟩
    · rw [hconnected.others q hs hq] at hafter
      exact nomatch hlisten.symm.trans hafter
    · cases h with
      | send target htarget hlisten hsize hfits => exact absurd hcode (by decide)
      | receive sender hwaits hfits => exact hq rfl
  · rintro rfl
    refine ⟨?_, hconnected.ready⟩
    cases h with
    | send target htarget hlisten hsize hfits => exact .inl hlisten
    | receive sender hwaits hfits => exact .inr ⟨rfl, rfl⟩

end Steps

/-- In this transition `receiver` takes the message of `sender`. -/
def Takes (t : Transition Kernel Event) (sender receiver : Pid) : Prop :=
  ∃ code frame, t.label = ⟨.svc code frame, none⟩ ∧ t.pre.sys.currPid ≠ 0 ∧
    Connects (t.pre.sys.views.set t.pre.sys.currPid
      ((t.pre.sys.views t.pre.sys.currPid).trapped frame (some code))) t.pre.sys.currPid code
      sender receiver t.post.sys.views

section Transitions

variable {k k' : Kernel} {e : Event} (hsane : Sane k.sys.views k.sys.currPid)
  (hsettled : Settled k.sys.views k.sys.currPid)
  (hmove : Move k.sys.views k.sys.currPid e k'.sys.views k'.sys.currPid)
include hsane hsettled

theorem Takes.connected {sender receiver : Pid} (h : Takes ⟨k, e, k'⟩ sender receiver) :
    (k.sys.views sender).state ≠ .sendingCh ∧ SendsTo k'.sys.views sender receiver ∧
      (k'.sys.views receiver).state = .runnable ∧
      (k'.sys.views receiver).receiverData.sourcePid = sender ∧
      (k'.sys.views receiver).registers 0 = ofPid sender := by
  obtain ⟨code, frame, -, hcurr, hconnects⟩ := h
  obtain ⟨hrun, hpid, -⟩ := trapped_invariant hsane hsettled hcurr frame code
  obtain ⟨-, hbefore, hsender, hreceiver, hsource, hx0, -⟩ := hconnects.connected hrun hpid
  rw [(sameChannel_trapped ..).1] at hbefore
  exact ⟨hbefore, hsender, hreceiver, hsource, hx0⟩

/-- Only the sender is newly blocked on an acknowledgement. -/
theorem Takes.eq_sender {sender receiver q : Pid} (h : Takes ⟨k, e, k'⟩ sender receiver)
    (hbefore : (k.sys.views q).state ≠ .sendingCh) (hafter : (k'.sys.views q).state = .sendingCh) :
    q = sender := by
  obtain ⟨code, frame, -, hcurr, hconnects⟩ := h
  obtain ⟨hrun, hpid, -⟩ := trapped_invariant hsane hsettled hcurr frame code
  have hconnected := hconnects.connected hrun hpid
  by_contra hq
  have hr : q ≠ receiver := by
    rintro rfl
    exact nomatch hconnected.ready.symm.trans hafter
  have hview : k'.sys.views q = _ := hconnected.others q hq hr
  rw [hview, (sameChannel_trapped ..).1] at hafter
  exact hbefore hafter

/-- A receive completes exactly when a message is taken. -/
theorem Takes.completes {sender receiver : Pid} (h : Takes ⟨k, e, k'⟩ sender receiver) (q : Pid) :
    Completes ⟨k, e, k'⟩ q ↔ q = receiver := by
  obtain ⟨code, frame, rfl, hcurr, hconnects⟩ := h
  obtain ⟨hrun, hpid, -⟩ := trapped_invariant hsane hsettled hcurr frame code
  rw [← completesIn_trapped, hconnects.completes hrun hpid]

include hmove in
theorem takes_or : (∃ sender receiver, Takes ⟨k, e, k'⟩ sender receiver) ∨
    ∀ q, ((k'.sys.views q).state = .sendingCh → (k.sys.views q).state = .sendingCh) ∧
      ¬ Completes ⟨k, e, k'⟩ q := by
  rcases hmove.silent_or_syscall with ⟨hsilent, hsvc⟩ | ⟨code, frame, rfl, hcurr, houtcome⟩
  · refine .inr fun q ↦ ⟨fun hsending ↦ (hsilent q).1.symm.trans hsending, ?_⟩
    rintro ⟨hlisten | ⟨frame, -, he⟩, hrun⟩
    · exact nomatch ((hsilent q).1.trans hlisten).symm.trans hrun
    · exact absurd (hsvc 4 frame he) (by decide)
  · obtain ⟨hrun, -, -⟩ := trapped_invariant hsane hsettled hcurr frame code
    rcases houtcome.connects_or hrun with ⟨sender, receiver, hconnects⟩ | hquiet
    · exact .inl ⟨sender, receiver, code, frame, rfl, hcurr, hconnects⟩
    · refine .inr fun q ↦ ?_
      obtain ⟨hsending, hcomplete⟩ := hquiet q
      rw [(sameChannel_trapped ..).1] at hsending
      exact ⟨hsending, fun h ↦ hcomplete (completesIn_trapped.mpr h)⟩

include hmove in
/-- A receive completes only with a message. -/
theorem Completes.takes {receiver : Pid} (h : Completes ⟨k, e, k'⟩ receiver) :
    ∃ sender, Takes ⟨k, e, k'⟩ sender receiver := by
  rcases takes_or hsane hsettled hmove with ⟨sender, receiver', htakes⟩ | hnone
  · rw [(htakes.completes hsane hsettled receiver).mp h]
    exact ⟨sender, htakes⟩
  · exact absurd h (hnone receiver).2

end Transitions

/-! ### What a step leaves of a process -/

section Frame

variable {V V' : Views} {currPid currPid' q : Pid} {e : Event} {w : View}

/-- A process blocked on an acknowledgement is left alone by every step but the acknowledgement of
its receiver. -/
theorem Move.sending (hsane : Sane V currPid) (hmove : Move V currPid e V' currPid')
    (hstate : (V q).state = .sendingCh) :
    V' q = V q ∨ ∃ frame, e = ⟨.svc 5 frame, none⟩ ∧ (V q).senderData.targetPid = currPid ∧
      (frame.registers 2).toNat ≤ buffSize ∧
      V' q = (V q).released ((V currPid).trapped frame (some 5)).acking := by
  have hne : currPid ≠ 0 → q ≠ currPid := by
    rintro hcurr rfl
    exact nomatch hstate.symm.trans (hsane.running hcurr)
  generalize hw : V' q = w
  have hchange := hw ▸ hmove.change hsane q
  cases hchange with
  | kept hcurr hresume => exact .inl rfl
  | unaware hq hresume => exact .inl rfl
  | resumed write hresume hcurr hrun hwrite => exact nomatch hstate.symm.trans hrun
  | timer frame hevent hcurr hq => exact absurd hq (hne hcurr)
  | again frame write hevent hcurr hq hwrite => exact absurd hq (hne hcurr)
  | active hevent hcurr hq hactive => exact absurd hq (hne hcurr)
  | passive hevent hcurr hq hpassive =>
    cases hpassive with
    | kept => exact .inl rfl
    | born prio hfree hslot => exact nomatch hstate.symm.trans hfree
    | woken hwait => exact nomatch hstate.symm.trans hwait
    | buried hzombie => exact nomatch hstate.symm.trans hzombie
    | receives hlisten => exact nomatch hstate.symm.trans hlisten
    | refused hwaits htarget => exact nomatch hstate.symm.trans hwaits
    | delivered hwaits htarget => exact nomatch hstate.symm.trans hwaits
    | released hsize hack hsending htarget hsource =>
      have hpid : (V currPid).pid = currPid :=
        hsane.pid currPid (by rw [hsane.running hcurr]; decide)
      exact .inr ⟨_, hevent, htarget.trans hpid, hsize, rfl⟩

/-- A process that is ready to run is left alone until it is resumed. -/
theorem Move.ready (hsane : Sane V currPid) (hmove : Move V currPid e V' currPid')
    (hstate : (V q).state = .runnable) (hq : q ≠ currPid)
    (hresume : ∀ write, e.resume ≠ some ⟨q, write⟩) : V' q = V q := by
  generalize hw : V' q = w
  have hchange := hw ▸ hmove.change hsane q
  cases hchange with
  | kept hcurr hresume => rfl
  | unaware hq hresume => rfl
  | resumed write hresume' hcurr hrun hwrite => exact absurd hresume' (hresume write)
  | timer frame hevent hcurr hq' => exact absurd hq' hq
  | again frame write hevent hcurr hq' hwrite => exact absurd hq' hq
  | active hevent hcurr hq' hactive => exact absurd hq' hq
  | passive hevent hcurr hq' hpassive =>
    cases hpassive with
    | kept => rfl
    | born prio hfree hslot => exact nomatch hstate.symm.trans hfree
    | woken hwait => exact nomatch hstate.symm.trans hwait
    | buried hzombie => exact nomatch hstate.symm.trans hzombie
    | receives hlisten => exact nomatch hstate.symm.trans hlisten
    | refused hwaits htarget => exact nomatch hstate.symm.trans hwaits
    | delivered hwaits htarget => exact nomatch hstate.symm.trans hwaits
    | released hsize hack hsending htarget hsource => exact nomatch hstate.symm.trans hsending

/-- A process that was not running is resumed with its buffer written to its memory and emptied. -/
theorem Move.resumed (hmove : Move V currPid e V' currPid') (hq : q ≠ currPid)
    {write : Option (BitVec 64 × List (BitVec 8))} (hresume : e.resume = some ⟨q, write⟩) :
    V' q = (V q).resumed ∧ (V q).buffer.written = .ok write := by
  cases hmove with
  | timer frame hcurr => exact nomatch hresume
  | syscall hcurr hcode houtcome => exact nomatch hresume
  | again frame write' hcurr hwrite =>
    obtain ⟨rfl, -⟩ := Resume.mk.inj (Option.some.inj hresume)
    exact absurd rfl hq
  | resume p write' ha hcurr hp hrun hwrite =>
    obtain ⟨rfl, rfl⟩ := Resume.mk.inj (Option.some.inj hresume)
    rw [Views.set_self]
    exact ⟨rfl, hwrite⟩

/-- A step that does not resume a process leaves it running only if it was. -/
theorem Move.not_running (hmove : Move V currPid e V' currPid') (hzero : q ≠ 0)
    (hresume : ∀ write, e.resume ≠ some ⟨q, write⟩) : currPid' ≠ q := by
  rintro rfl
  cases hmove with
  | timer frame hcurr => exact hzero rfl
  | syscall hcurr hcode houtcome => exact hzero rfl
  | again frame write hcurr hwrite => exact hresume write rfl
  | resume p write ha hcurr hp hrun hwrite => exact hresume write rfl

/-- The processes that have neither exited nor been reaped. -/
def Live (v : View) : Prop := v.state ≠ .free ∧ v.state ≠ .zombie

/-- A live process ends only by its exit. -/
theorem Change.live (h : Change V currPid e q w) (hlive : Live (V q))
    (hexit : ∀ frame, currPid = q → e.action ≠ .svc 1 frame) : Live w := by
  cases h with
  | kept hcurr hresume => exact hlive
  | unaware hq hresume => exact hlive
  | resumed write hresume hcurr hrun hwrite => exact hlive
  | timer frame hevent hcurr hq => exact hlive
  | again frame write hevent hcurr hq hwrite => exact hlive
  | active hevent hcurr hq hactive =>
    cases hactive with
    | exits => exact absurd (by rw [hevent]) (hexit _ hq.symm)
    | exitsFree => exact absurd (by rw [hevent]) (hexit _ hq.symm)
    | failed no hcode => exact hlive
    | sendTooLarge target => exact hlive
    | spurious => exact hlive
    | forks child => exact hlive
    | acks hsize => exact hlive
    | _ => exact ⟨nofun, nofun⟩
  | passive hevent hcurr hq hpassive =>
    cases hpassive with
    | kept => exact hlive
    | refused hwaits htarget => exact hlive
    | buried hzombie => exact absurd hzombie hlive.2
    | _ => exact ⟨nofun, nofun⟩

/-- The source of a process changes only when a receive completes or its slot is taken. -/
theorem Change.source (h : Change V currPid e q w)
    (hborn : ¬ ((V q).state = .free ∧ w.state ≠ .free))
    (hcomplete : ¬ (((V q).state = .listeningCh ∨ ∃ frame, currPid = q ∧ e.action = .svc 4 frame) ∧
      w.state = .runnable)) : w.receiverData.sourcePid = (V q).receiverData.sourcePid := by
  cases h with
  | active hevent hcurr hq hactive =>
    cases hactive with
    | receives sender hwaits htarget =>
      exact absurd ⟨.inr ⟨_, hq.symm, by rw [hevent]⟩, rfl⟩ hcomplete
    | _ => rfl
  | passive hevent hcurr hq hpassive =>
    cases hpassive with
    | born prio hfree hslot => exact absurd ⟨hfree, nofun⟩ hborn
    | receives hlisten => exact absurd ⟨.inl hlisten, rfl⟩ hcomplete
    | _ => rfl
  | _ => rfl

end Frame

/-! ### Returning to user mode -/

/-- The first transition of a stretch of a run that resumes `p`. -/
def FirstResume (later : History) (p : Pid) (u : Transition Kernel Event) : Prop :=
  ∃ after before, later = after ++ u :: before ∧
    (∃ write, u.label.resume = some ⟨p, write⟩) ∧
    ∀ v ∈ before, ∀ write, v.label.resume ≠ some ⟨p, write⟩

/-- A process that is ready after a transition is resumed as that transition left it: with its
registers, and with its buffer written to its memory. -/
theorem SysRun.view_at_resume {later past : History} {t u : Transition Kernel Event} {k : Kernel}
    {p : Pid} (hrun : SysRun (later ++ t :: past) k)
    (hstate : (t.post.sys.views p).state = .runnable)
    (hcurr : t.post.sys.currPid ≠ p) (hu : FirstResume later p u) :
    u.post.sys.views p = (t.post.sys.views p).resumed ∧
      ∃ write, u.label.resume = some ⟨p, write⟩ ∧
        (t.post.sys.views p).buffer.written = .ok write := by
  obtain ⟨after, before, rfl, ⟨write, hwrite⟩, hbefore⟩ := hu
  rw [List.append_assoc] at hrun
  obtain ⟨-, hresume, hpre⟩ := hrun.upTo.last
  have hzero : p ≠ 0 := by
    rintro rfl
    have hkernel := ((SysRun.settled hpre.upTo).proper 0).kernel rfl
    exact nomatch hkernel.symm.trans hstate
  have hkept := hpre.segment
    (P := fun k ↦ k.sys.views p = t.post.sys.views p ∧ k.sys.currPid ≠ p)
    ⟨rfl, hcurr⟩ fun v hv past hpast hstep ⟨hview, hother⟩ ↦ by
      have hsane := SysRun.sane hpast
      have hmove := move_of_step hsane hstep
      refine ⟨?_, hmove.not_running hzero (hbefore v hv)⟩
      rw [hmove.ready hsane (by rw [hview]; exact hstate) hother.symm (hbefore v hv), hview]
  have hmove := move_of_step (SysRun.sane hpre) hresume
  obtain ⟨hview, hwritten⟩ := hmove.resumed hkept.2.symm hwrite
  rw [hkept.1] at hview hwritten
  exact ⟨hview, write, hwrite, hwritten⟩

/-! ### Blocked senders -/

/-- The message of `sender` has been taken by `receiver` in the transition `t`, and since then the
sender was left alone. -/
structure Exchange (history later past : History) (t : Transition Kernel Event)
    (sender receiver : Pid) : Prop where
  split : history = later ++ t :: past
  takes : Takes t sender receiver
  alone : ∀ u ∈ later, u.post.sys.views sender = u.pre.sys.views sender ∧
    SendsTo u.post.sys.views sender receiver

/-- Every process blocked on an acknowledgement is in an exchange with its target. -/
theorem SysRun.exchange {history : History} {k : Kernel} (hrun : SysRun history k) {sender : Pid}
    (hstate : (k.sys.views sender).state = .sendingCh) :
    ∃ later t past, Exchange history later past t sender
      (k.sys.views sender).senderData.targetPid := by
  refine SysRun.induct (I := fun history V _ ↦ (V sender).state = .sendingCh →
    ∃ later t past, Exchange history later past t sender (V sender).senderData.targetPid)
    (fun hsending ↦ ?_) (fun history k e k' hrun hsane ih hmove hsending ↦ ?_) hrun hstate
  · rcases bootViews_state sender with hstate | hstate | hstate <;>
      exact nomatch hstate.symm.trans hsending
  · by_cases hbefore : (k.sys.views sender).state = .sendingCh
    · obtain ⟨later, t, past, hsplit, htakes, halone⟩ := ih hbefore
      have hkeep : k'.sys.views sender = k.sys.views sender := by
        rcases hmove.sending hsane hbefore with hkeep | ⟨frame, -, -, -, hreleased⟩
        · exact hkeep
        · rw [hreleased] at hsending
          exact nomatch hsending
      refine ⟨⟨k, e, k'⟩ :: later, t, past, ?_, ?_, ?_⟩
      · rw [hsplit, List.cons_append]
      · rw [hkeep]
        exact htakes
      · rw [hkeep]
        intro u hu
        rcases List.mem_cons.mp hu with rfl | hu
        · exact ⟨hkeep, hsending, congrArg (·.senderData.targetPid) hkeep⟩
        · exact halone u hu
    · have hsettled := SysRun.settled hrun
      rcases takes_or hsane hsettled hmove with ⟨sender', receiver, htakes⟩ | hquiet
      · obtain ⟨-, hsends, -⟩ := htakes.connected hsane hsettled
        obtain rfl := htakes.eq_sender hsane hsettled hbefore hsending
        refine ⟨[], ⟨k, e, k'⟩, history, rfl, ?_, nofun⟩
        rw [hsends.2]
        exact htakes
      · exact absurd ((hquiet sender).1 hsending) hbefore

/-- A pending message starts with the transition in which it was taken. -/
theorem Pending.split {history : History} {p : Pid} (h : Pending history p) :
    ∃ later t past, history = later ++ t :: past ∧ Completes t p ∧
      ∀ u ∈ later, ¬ Completes u p ∧ ¬ Acknowledges u p ∧ ¬ Born u p := by
  induction history with
  | nil => exact h.elim
  | cons u history ih =>
    by_cases hcomplete : Completes u p
    · exact ⟨[], u, history, rfl, hcomplete, nofun⟩
    · obtain ⟨hpending, hack, hborn⟩ := h.resolve_left hcomplete
      obtain ⟨later, t, past, rfl, htaken, hquiet⟩ := ih hpending
      refine ⟨u :: later, t, past, rfl, htaken, fun v hv ↦ ?_⟩
      rcases List.mem_cons.mp hv with rfl | hv
      · exact ⟨hcomplete, hack, hborn⟩
      · exact hquiet v hv

/-- A process with a pending message is in an exchange with its source. -/
theorem SysRun.pending_exchange {history : History} {k : Kernel} (hrun : SysRun history k) {p : Pid}
    (hpending : Pending history p) :
    ∃ later t past, Exchange history later past t (k.sys.views p).receiverData.sourcePid p ∧
      ∀ u ∈ later, ¬ Completes u p ∧ ¬ Acknowledges u p ∧ ¬ Born u p := by
  obtain ⟨later, t, past, rfl, hcomplete, hquiet⟩ := hpending.split
  obtain ⟨-, hstep, hpast⟩ := hrun.upTo.last
  have hsane := SysRun.sane hpast
  have hsettled := SysRun.settled hpast
  obtain ⟨sender, htakes⟩ := hcomplete.takes hsane hsettled (move_of_step hsane hstep)
  obtain ⟨-, hsends, -, hsource, -⟩ := htakes.connected hsane hsettled
  -- What holds between the two steps, and of every step in between.
  have hbetween : ∀ l k, SysRun (l ++ t :: past) k → (∀ u ∈ l, u ∈ later) →
      (SendsTo k.sys.views sender p ∧ (k.sys.views p).receiverData.sourcePid = sender) ∧
      ∀ u ∈ l, u.post.sys.views sender = u.pre.sys.views sender ∧
        SendsTo u.post.sys.views sender p := by
    intro l
    induction l with
    | nil =>
      intro k hrun _
      obtain ⟨rfl, -, -⟩ := hrun.last
      exact ⟨⟨hsends, hsource⟩, nofun⟩
    | cons u l ih =>
      intro k hrun hmem
      obtain ⟨rfl, hstep, hbefore⟩ := hrun.last
      obtain ⟨⟨hsends, hsource⟩, halone⟩ := ih u.pre hbefore fun v hv ↦ hmem v (.tail _ hv)
      obtain ⟨hcomplete, hack, hborn⟩ := hquiet u (hmem u (.head _))
      have hmove := move_of_step (SysRun.sane hbefore) hstep
      have hkeep : u.post.sys.views sender = u.pre.sys.views sender := by
        rcases hmove.sending (SysRun.sane hbefore) hsends.1 with
          hkeep | ⟨frame, he, htarget, hsize, -⟩
        · exact hkeep
        · refine absurd ⟨frame, ⟨?_, by rw [he]⟩, hsize⟩ hack
          exact htarget.symm.trans hsends.2
      have hafter : SendsTo u.post.sys.views sender p := by
        rw [SendsTo, hkeep]
        exact hsends
      refine ⟨⟨hafter, ?_⟩, fun v hv ↦ ?_⟩
      · rw [(hmove.change (SysRun.sane hbefore) p).source hborn hcomplete]
        exact hsource
      · rcases List.mem_cons.mp hv with rfl | hv
        · exact ⟨hkeep, hafter⟩
        · exact halone v hv
  obtain ⟨⟨-, hsource'⟩, halone⟩ := hbetween later k hrun fun _ ↦ id
  rw [hsource']
  exact ⟨later, t, past, ⟨rfl, htakes, halone⟩, hquiet⟩

/-- The acknowledgement of a process with a pending message succeeds and releases its source, and
nobody else changes state. -/
theorem SysRun.acknowledge_releases {history : History} {k : Kernel} (hrun : SysRun history k)
    (hcurr : k.sys.currPid ≠ 0) (hlinked : Linked k.sys.views k.sys.currPid) {frame : Frame}
    (hsize : (frame.registers 2).toNat ≤ buffSize) :
    ∃ k', step k (.svc 5 frame) = .ok (k', none) ∧ k'.sys.currPid = 0 ∧
      (k'.sys.views k.sys.currPid).registers 0 = 0 ∧
      (k'.sys.views (k.sys.views k.sys.currPid).receiverData.sourcePid).state = .runnable ∧
      ∀ q, q ≠ (k.sys.views k.sys.currPid).receiverData.sourcePid →
        (k'.sys.views q).state = (k.sys.views q).state := by
  have hstale : ¬ StaleAck history k (.svc 5 frame) := by
    rintro ⟨-, -, -, -, hpending, -⟩
    exact hpending ((SysRun.pending_iff hrun _).mpr hlinked)
  obtain ⟨k', hstep⟩ := SysRun.acknowledge_ends hrun hcurr frame hstale
  have hmove := move_of_step (e := ⟨_, none⟩) (SysRun.sane hrun) hstep
  obtain ⟨-, -, hzero, -⟩ := hmove.svc rfl (by decide)
  have hself := (SysRun.sane hrun).running hcurr
  have hne : k.sys.currPid ≠ (k.sys.views k.sys.currPid).receiverData.sourcePid := by
    intro heq
    rw [heq] at hself
    exact nomatch hself.symm.trans hlinked.1
  rcases SysRun.acknowledge_views hrun hcurr hsize hstep with ⟨-, hview⟩ | ⟨hnot, -⟩
  · refine ⟨k', hstep, hzero, ?_, ?_, fun q hq ↦ ?_⟩
    · rw [hview, Views.release, Views.set_of_ne _ _ hne, Views.set_self, Views.set_self]
      rfl
    · rw [hview, Views.release, Views.set_self]
      rfl
    · rw [hview, Views.release, Views.set_of_ne _ _ hq, Views.set_set, Views.set_self,
        Views.set_apply]
      split_ifs with hq'
      · rw [hq']
        rfl
      · rfl
  · exact absurd hlinked hnot

/-- A transition in which `p` exits. -/
def Exits (t : Transition Kernel Event) (p : Pid) : Prop := ∃ frame, Traps t p 1 frame

/-- Every blocked sender has had its message taken by its target, and as long as the target has
since neither exited nor completed another receive, it is alive, its source is the sender, and its
acknowledgement releases the sender. -/
theorem blocked_sender_answered {history : History} {k : Kernel} (hrun : SysRun history k)
    {sender receiver : Pid} (hsends : SendsTo k.sys.views sender receiver) :
    ∃ later t past, Exchange history later past t sender receiver ∧
      ((∀ u ∈ later, ¬ Completes u receiver ∧ ¬ Exits u receiver) →
        ((k.sys.views receiver).state ≠ .free ∧ (k.sys.views receiver).state ≠ .zombie ∧
          (k.sys.views receiver).receiverData.sourcePid = (k.sys.views sender).pid) ∧
        (k.sys.currPid = receiver → ∀ frame, (frame.registers 2).toNat ≤ buffSize →
          ∃ k', step k (.svc 5 frame) = .ok (k', none) ∧
            (k'.sys.views sender).state = .runnable)) := by
  obtain ⟨later, t, past, hexchange⟩ := SysRun.exchange hrun hsends.1
  rw [hsends.2] at hexchange
  refine ⟨later, t, past, hexchange, fun hquiet ↦ ?_⟩
  rw [hexchange.split] at hrun
  obtain ⟨-, hstep, hpast⟩ := hrun.upTo.last
  obtain ⟨-, -, hready, hsource, -⟩ :=
    hexchange.takes.connected (SysRun.sane hpast) (SysRun.settled hpast)
  have hzero : receiver ≠ 0 := by
    rintro rfl
    have hkernel := ((SysRun.settled hrun.upTo).proper 0).kernel rfl
    exact nomatch hkernel.symm.trans hready
  -- The receiver stays alive and keeps its source through the later steps.
  have hkept : Live (k.sys.views receiver) ∧
      (k.sys.views receiver).receiverData.sourcePid = sender := by
    refine hrun.segment (P := fun k ↦ Live (k.sys.views receiver) ∧
      (k.sys.views receiver).receiverData.sourcePid = sender)
      ⟨⟨by rw [hready]; decide, by rw [hready]; decide⟩, hsource⟩
      fun u hu past hpast hstep ⟨hlive, hsource⟩ ↦ ?_
    have hsane := SysRun.sane hpast
    have hchange := (move_of_step hsane hstep).change hsane receiver
    obtain ⟨hcomplete, hexit⟩ := hquiet u hu
    refine ⟨hchange.live hlive fun frame hself haction ↦ hexit ⟨frame, hself, haction⟩, ?_⟩
    rw [hchange.source (fun hborn ↦ hlive.1 hborn.1) hcomplete]
    exact hsource
  have hpid : (k.sys.views sender).pid = sender :=
    (SysRun.sane hrun).pid sender (by rw [hsends.1]; decide)
  rw [hpid]
  refine ⟨⟨hkept.1.1, hkept.1.2, hkept.2⟩, fun hcurr frame hsize ↦ ?_⟩
  have hlinked : Linked k.sys.views k.sys.currPid := by
    rw [Linked, hcurr, hkept.2]
    exact hsends
  obtain ⟨k', hstep, -, -, hstate, -⟩ :=
    SysRun.acknowledge_releases hrun (by rw [hcurr]; exact hzero) hlinked hsize
  rw [hcurr, hkept.2] at hstate
  exact ⟨k', hstep, hstate⟩

/-- `init` sends 8 bytes to its child, which listens, and the child is resumed. -/
def sendToChild : List Action :=
  [.start, .svc 0 (sampleFrame [15]), .schedule 0, .svc 4 (sampleFrame [0x6000, 64]), .schedule 0,
    .svc 3 (sampleFrame [2, 0x5000, 8, 0, 0, 1]), .schedule 0]

instance (V : Views) (s p : Pid) : Decidable (SendsTo V s p) := inferInstanceAs (Decidable (_ ∧ _))

/-- The child has taken the message of `init` and may acknowledge it. -/
theorem blocked_sender_answered_child : ∃ history k, SysRun history k ∧
    SendsTo k.sys.views 1 2 ∧ ∃ later t past, Exchange history later past t 1 2 := by
  obtain ⟨history, k, hrun, hstate⟩ := exists_run sampleBoot sendToChild
    (fun _ k ↦ SendsTo k.sys.views 1 2) (by decide +kernel)
  have hsends := of_decide_eq_true hstate
  obtain ⟨later, t, past, hexchange, -⟩ := blocked_sender_answered hrun hsends
  exact ⟨history, k, hrun, hsends, later, t, past, hexchange⟩

/-- A receiver that exits leaves its sender blocked on a zombie; one that receives again leaves its
first sender blocked without a link back to it. -/
theorem blocked_sender_unanswered :
    (∃ k, Reachable k ∧ SendsTo k.sys.views 1 2 ∧ (k.sys.views 2).state = .zombie) ∧
    ∃ k, Reachable k ∧ SendsTo k.sys.views 2 1 ∧
      (k.sys.views 1).receiverData.sourcePid ≠ (k.sys.views 2).pid := by
  constructor
  · obtain ⟨history, k, hrun, hstate⟩ := exists_run sampleBoot
      (sendToChild ++ [.svc 1 (sampleFrame [0])])
      (fun _ k ↦ SendsTo k.sys.views 1 2 ∧ (k.sys.views 2).state = .zombie) (by decide +kernel)
    exact ⟨k, ⟨history, hrun⟩, of_decide_eq_true hstate⟩
  · obtain ⟨history, k, hrun, hstate⟩ := exists_run sampleBoot
      [.start, .svc 0 (sampleFrame [15]), .schedule 0,
        .svc 3 (sampleFrame [1, 0x5000, 8, 0, 0, 1]), .schedule 0, .svc 0 (sampleFrame [15]),
        .schedule 0, .svc 3 (sampleFrame [1, 0x5000, 8, 0, 0, 1]), .schedule 0,
        .svc 4 (sampleFrame [0x6000, 64]), .schedule 0, .svc 4 (sampleFrame [0x6000, 64])]
      (fun _ k ↦ SendsTo k.sys.views 2 1 ∧
        (k.sys.views 1).receiverData.sourcePid ≠ (k.sys.views 2).pid) (by decide +kernel)
    exact ⟨k, ⟨history, hrun⟩, of_decide_eq_true hstate⟩

end SysresOs.Proc
