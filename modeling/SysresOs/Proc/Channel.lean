import SysresOs.Proc.RunQueue
import SysresOs.Proc.Move

/-!
# The rendezvous of senders and receivers
-/

set_option autoImplicit false
set_option relaxedAutoImplicit false

namespace SysresOs.Proc

open SysresOs.Outcome SysresOs.Trace

/-! ### What holds of every process -/

/-- What holds of the process in slot `q` in every reachable state. -/
structure Proper (q : Pid) (v : View) : Prop where
  kernel : q = 0 → v.state = .kernel
  acknowledged : v.state = .sendingCh → v.senderData.acknowledged = false
  priority : v.state ≠ .free → ∃ prio : Prio, v.priority = prio.val

/-- A slot that is not the kernel's keeps a proper view when its priority does not change and it
does not start to send. -/
theorem Proper.of_state {q : Pid} {v w : View} (h : Proper q v) (hv : v.state ≠ .kernel)
    (hw : w.state ≠ .sendingCh) (hlive : v.state ≠ .free) (hprio : w.priority = v.priority) :
    Proper q w :=
  ⟨fun hq ↦ absurd (h.kernel hq) hv, fun hs ↦ absurd hs hw, fun _ ↦ hprio ▸ h.priority hlive⟩

theorem Proper.active {p : Pid} {c w : View} {code : BitVec 16} (h : Proper p c)
    (hrun : c.state = .runnable) (hw : Active c p code w) : Proper p w := by
  have hkernel : c.state ≠ .kernel := by rw [hrun]; decide
  have hlive : c.state ≠ .free := by rw [hrun]; decide
  have hsame : ∀ w : View, w.state = c.state → w.priority = c.priority → Proper p w := by
    intro w hstate hprio
    exact h.of_state hkernel (by rw [hstate, hrun]; decide) hlive hprio
  cases hw with
  | failed no hcode => exact hsame _ rfl rfl
  | sendTooLarge target => exact hsame _ rfl rfl
  | spurious => exact hsame _ rfl rfl
  | forks child => exact hsame _ rfl rfl
  | sends target htarget hsize =>
    exact ⟨fun hp ↦ absurd (h.kernel hp) hkernel, fun _ ↦ rfl, fun _ ↦ h.priority hlive⟩
  | acks hsize => exact hsame _ rfl rfl
  | _ => exact h.of_state hkernel nofun hlive rfl

theorem Proper.passive {p q : Pid} {c v w : View} {code : BitVec 16} (h : Proper q v)
    (hw : Passive c v p q code w) : Proper q w := by
  cases hw with
  | kept => exact h
  | born prio hfree hslot =>
    refine ⟨?_, nofun, fun _ ↦ ⟨prio, rfl⟩⟩
    rintro rfl
    exact absurd hslot (by decide)
  | woken hwait => exact h.of_state (by rw [hwait]; decide) nofun (by rw [hwait]; decide) rfl
  | buried hzombie =>
    exact h.of_state (by rw [hzombie]; decide) nofun (by rw [hzombie]; decide) rfl
  | receives hlisten =>
    exact h.of_state (by rw [hlisten]; decide) nofun (by rw [hlisten]; decide) rfl
  | refused hwaits htarget =>
    have hstate : (v.fail sendDataTooLarge).state = .waitListener := hwaits
    exact h.of_state (by rw [hwaits]; decide) (by rw [hstate]; decide) (by rw [hwaits]; decide) rfl
  | delivered hwaits htarget =>
    refine ⟨fun hq ↦ ?_, fun _ ↦ rfl, fun _ ↦ h.priority (by rw [hwaits]; decide)⟩
    exact nomatch (h.kernel hq).symm.trans hwaits
  | released hsize hack hstate htarget hsource =>
    exact h.of_state (by rw [hstate]; decide) nofun (by rw [hstate]; decide) rfl

/-- The invariant of the processes and of the buffer of the running one, which is empty. -/
structure Settled (V : Views) (currPid : Pid) : Prop where
  proper : ∀ q, Proper q (V q)
  idle : currPid ≠ 0 → (V currPid).buffer.usedSize = 0 ∧ (V currPid).buffer.writeAddr = 0

theorem Settled.move {V V' : Views} {currPid currPid' : Pid} {e : Event} (hsane : Sane V currPid)
    (h : Settled V currPid) (hmove : Move V currPid e V' currPid') : Settled V' currPid' := by
  constructor
  · intro q
    have hproper := h.proper q
    have hkeep : ∀ frame svcCode, Proper q ((V q).trapped frame svcCode) := fun frame svcCode ↦
      ⟨hproper.kernel, hproper.acknowledged, hproper.priority⟩
    generalize hw : V' q = w
    have hchange := hw ▸ hmove.change hsane q
    cases hchange with
    | kept hcurr hresume => exact hproper
    | unaware hq hresume => exact hproper
    | resumed write hresume hcurr hrun hwrite =>
      exact ⟨hproper.kernel, hproper.acknowledged, hproper.priority⟩
    | timer frame hevent hcurr hq => exact hkeep _ _
    | again frame write hevent hcurr hq hwrite =>
      exact ⟨hproper.kernel, hproper.acknowledged, hproper.priority⟩
    | active hevent hcurr hq hactive =>
      subst hq
      exact (hkeep _ _).active (hsane.running hcurr) hactive
    | passive hevent hcurr hq hpassive => exact hproper.passive hpassive
  · intro hcurr
    cases hmove with
    | timer frame hcurr' => exact absurd rfl hcurr
    | syscall hcurr' hcode houtcome => exact absurd rfl hcurr
    | again frame write hcurr' hwrite =>
      rw [Views.set_self]
      exact ⟨rfl, rfl⟩
    | resume p write ha hcurr' hp hrun hwrite =>
      rw [Views.set_self]
      exact ⟨rfl, rfl⟩

theorem settled_bootViews : Settled bootViews 0 := by
  refine ⟨fun q ↦ ?_, fun hne ↦ absurd rfl hne⟩
  unfold bootViews
  split_ifs with hinit hkernel
  · refine ⟨?_, nofun, fun _ ↦ ⟨15, rfl⟩⟩
    rintro rfl
    exact absurd hinit (by decide)
  · exact ⟨fun _ ↦ rfl, nofun, fun _ ↦ ⟨0, rfl⟩⟩
  · exact ⟨fun hq ↦ absurd hq hkernel, nofun, fun hfree ↦ absurd rfl hfree⟩

theorem SysRun.settled {history : History} {k : Kernel} (hrun : SysRun history k) :
    Settled k.sys.views k.sys.currPid :=
  SysRun.induct (I := fun _ V currPid ↦ Settled V currPid) settled_bootViews
    (fun _ _ _ _ _ hsane h hmove ↦ h.move hsane hmove) hrun

/-! ### No missed rendezvous -/

/-- No process waits to send to a process that listens. -/
def NoMissed (V : Views) : Prop :=
  ∀ sender receiver, WaitsFor V sender receiver → (V receiver).state ≠ .listeningCh

/-- A receive that finds a waiting sender has room for the message of the first one. -/
def ReceiveFits (V : Views) (currPid : Pid) (a : Action) : Prop :=
  ∀ frame sender, a = .svc 4 frame → WaitsFor V sender currPid →
    (∀ q < sender, ¬ WaitsFor V q currPid) →
    (V sender).senderData.sendSize ≤ (frame.registers 1).toNat

/-- The kernel has failed a send of `sender` for its size: it was called in this step or was waiting
before it, and the error is in its registers after it. -/
def SendFailed (V : Views) (currPid : Pid) (a : Action) (V' : Views) (sender : Pid) : Prop :=
  ((sender = currPid ∧ ∃ frame, a = .svc 3 frame) ∨ (V sender).state = .waitListener) ∧
    (V' sender).registers 0 = BitVec.allOnes 64 ∧ (V' sender).err.no = sendDataTooLarge

/-- A waiting sender still has the pid of its target in `x0`. -/
def WaitersUntouched (V : Views) : Prop :=
  ∀ q, (V q).state = .waitListener → 0 ≤ toInt ((V q).registers 0)

theorem toInt_allOnes : toInt (BitVec.allOnes 64) = -1 := by decide

section Steps

variable {V V' : Views} {currPid currPid' : Pid} {e : Event}

/-- The channel data of a process, apart from what its registers and buffer hold. -/
def SameChannel (v w : View) : Prop :=
  w.state = v.state ∧ w.senderData = v.senderData ∧ w.receiverData = v.receiverData

theorem sameChannel_trapped (p q : Pid) (frame : Frame) (svcCode : Option (BitVec 16)) :
    SameChannel (V q) (V.set p ((V p).trapped frame svcCode) q) := by
  rw [Views.set_apply]
  split_ifs with hq
  · rw [hq]
    exact ⟨rfl, rfl, rfl⟩
  · exact ⟨rfl, rfl, rfl⟩

/-- A move that is not a system call leaves the channel data of every process alone. -/
theorem Move.silent_or_syscall (h : Move V currPid e V' currPid') :
    ((∀ q, SameChannel (V q) (V' q)) ∧ ∀ code frame, e.action = .svc code frame → code = 101) ∨
      ∃ code frame, e = ⟨.svc code frame, none⟩ ∧ currPid ≠ 0 ∧
        SyscallOutcome (V.set currPid ((V currPid).trapped frame (some code))) currPid code V' := by
  cases h with
  | timer frame hcurr =>
    exact .inl ⟨fun q ↦ sameChannel_trapped currPid q frame none, fun _ _ he ↦ nomatch he⟩
  | syscall hcurr hcode houtcome => exact .inr ⟨_, _, rfl, hcurr, houtcome⟩
  | again frame write hcurr hwrite =>
    refine .inl ⟨fun q ↦ ?_, fun _ _ he ↦ (Action.svc.inj he).1.symm⟩
    rw [Views.set_apply]
    split_ifs with hq
    · rw [hq]
      exact ⟨rfl, rfl, rfl⟩
    · exact ⟨rfl, rfl, rfl⟩
  | resume p write ha hcurr hp hrun hwrite =>
    refine .inl ⟨fun q ↦ ?_, fun _ _ he ↦ ?_⟩
    · rw [Views.set_apply]
      split_ifs with hq
      · rw [hq]
        exact ⟨rfl, rfl, rfl⟩
      · exact ⟨rfl, rfl, rfl⟩
    · rcases ha with rfl | ⟨counter, rfl⟩
      · exact nomatch he
      · exact nomatch he

theorem Passive.waitListener {c v w : View} {p q : Pid} {code : BitVec 16}
    (h : Passive c v p q code w) (hw : w.state = .waitListener) :
    v.state = .waitListener ∧ w.senderData = v.senderData := by
  cases h with
  | kept => exact ⟨hw, rfl⟩
  | refused hwaits htarget => exact ⟨hwaits, rfl⟩
  | _ => exact nomatch hw

theorem Passive.listeningCh {c v w : View} {p q : Pid} {code : BitVec 16}
    (h : Passive c v p q code w) (hw : w.state = .listeningCh) : v.state = .listeningCh := by
  cases h with
  | kept => exact hw
  | refused hwaits htarget => exact nomatch hwaits.symm.trans hw
  | _ => exact nomatch hw

/-- A process starts to wait for a listener only by a send, and to listen only by a receive. -/
theorem Active.blocks {c w : View} {p : Pid} {code : BitVec 16} (h : Active c p code w)
    (hrun : c.state = .runnable) :
    (w.state = .waitListener → code = 3) ∧ (w.state = .listeningCh → code = 4) := by
  cases h with
  | failed no hcode =>
    exact ⟨fun hw ↦ (nomatch hrun.symm.trans hw), fun hw ↦ (nomatch hrun.symm.trans hw)⟩
  | spurious => exact ⟨fun hw ↦ (nomatch hrun.symm.trans hw), fun hw ↦ (nomatch hrun.symm.trans hw)⟩
  | forks child =>
    exact ⟨fun hw ↦ (nomatch hrun.symm.trans hw), fun hw ↦ (nomatch hrun.symm.trans hw)⟩
  | acks hsize =>
    exact ⟨fun hw ↦ (nomatch hrun.symm.trans hw), fun hw ↦ (nomatch hrun.symm.trans hw)⟩
  | sendTooLarge target => exact ⟨fun _ ↦ rfl, fun hw ↦ (nomatch hrun.symm.trans hw)⟩
  | sendWaits target htarget hsize => exact ⟨fun _ ↦ rfl, nofun⟩
  | listens => exact ⟨nofun, fun _ ↦ rfl⟩
  | _ => exact ⟨nofun, nofun⟩

/-- On a receive that finds a waiting sender, the outcome is decided by the sizes. -/
theorem SyscallOutcome.receive (h : SyscallOutcome V currPid 4 V') :
    (V' = V.set currPid (V currPid).listening ∧ ∀ q, ¬ WaitsFor V q currPid) ∨
    ∃ sender, WaitsFor V sender currPid ∧ (∀ q < sender, ¬ WaitsFor V q currPid) ∧
      ((TooLarge (V.set currPid (V currPid).listening) sender currPid ∧
        V' = (V.set currPid (V currPid).listening).set sender
          ((V sender).fail sendDataTooLarge)) ∨
      (¬ TooLarge (V.set currPid (V currPid).listening) sender currPid ∧
        V' = (V.set currPid (V currPid).listening).connect sender currPid)) := by
  generalize hcode : (4 : BitVec 16) = code at h
  cases h with
  | listens hnone => exact .inl ⟨rfl, hnone⟩
  | refused sender hwaits hfirst hlarge =>
    exact .inr ⟨sender, hwaits, hfirst, .inl ⟨hlarge, rfl⟩⟩
  | received sender hwaits hfirst hfits =>
    exact .inr ⟨sender, hwaits, hfirst, .inr ⟨hfits, rfl⟩⟩
  | failed hfail => cases hfail <;> exact absurd hcode (by decide)
  | _ => exact absurd hcode (by decide)

/-- A send that leaves its caller waiting has found its target not listening. -/
theorem SyscallOutcome.send (h : SyscallOutcome V currPid 3 V')
    (hrun : (V currPid).state = .runnable) (hwait : (V' currPid).state = .waitListener) :
    (V (V' currPid).senderData.targetPid).state ≠ .listeningCh := by
  generalize hcode : (3 : BitVec 16) = code at h
  cases h with
  | sendWaits target htarget hlisten hsize =>
    rw [Views.set_self]
    exact hlisten
  | sent target htarget hlisten hsize hfits =>
    have hne : currPid ≠ target := by
      rintro rfl
      cases hlisten.symm.trans hrun
    rw [Views.connect, Views.set_of_ne _ _ hne, Views.set_self, Views.set_self] at hwait
    cases hwait
  | failed hfail =>
    rw [Views.set_self] at hwait
    cases hfail with
    | send no => cases hrun.symm.trans hwait
    | sendTooLarge target hlisten hlarge => cases hrun.symm.trans hwait
    | _ => exact absurd hcode (by decide)
  | _ => exact absurd hcode (by decide)

/-- The trap of the caller does not change who waits for whom. -/
theorem waitsFor_trapped (p sender receiver : Pid) (frame : Frame) (svcCode : Option (BitVec 16)) :
    WaitsFor (V.set p ((V p).trapped frame svcCode)) sender receiver ↔
      WaitsFor V sender receiver := by
  obtain ⟨hstate, hdata, -⟩ := sameChannel_trapped (V := V) p sender frame svcCode
  rw [WaitsFor, WaitsFor, hstate, hdata]

theorem tooLarge_listening {p sender : Pid} (frame : Frame) (hne : sender ≠ p) :
    TooLarge ((V.set p ((V p).trapped frame (some 4))).set p
      ((V.set p ((V p).trapped frame (some 4))) p).listening) sender p ↔
      (frame.registers 1).toNat < (V sender).senderData.sendSize := by
  rw [TooLarge, Views.set_self, Views.set_self, Views.set_of_ne _ _ hne, Views.set_of_ne _ _ hne]
  rfl

/-- A receive without room for the message of the first waiting sender refuses it: the sender is
failed, but both stay blocked. -/
theorem Move.refused (hsane : Sane V currPid) (hmove : Move V currPid e V' currPid')
    (hfits : ¬ ReceiveFits V currPid e.action) :
    ∃ sender, WaitsFor V sender currPid ∧ WaitsFor V' sender currPid ∧
      (V' currPid).state = .listeningCh ∧ (V' sender).registers 0 = BitVec.allOnes 64 ∧
      (V' sender).err.no = sendDataTooLarge := by
  unfold ReceiveFits at hfits
  push Not at hfits
  obtain ⟨frame, sender, haction, hwaits, hfirst, hlarge⟩ := hfits
  obtain ⟨-, hcurr, -, houtcome⟩ := hmove.svc haction (by decide)
  have hrunning := hsane.running hcurr
  have hne : sender ≠ currPid := by
    rintro rfl
    exact nomatch hwaits.1.symm.trans hrunning
  rcases houtcome.receive with ⟨-, hnone⟩ | ⟨first, hfound, hleast, hsize⟩
  · exact absurd ((waitsFor_trapped ..).mpr hwaits) (hnone sender)
  · have heq : first = sender := by
      refine le_antisymm (not_lt.mp fun hlt ↦ ?_) (not_lt.mp fun hlt ↦ ?_)
      · exact hleast sender hlt ((waitsFor_trapped ..).mpr hwaits)
      · exact hfirst first hlt ((waitsFor_trapped ..).mp hfound)
    subst heq
    have hlarge' := (tooLarge_listening frame hne).mpr hlarge
    rcases hsize with ⟨-, rfl⟩ | ⟨hfits, -⟩
    · refine ⟨first, hwaits, ?_, ?_, ?_, ?_⟩
      · rw [WaitsFor, Views.set_self]
        exact (waitsFor_trapped ..).mpr hwaits
      · rw [Views.set_of_ne _ _ hne.symm, Views.set_self]
        rfl
      · rw [Views.set_self]
        rfl
      · rw [Views.set_self]
        rfl
    · exact absurd hlarge' hfits

/-- With room for the message of the first waiting sender, a receive takes it, or listens when there
is none. -/
theorem ReceiveFits.outcome {frame : Frame} (hrun : (V currPid).state = .runnable)
    (hfits : ReceiveFits V currPid (.svc 4 frame))
    (houtcome : SyscallOutcome (V.set currPid ((V currPid).trapped frame (some 4))) currPid 4 V') :
    ((V' currPid).state = .listeningCh ∧ (∀ q, ¬ WaitsFor V q currPid) ∧
      ∀ q, q ≠ currPid → V' q = V q) ∨
    (V' currPid).state = .runnable ∧ ∃ sender, WaitsFor V sender currPid ∧
      V' sender = (V sender).delivered ∧ ∀ q, q ≠ currPid → q ≠ sender → V' q = V q := by
  rcases houtcome.receive with ⟨rfl, hnone⟩ | ⟨first, hfound, hleast, hsize⟩
  · refine .inl ⟨by rw [Views.set_self]; rfl, fun q hq ↦ ?_, fun q hq ↦ ?_⟩
    · exact hnone q ((waitsFor_trapped ..).mpr hq)
    · rw [Views.set_of_ne _ _ hq, Views.set_of_ne _ _ hq]
  · have hwaits := (waitsFor_trapped ..).mp hfound
    have hne : first ≠ currPid := by
      rintro rfl
      exact nomatch hwaits.1.symm.trans hrun
    rcases hsize with ⟨hlarge, -⟩ | ⟨-, rfl⟩
    · refine absurd ((tooLarge_listening frame hne).mp hlarge) (not_lt.mpr ?_)
      refine hfits frame first rfl hwaits fun q hq hq' ↦ ?_
      exact hleast q hq ((waitsFor_trapped ..).mpr hq')
    · refine .inr ⟨by rw [Views.connect, Views.set_self]; rfl, first, hwaits, ?_, fun q hq hq' ↦ ?_⟩
      · rw [Views.connect, Views.set_of_ne _ _ hne, Views.set_self, Views.set_of_ne _ _ hne,
          Views.set_of_ne _ _ hne]
      · rw [Views.connect, Views.set_of_ne _ _ hq, Views.set_of_ne _ _ hq', Views.set_of_ne _ _ hq,
          Views.set_of_ne _ _ hq]

theorem NoMissed.move (hsane : Sane V currPid) (h : NoMissed V)
    (hmove : Move V currPid e V' currPid') (hfits : ReceiveFits V currPid e.action) :
    NoMissed V' := by
  intro sender receiver hwaits hlisten
  rcases hmove.silent_or_syscall with ⟨hsilent, -⟩ | ⟨code, frame, he, hcurr, houtcome⟩
  · obtain ⟨hstate, hdata, -⟩ := hsilent sender
    rw [WaitsFor, hstate, hdata] at hwaits
    rw [(hsilent receiver).1] at hlisten
    exact h sender receiver hwaits hlisten
  · have hrunning : (V.set currPid ((V currPid).trapped frame (some code)) currPid).state =
        .runnable := by
      rw [Views.set_self]
      exact hsane.running hcurr
    have hsend : sender = currPid → code = 3 := by
      rintro rfl
      exact ((houtcome.active hrunning).blocks hrunning).1 hwaits.1
    have hreceive : receiver = currPid → code = 4 := by
      rintro rfl
      exact ((houtcome.active hrunning).blocks hrunning).2 hlisten
    have hbefore : receiver ≠ currPid → (V receiver).state = .listeningCh := by
      intro hne
      have hstate := (houtcome.passive hne).listeningCh hlisten
      rwa [(sameChannel_trapped currPid receiver frame _).1] at hstate
    by_cases hs : sender = currPid
    · obtain rfl := hsend hs
      have hr : receiver ≠ currPid := fun heq ↦ absurd (hreceive heq) (by decide)
      subst hs
      have htarget := houtcome.send hrunning hwaits.1
      rw [hwaits.2, (sameChannel_trapped sender receiver frame _).1] at htarget
      exact htarget (hbefore hr)
    · have hwaited : WaitsFor V sender receiver := by
        obtain ⟨hstate, hdata⟩ := (houtcome.passive hs).waitListener hwaits.1
        rw [WaitsFor, hdata] at hwaits
        exact (waitsFor_trapped ..).mp ⟨hstate, hwaits.2⟩
      by_cases hr : receiver = currPid
      · obtain rfl := hreceive hr
        subst hr
        rw [he] at hfits
        rcases hfits.outcome (hsane.running hcurr) houtcome with ⟨-, hnone, -⟩ | ⟨hstate, -⟩
        · exact hnone sender hwaited
        · cases hstate.symm.trans hlisten
      · exact h sender receiver hwaited (hbefore hr)

/-- With room for every message found, no sender is refused while it waits. -/
theorem not_refused (hsane : Sane V currPid) (hmove : Move V currPid e V' currPid')
    (hfits : ReceiveFits V currPid e.action) {q : Pid} (hwait : (V q).state = .waitListener) :
    (V' q).registers = (V q).registers := by
  have hne : currPid ≠ 0 → q ≠ currPid := by
    rintro hcurr rfl
    exact nomatch hwait.symm.trans (hsane.running hcurr)
  generalize hw : V' q = w
  have hchange := hw ▸ hmove.change hsane q
  cases hchange with
  | kept hcurr hresume => rfl
  | unaware hq hresume => rfl
  | resumed write hresume hcurr hrun hwrite => rfl
  | timer frame hevent hcurr hq => exact absurd hq (hne hcurr)
  | again frame write hevent hcurr hq hwrite => exact absurd hq (hne hcurr)
  | active hevent hcurr hq hactive => exact absurd hq (hne hcurr)
  | passive hevent hcurr hq hpassive =>
    cases hpassive with
    | kept => rfl
    | refused hwaits htarget =>
      obtain ⟨-, -, -, houtcome⟩ := hmove.svc (by rw [hevent]) (by decide)
      rw [hevent] at hfits
      rcases hfits.outcome (hsane.running hcurr) houtcome with
        ⟨-, -, hkeep⟩ | ⟨-, sender, -, htaken, hkeep⟩
      · rw [← hw, hkeep q hq]
      · rw [← hw]
        by_cases hs : q = sender
        · rw [hs, htaken]
          rfl
        · rw [hkeep q hq hs]
    | delivered hwaits htarget => rfl
    | born prio hfree hslot => exact nomatch hwait.symm.trans hfree
    | woken hwait' => exact nomatch hwait.symm.trans hwait'
    | buried hzombie => exact nomatch hwait.symm.trans hzombie
    | receives hlisten => exact nomatch hwait.symm.trans hlisten
    | released hsize hack hstate htarget hsource => exact nomatch hwait.symm.trans hstate

theorem WaitersUntouched.move (hsane : Sane V currPid) (h : WaitersUntouched V)
    (hmove : Move V currPid e V' currPid') (hfits : ReceiveFits V currPid e.action) :
    WaitersUntouched V' := by
  intro q hwait
  rcases hmove.silent_or_syscall with ⟨hsilent, -⟩ | ⟨code, frame, he, hcurr, houtcome⟩
  · have hbefore : (V q).state = .waitListener := (hsilent q).1.symm.trans hwait
    rw [not_refused hsane hmove hfits hbefore]
    exact h q hbefore
  · by_cases hq : q = currPid
    · subst hq
      have hrunning : (V.set q ((V q).trapped frame (some code)) q).state = .runnable := by
        rw [Views.set_self]
        exact hsane.running hcurr
      generalize hw : V' q = w at hwait
      have hactive := hw ▸ houtcome.active hrunning
      cases hactive with
      | sendWaits target htarget hsize => exact htarget ▸ Int.natCast_nonneg _
      | failed no hcode => exact nomatch hrunning.symm.trans hwait
      | sendTooLarge target => exact nomatch hrunning.symm.trans hwait
      | spurious => exact nomatch hrunning.symm.trans hwait
      | forks child => exact nomatch hrunning.symm.trans hwait
      | acks hsize => exact nomatch hrunning.symm.trans hwait
      | _ => exact nomatch hwait
    · have hbefore := ((houtcome.passive hq).waitListener hwait).1
      rw [(sameChannel_trapped currPid q frame _).1] at hbefore
      rw [not_refused hsane hmove hfits hbefore]
      exact h q hbefore

/-- With room for every message found, a send that the kernel fails leaves its sender runnable. -/
theorem SendFailed.runnable (hsane : Sane V currPid) (h : WaitersUntouched V)
    (hmove : Move V currPid e V' currPid') (hfits : ReceiveFits V currPid e.action) {sender : Pid}
    (hfailed : SendFailed V currPid e.action V' sender) : (V' sender).state = .runnable := by
  obtain ⟨hcalled | hwait, hx0, -⟩ := hfailed
  · obtain ⟨rfl, frame, he⟩ := hcalled
    obtain ⟨-, hcurr, -, houtcome⟩ := hmove.svc he (by decide)
    have hrunning : (V.set sender ((V sender).trapped frame (some 3)) sender).state =
        .runnable := by
      rw [Views.set_self]
      exact hsane.running hcurr
    have hnot : ∀ target : Pid, toInt (BitVec.allOnes 64) ≠ target.val := by
      intro target heq
      rw [toInt_allOnes] at heq
      omega
    generalize hw : V' sender = w at hx0
    have hactive := hw ▸ houtcome.active hrunning
    generalize hcode : (3 : BitVec 16) = code at hactive
    cases hactive with
    | failed no hcode' =>
      subst hcode
      exact hrunning
    | sendTooLarge target => exact hrunning
    | sendWaits target htarget hsize => exact absurd (hx0 ▸ htarget) (hnot target)
    | sends target htarget hsize => exact absurd (hx0 ▸ htarget) (hnot target)
    | _ => exact absurd hcode (by decide)
  · rw [not_refused hsane hmove hfits hwait] at hx0
    have hpos := h sender hwait
    rw [hx0, toInt_allOnes] at hpos
    exact absurd hpos (by decide)

end Steps

theorem noMissed_bootViews : NoMissed bootViews := by
  intro sender receiver hwaits
  rcases bootViews_state sender with hstate | hstate | hstate <;>
    exact nomatch hstate.symm.trans hwaits.1

theorem waitersUntouched_bootViews : WaitersUntouched bootViews := by
  intro q hwait
  rcases bootViews_state q with hstate | hstate | hstate <;>
    exact nomatch hstate.symm.trans hwait

/-- The steps of a run have room for the messages that its receives find. -/
def ReceivesFit (history : History) : Prop :=
  ∀ t ∈ history, ReceiveFits t.pre.sys.views t.pre.sys.currPid t.label.action

theorem SysRun.noMissed {history : History} {k : Kernel} (hrun : SysRun history k)
    (hfits : ReceivesFit history) : NoMissed k.sys.views ∧ WaitersUntouched k.sys.views := by
  refine SysRun.induct (I := fun history V _ ↦ ReceivesFit history →
    NoMissed V ∧ WaitersUntouched V) (fun _ ↦ ⟨noMissed_bootViews, waitersUntouched_bootViews⟩)
    (fun history k e k' hrun hsane ih hmove hfits ↦ ?_) hrun hfits
  obtain ⟨hmissed, huntouched⟩ := ih fun t ht ↦ hfits t (List.mem_cons_of_mem _ ht)
  have hstep := hfits _ List.mem_cons_self
  exact ⟨hmissed.move hsane hmove hstep, huntouched.move hsane hmove hstep⟩

theorem SysRun.of_mem {history : History} {k : Kernel} (hrun : SysRun history k)
    {t : Transition Kernel Event} (ht : t ∈ history) :
    ∃ past, past ⊆ history ∧ SysRun past t.pre ∧ Sane t.pre.sys.views t.pre.sys.currPid ∧
      Move t.pre.sys.views t.pre.sys.currPid t.label t.post.sys.views t.post.sys.currPid := by
  obtain ⟨⟨past, hsub, hpast⟩, hstep⟩ := Run.of_mem hrun ht
  have hsane := SysRun.sane hpast
  exact ⟨past, hsub, hpast, hsane, move_of_step hsane hstep⟩

/-- When exactly no rendezvous is missed. In the states of a run no process waits to send to one
that listens, and equally every send that is failed for its size leaves its sender runnable, if and
only if every receive of the run that finds a waiting sender has room for the message of the first
one. -/
theorem noMissed_iff_receivesFit {history : History} {k : Kernel} (hrun : SysRun history k) :
    ((∀ t ∈ history, NoMissed t.pre.sys.views ∧ NoMissed t.post.sys.views) ↔
      ReceivesFit history) ∧
    ((∀ t ∈ history, ∀ sender,
        SendFailed t.pre.sys.views t.pre.sys.currPid t.label.action t.post.sys.views sender →
        (t.post.sys.views sender).state = .runnable) ↔
      ReceivesFit history) := by
  refine ⟨⟨fun h t ht ↦ ?_, fun hfits t ht ↦ ?_⟩,
    ⟨fun h t ht ↦ ?_, fun hfits t ht sender hsend ↦ ?_⟩⟩
  · obtain ⟨past, -, -, hsane, hmove⟩ := SysRun.of_mem hrun ht
    by_contra hlarge
    obtain ⟨sender, -, hwaits, hlisten, -⟩ := hmove.refused hsane hlarge
    exact (h t ht).2 sender _ hwaits hlisten
  · obtain ⟨past, hsub, hpast, hsane, hmove⟩ := SysRun.of_mem hrun ht
    obtain ⟨hmissed, -⟩ := SysRun.noMissed hpast fun u hu ↦ hfits u (hsub hu)
    exact ⟨hmissed, hmissed.move hsane hmove (hfits t ht)⟩
  · obtain ⟨past, -, -, hsane, hmove⟩ := SysRun.of_mem hrun ht
    by_contra hlarge
    obtain ⟨sender, hwaited, hwaits, -, hx0, hno⟩ := hmove.refused hsane hlarge
    exact nomatch hwaits.1.symm.trans (h t ht sender ⟨.inr hwaited.1, hx0, hno⟩)
  · obtain ⟨past, hsub, hpast, hsane, hmove⟩ := SysRun.of_mem hrun ht
    obtain ⟨-, huntouched⟩ := SysRun.noMissed hpast fun u hu ↦ hfits u (hsub hu)
    exact hsend.runnable hsane huntouched hmove (hfits t ht)

/-- The boot sequence, a fork, and a send of 64 bytes from the child to `init`, which then receives
into `size` bytes. -/
def sendThenReceive (size : BitVec 64) : List Action :=
  [.start, .svc 0 (sampleFrame [15]), .schedule 0, .svc 3 (sampleFrame [1, 0x5000, 64, 0, 0, 1]),
    .schedule 0, .svc 4 (sampleFrame [0x6000, size])]

/-- A run whose receive has room for the message. -/
theorem noMissed_iff_receivesFit_sample : ∃ history k, SysRun history k ∧
    (k.sys.views 2).state = .sendingCh ∧ (k.sys.views 1).state = .runnable ∧
    ((∀ t ∈ history, NoMissed t.pre.sys.views ∧ NoMissed t.post.sys.views) ↔
      ReceivesFit history) := by
  obtain ⟨history, k, hrun, hstate⟩ := exists_run sampleBoot (sendThenReceive 64)
    (fun _ k ↦ (k.sys.views 2).state = .sendingCh ∧ (k.sys.views 1).state = .runnable)
    (by decide +kernel)
  exact ⟨history, k, hrun, (of_decide_eq_true hstate).1, (of_decide_eq_true hstate).2,
    (noMissed_iff_receivesFit hrun).1⟩

/-- A receive into 8 bytes meets a sender of 64: its send is failed with `-1`, but it goes on
waiting for the process that now listens. -/
theorem not_noMissed_sample : ∃ k, Reachable k ∧ WaitsFor k.sys.views 2 1 ∧
    (k.sys.views 1).state = .listeningCh ∧ ((k.sys.views 2).registers 0 = BitVec.allOnes 64) ∧
    (k.sys.views 2).err.no = sendDataTooLarge ∧ (k.sys.views 2).state ≠ .runnable := by
  obtain ⟨history, k, hrun, hstate⟩ := exists_run sampleBoot (sendThenReceive 8)
    (fun _ k ↦ WaitsFor k.sys.views 2 1 ∧ (k.sys.views 1).state = .listeningCh ∧
      (k.sys.views 2).registers 0 = BitVec.allOnes 64 ∧
      (k.sys.views 2).err.no = sendDataTooLarge ∧ (k.sys.views 2).state ≠ .runnable)
    (by decide +kernel)
  exact ⟨k, ⟨history, hrun⟩, of_decide_eq_true hstate⟩

end SysresOs.Proc
