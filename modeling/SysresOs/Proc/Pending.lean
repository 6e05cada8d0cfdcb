import SysresOs.Proc.Channel
import SysresOs.Proc.Stops

/-!
# Pending messages
-/

set_option autoImplicit false
set_option relaxedAutoImplicit false

namespace SysresOs.Proc

open SysresOs.Outcome SysresOs.Trace

/-! ### Events of a process -/

/-- The process `p` executes `SVC #code` in this transition. -/
def Traps (t : Transition Kernel Event) (p : Pid) (code : BitVec 16) (frame : Frame) : Prop :=
  t.pre.sys.currPid = p ∧ t.label.action = .svc code frame

/-- A receive of `p` completes in this transition: it was listening before or calls `receive` now,
and is runnable afterwards. -/
def Completes (t : Transition Kernel Event) (p : Pid) : Prop :=
  ((t.pre.sys.views p).state = .listeningCh ∨ ∃ frame, Traps t p 4 frame) ∧
    (t.post.sys.views p).state = .runnable

/-- An acknowledgement of `p` of a size that the kernel accepts. -/
def Acknowledges (t : Transition Kernel Event) (p : Pid) : Prop :=
  ∃ frame, Traps t p 5 frame ∧ (frame.registers 2).toNat ≤ buffSize

/-- A process is forked into the slot `p` in this transition. -/
def Born (t : Transition Kernel Event) (p : Pid) : Prop :=
  (t.pre.sys.views p).state = .free ∧ (t.post.sys.views p).state ≠ .free

/-- The process in slot `p` has completed a receive and not acknowledged since. -/
def Pending : History → Pid → Prop
  | [], _ => False
  | t :: history, p => Completes t p ∨ (Pending history p ∧ ¬ Acknowledges t p ∧ ¬ Born t p)

/-- The process `s` is blocked until `p` acknowledges its message. -/
def SendsTo (V : Views) (s p : Pid) : Prop :=
  (V s).state = .sendingCh ∧ (V s).senderData.targetPid = p

/-- The last sender that `p` received from is blocked until `p` acknowledges. -/
def Linked (V : Views) (p : Pid) : Prop := SendsTo V (V p).receiverData.sourcePid p

/-! ### Pending messages and blocked senders -/

section Steps

variable {V V' : Views} {p q : Pid} {code : BitVec 16}

theorem Linked.congr {V V' : Views} (h : ∀ q, SameChannel (V q) (V' q)) (p : Pid) :
    Linked V' p ↔ Linked V p := by
  obtain ⟨-, -, hreceiver⟩ := h p
  obtain ⟨hstate, hsender, -⟩ := h (V p).receiverData.sourcePid
  rw [Linked, Linked, SendsTo, SendsTo, hreceiver, hstate, hsender]

/-- Updating a process to one that is not blocked on an acknowledgement. -/
theorem linked_set {x : Pid} {v : View} (hv : v.state ≠ .sendingCh) (q : Pid) :
    Linked (V.set x v) q ↔ (V.set x v q).receiverData.sourcePid ≠ x ∧
      SendsTo V (V.set x v q).receiverData.sourcePid q := by
  generalize hsource : (V.set x v q).receiverData.sourcePid = s
  rw [Linked, hsource, SendsTo, SendsTo, Views.set_apply]
  split_ifs with hs
  · simp [hs, hv]
  · simp [hs]

/-- An update of a process that neither was nor is blocked on an acknowledgement, and keeps its
source. -/
theorem linked_set_idle {x : Pid} {v : View} (hx : (V x).state ≠ .sendingCh)
    (hv : v.state ≠ .sendingCh)
    (hsource : v.receiverData.sourcePid = (V x).receiverData.sourcePid) (q : Pid) :
    Linked (V.set x v) q ↔ Linked V q := by
  have hkeep : (V.set x v q).receiverData.sourcePid = (V q).receiverData.sourcePid := by
    rw [Views.set_apply]
    split_ifs with hq
    · rw [hsource, hq]
    · rfl
  rw [linked_set hv, hkeep]
  refine and_iff_right_of_imp fun hsends heq ↦ hx ?_
  rw [← heq]
  exact hsends.1

/-- A connection links the receiver, and nobody else. -/
theorem linked_connect {sender receiver : Pid} (hne : sender ≠ receiver)
    (hpid : (V sender).pid = sender) (hsender : (V sender).state ≠ .sendingCh)
    (hreceiver : (V receiver).state ≠ .sendingCh)
    (htarget : (V sender).senderData.targetPid = receiver) (q : Pid) :
    Linked (V.connect sender receiver) q ↔ q = receiver ∨ Linked V q := by
  by_cases hq : q = receiver
  · subst hq
    refine iff_of_true ?_ (.inl rfl)
    rw [Linked, Views.connect, Views.set_self]
    change SendsTo _ (V sender).pid q
    rw [hpid, SendsTo, Views.set_of_ne _ _ hne, Views.set_self]
    exact ⟨rfl, htarget⟩
  · rw [or_iff_right hq, Views.connect, linked_set (by rintro ⟨⟩), Views.set_of_ne _ _ hq]
    have hsource : (V.set sender (V sender).delivered q).receiverData.sourcePid =
        (V q).receiverData.sourcePid := by
      rw [Views.set_apply]
      split_ifs with hs
      · rw [hs]
        rfl
      · rfl
    rw [hsource, Linked]
    generalize (V q).receiverData.sourcePid = s
    by_cases hs : s = sender
    · subst hs
      refine iff_of_false (fun h ↦ ?_) fun h ↦ hsender h.1
      rw [SendsTo, Views.set_self] at h
      exact hq (h.2.2.symm.trans htarget)
    · rw [SendsTo, SendsTo, Views.set_of_ne _ _ hs]
      refine and_iff_right_of_imp ?_
      rintro h rfl
      exact hreceiver h.1

/-- A slot is taken only by a fork. -/
theorem Passive.free {c v w : View} (h : Passive c v p q code w) (hcode : code ≠ 0)
    (hv : v.state = .free) : w.state = .free := by
  cases h with
  | kept => exact hv
  | born prio hfree hslot => exact absurd rfl hcode
  | woken hwait => exact nomatch hv.symm.trans hwait
  | buried hzombie => rfl
  | receives hlisten => exact nomatch hv.symm.trans hlisten
  | refused hwaits htarget => exact nomatch hv.symm.trans hwaits
  | delivered hwaits htarget => exact nomatch hv.symm.trans hwaits
  | released hsize hack hstate htarget hsource => exact nomatch hv.symm.trans hstate

/-- A receive of a listening process completes only by a send. -/
theorem Passive.completes {c v w : View} (h : Passive c v p q code w)
    (hv : v.state = .listeningCh) (hw : w.state = .runnable) : code = 3 := by
  cases h with
  | kept => exact nomatch hv.symm.trans hw
  | born prio hfree hslot => exact nomatch hv.symm.trans hfree
  | woken hwait => exact nomatch hv.symm.trans hwait
  | buried hzombie => exact nomatch hw
  | receives hlisten => rfl
  | refused hwaits htarget => exact nomatch hv.symm.trans hwaits
  | delivered hwaits htarget => exact nomatch hv.symm.trans hwaits
  | released hsize hack hstate htarget hsource => exact nomatch hv.symm.trans hstate

/-- The events of `q` in a system call of `p` that bear on its pending message. -/
def CompletesIn (V V' : Views) (p q : Pid) (code : BitVec 16) : Prop :=
  ((V q).state = .listeningCh ∨ q = p ∧ code = 4) ∧ (V' q).state = .runnable

def AcknowledgesIn (V : Views) (p q : Pid) (code : BitVec 16) : Prop :=
  q = p ∧ code = 5 ∧ ((V p).registers 2).toNat ≤ buffSize

def BornIn (V V' : Views) (q : Pid) : Prop := (V q).state = .free ∧ (V' q).state ≠ .free

section Call

variable {v : View} (hrun : (V p).state = .runnable)
include hrun

/-- A process that is not runnable is not the caller. -/
theorem ne_caller {r : Pid} (hr : (V r).state ≠ .runnable) : r ≠ p := by
  rintro rfl
  exact hr hrun

theorem SyscallOutcome.not_bornIn (h : SyscallOutcome V p code V') (hcode : code ≠ 0) :
    ¬ BornIn V V' q := by
  rintro ⟨hfree, hlive⟩
  have hq : q ≠ p := ne_caller hrun (by rw [hfree]; decide)
  exact hlive ((h.passive hq).free hcode hfree)

theorem SyscallOutcome.not_completesIn (h : SyscallOutcome V p code V') (hsend : code ≠ 3)
    (hreceive : code ≠ 4) : ¬ CompletesIn V V' p q code := by
  rintro ⟨hlisten | ⟨-, hcode⟩, hstate⟩
  · have hq : q ≠ p := ne_caller hrun (by rw [hlisten]; decide)
    exact hsend ((h.passive hq).completes hlisten hstate)
  · exact hreceive hcode

/-- A call that changes its caller only completes no receive, unless it is a receive that leaves it
runnable. -/
theorem not_completesIn_set (hv : code = 4 → v.state ≠ .runnable) :
    ¬ CompletesIn V (V.set p v) p q code := by
  rintro ⟨hlisten | ⟨rfl, hcode⟩, hstate⟩
  · rw [Views.set_of_ne _ _ (ne_caller hrun (by rw [hlisten]; decide))] at hstate
    cases hlisten.symm.trans hstate
  · rw [Views.set_self] at hstate
    exact hv hcode hstate

theorem not_bornIn_set : ¬ BornIn V (V.set p v) q := by
  rintro ⟨hfree, hlive⟩
  rw [Views.set_of_ne _ _ (ne_caller hrun (by rw [hfree]; decide))] at hlive
  exact hlive hfree

/-- A change of the caller that leaves it with its source, and not blocked on an acknowledgement. -/
theorem linked_set_caller (hv : v.state ≠ .sendingCh)
    (hsource : v.receiverData.sourcePid = (V p).receiverData.sourcePid) (q : Pid) :
    Linked (V.set p v) q ↔ Linked V q :=
  linked_set_idle (by rw [hrun]; decide) hv hsource q

/-- A call that fails changes no link. -/
theorem Failure.linked_iff (h : Failure V p code v) (q : Pid) :
    Linked (V.set p v) q ↔ Linked V q := by
  have hstate : v.state = (V p).state := by cases h <;> rfl
  have hsource : v.receiverData.sourcePid = (V p).receiverData.sourcePid := by cases h <;> rfl
  exact linked_set_caller hrun (by rw [hstate, hrun]; decide) hsource q

/-- An acknowledgement that fails is of no linked process: it is too large, or there is no blocked
sender. -/
theorem Failure.not_acknowledgesIn (h : Failure V p code v) (hproper : ∀ q, Proper q (V q))
    (hlinked : Linked V q) : ¬ AcknowledgesIn V p q code := by
  rintro ⟨rfl, hcode, hsize⟩
  cases h with
  | fork no => exact absurd hcode (by decide)
  | wait => exact absurd hcode (by decide)
  | send no => exact absurd hcode (by decide)
  | sendTooLarge target hlisten hlarge => exact absurd hcode (by decide)
  | ackTooLarge hlarge => exact absurd hsize (not_le.mpr hlarge)
  | spurious hsource =>
    rcases hsource with hack | hstate
    · rw [(hproper _).acknowledged hlinked.1] at hack
      cases hack
    · exact hstate hlinked.1

/-- A new process is not linked: it has the kernel's slot as its source. -/
theorem linked_forked {child : Pid} {number : BitVec 64} {prio : ℤ}
    (hfree : (V child).state = .free) (hproper : ∀ q, Proper q (V q)) (q : Pid) :
    Linked ((V.set p ((V p).setX0 number)).set child ((V p).forked child prio)) q ↔
      Linked V q ∧ q ≠ child := by
  have hself : (V p).state ≠ .sendingCh := by rw [hrun]; decide
  have hne : child ≠ p := ne_caller hrun (by rw [hfree]; decide)
  have hparent : Linked (V.set p ((V p).setX0 number)) q ↔ Linked V q :=
    linked_set_caller (v := (V p).setX0 number) hrun hself rfl q
  rw [linked_set (v := (V p).forked child prio) (by rintro ⟨⟩)]
  by_cases hq : q = child
  · subst hq
    refine iff_of_false (fun hlinked ↦ ?_) fun hlinked ↦ hlinked.2 rfl
    have hsends := hlinked.2
    rw [Views.set_self] at hsends
    change SendsTo _ 0 q at hsends
    have hkernel := (hproper 0).kernel rfl
    rw [SendsTo, Views.set_of_ne _ _ (ne_caller hrun (by rw [hkernel]; decide)), hkernel] at hsends
    cases hsends.1
  · rw [and_iff_left hq, ← hparent, Views.set_of_ne _ _ hq, Linked]
    refine and_iff_right_of_imp fun hsends heq ↦ ?_
    rw [heq, SendsTo, Views.set_of_ne _ _ hne, hfree] at hsends
    cases hsends.1

/-- A child that is reaped leaves all links as they are. -/
theorem linked_reap_child {child : Pid} (hzombie : (V child).state = .zombie) (q : Pid) :
    Linked (V.reap p child) q ↔ Linked V q := by
  have hself : (V p).state ≠ .sendingCh := by rw [hrun]; decide
  have hne : child ≠ p := ne_caller hrun (by rw [hzombie]; decide)
  rw [Views.reap]
  refine (linked_set_idle (v := (V p).reaping (V child)) ?_ (by rintro ⟨⟩) ?_ q).trans
    (linked_set_idle (v := (V child).setState .free) (by rw [hzombie]; decide) (by rintro ⟨⟩) rfl q)
  · rw [Views.set_of_ne _ _ hne.symm]
    exact hself
  · rw [Views.set_of_ne _ _ hne.symm]
    rfl

/-- So does a caller that is reaped by its parent. -/
theorem linked_reap_caller {parent : Pid} (hwait : (V parent).state = .waiting) (q : Pid) :
    Linked ((V.set p (V p).exiting).reap parent p) q ↔ Linked V q := by
  have hne : parent ≠ p := ne_caller hrun (by rw [hwait]; decide)
  rw [Views.reap, Views.set_self, Views.set_set, Views.set_of_ne _ _ hne]
  refine (linked_set_idle (v := (V parent).reaping (V p).exiting) ?_ (by rintro ⟨⟩) ?_ q).trans
    (linked_set_caller (v := (V p).exiting.setState .free) hrun (by rintro ⟨⟩) rfl q)
  · rw [Views.set_of_ne _ _ hne, hwait]
    decide
  · rw [Views.set_of_ne _ _ hne]
    rfl

/-- A send to a listening process links it. -/
theorem linked_sent {target : Pid} (hpid : (V p).pid = p)
    (hlisten : (V target).state = .listeningCh) (q : Pid) :
    Linked ((V.set p ((V p).offering target)).connect p target) q ↔ q = target ∨ Linked V q := by
  have hself : (V p).state ≠ .sendingCh := by rw [hrun]; decide
  have hne : target ≠ p := ne_caller hrun (by rw [hlisten]; decide)
  rw [linked_connect hne.symm (by rw [Views.set_self]; exact hpid)
    (by rw [Views.set_self]; exact hself)
    (by rw [Views.set_of_ne _ _ hne, hlisten]; decide) (by rw [Views.set_self]; rfl),
    linked_set_caller (v := (V p).offering target) hrun hself rfl q]

/-- The receive that a send completes is the one of its target. -/
theorem completesIn_sent {target : Pid} (hlisten : (V target).state = .listeningCh) :
    CompletesIn V ((V.set p ((V p).offering target)).connect p target) p q 3 ↔ q = target := by
  constructor
  · rintro ⟨hlisten' | ⟨-, hcode⟩, hstate⟩
    · by_contra hq
      have hq' := ne_caller hrun (show (V q).state ≠ .runnable by rw [hlisten']; decide)
      rw [Views.connect, Views.set_of_ne _ _ hq, Views.set_of_ne _ _ hq',
        Views.set_of_ne _ _ hq'] at hstate
      cases hlisten'.symm.trans hstate
    · exact absurd hcode (by decide)
  · rintro rfl
    refine ⟨.inl hlisten, ?_⟩
    rw [Views.connect, Views.set_self]
    rfl

/-- A sender whose message is too large for the receiver changes no link. -/
theorem linked_refused {sender : Pid} (hwaits : WaitsFor V sender p) (q : Pid) :
    Linked ((V.set p (V p).listening).set sender ((V sender).fail sendDataTooLarge)) q ↔
      Linked V q := by
  have hne : sender ≠ p := ne_caller hrun (by rw [hwaits.1]; decide)
  have hwait : ((V sender).fail sendDataTooLarge).state = .waitListener := hwaits.1
  rw [← linked_set_caller (v := (V p).listening) hrun (by rintro ⟨⟩) rfl q]
  refine linked_set_idle ?_ (by rw [hwait]; decide) ?_ q
  · rw [Views.set_of_ne _ _ hne, hwaits.1]
    decide
  · rw [Views.set_of_ne _ _ hne]
    rfl

/-- A refused sender completes no receive. -/
theorem not_completesIn_refused {sender : Pid} (hwaits : WaitsFor V sender p) : ¬ CompletesIn V
    ((V.set p (V p).listening).set sender ((V sender).fail sendDataTooLarge)) p q 4 := by
  have hne : sender ≠ p := ne_caller hrun (by rw [hwaits.1]; decide)
  rintro ⟨hlisten | ⟨rfl, -⟩, hstate⟩
  · rw [Views.set_of_ne _ _ (by rintro rfl; cases hlisten.symm.trans hwaits.1),
      Views.set_of_ne _ _ (ne_caller hrun (by rw [hlisten]; decide))] at hstate
    cases hlisten.symm.trans hstate
  · rw [Views.set_of_ne _ _ hne.symm, Views.set_self] at hstate
    cases hstate

/-- A receive that takes the message of a waiting sender links its caller. -/
theorem linked_received {sender : Pid} (hpid : (V sender).pid = sender)
    (hwaits : WaitsFor V sender p) (q : Pid) :
    Linked ((V.set p (V p).listening).connect sender p) q ↔ q = p ∨ Linked V q := by
  have hne : sender ≠ p := ne_caller hrun (by rw [hwaits.1]; decide)
  rw [linked_connect hne (by rw [Views.set_of_ne _ _ hne]; exact hpid)
    (by rw [Views.set_of_ne _ _ hne, hwaits.1]; decide) (by rw [Views.set_self]; rintro ⟨⟩)
    (by rw [Views.set_of_ne _ _ hne]; exact hwaits.2),
    linked_set_caller (v := (V p).listening) hrun (by rintro ⟨⟩) rfl q]

theorem completesIn_received {sender : Pid} (hwaits : WaitsFor V sender p) :
    CompletesIn V ((V.set p (V p).listening).connect sender p) p q 4 ↔ q = p := by
  constructor
  · rintro ⟨hlisten | ⟨rfl, -⟩, hstate⟩
    · by_contra hq
      rw [Views.connect, Views.set_of_ne _ _ hq, Views.set_of_ne _ _
        (by rintro rfl; cases hlisten.symm.trans hwaits.1), Views.set_of_ne _ _ hq] at hstate
      cases hlisten.symm.trans hstate
    · rfl
  · rintro rfl
    refine ⟨.inr ⟨rfl, rfl⟩, ?_⟩
    rw [Views.connect, Views.set_self]
    rfl

/-- An acknowledgement that releases its sender unlinks its caller. -/
theorem linked_release (hpid : (V p).pid = p)
    (hstate : (V (V p).receiverData.sourcePid).state = .sendingCh)
    (htarget : (V (V p).receiverData.sourcePid).senderData.targetPid = (V p).pid) (q : Pid) :
    Linked ((V.set p (V p).acking).release p (V p).receiverData.sourcePid) q ↔
      Linked V q ∧ q ≠ p := by
  have hself : (V p).state ≠ .sendingCh := by rw [hrun]; decide
  have hne : (V p).receiverData.sourcePid ≠ p := ne_caller hrun (by rw [hstate]; decide)
  have hacked := linked_set_caller (v := (V p).acking.acked) hrun hself rfl q
  have hviews : (V.set p (V p).acking).release p (V p).receiverData.sourcePid =
      (V.set p (V p).acking.acked).set (V p).receiverData.sourcePid
        ((V (V p).receiverData.sourcePid).released (V p).acking) := by
    rw [Views.release, Views.set_self, Views.set_set, Views.set_of_ne _ _ hne]
  have hkeep : (V.set p (V p).acking.acked q).receiverData.sourcePid =
      (V q).receiverData.sourcePid := by
    rw [Views.set_apply]
    split_ifs with hq
    · rw [hq]
      rfl
    · rfl
  rw [hviews]
  generalize hs : (V p).receiverData.sourcePid = sender at *
  have hsource : ((V.set p (V p).acking.acked).set sender ((V sender).released (V p).acking)
      q).receiverData.sourcePid = (V q).receiverData.sourcePid := by
    rw [Views.set_apply]
    split_ifs with hq
    · rw [hq]
      rfl
    · exact hkeep
  rw [Linked, hkeep] at hacked
  rw [linked_set (v := (V sender).released (V p).acking) (by rintro ⟨⟩), hsource, hacked, and_comm]
  refine and_congr_right fun hlinked ↦ not_congr ⟨fun heq ↦ ?_, ?_⟩
  · have htarget' := hlinked.2
    rw [heq, htarget, hpid] at htarget'
    exact htarget'.symm
  · rintro rfl
    exact hs

end Call

/-- A system call links `q` to its last sender when it completes a receive of `q`, and unlinks it
when it is an acknowledgement of `q` or forks a process into its slot. -/
theorem SyscallOutcome.linked (h : SyscallOutcome V p code V') (hrun : (V p).state = .runnable)
    (hpid : ∀ q, (V q).state ≠ .free → (V q).pid = q) (hproper : ∀ q, Proper q (V q)) (q : Pid) :
    Linked V' q ↔ CompletesIn V V' p q code ∨
      (Linked V q ∧ ¬ AcknowledgesIn V p q code ∧ ¬ BornIn V V' q) := by
  have hlive : (V p).pid = p := hpid p (by rw [hrun]; decide)
  have hnoack : code ≠ 5 → ¬ AcknowledgesIn V p q code := fun hcode hack ↦ hcode hack.2.1
  have hnoborn := fun hcode ↦ h.not_bornIn (q := q) hrun hcode
  have hnocomplete := fun hsend hreceive ↦ h.not_completesIn (q := q) hrun hsend hreceive
  -- The system calls that change no link of `q`.
  have hquiet : ¬ CompletesIn V V' p q code → code ≠ 5 → code ≠ 0 → (Linked V' q ↔ Linked V q) →
      (Linked V' q ↔ CompletesIn V V' p q code ∨
        (Linked V q ∧ ¬ AcknowledgesIn V p q code ∧ ¬ BornIn V V' q)) := by
    intro hcomplete hack hborn hlinked
    rw [hlinked, or_iff_right hcomplete, and_iff_left ⟨hnoack hack, hnoborn hborn⟩]
  cases h with
  | failed hfail =>
    have hcode : code ≠ 4 := by cases hfail <;> decide
    rw [hfail.linked_iff hrun, or_iff_right (not_completesIn_set hrun fun heq ↦ absurd heq hcode),
      iff_self_and]
    exact fun hlinked ↦ ⟨hfail.not_acknowledgesIn hrun hproper hlinked, not_bornIn_set hrun⟩
  | forked child prio hchild hfree hprio hle =>
    rw [linked_forked hrun hfree hproper, or_iff_right (hnocomplete (by decide) (by decide)),
      and_iff_right (hnoack (by decide))]
    refine and_congr_right fun _ ↦ not_congr ⟨?_, fun ⟨hfree', hlive'⟩ ↦ ?_⟩
    · rintro rfl
      refine ⟨hfree, ?_⟩
      rw [Views.set_self]
      rintro ⟨⟩
    · by_contra hq
      rw [Views.set_of_ne _ _ hq,
        Views.set_of_ne _ _ (ne_caller hrun (by rw [hfree']; decide))] at hlive'
      exact hlive' hfree'
  | exited =>
    exact hquiet (hnocomplete (by decide) (by decide)) (by decide) (by decide)
      (linked_set_caller (v := (V p).exiting.setState .zombie) hrun (by rintro ⟨⟩) rfl q)
  | exitReaped parent hwait =>
    exact hquiet (hnocomplete (by decide) (by decide)) (by decide) (by decide)
      (linked_reap_caller hrun hwait q)
  | waits =>
    exact hquiet (hnocomplete (by decide) (by decide)) (by decide) (by decide)
      (linked_set_caller (v := (V p).setState .waiting) hrun (by rintro ⟨⟩) rfl q)
  | reaped child hzombie =>
    exact hquiet (hnocomplete (by decide) (by decide)) (by decide) (by decide)
      (linked_reap_child hrun hzombie q)
  | sendWaits target htarget hlisten hsize =>
    exact hquiet (not_completesIn_set hrun fun heq ↦ absurd heq (by decide)) (by decide) (by decide)
      (linked_set_caller (v := ((V p).offering target).setState .waitListener) hrun
      (by rintro ⟨⟩) rfl q)
  | sent target htarget hlisten hsize hfits =>
    rw [linked_sent hrun hlive hlisten, completesIn_sent hrun hlisten,
      and_iff_left ⟨hnoack (by decide), hnoborn (by decide)⟩]
  | listens hnone =>
    exact hquiet (not_completesIn_set hrun (by rintro - ⟨⟩)) (by decide) (by decide)
      (linked_set_caller (v := (V p).listening) hrun (by rintro ⟨⟩) rfl q)
  | refused sender hwaits hfirst hlarge =>
    exact hquiet (not_completesIn_refused hrun hwaits) (by decide) (by decide)
      (linked_refused hrun hwaits q)
  | received sender hwaits hfirst hfits =>
    rw [linked_received hrun (hpid sender (by rw [hwaits.1]; decide)) hwaits,
      completesIn_received hrun hwaits, and_iff_left ⟨hnoack (by decide), hnoborn (by decide)⟩]
  | acknowledged hsize hack hstate htarget =>
    rw [linked_release hrun hlive hstate htarget,
      or_iff_right (hnocomplete (by decide) (by decide)), and_iff_left (hnoborn (by decide))]
    exact and_congr_right fun _ ↦ not_congr ⟨fun heq ↦ ⟨heq, rfl, hsize⟩, fun hacks ↦ hacks.1⟩

/-- An acknowledgement of an accepted size releases the last sender when it is blocked on it, and is
refused otherwise. -/
theorem SyscallOutcome.acknowledge (h : SyscallOutcome V p 5 V') (hpid : (V p).pid = p)
    (hproper : ∀ q, Proper q (V q)) (hsize : ((V p).registers 2).toNat ≤ buffSize) :
    (Linked V p ∧ V' = (V.set p (V p).acking).release p (V p).receiverData.sourcePid) ∨
    (¬ Linked V p ∧ V' = V.set p ((V p).acking.fail sourceAlreadyAcknowledged)) := by
  generalize hcode : (5 : BitVec 16) = code at h
  cases h with
  | acknowledged hsize' hack hstate htarget =>
    exact .inl ⟨⟨hstate, htarget.trans hpid⟩, rfl⟩
  | failed hfail =>
    cases hfail with
    | ackTooLarge hlarge => exact absurd hlarge (not_lt.mpr hsize)
    | spurious hsource =>
      refine .inr ⟨fun hlinked ↦ ?_, rfl⟩
      have hack := (hproper _).acknowledged hlinked.1
      rcases hsource with hacked | hstate
      · exact nomatch hack.symm.trans hacked
      · exact hstate hlinked.1
    | _ => exact absurd hcode (by decide)
  | _ => exact absurd hcode (by decide)

end Steps

/-- What the kernel keeps in every reachable state, for the views that the trap of the running
process leaves. -/
theorem trapped_invariant {V : Views} {currPid : Pid} (hsane : Sane V currPid)
    (hsettled : Settled V currPid) (hcurr : currPid ≠ 0) (frame : Frame) (code : BitVec 16) :
    (V.set currPid ((V currPid).trapped frame (some code)) currPid).state = .runnable ∧
      (∀ q, (V.set currPid ((V currPid).trapped frame (some code)) q).state ≠ .free →
        (V.set currPid ((V currPid).trapped frame (some code)) q).pid = q) ∧
      ∀ q, Proper q (V.set currPid ((V currPid).trapped frame (some code)) q) := by
  refine ⟨?_, hsane.set rfl rfl, fun q ↦ ?_⟩
  · rw [Views.set_self]
    exact hsane.running hcurr
  · have hproper := hsettled.proper q
    rw [Views.set_apply]
    split_ifs with hq
    · subst hq
      exact ⟨hproper.kernel, hproper.acknowledged, hproper.priority⟩
    · exact hproper

theorem completesIn_trapped {k k' : Kernel} {code : BitVec 16} {frame : Frame} {q : Pid} :
    CompletesIn (k.sys.views.set k.sys.currPid
      ((k.sys.views k.sys.currPid).trapped frame (some code))) k'.sys.views k.sys.currPid q code ↔
      Completes ⟨k, ⟨.svc code frame, none⟩, k'⟩ q := by
  rw [CompletesIn, Completes, (sameChannel_trapped ..).1]
  refine and_congr_left fun _ ↦ or_congr_right ⟨?_, ?_⟩
  · rintro ⟨rfl, rfl⟩
    exact ⟨frame, rfl, rfl⟩
  · rintro ⟨frame', hq, he⟩
    exact ⟨hq.symm, (Action.svc.inj he).1⟩

/-- The same for a step of the system. -/
theorem linked_step {k k' : Kernel} {e : Event} (hsane : Sane k.sys.views k.sys.currPid)
    (hsettled : Settled k.sys.views k.sys.currPid)
    (hmove : Move k.sys.views k.sys.currPid e k'.sys.views k'.sys.currPid) (q : Pid) :
    Linked k'.sys.views q ↔ Completes ⟨k, e, k'⟩ q ∨
      (Linked k.sys.views q ∧ ¬ Acknowledges ⟨k, e, k'⟩ q ∧ ¬ Born ⟨k, e, k'⟩ q) := by
  rcases hmove.silent_or_syscall with ⟨hsilent, hsvc⟩ | ⟨code, frame, rfl, hcurr, houtcome⟩
  · have hstate := (hsilent q).1
    rw [Linked.congr hsilent, or_iff_right, and_iff_left]
    · refine ⟨?_, ?_⟩
      · rintro ⟨frame, ⟨-, he⟩, -⟩
        exact absurd (hsvc 5 frame he) (by decide)
      · rintro ⟨hfree, hlive⟩
        exact hlive (hstate.trans hfree)
    · rintro ⟨hlisten | ⟨frame, -, he⟩, hrun⟩
      · exact nomatch (hstate.trans hlisten).symm.trans hrun
      · exact absurd (hsvc 4 frame he) (by decide)
  · obtain ⟨hrun, hpid, hproper⟩ := trapped_invariant hsane hsettled hcurr frame code
    rw [houtcome.linked hrun hpid hproper q,
      Linked.congr (fun r ↦ sameChannel_trapped k.sys.currPid r frame (some code))]
    have hstate := (sameChannel_trapped (V := k.sys.views) k.sys.currPid q frame (some code)).1
    have hack : AcknowledgesIn (k.sys.views.set k.sys.currPid
        ((k.sys.views k.sys.currPid).trapped frame (some code))) k.sys.currPid q code ↔
        Acknowledges ⟨k, ⟨.svc code frame, none⟩, k'⟩ q := by
      rw [AcknowledgesIn, Views.set_self]
      constructor
      · rintro ⟨rfl, rfl, hsize⟩
        exact ⟨frame, ⟨rfl, rfl⟩, hsize⟩
      · rintro ⟨frame', ⟨hq, he⟩, hsize⟩
        obtain ⟨hcode, rfl⟩ := Action.svc.inj he
        exact ⟨hq.symm, hcode, hsize⟩
    have hborn : BornIn (k.sys.views.set k.sys.currPid
        ((k.sys.views k.sys.currPid).trapped frame (some code))) k'.sys.views q ↔
        Born ⟨k, ⟨.svc code frame, none⟩, k'⟩ q := by
      rw [BornIn, Born, hstate]
    rw [completesIn_trapped, hack, hborn]

/-- In every reachable state, a process has a pending message exactly when the last sender it
received from is blocked on its acknowledgement. -/
theorem SysRun.pending_iff {history : History} {k : Kernel} (hrun : SysRun history k) (q : Pid) :
    Pending history q ↔ Linked k.sys.views q := by
  refine SysRun.induct (I := fun history V _ ↦ Pending history q ↔ Linked V q) ?_
    (fun history k e k' hrun hsane ih hmove ↦ ?_) hrun
  · refine iff_of_false id fun hlinked ↦ ?_
    rcases bootViews_state (bootViews q).receiverData.sourcePid with hstate | hstate | hstate <;>
      exact nomatch hstate.symm.trans hlinked.1
  · rw [linked_step hsane (SysRun.settled hrun) hmove q, ← ih]
    rfl

/-! ### What an acknowledgement does -/

theorem storeBytes_ends (dst : Bytes) {src : List (BitVec 8)} (hle : src.length ≤ buffSize) :
    Ends (storeBytes dst src) :=
  ⟨_, storeBytes_eq_ok.mpr ⟨hle, rfl⟩⟩

/-- A process that may enter its run queue. -/
def Queueable (s : SystemState) (q : Pid) : Prop :=
  QueueInv s ∧ ∃ prio : Prio, (s.procs q).priority = prio.val

theorem Queueable.modify {s : SystemState} {q : Pid} (h : Queueable s q) (p : Pid)
    {f : ProcDescriptor → ProcDescriptor} (hf : ∀ d, (f d).queueData = d.queueData) :
    Queueable (s.modify p f) q := by
  refine ⟨h.1.modify p hf, ?_⟩
  rw [SystemState.modify_procs]
  split_ifs with hq
  · subst hq
    have hpriority : (f (s.procs q)).priority = (s.procs q).priority :=
      congrArg (·.2.2.2) (hf (s.procs q))
    rw [hpriority]
    exact h.2
  · exact h.2

theorem Queueable.changeState_ends {s : SystemState} {q : Pid} (h : Queueable s q) :
    Ends (changeState s q .runnable) := by
  obtain ⟨⟨queues, hqueues⟩, hprio⟩ := h
  exact hqueues.changeState_ok q .runnable fun _ ↦ hprio

section Acknowledge

variable {s : SystemState} {receiver sender : Pid}

/-- An acknowledgement stops the kernel when the blocked sender sends to another process. -/
theorem handleChannelAck_stops (hack : (s.procs sender).senderData.acknowledged = false)
    (hstate : (s.procs sender).state = .sendingCh)
    (htarget : (s.procs sender).senderData.targetPid ≠ (s.procs receiver).pid) :
    handleChannelAck s receiver sender = .error (.assertion .ackTargetIsReceiver) := by
  unfold handleChannelAck
  rw [if_neg (by simp [hack, hstate])]
  simp [assert, htarget]

/-- An acknowledgement of a sender that is blocked on it succeeds. -/
theorem handleChannelAck_ends
    (hsender : (s.procs sender).state = .sendingCh → Queueable s sender ∧
      (s.procs sender).senderData.targetPid = (s.procs receiver).pid)
    (hused : (s.procs receiver).buffer.usedSize ≤ buffSize) :
    Ends (handleChannelAck s receiver sender) := by
  refine Ends.ite (fun _ ↦ .ok) fun hpending ↦ ?_
  push Not at hpending
  obtain ⟨hqueue, htarget⟩ := hsender hpending.2
  refine Ends.bind (assert_ends (decide_eq_true htarget)) fun _ _ ↦ ?_
  refine Ends.bind (assert_ends (decide_eq_true ?_)) fun _ _ ↦ ?_
  · rw [SystemState.modify_procs, if_pos rfl]
    exact hused
  refine Ends.bind (storeBytes_ends _ ?_) fun buff _ ↦ ?_
  · rw [length_prefixBytes]
    refine (min_le_right _ _).trans ?_
    rw [SystemState.modify_procs, if_pos rfl]
    exact hused
  refine Queueable.changeState_ends ?_
  refine Queueable.modify ?_ sender fun _ ↦ rfl
  refine Queueable.modify ?_ receiver fun _ ↦ rfl
  refine Queueable.modify ?_ sender fun _ ↦ rfl
  refine Queueable.modify ?_ sender fun _ ↦ rfl
  refine Queueable.modify ?_ sender fun _ ↦ rfl
  exact hqueue.modify receiver fun _ ↦ rfl

/-- The state in which `syscall_acknowledge` calls `handle_channel_ack`. -/
def ackingState (s : SystemState) : SystemState :=
  s.modify s.lastPid fun d ↦ { d with
    receiverData := { d.receiverData with returnCode := (d.reg 0).setWidth 32 } }

theorem ackingState_procs (q : Pid) :
    ((ackingState s).procs q).state = (s.procs q).state ∧
      ((ackingState s).procs q).pid = (s.procs q).pid ∧
      ((ackingState s).procs q).priority = (s.procs q).priority ∧
      ((ackingState s).procs q).buffer = (s.procs q).buffer ∧
      ((ackingState s).procs q).senderData = (s.procs q).senderData ∧
      ((ackingState s).procs q).receiverData.sourcePid = (s.procs q).receiverData.sourcePid := by
  rw [ackingState, SystemState.modify_procs]
  split_ifs with hq
  · subst hq
    exact ⟨rfl, rfl, rfl, rfl, rfl, rfl⟩
  · exact ⟨rfl, rfl, rfl, rfl, rfl, rfl⟩

theorem syscallAcknowledge_eq (hsize : ((s.procs s.lastPid).reg 2).toNat ≤ buffSize) :
    syscallAcknowledge s = handleChannelAck (ackingState s) s.lastPid
      (s.procs s.lastPid).receiverData.sourcePid := by
  have hsource := (ackingState_procs (s := s) s.lastPid).2.2.2.2.2
  refine (if_neg (not_lt.mpr hsize)).trans ?_
  change handleChannelAck (ackingState s) s.lastPid
    ((ackingState s).procs s.lastPid).receiverData.sourcePid = _
  rw [hsource]

theorem syscallAcknowledge_stops {source : Pid}
    (hsource : (s.procs s.lastPid).receiverData.sourcePid = source)
    (hsize : ((s.procs s.lastPid).reg 2).toNat ≤ buffSize)
    (hack : (s.procs source).senderData.acknowledged = false)
    (hstate : (s.procs source).state = .sendingCh)
    (htarget : (s.procs source).senderData.targetPid ≠ (s.procs s.lastPid).pid) :
    syscallAcknowledge s = .error (.assertion .ackTargetIsReceiver) := by
  obtain ⟨hsame, -, -, -, hdata, -⟩ := ackingState_procs (s := s) source
  obtain ⟨-, hpid, -⟩ := ackingState_procs (s := s) s.lastPid
  rw [syscallAcknowledge_eq hsize, hsource]
  refine handleChannelAck_stops ?_ ?_ ?_
  · rw [hdata]
    exact hack
  · rw [hsame]
    exact hstate
  · rw [hdata, hpid]
    exact htarget

/-- An acknowledgement does not stop the kernel unless it meets a sender that is blocked on somebody
else. -/
theorem syscallAcknowledge_ends {source : Pid}
    (hsource : (s.procs s.lastPid).receiverData.sourcePid = source)
    (hsender : ((s.procs s.lastPid).reg 2).toNat ≤ buffSize → (s.procs source).state = .sendingCh →
      Queueable s source ∧ (s.procs source).senderData.targetPid = (s.procs s.lastPid).pid)
    (hused : ((s.procs s.lastPid).reg 2).toNat ≤ buffSize →
      (s.procs s.lastPid).buffer.usedSize ≤ buffSize) : Ends (syscallAcknowledge s) := by
  by_cases hsize : ((s.procs s.lastPid).reg 2).toNat ≤ buffSize
  · obtain ⟨hsame, -, -, -, hdata, -⟩ := ackingState_procs (s := s) source
    obtain ⟨-, hpid, -, hbuffer, -⟩ := ackingState_procs (s := s) s.lastPid
    rw [syscallAcknowledge_eq hsize, hsource]
    refine handleChannelAck_ends (fun hstate ↦ ?_) ?_
    · obtain ⟨hqueue, htarget⟩ := hsender hsize (hsame ▸ hstate)
      rw [hdata, hpid]
      exact ⟨hqueue.modify s.lastPid fun _ ↦ rfl, htarget⟩
    · rw [hbuffer]
      exact hused hsize
  · refine ⟨_, if_pos (not_le.mp hsize)⟩

end Acknowledge

/-- A system call runs on the state that the entry code leaves. -/
theorem step_acknowledge {k t : Kernel} {frame : Frame} (hcurr : k.sys.currPid ≠ 0)
    (ht : saveContext k frame (some 5) = .ok t) :
    step k (.svc 5 frame) = (do
      let sys ← syscallAcknowledge t.sys
      .ok ({ t with sys := sys }, none)) := by
  rw [step, if_neg hcurr, ht]
  rfl

/-- The buffer of a caller holds no more than the size it passes. -/
theorem Settled.used_le {V : Views} {currPid : Pid} (h : Settled V currPid) (hcurr : currPid ≠ 0)
    (frame : Frame) (svcCode : Option (BitVec 16)) :
    ((V currPid).trapped frame svcCode).buffer.usedSize ≤ (frame.registers 2).toNat := by
  change ((V currPid).backedUp frame svcCode).usedSize ≤ (frame.registers 2).toNat
  unfold View.backedUp
  split_ifs
  · exact le_rfl
  · rw [(h.idle hcurr).1]
    exact Nat.zero_le _

/-- An acknowledgement of a process without a pending message, while the last process it received
from sends to somebody else. -/
def StaleAck (history : History) (k : Kernel) (a : Action) : Prop :=
  ∃ frame, a = .svc 5 frame ∧ k.sys.currPid ≠ 0 ∧ (frame.registers 2).toNat ≤ buffSize ∧
    ¬ Pending history k.sys.currPid ∧
    (k.sys.views (k.sys.views k.sys.currPid).receiverData.sourcePid).state = .sendingCh

section Reachable

variable {history : History} {k : Kernel} (hrun : SysRun history k)
include hrun

/-- The state in which the acknowledgement of the running process is handled. -/
theorem SysRun.acknowledge (hcurr : k.sys.currPid ≠ 0) (frame : Frame) :
    ∃ t : Kernel, step k (.svc 5 frame) = (do
        let sys ← syscallAcknowledge t.sys
        .ok ({ t with sys := sys }, none)) ∧
      QueueInv t.sys ∧ t.sys.lastPid = k.sys.currPid ∧
      t.sys.views t.sys.lastPid = (k.sys.views k.sys.currPid).trapped frame (some 5) ∧
      (t.sys.views t.sys.lastPid).pid = k.sys.currPid ∧
      ∀ q, SameChannel (k.sys.views q) (t.sys.views q) ∧ Proper q (t.sys.views q) := by
  obtain ⟨t, ht⟩ : Ends (saveContext k frame (some 5)) := saveContext_avoids.ends
  obtain ⟨hview, hlast, -⟩ := saveContext_views k frame (some 5) t ht
  obtain ⟨hstate, hpid, hproper⟩ :=
    trapped_invariant (SysRun.sane hrun) (SysRun.settled hrun) hcurr frame 5
  refine ⟨t, step_acknowledge hcurr ht, (Reachable.queueInv ⟨_, hrun⟩).saveContext frame _ t ht,
    hlast, ?_, ?_, fun q ↦ ?_⟩
  · rw [hlast, hview, Views.set_self]
  · rw [hlast, hview]
    exact hpid _ (by rw [hstate]; decide)
  · rw [hview]
    exact ⟨sameChannel_trapped k.sys.currPid q frame _, hproper q⟩

theorem StaleAck.stops {a : Action} (h : StaleAck history k a) :
    step k a = .error (.assertion .ackTargetIsReceiver) := by
  obtain ⟨frame, rfl, hcurr, hsize, hpending, hstate⟩ := h
  obtain ⟨t, hstep, -, -, hself, hpid, hview⟩ := SysRun.acknowledge hrun hcurr frame
  obtain ⟨⟨hstate', hdata, -⟩, hproper⟩ :=
    hview (k.sys.views k.sys.currPid).receiverData.sourcePid
  have hsending := hstate'.trans hstate
  rw [hstep, syscallAcknowledge_stops (congrArg (·.receiverData.sourcePid) hself) ?_
    (hproper.acknowledged hsending) hsending ?_]
  · rfl
  · exact (congrArg (fun v : View ↦ (v.registers 2).toNat) hself).trans_le hsize
  · intro htarget
    refine hpending ((SysRun.pending_iff hrun _).mpr ⟨hstate, ?_⟩)
    rw [← hdata]
    exact htarget.trans hpid

/-- Every other acknowledgement of a running process is answered. -/
theorem SysRun.acknowledge_ends (hcurr : k.sys.currPid ≠ 0) (frame : Frame)
    (h : ¬ StaleAck history k (.svc 5 frame)) :
    ∃ k', step k (.svc 5 frame) = .ok (k', none) := by
  obtain ⟨t, hstep, hqueue, hlast, hself, hpid, hview⟩ := SysRun.acknowledge hrun hcurr frame
  obtain ⟨⟨hstate', hdata, -⟩, hproper⟩ :=
    hview (k.sys.views k.sys.currPid).receiverData.sourcePid
  have hregister : ((t.sys.procs t.sys.lastPid).reg 2).toNat = (frame.registers 2).toNat :=
    congrArg (fun v : View ↦ (v.registers 2).toNat) hself
  have hends : Ends (syscallAcknowledge t.sys) := by
    refine syscallAcknowledge_ends (congrArg (·.receiverData.sourcePid) hself)
      (fun hsize hsending ↦ ⟨⟨hqueue, ?_⟩, ?_⟩) fun hsize ↦ ?_
    · refine hproper.priority fun hfree ↦ ?_
      exact nomatch hfree.symm.trans hsending
    · rw [hregister] at hsize
      have hlinked : Linked k.sys.views k.sys.currPid := by
        rw [← SysRun.pending_iff hrun]
        by_contra hpending
        exact h ⟨frame, rfl, hcurr, hsize, hpending, hstate'.symm.trans hsending⟩
      have htarget := hlinked.2
      rw [← hdata] at htarget
      exact htarget.trans hpid.symm
    · rw [hregister] at hsize
      have hbuffer : (t.sys.procs t.sys.lastPid).buffer.usedSize = _ :=
        congrArg (·.buffer.usedSize) hself
      rw [hbuffer]
      exact ((SysRun.settled hrun).used_le hcurr frame _).trans hsize
  obtain ⟨sys, hsys⟩ := hends
  rw [hstep, hsys]
  exact ⟨_, rfl⟩

/-- The answer to an acknowledgement of a running process, by whether it has a pending message. -/
theorem SysRun.acknowledge_views (hcurr : k.sys.currPid ≠ 0) {frame : Frame} {k' : Kernel}
    (hsize : (frame.registers 2).toNat ≤ buffSize) (h : step k (.svc 5 frame) = .ok (k', none)) :
    (Linked k.sys.views k.sys.currPid ∧
      k'.sys.views = ((k.sys.views.set k.sys.currPid
        ((k.sys.views k.sys.currPid).trapped frame (some 5)).acking).release k.sys.currPid
          (k.sys.views k.sys.currPid).receiverData.sourcePid)) ∨
    (¬ Linked k.sys.views k.sys.currPid ∧
      k'.sys.views = k.sys.views.set k.sys.currPid
        (((k.sys.views k.sys.currPid).trapped frame (some 5)).acking.fail
          sourceAlreadyAcknowledged)) := by
  have hmove := move_of_step (e := ⟨_, none⟩) (SysRun.sane hrun) h
  obtain ⟨-, -, -, houtcome⟩ := hmove.svc rfl (by decide)
  obtain ⟨hstate, hpid, hproper⟩ :=
    trapped_invariant (SysRun.sane hrun) (SysRun.settled hrun) hcurr frame 5
  have hanswer := houtcome.acknowledge (hpid _ (by rw [hstate]; decide)) hproper
    (by rw [Views.set_self]; exact hsize)
  rw [Linked.congr (fun q ↦ sameChannel_trapped k.sys.currPid q frame (some 5)), Views.set_self,
    Views.set_set, Views.set_set] at hanswer
  exact hanswer

/-- A step that is not a stale acknowledgement does not stop at the assertion of
`handle_channel_ack`. -/
theorem SysRun.avoids_ackTarget {a : Action} (h : ¬ StaleAck history k a) :
    Avoids (step k a) (· = .assertion .ackTargetIsReceiver) := by
  have hE : ∀ e, e = Stop.assertion .ackTargetIsReceiver → Watched e := by
    rintro _ rfl
    exact .ackTargetIsReceiver
  have hcopies : ¬ Copies (· = Stop.assertion .ackTargetIsReceiver) := by
    rintro (he | he | he) <;> exact nomatch he
  have hself : ∀ {code frame t}, k.sys.currPid ≠ 0 → saveContext k frame (some code) = .ok t →
      (t.sys.views t.sys.lastPid).state = .runnable ∧
        (t.sys.views t.sys.lastPid).pid = t.sys.lastPid := by
    intro code frame t hcurr ht
    obtain ⟨hview, hlast, -⟩ := saveContext_views k frame (some code) t ht
    obtain ⟨hstate, hpid, -⟩ :=
      trapped_invariant (SysRun.sane hrun) (SysRun.settled hrun) hcurr frame code
    rw [hview, hlast]
    exact ⟨hstate, hpid _ (by rw [hstate]; decide)⟩
  refine step_avoids hE (fun he ↦ nomatch he) (fun he ↦ nomatch he) (fun q hq ↦ ?_) (fun _ q _ ↦ ?_)
    (fun frame t hcurr ht ↦ ?_)
    fun code frame t hcurr ha ht ↦ ⟨fun _ ↦ ?_, fun _ ↦ ?_, fun hcode ↦ ?_⟩
  · refine (SysRun.sane hrun).pid q fun hfree ↦ ?_
    exact nomatch hfree.symm.trans hq
  · exact written_avoids fun he ↦ nomatch he
  · exact ⟨(hself hcurr ht).2, written_avoids fun he ↦ nomatch he⟩
  · exact syscallSend_avoids hE (fun he ↦ nomatch he) (hself hcurr ht).1 fun he ↦ absurd he hcopies
  · exact syscallReceive_avoids hE (fun he ↦ nomatch he) fun he ↦ absurd he hcopies
  · subst hcode ha
    obtain ⟨k', hstep⟩ := SysRun.acknowledge_ends hrun hcurr frame h
    rw [step_acknowledge hcurr ht] at hstep
    obtain ⟨sys, hsys, -⟩ := bind_eq_ok.mp hstep
    rw [hsys]
    exact .ok

/-- The kernel answers an acknowledgement as it should: the assertion of `handle_channel_ack` holds,
and an acknowledgement without a pending message returns `-1` with `SOURCE_ALREADY_ACKNOWLEDGED`. -/
def AckHandled (history : History) (k : Kernel) (a : Action) : Prop :=
  step k a ≠ .error (.assertion .ackTargetIsReceiver) ∧
    ∀ frame, a = .svc 5 frame → k.sys.currPid ≠ 0 → (frame.registers 2).toNat ≤ buffSize →
      ¬ Pending history k.sys.currPid → ∃ k', step k a = .ok (k', none) ∧
        (k'.sys.views k.sys.currPid).registers 0 = BitVec.allOnes 64 ∧
        (k'.sys.views k.sys.currPid).err.no = sourceAlreadyAcknowledged

/-- When exactly acknowledgements are answered as they should: in every run, whatever the running
process does next, unless it acknowledges without a pending message while the last process it
received from sends to somebody else. -/
theorem ackHandled_iff_not_stale (a : Action) :
    AckHandled history k a ↔ ¬ StaleAck history k a := by
  constructor
  · exact fun h hstale ↦ h.1 (hstale.stops hrun)
  · intro h
    refine ⟨?_, ?_⟩
    · exact fun he ↦ SysRun.avoids_ackTarget hrun h _ he rfl
    · rintro frame rfl hcurr hsize hpending
      obtain ⟨k', hstep⟩ := SysRun.acknowledge_ends hrun hcurr frame h
      refine ⟨k', hstep, ?_⟩
      rw [SysRun.pending_iff hrun] at hpending
      rcases SysRun.acknowledge_views hrun hcurr hsize hstep with ⟨hlinked, -⟩ | ⟨-, hview⟩
      · exact absurd hlinked hpending
      · rw [hview, Views.set_self]
        exact ⟨rfl, rfl⟩

end Reachable

/-- `init` acknowledges before it has received anything, and is told so. -/
theorem ackHandled_iff_not_stale_boot : ∃ history k, SysRun history k ∧ k.sys.currPid = 1 ∧
    AckHandled history k (.svc 5 (sampleFrame [0])) := by
  obtain ⟨history, k, hrun, hstate⟩ := exists_run sampleBoot [.start] (fun _ k ↦ k.sys.currPid = 1 ∧
    (k.sys.views (k.sys.views k.sys.currPid).receiverData.sourcePid).state = .kernel)
    (by decide +kernel)
  obtain ⟨hcurr, hkernel⟩ := of_decide_eq_true hstate
  refine ⟨history, k, hrun, hcurr, (ackHandled_iff_not_stale hrun _).mpr ?_⟩
  rintro ⟨frame, -, -, -, -, hsending⟩
  exact nomatch hkernel.symm.trans hsending

/-- `init` receives a message of process 2 and acknowledges it, process 2 then sends to process 3,
which receives the message, and `init` is about to acknowledge again. -/
def acknowledgeTwice : List Action :=
  [.start, .svc 0 (sampleFrame [15]), .schedule 0, .svc 3 (sampleFrame [1, 0, 0, 0, 0, 1]),
    .schedule 0, .svc 4 (sampleFrame [0, 0]), .schedule 0, .svc 5 (sampleFrame [0]), .schedule 0,
    .svc 0 (sampleFrame [15]), .schedule 0, .svc 4 (sampleFrame [0, 0]), .schedule 0,
    .timer (sampleFrame []), .schedule 0, .svc 3 (sampleFrame [3, 0, 0, 0, 0, 1]), .schedule 0,
    .timer (sampleFrame []), .schedule 0]

/-- A second acknowledgement fails the assertion of `handle_channel_ack` when the released sender
has sent to a third process. -/
theorem acknowledge_twice_stops : ∃ k, Reachable k ∧ k.sys.currPid = 1 ∧
    step k (.svc 5 (sampleFrame [0])) = .error (.assertion .ackTargetIsReceiver) := by
  obtain ⟨history, k, hrun, hstate⟩ := exists_run sampleBoot acknowledgeTwice
    (fun _ k ↦ k.sys.currPid = 1 ∧ (match step k (.svc 5 (sampleFrame [0])) with
      | .ok _ => none
      | .error stop => some stop) = some (Stop.assertion .ackTargetIsReceiver))
    (by decide +kernel)
  obtain ⟨hcurr, hstop⟩ := of_decide_eq_true hstate
  refine ⟨k, ⟨history, hrun⟩, hcurr, ?_⟩
  cases hstep : step k (.svc 5 (sampleFrame [0])) with
  | ok r =>
    rw [hstep] at hstop
    exact nomatch hstop
  | error stop =>
    rw [hstep] at hstop
    rw [Option.some.inj hstop]

end SysresOs.Proc
