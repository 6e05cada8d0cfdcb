import SysresOs.Proc.Payload
import SysresOs.Proc.Tree

/-!
# Exits and their reports

The exit of a process is reported to a parent that waits for it, now or later. A zombie keeps the
status of its call of `exit` and a process that waits keeps the address of its call of `wait`
(`Kept`), so that a report delivers the status to that address, and the slot of the child is free
afterwards: a second report needs a second exit.

`exactly_once_reaping` puts this together with the shape of the process tree.
-/

set_option autoImplicit false
set_option relaxedAutoImplicit false

namespace SysresOs.Proc

open SysresOs.Ring SysresOs.Outcome SysresOs.Trace

/-! ### Children -/

/-- The list of children of a process, from its first child on. -/
def children (s : SystemState) (p : Pid) : List Pid :=
  readRing s.kin.next maxProc (s.kin.child p)

theorem Family.children_eq {s : SystemState} {kids : Pid → List Pid}
    (h : Family s.kin s.states kids) {p : Pid} (hp : (s.states p).Alive) :
    children s p = kids p := by
  unfold children
  rw [h.head p hp]
  exact (h.ring p hp).readRing_eq (h.length_le hp)

/-! ### Reports -/

/-- A call of `wait` of `p` returns in this transition: `p` was waiting before or calls `wait` now,
and is runnable afterwards. -/
def WaitReturns (t : Transition Kernel Event) (p : Pid) : Prop :=
  ((t.pre.sys.views p).state = .waiting ∨ ∃ frame, Traps t p 2 frame) ∧
    (t.post.sys.views p).state = .runnable

/-- The slot of `c` is freed in this transition. -/
def Frees (t : Transition Kernel Event) (c : Pid) : Prop :=
  (t.pre.sys.views c).state ≠ .free ∧ (t.post.sys.views c).state = .free

/-- The exit of `c` is reported to `p` in this transition. -/
def Reports (t : Transition Kernel Event) (p c : Pid) : Prop := WaitReturns t p ∧ Frees t c

/-- The status that a call of `exit` passes. -/
def Status (frame : Frame) (e : Err) : Prop :=
  e.no = (frame.registers 0).setWidth 32 ∧ e.data = frame.registers 1

/-- What a process that has exited or waits keeps of the call it is in. -/
structure Kept (history : History) (q : Pid) (v : View) : Prop where
  exited : v.state = .zombie → ∃ f, InCall history q 1 f ∧ Status f v.err
  waits : v.state = .waiting → ∃ g, InCall history q 2 g ∧ v.registers 0 = g.registers 0 ∧
    v.buffer.writeAddr = 0

theorem Kept.of_state {history : History} {q : Pid} {v : View} (hzombie : v.state ≠ .zombie)
    (hwait : v.state ≠ .waiting) : Kept history q v :=
  ⟨fun h ↦ absurd h hzombie, fun h ↦ absurd h hwait⟩

section Steps

variable {history : History} {k k' : Kernel} {e : Event}
  (hsane : Sane k.sys.views k.sys.currPid)
  (hmove : Move k.sys.views k.sys.currPid e k'.sys.views k'.sys.currPid)
include hsane hmove

/-- A process that a step leaves alone keeps what it kept. -/
theorem Kept.kept {q : Pid} (h : Kept history q (k.sys.views q)) :
    Kept (⟨k, e, k'⟩ :: history) q (k.sys.views q) := by
  refine ⟨fun hstate ↦ ?_, fun hstate ↦ ?_⟩
  · obtain ⟨f, hcall, hstatus⟩ := h.exited hstate
    exact ⟨f, hcall.blocked hsane hmove (by rw [hstate]; decide) (by rw [hstate]; decide), hstatus⟩
  · obtain ⟨g, hcall, hrest⟩ := h.waits hstate
    exact ⟨g, hcall.blocked hsane hmove (by rw [hstate]; decide) (by rw [hstate]; decide), hrest⟩

theorem Kept.step (hsettled : Settled k.sys.views k.sys.currPid) {q : Pid}
    (h : Kept history q (k.sys.views q)) : Kept (⟨k, e, k'⟩ :: history) q (k'.sys.views q) := by
  have hkept := h.kept hsane hmove
  have hready : ∀ v : View, v.state = .runnable → Kept (⟨k, e, k'⟩ :: history) q v := fun v hv ↦
    .of_state (by rw [hv]; decide) (by rw [hv]; decide)
  generalize hw : k'.sys.views q = w
  have hchange := hmove.change hsane q
  rw [hw] at hchange
  cases hchange with
  | kept hcurr hresume => exact hkept
  | unaware hq hresume => exact hkept
  | resumed write hresume hcurr hrun hwrite => exact hready _ hrun
  | timer frame hevent hcurr hq => exact hready _ (hq ▸ hsane.running hcurr)
  | again frame write hevent hcurr hq hwrite => exact hready _ (hq ▸ hsane.running hcurr)
  | @active code frame w hevent hcurr hq hactive =>
    subst hq
    have hrun := hsane.running hcurr
    have hcall : InCall (⟨k, e, k'⟩ :: history) k.sys.currPid code frame := by
      rw [hevent]
      exact inCall_svc rfl
    cases hactive with
    | exits => exact ⟨fun _ ↦ ⟨frame, hcall, rfl, rfl⟩, nofun⟩
    | waits =>
      exact ⟨nofun, fun _ ↦ ⟨frame, hcall, rfl, hsettled.trapped_writeAddr hcurr frame (some 2)⟩⟩
    | failed no _ => exact hready _ hrun
    | sendTooLarge target => exact hready _ hrun
    | spurious => exact hready _ hrun
    | forks child => exact hready _ hrun
    | acks hsize => exact hready _ hrun
    | exitsFree => exact .of_state nofun nofun
    | reaps child hzombie => exact .of_state nofun nofun
    | sendWaits target htarget hsize => exact .of_state nofun nofun
    | sends target htarget hsize => exact .of_state nofun nofun
    | listens => exact .of_state nofun nofun
    | receives sender hwaits htarget => exact .of_state nofun nofun
  | passive hevent hcurr hq hpassive =>
    cases hpassive with
    | kept => exact hkept
    | refused hwaits htarget =>
      exact .of_state (fun h ↦ nomatch h.symm.trans hwaits) fun h ↦ nomatch h.symm.trans hwaits
    | born prio hfree hslot => exact .of_state nofun nofun
    | woken hwait => exact .of_state nofun nofun
    | buried hzombie => exact .of_state nofun nofun
    | receives hlisten => exact .of_state nofun nofun
    | delivered hwaits htarget => exact .of_state nofun nofun
    | released hsize hack hstate htarget hsource => exact .of_state nofun nofun

end Steps

theorem SysRun.kept {history : History} {k : Kernel} (hrun : SysRun history k) (q : Pid) :
    Kept history q (k.sys.views q) := by
  refine SysRun.induct (I := fun history V _ ↦ ∀ q, Kept history q (V q)) (fun q ↦ ?_)
    (fun history k e k' hrun hsane hkept hmove q ↦
      (hkept q).step hsane hmove (SysRun.settled hrun)) hrun q
  rcases bootViews_state q with hstate | hstate | hstate <;>
    exact .of_state (by rw [hstate]; decide) (by rw [hstate]; decide)

/-! ### What a report delivers -/

section Frees

variable {V V' : Views} {p q : Pid} {code : BitVec 16} {c v w : View}

theorem Active.frees (h : Active c p code w) (hrun : c.state = .runnable) (hw : w.state = .free) :
    code = 1 := by
  cases h with
  | exitsFree => rfl
  | failed no _ => exact nomatch hw.symm.trans hrun
  | sendTooLarge target => exact nomatch hw.symm.trans hrun
  | spurious => exact nomatch hw.symm.trans hrun
  | forks child => exact nomatch hw.symm.trans hrun
  | acks hsize => exact nomatch hw.symm.trans hrun
  | _ => exact nomatch hw

theorem Passive.frees (h : Passive c v p q code w) (hv : v.state ≠ .free) (hw : w.state = .free) :
    code = 2 ∧ v.state = .zombie := by
  cases h with
  | buried hzombie => exact ⟨rfl, hzombie⟩
  | kept => exact absurd hw hv
  | refused hwaits htarget => exact absurd hw hv
  | _ => exact nomatch hw

theorem Active.exits_of_zombie (h : Active c p code w) (hrun : c.state = .runnable)
    (hw : w.state = .zombie) : code = 1 := by
  cases h with
  | exits => rfl
  | failed no _ => exact nomatch hw.symm.trans hrun
  | sendTooLarge target => exact nomatch hw.symm.trans hrun
  | spurious => exact nomatch hw.symm.trans hrun
  | forks child => exact nomatch hw.symm.trans hrun
  | acks hsize => exact nomatch hw.symm.trans hrun
  | _ => exact nomatch hw

theorem Passive.zombie (h : Passive c v p q code w) (hw : w.state = .zombie) :
    v.state = .zombie := by
  cases h with
  | kept => exact hw
  | refused hwaits htarget => exact hw
  | _ => exact nomatch hw

/-- A system call frees a slot only by a report: of the caller to a parent that waits, or of a
zombie to the caller. -/
theorem SyscallOutcome.frees (h : SyscallOutcome V p code V') (hrun : (V p).state = .runnable)
    (hbefore : (V q).state ≠ .free) (hafter : (V' q).state = .free) :
    (code = 1 ∧ q = p ∧ ∃ parent, (V parent).state = .waiting ∧
      V' = (V.set p (V p).exiting).reap parent p) ∨
    (code = 2 ∧ (V q).state = .zombie ∧ V' = V.reap p q) := by
  by_cases hq : q = p
  · subst hq
    obtain rfl := (h.active hrun).frees hrun hafter
    cases h with
    | failed hfail => exact nomatch hfail
    | exited =>
      rw [Views.set_self] at hafter
      exact nomatch hafter
    | exitReaped parent hwait => exact .inl ⟨rfl, rfl, parent, hwait, rfl⟩
  · obtain ⟨rfl, hzombie⟩ := (h.passive hq).frees hbefore hafter
    cases h with
    | failed hfail =>
      rw [Views.set_of_ne _ _ hq] at hafter
      exact absurd hafter hbefore
    | waits =>
      rw [Views.set_of_ne _ _ hq] at hafter
      exact absurd hafter hbefore
    | reaped child hchild =>
      by_cases hc : q = child
      · exact .inr ⟨rfl, hzombie, by rw [hc]⟩
      · rw [Views.reap, Views.set_of_ne _ _ hq, Views.set_of_ne _ _ hc] at hafter
        exact absurd hafter hbefore

theorem Passive.wakes (h : Passive c v p q code w) (hv : v.state = .waiting)
    (hw : w.state = .runnable) : code = 1 := by
  cases h with
  | woken hwait => rfl
  | kept => exact nomatch hv.symm.trans hw
  | born prio hfree hslot => exact nomatch hv.symm.trans hfree
  | buried hzombie => exact nomatch hv.symm.trans hzombie
  | receives hlisten => exact nomatch hv.symm.trans hlisten
  | refused hwaits htarget => exact nomatch hv.symm.trans hwaits
  | delivered hwaits htarget => exact nomatch hv.symm.trans hwaits
  | released hsize hack hstate htarget hsource => exact nomatch hv.symm.trans hstate

/-- A call of `wait` that returns has failed or frees a slot. -/
theorem SyscallOutcome.returns (h : SyscallOutcome V p code V') (hrun : (V p).state = .runnable)
    (hq : (V q).state = .waiting ∨ q = p ∧ code = 2) (hafter : (V' q).state = .runnable) :
    (V' q).registers 0 = BitVec.allOnes 64 ∨ ∃ d, (V d).state ≠ .free ∧ (V' d).state = .free := by
  rcases hq with hwait | ⟨rfl, rfl⟩
  · have hne : q ≠ p := by
      rintro rfl
      cases hwait.symm.trans hrun
    obtain rfl := (h.passive hne).wakes hwait hafter
    cases h with
    | failed hfail => cases hfail
    | exited =>
      rw [Views.set_of_ne _ _ hne] at hafter
      cases hwait.symm.trans hafter
    | exitReaped parent hparent =>
      have hne' : p ≠ parent := by
        rintro rfl
        cases hparent.symm.trans hrun
      refine .inr ⟨p, by rw [hrun]; decide, ?_⟩
      rw [Views.reap, Views.set_of_ne _ _ hne', Views.set_self]
      rfl
  · cases h with
    | failed hfail =>
      refine .inl ?_
      cases hfail
      rw [Views.set_self]
      exact Function.update_self (0 : Fin nReg) (BitVec.allOnes 64) (V q).registers
    | waits =>
      rw [Views.set_self] at hafter
      cases hafter
    | reaped child hzombie =>
      have hne : child ≠ q := by
        rintro rfl
        cases hzombie.symm.trans hrun
      refine .inr ⟨child, by rw [hzombie]; decide, ?_⟩
      rw [Views.reap, Views.set_of_ne _ _ hne, Views.set_self]
      rfl

/-- The states of processes do not change by a trap. -/
theorem trapped_state (V : Views) (currPid q : Pid) (frame : Frame) (svcCode : Option (BitVec 16)) :
    (V.set currPid ((V currPid).trapped frame svcCode) q).state = (V q).state := by
  rw [Views.set_apply]
  split_ifs with hq
  · rw [hq]
    rfl
  · rfl

/-- Only a system call frees a slot. -/
theorem Move.frees {currPid currPid' : Pid} {e : Event} (h : Move V currPid e V' currPid')
    (hbefore : (V q).state ≠ .free) (hafter : (V' q).state = .free) :
    ∃ code frame, e = ⟨.svc code frame, none⟩ ∧ currPid ≠ 0 ∧ currPid' = 0 ∧ SyscallOutcome
      (V.set currPid ((V currPid).trapped frame (some code))) currPid code V' := by
  cases h with
  | timer frame hcurr =>
    rw [trapped_state] at hafter
    exact absurd hafter hbefore
  | syscall hcurr hcode houtcome => exact ⟨_, _, rfl, hcurr, rfl, houtcome⟩
  | again frame write hcurr hwrite =>
    have hsame := trapped_state V currPid q frame (some 101)
    rw [Views.set_apply] at hafter hsame
    split_ifs at hafter hsame
    · exact absurd (hsame.symm.trans hafter) hbefore
    · exact absurd hafter hbefore
  | resume p write ha hcurr hp hrun hwrite =>
    rw [Views.set_apply] at hafter
    split_ifs at hafter with hq
    · exact absurd (hq ▸ hafter) hbefore
    · exact absurd hafter hbefore

/-- What a parent that reaps a child will have in its memory when it is resumed. -/
theorem View.reaping_written (v child : View) (haddr : v.buffer.writeAddr = 0) :
    (v.reaping child).buffer.written =
      .ok (if v.registers 0 = 0 then none else some (v.registers 0, child.err.bytes)) := by
  unfold View.reaping
  split_ifs with hzero
  · exact if_pos haddr
  · have hle : child.err.bytes.length ≤ buffSize := by
      rw [Err.length_bytes]
      decide
    have hread := prefixBytes_overwrite v.buffer.buff hle
    rw [Err.length_bytes] at hread
    rw [Buffer.written, if_neg hzero, if_pos (show 16 ≤ buffSize by decide), hread]

end Frees

/-- The exit of `c` has been reported to `p`: the system calls they are in, and what `p` is resumed
with. -/
structure Report (history : History) (V : Views) (p c : Pid) (f g : Frame) : Prop where
  exit : InCall history c 1 f
  wait : InCall history p 2 g
  ready : (V p).state = .runnable
  pid : (V p).registers 0 = ofPid c
  status : ∃ e, Status f e ∧ (V p).buffer.written =
    .ok (if g.registers 0 = 0 then none else some (g.registers 0, e.bytes))

/-- A parent that has just reaped a child. -/
theorem Report.of_reaping {history : History} {V : Views} {p c : Pid} {f g : Frame} {v child : View}
    (hview : V p = v.reaping child) (hexit : InCall history c 1 f) (hwait : InCall history p 2 g)
    (hstatus : Status f child.err) (hpid : child.pid = c) (haddr : v.buffer.writeAddr = 0)
    (hregister : v.registers 0 = g.registers 0) : Report history V p c f g := by
  refine ⟨hexit, hwait, ?_, ?_, child.err, hstatus, ?_⟩
  · rw [hview]
    rfl
  · rw [hview, ← hpid]
    exact Function.update_self (0 : Fin nReg) (ofPid child.pid) v.registers
  · rw [hview, View.reaping_written v child haddr, hregister]

section Steps

variable {history : History} {k k' : Kernel} {e : Event}
  (hsane : Sane k.sys.views k.sys.currPid) (hsettled : Settled k.sys.views k.sys.currPid)
  (hkept : ∀ q, Kept history q (k.sys.views q))
  (hmove : Move k.sys.views k.sys.currPid e k'.sys.views k'.sys.currPid)
include hsane hsettled hkept hmove

omit hsettled in
/-- A process that exits while its parent waits is reported to the parent, and to no other
process. -/
theorem report_of_exit {parent : Pid} {frame : Frame} (hfrees : Frees ⟨k, e, k'⟩ k.sys.currPid)
    (he : e = ⟨.svc 1 frame, none⟩) (hcurr : k.sys.currPid ≠ 0)
    (hwait : (k.sys.views parent).state = .waiting)
    (hviews : k'.sys.views = ((k.sys.views.set k.sys.currPid
      ((k.sys.views k.sys.currPid).trapped frame (some 1))).set k.sys.currPid
      ((k.sys.views k.sys.currPid).trapped frame (some 1)).exiting).reap parent k.sys.currPid) :
    ∃ f g, Reports ⟨k, e, k'⟩ parent k.sys.currPid ∧
      (∀ p, WaitReturns ⟨k, e, k'⟩ p → p = parent) ∧
      Report (⟨k, e, k'⟩ :: history) k'.sys.views parent k.sys.currPid f g := by
  have hrunning := hsane.running hcurr
  have hne {p : Pid} (hp : (k.sys.views p).state = .waiting) : p ≠ k.sys.currPid := by
    rintro rfl
    cases hp.symm.trans hrunning
  have hparent : k'.sys.views parent = (k.sys.views parent).reaping
      ((k.sys.views k.sys.currPid).trapped frame (some 1)).exiting := by
    rw [hviews, Views.reap, Views.set_self, Views.set_self, Views.set_of_ne _ _ (hne hwait),
      Views.set_of_ne _ _ (hne hwait)]
  obtain ⟨g, hcall, hregister, hzero⟩ := (hkept parent).waits hwait
  refine ⟨frame, g, ⟨⟨.inl hwait, congrArg View.state hparent⟩, hfrees⟩, fun p hp ↦ ?_, ?_⟩
  · by_contra hother
    rcases hp.1 with hwait' | ⟨frame', -, htrap⟩
    · have hsame : k'.sys.views p = k.sys.views p := by
        rw [hviews, Views.reap, Views.set_of_ne _ _ hother, Views.set_of_ne _ _ (hne hwait'),
          Views.set_of_ne _ _ (hne hwait'), Views.set_of_ne _ _ (hne hwait')]
      have hready : (k'.sys.views p).state = .runnable := hp.2
      rw [hsame] at hready
      cases hwait'.symm.trans hready
    · rw [he] at htrap
      exact absurd (Action.svc.inj htrap).1 (by decide)
  · refine .of_reaping hparent ?_
      (hcall.blocked hsane hmove (by rw [hwait]; decide) (by rw [hwait]; decide)) ⟨rfl, rfl⟩
      (hsane.pid _ hfrees.1) hzero hregister
    rw [he]
    exact inCall_svc rfl

/-- A zombie that its parent waits for is reported to the parent, and to no other process. -/
theorem report_of_wait {child : Pid} {frame : Frame} (hfrees : Frees ⟨k, e, k'⟩ child)
    (he : e = ⟨.svc 2 frame, none⟩) (hcurr : k.sys.currPid ≠ 0)
    (hzombie : (k.sys.views child).state = .zombie)
    (hviews : k'.sys.views = (k.sys.views.set k.sys.currPid
      ((k.sys.views k.sys.currPid).trapped frame (some 2))).reap k.sys.currPid child) :
    ∃ f g, Reports ⟨k, e, k'⟩ k.sys.currPid child ∧
      (∀ p, WaitReturns ⟨k, e, k'⟩ p → p = k.sys.currPid) ∧
      Report (⟨k, e, k'⟩ :: history) k'.sys.views k.sys.currPid child f g := by
  have hne : child ≠ k.sys.currPid := by
    rintro rfl
    cases hzombie.symm.trans (hsane.running hcurr)
  have hparent : k'.sys.views k.sys.currPid =
      ((k.sys.views k.sys.currPid).trapped frame (some 2)).reaping (k.sys.views child) := by
    rw [hviews, Views.reap, Views.set_self, Views.set_self, Views.set_of_ne _ _ hne]
  obtain ⟨f, hcall, hstatus⟩ := (hkept child).exited hzombie
  refine ⟨f, frame, ⟨⟨.inr ⟨frame, rfl, by rw [he]⟩, congrArg View.state hparent⟩, hfrees⟩,
    fun p hp ↦ ?_, ?_⟩
  · by_contra hother
    rcases hp.1 with hwait | ⟨frame', htrap, -⟩
    · have hne' : p ≠ child := by
        rintro rfl
        cases hwait.symm.trans hzombie
      have hsame : k'.sys.views p = k.sys.views p := by
        rw [hviews, Views.reap, Views.set_of_ne _ _ hother, Views.set_of_ne _ _ hne',
          Views.set_of_ne _ _ hother]
      have hready : (k'.sys.views p).state = .runnable := hp.2
      rw [hsame] at hready
      cases hwait.symm.trans hready
    · exact hother htrap.symm
  · refine .of_reaping hparent
      (hcall.blocked hsane hmove (by rw [hzombie]; decide) (by rw [hzombie]; decide)) ?_
      hstatus (hsane.pid child hfrees.1) (hsettled.trapped_writeAddr hcurr frame (some 2)) rfl
    rw [he]
    exact inCall_svc rfl

/-- A slot that is freed has been reported, to one process only. -/
theorem Frees.report {c : Pid} (h : Frees ⟨k, e, k'⟩ c) :
    ∃ p f g, Reports ⟨k, e, k'⟩ p c ∧ (∀ p', WaitReturns ⟨k, e, k'⟩ p' → p' = p) ∧
      Report (⟨k, e, k'⟩ :: history) k'.sys.views p c f g := by
  obtain ⟨code, frame, he, hcurr, -, houtcome⟩ := hmove.frees h.1 h.2
  have hrun := hsane.running hcurr
  rw [← trapped_state k.sys.views k.sys.currPid k.sys.currPid frame (some code)] at hrun
  have hbefore := h.1
  change (k.sys.views c).state ≠ .free at hbefore
  rw [← trapped_state k.sys.views k.sys.currPid c frame (some code)] at hbefore
  rcases houtcome.frees hrun hbefore h.2 with ⟨rfl, rfl, parent, hwait, hviews⟩ |
    ⟨rfl, hzombie, hviews⟩
  · rw [trapped_state] at hwait
    rw [Views.set_self] at hviews
    exact ⟨parent, report_of_exit hsane hkept hmove h he hcurr hwait hviews⟩
  · rw [trapped_state] at hzombie
    exact ⟨_, report_of_wait hsane hsettled hkept hmove h he hcurr hzombie hviews⟩

end Steps

/-- A call of `wait` that returns has failed or is a report. -/
theorem WaitReturns.reports {k k' : Kernel} {e : Event} {p : Pid}
    (hsane : Sane k.sys.views k.sys.currPid)
    (hmove : Move k.sys.views k.sys.currPid e k'.sys.views k'.sys.currPid)
    (h : WaitReturns ⟨k, e, k'⟩ p) :
    (k'.sys.views p).registers 0 = BitVec.allOnes 64 ∨ ∃ c, Reports ⟨k, e, k'⟩ p c := by
  obtain ⟨code, frame, ha, hcode, hcall⟩ : ∃ code frame, e.action = .svc code frame ∧ code ≠ 101 ∧
      ((k.sys.views p).state = .waiting ∨ p = k.sys.currPid ∧ code = 2) := by
    rcases h.1 with hwait | ⟨frame, hcurr, ha⟩
    · have hready : (k'.sys.views p).state = .runnable := h.2
      have hchange := hmove.change hsane p
      generalize k'.sys.views p = w at hready hchange
      cases hchange with
      | kept hcurr hresume => exact nomatch hwait.symm.trans hready
      | unaware hq hresume => exact nomatch hwait.symm.trans hready
      | resumed write hresume hcurr hrun hwrite => exact nomatch hwait.symm.trans hrun
      | timer frame hevent hcurr hq => exact nomatch hwait.symm.trans hready
      | again frame write hevent hcurr hq hwrite => exact nomatch hwait.symm.trans hready
      | active hevent hcurr hq hactive =>
        subst hq
        exact nomatch hwait.symm.trans (hsane.running hcurr)
      | passive hevent hcurr hq hpassive =>
        obtain rfl := hpassive.wakes hwait hready
        exact ⟨1, _, by rw [hevent], by decide, .inl hwait⟩
    · exact ⟨2, frame, ha, by decide, .inr ⟨hcurr.symm, rfl⟩⟩
  obtain ⟨-, hcurr, -, houtcome⟩ := hmove.svc ha hcode
  rw [← trapped_state k.sys.views k.sys.currPid p frame (some code)] at hcall
  refine (houtcome.returns ?_ hcall h.2).imp_right fun ⟨d, hbefore, hafter⟩ ↦ ⟨d, h, ?_, hafter⟩
  · rw [trapped_state]
    exact hsane.running hcurr
  · rw [trapped_state] at hbefore
    exact hbefore

/-- A process starts to be a zombie only by calling `exit`. -/
theorem Move.zombie {V V' : Views} {currPid currPid' p : Pid} {e : Event} (hsane : Sane V currPid)
    (hmove : Move V currPid e V' currPid') (hafter : (V' p).state = .zombie) :
    (V p).state = .zombie ∨ currPid = p ∧ ∃ frame, e.action = .svc 1 frame := by
  generalize hw : V' p = w at hafter
  have hchange := hw ▸ hmove.change hsane p
  cases hchange with
  | @active code frame w hevent hcurr hq hactive =>
    subst hq
    have hrun : ((V p).trapped frame (some code)).state = .runnable := hsane.running hcurr
    obtain rfl := hactive.exits_of_zombie hrun hafter
    exact .inr ⟨rfl, frame, by rw [hevent]⟩
  | passive hevent hcurr hq hpassive => exact .inl (hpassive.zombie hafter)
  | _ => exact .inl hafter

section Runs

variable {later past : History} {t : Transition Kernel Event} {k : Kernel}
  (hrun : SysRun (later ++ t :: past) k)
include hrun

/-- A slot that is freed is reported to one process, which is resumed with its pid and the status of
its call of `exit`. -/
theorem SysRun.reported {c : Pid} (h : Frees t c) :
    ∃ p f g, Reports t p c ∧ (∀ p', WaitReturns t p' → p' = p) ∧ InCall (t :: past) c 1 f ∧
      InCall (t :: past) p 2 g ∧ ∀ u, FirstResume later p u →
        (u.post.sys.views p).registers 0 = ofPid c ∧
        ∃ e, Status f e ∧ u.label.resume = some ⟨p,
          if g.registers 0 = 0 then none else some (g.registers 0, e.bytes)⟩ := by
  obtain ⟨-, hstep, hpast⟩ := hrun.upTo.last
  have hsane := SysRun.sane hpast
  have hsettled := SysRun.settled hpast
  have hmove := move_of_step hsane hstep
  obtain ⟨p, f, g, hreports, hunique, hreport⟩ :=
    Frees.report hsane hsettled (SysRun.kept hpast) hmove h
  refine ⟨p, f, g, hreports, hunique, hreport.exit, hreport.wait, fun u hu ↦ ?_⟩
  obtain ⟨-, -, -, -, hcurr, -⟩ := hmove.frees h.1 h.2
  have hzero : t.post.sys.currPid ≠ p := by
    rw [hcurr]
    rintro rfl
    have hkernel := ((SysRun.settled hrun.upTo).proper 0).kernel rfl
    exact nomatch hkernel.symm.trans hreport.ready
  obtain ⟨hview, write, hwrite, hwritten⟩ := SysRun.view_at_resume hrun hreport.ready hzero hu
  obtain ⟨e, hstatus, hwritten'⟩ := hreport.status
  rw [hview]
  refine ⟨hreport.pid, e, hstatus, ?_⟩
  rw [hwrite, ← Except.ok.inj (hwritten'.symm.trans hwritten)]

/-- An exit is reported once: the process has called `exit` again before its slot is freed again. -/
theorem SysRun.reported_once {c : Pid} (h : Frees t c) {after between : History}
    {t' : Transition Kernel Event} (hsplit : later = after ++ t' :: between) (h' : Frees t' c) :
    ∃ u ∈ t' :: between, ∃ frame, Traps u c 1 frame := by
  by_contra hnone
  push Not at hnone
  rw [hsplit, List.append_assoc] at hrun
  obtain ⟨-, hstep, hpre⟩ := hrun.upTo.last
  -- Without a new call of `exit`, the slot holds no zombie.
  have hstate : (t'.pre.sys.views c).state ≠ .zombie := by
    refine hpre.segment (P := fun k ↦ (k.sys.views c).state ≠ .zombie)
      (by rw [h.2]; decide) fun u hu past hpast hstep hbefore hafter ↦ ?_
    have hsane := SysRun.sane hpast
    rcases (move_of_step hsane hstep).zombie hsane hafter with hzombie | ⟨hcurr, frame, haction⟩
    · exact hbefore hzombie
    · exact hnone u (.tail _ hu) frame ⟨hcurr, haction⟩
  have hsane := SysRun.sane hpre
  obtain ⟨code, frame, he, hcurr, -, houtcome⟩ := (move_of_step hsane hstep).frees h'.1 h'.2
  have hrunning := hsane.running hcurr
  rcases houtcome.frees (by rw [trapped_state]; exact hrunning) (by rw [trapped_state]; exact h'.1)
    h'.2 with ⟨rfl, hself, -⟩ | ⟨-, hzombie, -⟩
  · exact hnone t' (.head _) frame ⟨hself.symm, by rw [he]⟩
  · rw [trapped_state] at hzombie
    exact hstate hzombie

end Runs

/-! ### A call of `wait` -/

section Wait

variable {s : SystemState} {parent child : Pid}

theorem removeChild_ends (hprev : (s.kin.prev child).isSome) (hnext : (s.kin.next child).isSome) :
    Ends (removeChild s parent child) := by
  obtain ⟨w, hw⟩ := Option.isSome_iff_exists.mp hprev
  obtain ⟨z, hz⟩ := Option.isSome_iff_exists.mp hnext
  refine Ends.bind ⟨w, deref_eq_ok.mpr hw⟩ fun w _ ↦ Ends.bind ⟨z, deref_eq_ok.mpr ?_⟩ fun _ _ ↦
    Ends.ite (fun _ ↦ .ok) fun _ ↦ .ok
  rw [SystemState.modify_procs]
  split_ifs
  · exact hz
  · exact hz

theorem handleZombieChild_ends (hqueue : Queueable s parent) (hne : parent ≠ child)
    (hprev : (s.kin.prev child).isSome) (hnext : (s.kin.next child).isSome) :
    Ends (handleZombieChild s parent child) := by
  have hkin := kin_modify s parent (f := (·.setX0 (ofPid (s.procs child).pid))) fun _ ↦ rfl
  have hx0 := hqueue.modify parent (f := (·.setX0 (ofPid (s.procs child).pid))) fun _ ↦ rfl
  refine Ends.bind ?_ fun t ht ↦ ?_
  · refine Ends.ite (fun _ ↦ .ok) fun _ ↦ Ends.bind (storeBytes_ends _ ?_) fun _ _ ↦ .ok
    rw [Err.length_bytes]
    decide
  have htkin := (reportStatus_kin t ht).2.trans hkin
  have htviews := (reportStatus_views ht).2
  have htqueue := QueueInv.neutral.reportStatus hx0.1 parent child _ t ht
  refine Ends.bind (removeChild_ends (by rw [htkin]; exact hprev) (by rw [htkin]; exact hnext))
    fun u hu ↦ ?_
  have huviews := (removeChild_views t parent child u hu).1
  obtain ⟨queues, huqueue⟩ := QueueInv.neutral.removeChild htqueue parent child u hu
  refine Ends.bind (huqueue.changeState_ok child .free nofun) fun v hv ↦ ?_
  have hvviews := (changeState_views hv).1
  refine Queueable.changeState_ends ⟨⟨_, huqueue.changeState hv⟩, ?_⟩
  obtain ⟨prio, hprio⟩ := hx0.2
  refine ⟨prio, Eq.trans ?_ hprio⟩
  change (v.views parent).priority = _
  rw [hvviews, Views.set_of_ne _ _ hne, huviews, htviews, Views.set_self]
  rfl

/-- A call of `wait` ends, and reports a zombie exactly when the caller has a child that is one. -/
theorem syscallWait_reaps {kids : Pid → List Pid} (h : Family s.kin s.states kids)
    (hinv : QueueInv s) (hrun : s.states s.lastPid = .runnable)
    (hprio : ∃ prio : Prio, (s.procs s.lastPid).priority = prio.val) :
    ∃ s', syscallWait s = .ok s' ∧
      ((∃ c ∈ kids s.lastPid, s.states c = .zombie ∧
        s'.states = Function.update (Function.update s.states c .free) s.lastPid .runnable) ∨
      ((∀ c ∈ kids s.lastPid, s.states c ≠ .zombie) ∧ ∀ q, s'.states q = .free →
      s.states q = .free)) := by
  have hlive := alive_of_runnable hrun
  rcases syscallWait_eq h hlive with ⟨hnil, hwait⟩ | ⟨c, hc, hzombie, hwait⟩ | ⟨-, hnone, hwait⟩
  · refine ⟨_, hwait, .inr ⟨fun c hc ↦ ?_, fun q hq ↦ ?_⟩⟩
    · rw [hnil] at hc
      exact nomatch hc
    · rw [← hq]
      exact congrFun (states_modify s s.lastPid (f := (·.fail noChild)) fun _ ↦ rfl).symm q
  · have hne : s.lastPid ≠ c := by
      intro heq
      rw [heq] at hrun
      exact nomatch hrun.symm.trans hzombie
    obtain ⟨⟨z, -, hz⟩, ⟨w, -, hw⟩⟩ := (h.ring _ hlive).links_of_mem hc
    obtain ⟨s', hs'⟩ := handleZombieChild_ends ⟨hinv, hprio⟩ hne (by rw [hw.2]; rfl)
      (by rw [hz.1]; rfl)
    exact ⟨s', hwait.trans hs', .inl ⟨c, hc, hzombie, (handleZombieChild_kin s' hs').1⟩⟩
  · obtain ⟨queues, hqueues⟩ := hinv
    obtain ⟨s', hs'⟩ := hqueues.changeState_ok s.lastPid .waiting nofun
    refine ⟨s', hwait.trans hs', .inr ⟨hnone, fun q hq ↦ ?_⟩⟩
    rw [(changeState_kin hs').2, Function.update_apply] at hq
    split_ifs at hq
    exact hq

end Wait

/-- A system call other than the one that resumes its caller runs on the state that the entry code
leaves. -/
theorem step_svc {k t : Kernel} {code : BitVec 16} {frame : Frame} (hcurr : k.sys.currPid ≠ 0)
    (hcode : code ≠ 101) (ht : saveContext k frame (some code) = .ok t) :
    step k (.svc code frame) = (do
      let sys ← syscall code t.mmuTablesStart t.sys
      .ok ({ t with sys := sys }, none)) := by
  rw [step, if_neg hcurr, ht]
  exact if_neg hcode

/-- A call of `wait` of a running process ends, and reports an exit at once exactly when the process
has a child that is a zombie. -/
theorem SysRun.wait_reaps {history : History} {k : Kernel} (hrun : SysRun history k)
    (hcurr : k.sys.currPid ≠ 0) (frame : Frame) :
    ∃ k', step k (.svc 2 frame) = .ok (k', none) ∧
      ((∃ c, Reports ⟨k, ⟨.svc 2 frame, none⟩, k'⟩ k.sys.currPid c) ↔
        ∃ c ∈ children k.sys k.sys.currPid, (k.sys.views c).state = .zombie) ∧
      ∀ c, Reports ⟨k, ⟨.svc 2 frame, none⟩, k'⟩ k.sys.currPid c →
        c ∈ children k.sys k.sys.currPid := by
  obtain ⟨kids, hfamily, -⟩ := SysRun.familyInv hrun
  have hsane := SysRun.sane hrun
  have hrunning := hsane.running hcurr
  obtain ⟨t, ht⟩ : Ends (saveContext k frame (some 2)) := saveContext_avoids.ends
  obtain ⟨hview, hlast, -⟩ := saveContext_views k frame (some 2) t ht
  have hkin : t.sys.kin = k.sys.kin := saveContext_kin t ht
  have hstates := saveContext_states t ht
  have hprio : ∃ prio : Prio, (t.sys.procs t.sys.lastPid).priority = prio.val := by
    have hold := ((SysRun.settled hrun).proper k.sys.currPid).priority (by rw [hrunning]; decide)
    have hsame : (t.sys.views k.sys.currPid).priority = (k.sys.views k.sys.currPid).priority := by
      rw [hview, Views.set_self]
      rfl
    rw [hlast]
    rw [← hsame] at hold
    exact hold
  rw [← hkin, ← hstates] at hfamily
  have hinv := (Reachable.queueInv ⟨_, hrun⟩).saveContext frame (some 2) t ht
  obtain ⟨s', hs', hreaps⟩ := syscallWait_reaps hfamily hinv
    (by rw [hstates, hlast]; exact hrunning) hprio
  have hlive := alive_of_runnable hrunning
  have hchildren : children k.sys k.sys.currPid = kids k.sys.currPid := by
    rw [hkin, hstates] at hfamily
    exact hfamily.children_eq hlive
  rw [hstates, hlast] at hreaps
  refine ⟨{ t with sys := s' }, ?_, ?_⟩
  · rw [step_svc hcurr (by decide) ht]
    exact bind_eq_ok.mpr ⟨s', hs', rfl⟩
  rw [hchildren]
  rcases hreaps with ⟨c, hc, hzombie, hafter⟩ | ⟨hnone, hkeep⟩
  · have hne : c ≠ k.sys.currPid := by
      rintro rfl
      exact nomatch hzombie.symm.trans hrunning
    have hfreed : ∀ d, Frees ⟨k, ⟨.svc 2 frame, none⟩, { t with sys := s' }⟩ d → d = c := by
      intro d hd
      have hfree : s'.states d = .free := hd.2
      rw [hafter, Function.update_apply, Function.update_apply] at hfree
      split_ifs at hfree with hd₁ hd₂
      · exact hd₂
      · exact absurd hfree hd.1
    have hreports : Reports ⟨k, ⟨.svc 2 frame, none⟩, { t with sys := s' }⟩ k.sys.currPid c := by
      refine ⟨⟨.inr ⟨frame, rfl, rfl⟩, ?_⟩, ?_, ?_⟩
      · change s'.states k.sys.currPid = .runnable
        rw [hafter, Function.update_self]
      · exact fun hfree ↦ nomatch hfree.symm.trans hzombie
      · change s'.states c = .free
        rw [hafter, Function.update_of_ne hne, Function.update_self]
    refine ⟨iff_of_true ⟨c, hreports⟩ ⟨c, hc, hzombie⟩, fun d hd ↦ ?_⟩
    rw [hfreed d hd.2]
    exact hc
  · have hnot : ∀ c, ¬ Reports ⟨k, ⟨.svc 2 frame, none⟩, { t with sys := s' }⟩ k.sys.currPid c :=
      fun c hc ↦ hc.2.1 (hkeep c hc.2.2)
    refine ⟨iff_of_false (fun ⟨c, hc⟩ ↦ hnot c hc) ?_, fun c hc ↦ absurd hc (hnot c)⟩
    rintro ⟨c, hc, hzombie⟩
    exact hnone c hc hzombie

/-! ### The contract of `exit` and `wait` -/

/-- The contract of `exit` and `wait`, for every run.

A process that waits has children, none of which is a zombie or free. A call of `wait` ends, and
reports an exit at once exactly when a child of the caller is a zombie. A slot is freed by the
report of its exit to one process, which is resumed with its pid in `x0` and, at the address it
passed to `wait`, the status that was passed to `exit`; the slot is not freed again without another
call of `exit`. A call of `wait` that returns anything but `-1` is such a report. The child lists
are rings, and two processes that have not exited share no child. -/
theorem exactly_once_reaping {history : History} {k : Kernel} (hrun : SysRun history k) :
    (∀ p, (k.sys.views p).state = .waiting → children k.sys p ≠ [] ∧
      ∀ c ∈ children k.sys p, (k.sys.views c).state ≠ .zombie ∧ (k.sys.views c).state ≠ .free) ∧
    (k.sys.currPid ≠ 0 → ∀ frame, ∃ k', step k (.svc 2 frame) = .ok (k', none) ∧
      ((∃ c, Reports ⟨k, ⟨.svc 2 frame, none⟩, k'⟩ k.sys.currPid c) ↔
        ∃ c ∈ children k.sys k.sys.currPid, (k.sys.views c).state = .zombie) ∧
      ∀ c, Reports ⟨k, ⟨.svc 2 frame, none⟩, k'⟩ k.sys.currPid c →
        c ∈ children k.sys k.sys.currPid) ∧
    (∀ later t past c, history = later ++ t :: past → Frees t c →
      (∃ p f g, Reports t p c ∧ (∀ p', WaitReturns t p' → p' = p) ∧ InCall (t :: past) c 1 f ∧
        InCall (t :: past) p 2 g ∧ ∀ u, FirstResume later p u →
          (u.post.sys.views p).registers 0 = ofPid c ∧
          ∃ e, Status f e ∧ u.label.resume = some ⟨p,
            if g.registers 0 = 0 then none else some (g.registers 0, e.bytes)⟩) ∧
      ∀ after t' between, later = after ++ t' :: between → Frees t' c →
        ∃ u ∈ t' :: between, ∃ frame, Traps u c 1 frame) ∧
    (∀ t ∈ history, ∀ p, WaitReturns t p →
      (t.post.sys.views p).registers 0 = BitVec.allOnes 64 ∨ ∃ c, Reports t p c) ∧
    (∀ p, ((k.sys.views p).state).Alive →
      IsRing k.sys.kin.next k.sys.kin.prev (children k.sys p) ∧
      k.sys.kin.child p = (children k.sys p).head? ∧
      ∀ q, ((k.sys.views q).state).Alive → q ≠ p →
        List.Disjoint (children k.sys p) (children k.sys q)) := by
  obtain ⟨kids, hfamily, hawaited⟩ := SysRun.familyInv hrun
  refine ⟨fun p hp ↦ ?_, fun hcurr frame ↦ SysRun.wait_reaps hrun hcurr frame, ?_,
    fun t ht p hp ↦ ?_, fun p hp ↦ ?_⟩
  · have hlive := alive_of_waiting hp
    obtain ⟨hne, hnone⟩ := hawaited p hp
    rw [hfamily.children_eq hlive]
    exact ⟨hne, fun c hc ↦ ⟨hnone c hc, (hfamily.mem p hlive c hc).1.2⟩⟩
  · rintro later t past c rfl hfrees
    exact ⟨SysRun.reported hrun hfrees, fun after t' between hsplit hfrees' ↦
      SysRun.reported_once hrun hfrees hsplit hfrees'⟩
  · obtain ⟨later, past, rfl⟩ := List.append_of_mem ht
    obtain ⟨-, hstep, hpast⟩ := hrun.upTo.last
    have hsane := SysRun.sane hpast
    exact hp.reports hsane (move_of_step hsane hstep)
  · rw [hfamily.children_eq hp]
    refine ⟨hfamily.ring p hp, hfamily.head p hp, fun q hq hne c hc hc' ↦ ?_⟩
    rw [hfamily.children_eq hq] at hc'
    exact hne (hfamily.disjoint hq hp hc' hc)

/-- `init` forks, the child exits with the number 7 and the data 9, and `init` waits for it. -/
def reapChild : List Action :=
  [.start, .svc 0 (sampleFrame [15]), .schedule 0, .svc 1 (sampleFrame [7, 9]), .schedule 0,
    .svc 2 (sampleFrame [0x6000]), .schedule 0]

theorem exactly_once_reaping_child : ∃ k u t past, SysRun (u :: t :: past) k ∧
    u.label.resume = some ⟨1, some (0x6000, [7, 0, 0, 0, 0, 0, 0, 0, 9, 0, 0, 0, 0, 0, 0, 0])⟩ ∧
    (∀ p, (k.sys.views p).state = .waiting → children k.sys p ≠ []) ∧
    ∃ f e, Reports t 1 2 ∧ InCall (t :: past) 2 1 f ∧ Status f e ∧
      (u.post.sys.views 1).registers 0 = ofPid 2 ∧
      ∃ addr, u.label.resume = some ⟨1, some (addr, e.bytes)⟩ := by
  obtain ⟨history, k, hrun, hstate⟩ := exists_run sampleBoot reapChild
    (fun history _ ↦ (∃ u ∈ history.head?, u.label.resume =
        some ⟨1, some (0x6000, [7, 0, 0, 0, 0, 0, 0, 0, 9, 0, 0, 0, 0, 0, 0, 0])⟩) ∧
      ∃ t ∈ history.tail.head?, (t.pre.sys.views 2).state ≠ .free ∧
        (t.post.sys.views 2).state = .free ∧
        ∀ q, (t.post.sys.views q).state = .runnable → q = 1) (by decide +kernel)
  obtain ⟨⟨u, hu, hresume⟩, t, ht, hbefore, hafter, honly⟩ := of_decide_eq_true hstate
  obtain ⟨rest, rfl⟩ := List.head?_eq_some_iff.mp hu
  obtain ⟨past, rfl⟩ := List.head?_eq_some_iff.mp ht
  have hreaping := exactly_once_reaping hrun
  obtain ⟨⟨p, f, g, hreports, -, hexit, -, hanswer⟩, -⟩ :=
    hreaping.2.2.1 [u] t past 2 rfl ⟨hbefore, hafter⟩
  obtain rfl := honly p hreports.1.2
  obtain ⟨hnumber, e, hstatus, hmessage⟩ := hanswer u ⟨[], [], rfl, ⟨_, hresume⟩, by simp⟩
  refine ⟨k, u, t, past, hrun, hresume, fun p hp ↦ (hreaping.1 p hp).1, f, e, hreports, hexit,
    hstatus, hnumber, g.registers 0, ?_⟩
  split_ifs at hmessage with hzero
  · rw [hresume] at hmessage
    simp at hmessage
  · exact hmessage

end SysresOs.Proc
