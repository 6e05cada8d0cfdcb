import SysresOs.Proc.Server

/-!
# The bytes of a message

The buffer of a process holds its outgoing message, its incoming message, the answer it waits for or
the status of a child, depending on its state. `Owned` says which, in terms of the system call the
process is in: a sender that waits for a listener holds the bytes that were in its memory when it
called `send`, and a process that was given something holds at most `BUFF_SIZE` bytes until it is
resumed.

`payload_integrity` is the contract of the channels that follows: what a receive and an answer write
to the memory of the resumed process, that a message is taken once, and that no message stops the
kernel.
-/

set_option autoImplicit false
set_option relaxedAutoImplicit false

namespace SysresOs.Proc

open SysresOs.Outcome SysresOs.Trace

/-! ### Buffers -/

/-- The bytes in use of a buffer. -/
def Buffer.content (buffer : Buffer) : List (BitVec 8) := prefixBytes buffer.buff buffer.usedSize

@[simp] theorem Buffer.length_content (buffer : Buffer) :
    buffer.content.length = buffer.usedSize := length_prefixBytes ..

/-- What is written to a buffer is read back from it. -/
theorem prefixBytes_overwrite (dst : Bytes) {src : List (BitVec 8)} (hle : src.length ≤ buffSize) :
    prefixBytes (overwrite dst src) src.length = src := by
  refine List.ext_getElem (length_prefixBytes ..) fun i hi hi' ↦ ?_
  have hbound : i < buffSize := hi'.trans_le hle
  simp [prefixBytes, overwrite, hbound, hi']

theorem prefixBytes_min (b : Bytes) (m n : ℕ) :
    prefixBytes b (min m n) = (prefixBytes b n).take m := by
  rw [prefixBytes, prefixBytes, ← List.map_take, List.take_range]

/-- What is written to the memory of a resumed process whose buffer holds at most `BUFF_SIZE`
bytes. -/
theorem Buffer.written_eq {buffer : Buffer} (hle : buffer.usedSize ≤ buffSize) :
    buffer.written =
      .ok (if buffer.writeAddr = 0 then none else some (buffer.writeAddr, buffer.content)) := by
  unfold Buffer.written
  split_ifs <;> rfl

/-- The message of a `send` or an `acknowledge`: the `x2` bytes at `x1`, or none without an
address. -/
def Frame.payload (frame : Frame) : List (BitVec 8) :=
  if frame.registers 1 = 0 then []
  else readBytes frame.memory (frame.registers 1) (frame.registers 2).toNat

theorem Frame.length_payload_le (frame : Frame) :
    frame.payload.length ≤ (frame.registers 2).toNat := by
  unfold Frame.payload
  split_ifs
  · exact Nat.zero_le _
  · exact (length_readBytes ..).le

/-- The entry code copies the message of a process to its empty buffer. -/
theorem View.trapped_content {v : View} (hidle : v.buffer.usedSize = 0) {frame : Frame}
    {code : BitVec 16} (hcode : code = 3 ∨ code = 5)
    (hsize : (frame.registers 2).toNat ≤ buffSize) :
    (v.trapped frame (some code)).buffer.content = frame.payload := by
  change (v.backedUp frame (some code)).content = frame.payload
  unfold View.backedUp Frame.payload
  split_ifs with hback haddr haddr
  · exact absurd haddr hback.2.1
  · have hle : (readBytes frame.memory (frame.registers 1)
        (frame.registers 2).toNat).length ≤ buffSize := (length_readBytes ..).trans_le hsize
    have hread := prefixBytes_overwrite v.buffer.buff hle
    rw [length_readBytes] at hread
    change prefixBytes (overwrite _ (readBytes _ _ (min _ _))) _ = _
    rw [min_eq_left hsize]
    exact hread
  · rw [Buffer.content, hidle]
    rfl
  · have hempty : (frame.registers 2).toNat = 0 := by
      by_contra hpos
      exact hback ⟨by simpa using hcode, haddr, Nat.pos_of_ne_zero hpos⟩
    rw [Buffer.content, hidle, hempty]
    rfl

/-! ### The system call a process is in -/

/-- A transition that resumes `p`. -/
def Resumes (t : Transition Kernel Event) (p : Pid) : Prop :=
  ∃ write, t.label.resume = some ⟨p, write⟩

/-- The process `p` is in the system call `code` that it made with `frame`: it has not been resumed
since. -/
def InCall : History → Pid → BitVec 16 → Frame → Prop
  | [], _, _, _ => False
  | t :: history, p, code, frame => ¬ Resumes t p ∧
      (Traps t p code frame ∨ (InCall history p code frame ∧ ¬ Born t p))

section Calls

variable {history : History} {k k' : Kernel} {e : Event} {p : Pid} {code : BitVec 16}
  {frame : Frame}

/-- A process stays in a system call while it is blocked. -/
theorem InCall.blocked (h : InCall history p code frame) (hsane : Sane k.sys.views k.sys.currPid)
    (hmove : Move k.sys.views k.sys.currPid e k'.sys.views k'.sys.currPid)
    (hblocked : (k.sys.views p).state ≠ .runnable) (hlive : (k.sys.views p).state ≠ .free) :
    InCall (⟨k, e, k'⟩ :: history) p code frame := by
  refine ⟨?_, .inr ⟨h, fun hborn ↦ hlive hborn.1⟩⟩
  rintro ⟨write, hresume⟩
  have hchange := hmove.change hsane p
  generalize k'.sys.views p = w at hchange
  cases hchange with
  | kept hcurr hnot => exact hnot write hresume
  | unaware hq hnot => exact hnot write hresume
  | resumed write' hresume' hcurr hrun hwrite => exact hblocked hrun
  | timer frame hevent hcurr hq =>
    rw [hevent] at hresume
    exact nomatch hresume
  | again frame write' hevent hcurr hq hwrite =>
    rw [hq] at hblocked
    exact hblocked (hsane.running hcurr)
  | active hevent hcurr hq hactive =>
    rw [hevent] at hresume
    exact nomatch hresume
  | passive hevent hcurr hq hpassive =>
    rw [hevent] at hresume
    exact nomatch hresume

theorem inCall_svc (hcurr : k.sys.currPid = p) :
    InCall (⟨k, ⟨.svc code frame, none⟩, k'⟩ :: history) p code frame := by
  refine ⟨?_, .inl ⟨hcurr, rfl⟩⟩
  rintro ⟨write, hresume⟩
  exact nomatch hresume

end Calls

/-! ### What the buffers hold -/

/-- The answer that a sender asks for. -/
def Asks (frame : Frame) (v : View) : Prop :=
  v.senderData.ackData = frame.registers 3 ∧ v.senderData.ackSize = (frame.registers 4).toNat

/-- A process that offers the message of its call of `send`. -/
structure Offers (frame : Frame) (v : View) : Prop where
  content : v.buffer.content = frame.payload
  sendSize : v.senderData.sendSize = (frame.registers 2).toNat
  sendSize_le : v.senderData.sendSize ≤ buffSize
  asks : Asks frame v

theorem Offers.used_le {frame : Frame} {v : View} (h : Offers frame v) :
    v.buffer.usedSize ≤ v.senderData.sendSize := by
  rw [h.sendSize, ← Buffer.length_content, h.content]
  exact frame.length_payload_le

/-- What a process and its buffer hold in each state, in terms of the system call it is in. -/
structure Owned (history : History) (q : Pid) (v : View) : Prop where
  offered : v.state = .waitListener → ∃ f, InCall history q 3 f ∧ Offers f v
  sent : v.state = .sendingCh → ∃ f, InCall history q 3 f ∧ Asks f v
  listens : v.state = .listeningCh → ∃ g, InCall history q 4 g ∧
    v.receiverData.receiveData = g.registers 0 ∧
    v.receiverData.receiveSize = (g.registers 1).toNat
  bounded : v.state = .runnable ∨ v.state = .waiting → v.buffer.writeAddr ≠ 0 →
    v.buffer.usedSize ≤ buffSize

/-- A process that is ready or waits for a child, with nothing to write or a buffer within
bounds. -/
theorem Owned.of_bounded {history : History} {q : Pid} {v : View}
    (hwait : v.state ≠ .waitListener) (hsend : v.state ≠ .sendingCh)
    (hlisten : v.state ≠ .listeningCh)
    (hbounded : v.buffer.writeAddr ≠ 0 → v.buffer.usedSize ≤ buffSize) : Owned history q v :=
  ⟨fun h ↦ absurd h hwait, fun h ↦ absurd h hsend, fun h ↦ absurd h hlisten, fun _ ↦ hbounded⟩

/-- The message of `sender` has been taken by `receiver`: the system calls they are in, and what the
receiver's buffer holds. -/
structure Delivery (history : History) (V : Views) (sender receiver : Pid) (f g : Frame) :
    Prop where
  send : InCall history sender 3 f
  receive : InCall history receiver 4 g
  fits : (f.registers 2).toNat ≤ buffSize ∧ (f.registers 2).toNat ≤ (g.registers 1).toNat
  asks : Asks f (V sender)
  content : (V receiver).buffer.content = f.payload
  writeAddr : (V receiver).buffer.writeAddr = g.registers 0

/-- The receiver's buffer after a connection. -/
theorem View.receiving_content (w : View) {v : View} (hle : v.buffer.usedSize ≤ buffSize) :
    (w.receiving v).buffer.content = v.buffer.content := by
  have hread := prefixBytes_overwrite w.buffer.buff (v.buffer.length_content.trans_le hle)
  rw [Buffer.length_content] at hread
  exact hread

/-- The sender's buffer after an acknowledgement. -/
theorem View.released_content (v : View) {r : View} (hle : r.buffer.usedSize ≤ buffSize) :
    (v.released r).buffer.content = r.buffer.content.take v.senderData.ackSize := by
  have hlength := length_prefixBytes r.buffer.buff (min v.senderData.ackSize r.buffer.usedSize)
  have hread := prefixBytes_overwrite v.buffer.buff
    (hlength.trans_le ((min_le_right _ _).trans hle))
  rw [length_prefixBytes] at hread
  refine hread.trans ?_
  rw [prefixBytes_min]
  rfl

theorem delivery_connect {history : History} {W : Views} {sender receiver : Pid} {f g : Frame}
    (hne : sender ≠ receiver) (hsend : InCall history sender 3 f)
    (hreceive : InCall history receiver 4 g) (hoffers : Offers f (W sender))
    (hdata : (W receiver).receiverData.receiveData = g.registers 0)
    (hsize : (W receiver).receiverData.receiveSize = (g.registers 1).toNat)
    (hfits : ¬ TooLarge W sender receiver) :
    Delivery history (W.connect sender receiver) sender receiver f g := by
  have hused : (W sender).buffer.usedSize ≤ buffSize := hoffers.used_le.trans hoffers.sendSize_le
  refine ⟨hsend, hreceive, ⟨?_, ?_⟩, ?_, ?_, ?_⟩
  · rw [← hoffers.sendSize]
    exact hoffers.sendSize_le
  · rw [← hoffers.sendSize, ← hsize]
    exact not_lt.mp hfits
  · rw [Views.connect, Views.set_of_ne _ _ hne, Views.set_self]
    exact hoffers.asks
  · rw [Views.connect, Views.set_self, View.receiving_content _ hused]
    exact hoffers.content
  · rw [Views.connect, Views.set_self]
    exact hdata

/-- The buffer of a caller has no address to be written to. -/
theorem Settled.trapped_writeAddr {V : Views} {currPid : Pid} (h : Settled V currPid)
    (hcurr : currPid ≠ 0) (frame : Frame) (svcCode : Option (BitVec 16)) :
    ((V currPid).trapped frame svcCode).buffer.writeAddr = 0 := by
  change ((V currPid).backedUp frame svcCode).writeAddr = 0
  unfold View.backedUp
  split_ifs <;> exact (h.idle hcurr).2

/-- A parent that reaps a child holds its status, or what it held. -/
theorem View.reaping_bounded {v child : View}
    (hv : v.buffer.writeAddr ≠ 0 → v.buffer.usedSize ≤ buffSize) :
    (v.reaping child).buffer.writeAddr ≠ 0 → (v.reaping child).buffer.usedSize ≤ buffSize := by
  unfold View.reaping
  split_ifs
  · exact hv
  · exact fun _ ↦ show 16 ≤ buffSize by decide

/-- A process starts to wait for a listener only by calling `send`. -/
theorem Move.waiting {V V' : Views} {currPid currPid' p : Pid} {e : Event} (hsane : Sane V currPid)
    (hmove : Move V currPid e V' currPid') (hafter : (V' p).state = .waitListener) :
    (V p).state = .waitListener ∨ currPid = p ∧ ∃ frame, e.action = .svc 3 frame := by
  generalize hw : V' p = w at hafter
  have hchange := hw ▸ hmove.change hsane p
  cases hchange with
  | active hevent hcurr hq hactive =>
    subst hq
    have hcode := (hactive.blocks (hsane.running hcurr)).1 hafter
    subst hcode
    exact .inr ⟨rfl, _, by rw [hevent]⟩
  | passive hevent hcurr hq hpassive => exact .inl (hpassive.waitListener hafter).1
  | _ => exact .inl hafter

section Steps

variable {history : History} {k k' : Kernel} {e : Event}
  (hsane : Sane k.sys.views k.sys.currPid) (hsettled : Settled k.sys.views k.sys.currPid)
  (howned : ∀ q, Owned history q (k.sys.views q))
  (hmove : Move k.sys.views k.sys.currPid e k'.sys.views k'.sys.currPid)
include hsane hsettled howned hmove

/-- A message that is taken is the one of the sender's call of `send`. -/
theorem Takes.delivery {sender receiver : Pid} (h : Takes ⟨k, e, k'⟩ sender receiver) :
    ∃ f g, Delivery (⟨k, e, k'⟩ :: history) k'.sys.views sender receiver f g := by
  obtain ⟨code, frame, he, hcurr, hconnects⟩ := h
  have hrun := hsane.running hcurr
  change e = _ at he
  change Connects (k.sys.views.set k.sys.currPid _) k.sys.currPid code sender receiver
    k'.sys.views at hconnects
  have hblocked : ∀ {q : Pid} {code : BitVec 16} {f : Frame}, InCall history q code f →
      (k.sys.views q).state ≠ .runnable → (k.sys.views q).state ≠ .free →
      InCall (⟨k, e, k'⟩ :: history) q code f := fun hcall ↦ hcall.blocked hsane hmove
  generalize k'.sys.views = V' at hconnects ⊢
  cases hconnects with
  | send target htarget hlisten hsize hfits =>
    have hne : k.sys.currPid ≠ receiver := by
      rintro heq
      rw [← heq, Views.set_self] at hlisten
      exact nomatch hlisten.symm.trans hrun
    rw [Views.set_of_ne _ _ hne.symm] at hlisten
    obtain ⟨g, hcall, hdata, hroom⟩ := (howned receiver).listens hlisten
    refine ⟨frame, g, ?_⟩
    refine delivery_connect hne ?_
      (hblocked hcall (by rw [hlisten]; decide) (by rw [hlisten]; decide)) ?_ ?_ ?_ hfits
    · rw [he]
      exact inCall_svc rfl
    · rw [Views.set_self] at hsize ⊢
      rw [Views.set_self]
      exact ⟨View.trapped_content (hsettled.idle hcurr).1 (.inl rfl) hsize, rfl, hsize, rfl, rfl⟩
    · rw [Views.set_of_ne _ _ hne.symm, Views.set_of_ne _ _ hne.symm]
      exact hdata
    · rw [Views.set_of_ne _ _ hne.symm, Views.set_of_ne _ _ hne.symm]
      exact hroom
  | receive sender hwaits hfits =>
    have hwaits' := (waitsFor_trapped ..).mp hwaits
    have hne : sender ≠ k.sys.currPid := by
      rintro rfl
      exact nomatch hwaits'.1.symm.trans hrun
    obtain ⟨f, hcall, hoffers⟩ := (howned sender).offered hwaits'.1
    refine ⟨f, frame, ?_⟩
    refine delivery_connect hne
      (hblocked hcall (by rw [hwaits'.1]; decide) (by rw [hwaits'.1]; decide)) ?_ ?_ ?_ ?_ hfits
    · rw [he]
      exact inCall_svc rfl
    · rw [Views.set_of_ne _ _ hne, Views.set_of_ne _ _ hne]
      exact hoffers
    · rw [Views.set_self, Views.set_self]
      rfl
    · rw [Views.set_self, Views.set_self]
      rfl

omit hsettled howned in
/-- A process that a step leaves alone owns what it owned. -/
theorem Owned.kept {q : Pid} (h : Owned history q (k.sys.views q)) :
    Owned (⟨k, e, k'⟩ :: history) q (k.sys.views q) := by
  refine ⟨fun hstate ↦ ?_, fun hstate ↦ ?_, fun hstate ↦ ?_, h.bounded⟩
  · obtain ⟨f, hcall, hoffers⟩ := h.offered hstate
    exact ⟨f, hcall.blocked hsane hmove (by rw [hstate]; decide) (by rw [hstate]; decide), hoffers⟩
  · obtain ⟨f, hcall, hasks⟩ := h.sent hstate
    exact ⟨f, hcall.blocked hsane hmove (by rw [hstate]; decide) (by rw [hstate]; decide), hasks⟩
  · obtain ⟨g, hcall, hdata⟩ := h.listens hstate
    exact ⟨g, hcall.blocked hsane hmove (by rw [hstate]; decide) (by rw [hstate]; decide), hdata⟩

/-- A step in which a message is taken. -/
theorem Owned.taken {sender receiver : Pid} (htakes : Takes ⟨k, e, k'⟩ sender receiver) (q : Pid) :
    Owned (⟨k, e, k'⟩ :: history) q (k'.sys.views q) := by
  obtain ⟨f, g, hdelivery⟩ := htakes.delivery hsane hsettled howned hmove
  obtain ⟨-, hsends, hready, -⟩ := htakes.connected hsane hsettled
  by_cases hs : q = sender
  · subst hs
    refine ⟨fun h ↦ ?_, fun _ ↦ ⟨f, hdelivery.send, hdelivery.asks⟩, fun h ↦ ?_, fun h ↦ ?_⟩
    · exact nomatch h.symm.trans hsends.1
    · exact nomatch h.symm.trans hsends.1
    · rw [hsends.1] at h
      exact absurd h (by decide)
  · by_cases hr : q = receiver
    · subst hr
      refine Owned.of_bounded (by rw [hready]; decide) (by rw [hready]; decide)
        (by rw [hready]; decide) fun _ ↦ ?_
      rw [← Buffer.length_content, hdelivery.content]
      exact f.length_payload_le.trans hdelivery.fits.1
    · obtain ⟨code, frame, -, hcurr, hconnects⟩ := htakes
      obtain ⟨hrun, hpid, -⟩ := trapped_invariant hsane hsettled hcurr frame code
      have hview : k'.sys.views q = _ := (hconnects.connected hrun hpid).others q hs hr
      have hq : q ≠ k.sys.currPid := by
        rcases hconnects.code_eq with ⟨-, hcaller⟩ | ⟨-, hcaller, -⟩
        · exact fun h ↦ hs (h.trans hcaller)
        · exact fun h ↦ hr (h.trans hcaller)
      rw [hview, Views.set_of_ne _ _ hq]
      exact (howned q).kept hsane hmove

omit howned hmove in
/-- A system call that takes no message leaves its caller with what it owns. -/
theorem Owned.active {q : Pid} {code : BitVec 16} {frame : Frame} {w : View}
    (he : e = ⟨.svc code frame, none⟩) (hcurr : k.sys.currPid ≠ 0) (hq : q = k.sys.currPid)
    (hw : k'.sys.views q = w)
    (h : Active ((k.sys.views q).trapped frame (some code)) q code w)
    (hsending : w.state = .sendingCh → (k.sys.views q).state = .sendingCh)
    (hcomplete : ¬ Completes ⟨k, e, k'⟩ q) : Owned (⟨k, e, k'⟩ :: history) q w := by
  subst hq
  have hrun := hsane.running hcurr
  have haddr := hsettled.trapped_writeAddr hcurr frame (some code)
  have hready : ∀ v : View, v.state = .runnable → v.buffer.writeAddr = 0 →
      Owned (⟨k, e, k'⟩ :: history) k.sys.currPid v := by
    intro v hstate hzero
    exact .of_bounded (by rw [hstate]; decide) (by rw [hstate]; decide) (by rw [hstate]; decide)
      fun hne ↦ absurd hzero hne
  cases h with
  | failed no hcode => exact hready _ hrun haddr
  | sendTooLarge target => exact hready _ hrun haddr
  | spurious => exact hready _ hrun haddr
  | forks child => exact hready _ hrun haddr
  | acks hsize => exact hready _ hrun haddr
  | exits => exact .of_bounded nofun nofun nofun fun hne ↦ absurd haddr hne
  | exitsFree => exact .of_bounded nofun nofun nofun fun hne ↦ absurd haddr hne
  | waits => exact .of_bounded nofun nofun nofun fun hne ↦ absurd haddr hne
  | reaps child hzombie =>
    exact .of_bounded nofun nofun nofun (View.reaping_bounded fun hne ↦ absurd haddr hne)
  | sendWaits target htarget hsize =>
    refine ⟨fun _ ↦ ⟨frame, ?_, ?_, rfl, hsize, rfl, rfl⟩, nofun, nofun, fun h ↦ ?_⟩
    · rw [he]
      exact inCall_svc rfl
    · exact View.trapped_content (hsettled.idle hcurr).1 (.inl rfl) hsize
    · exact absurd h nofun
  | sends target htarget hsize => exact nomatch hrun.symm.trans (hsending rfl)
  | listens =>
    refine ⟨nofun, nofun, fun _ ↦ ⟨frame, ?_, rfl, rfl⟩, fun h ↦ absurd h nofun⟩
    rw [he]
    exact inCall_svc rfl
  | receives sender hwaits htarget =>
    refine absurd ⟨.inr ⟨frame, rfl, ?_⟩, ?_⟩ hcomplete
    · rw [he]
    · exact hw ▸ rfl

/-- A system call that takes no message leaves every other process with what it owns. -/
theorem Owned.passive {q : Pid} {code : BitVec 16} {frame : Frame} {w : View}
    (hcurr : k.sys.currPid ≠ 0) (hw : k'.sys.views q = w)
    (h : Passive ((k.sys.views k.sys.currPid).trapped frame (some code)) (k.sys.views q)
      k.sys.currPid q code w)
    (hsending : w.state = .sendingCh → (k.sys.views q).state = .sendingCh)
    (hcomplete : ¬ Completes ⟨k, e, k'⟩ q) : Owned (⟨k, e, k'⟩ :: history) q w := by
  have hkept := (howned q).kept hsane hmove
  cases h with
  | kept => exact hkept
  | born prio hfree hslot => exact .of_bounded nofun nofun nofun fun hne ↦ absurd rfl hne
  | woken hwait =>
    exact .of_bounded nofun nofun nofun (View.reaping_bounded (hkept.bounded (.inr hwait)))
  | buried hzombie =>
    refine ⟨nofun, nofun, nofun, fun h ↦ absurd h nofun⟩
  | receives hlisten => exact absurd ⟨.inl hlisten, hw ▸ rfl⟩ hcomplete
  | refused hwaits htarget =>
    obtain ⟨f, hcall, hoffers⟩ := hkept.offered hwaits
    have hstate : ((k.sys.views q).fail sendDataTooLarge).state = .waitListener := hwaits
    refine ⟨fun _ ↦ ⟨f, hcall, hoffers.content, hoffers.sendSize, hoffers.sendSize_le,
      hoffers.asks⟩, fun h ↦ ?_, fun h ↦ ?_, fun h ↦ ?_⟩
    · exact nomatch h.symm.trans hstate
    · exact nomatch h.symm.trans hstate
    · rw [hstate] at h
      exact absurd h nofun
  | delivered hwaits htarget => exact nomatch hwaits.symm.trans (hsending rfl)
  | released hsize hack hstate htarget hsource =>
    refine .of_bounded nofun nofun nofun fun _ ↦ (min_le_right _ _).trans ?_
    exact (hsettled.used_le hcurr frame _).trans hsize

/-- Every step keeps what the processes own. -/
theorem Owned.step (q : Pid) : Owned (⟨k, e, k'⟩ :: history) q (k'.sys.views q) := by
  rcases takes_or hsane hsettled hmove with ⟨sender, receiver, htakes⟩ | hquiet
  · exact Owned.taken hsane hsettled howned hmove htakes q
  · obtain ⟨hsending, hcomplete⟩ := hquiet q
    have hchange := hmove.change hsane q
    generalize hw : k'.sys.views q = w at hchange hsending ⊢
    have hready : ∀ v : View, v.state = .runnable → v.buffer.writeAddr = 0 →
        Owned (⟨k, e, k'⟩ :: history) q v := by
      intro v hstate hzero
      exact .of_bounded (by rw [hstate]; decide) (by rw [hstate]; decide) (by rw [hstate]; decide)
        fun hne ↦ absurd hzero hne
    cases hchange with
    | kept hcurr hresume => exact (howned q).kept hsane hmove
    | unaware hq hresume => exact (howned q).kept hsane hmove
    | resumed write hresume hcurr hrun hwrite => exact hready _ hrun rfl
    | timer frame hevent hcurr hq =>
      subst hq
      exact hready _ (hsane.running hcurr) (hsettled.trapped_writeAddr hcurr frame none)
    | again frame write hevent hcurr hq hwrite =>
      subst hq
      exact hready _ (hsane.running hcurr) rfl
    | active hevent hcurr hq hactive =>
      exact Owned.active hsane hsettled hevent hcurr hq hw hactive hsending hcomplete
    | passive hevent hcurr hq hpassive =>
      exact Owned.passive hsane hsettled howned hmove hcurr hw hpassive hsending hcomplete

end Steps

theorem SysRun.owned {history : History} {k : Kernel} (hrun : SysRun history k) (q : Pid) :
    Owned history q (k.sys.views q) := by
  refine SysRun.induct (I := fun history V _ ↦ ∀ q, Owned history q (V q)) (fun q ↦ ?_)
    (fun history k e k' hrun hsane howned hmove ↦
      Owned.step hsane (SysRun.settled hrun) howned hmove) hrun q
  have hzero : (bootViews q).buffer.writeAddr = 0 := by
    unfold bootViews
    split_ifs <;> rfl
  rcases bootViews_state q with hstate | hstate | hstate <;>
    exact .of_bounded (by rw [hstate]; decide) (by rw [hstate]; decide) (by rw [hstate]; decide)
      fun hne ↦ absurd hzero hne

/-! ### What is written to the processes -/

section Runs

variable {later past : History} {t : Transition Kernel Event} {k : Kernel}
  (hrun : SysRun (later ++ t :: past) k)
include hrun

/-- A receive that completes with the message of `sender` writes the bytes of its call of `send`. -/
theorem SysRun.message_written {sender receiver : Pid} (htakes : Takes t sender receiver) :
    ∃ f g, Delivery (t :: past) t.post.sys.views sender receiver f g ∧
      ∀ u, FirstResume later receiver u →
        u.label.resume = some ⟨receiver,
          if g.registers 0 = 0 then none else some (g.registers 0, f.payload)⟩ ∧
        (u.post.sys.views receiver).registers 0 = ofPid sender := by
  obtain ⟨-, hstep, hpast⟩ := hrun.upTo.last
  have hsane := SysRun.sane hpast
  have hsettled := SysRun.settled hpast
  have hmove := move_of_step hsane hstep
  obtain ⟨-, -, hready, -, hx0⟩ := htakes.connected hsane hsettled
  obtain ⟨f, g, hdelivery⟩ := htakes.delivery hsane hsettled (SysRun.owned hpast) hmove
  refine ⟨f, g, hdelivery, fun u hu ↦ ?_⟩
  have hzero : t.post.sys.currPid ≠ receiver := by
    rw [htakes.currPid hmove]
    rintro rfl
    have hkernel := ((SysRun.settled hrun.upTo).proper 0).kernel rfl
    exact nomatch hkernel.symm.trans hready
  obtain ⟨hview, write, hwrite, hwritten⟩ := SysRun.view_at_resume hrun hready hzero hu
  have hused : (t.post.sys.views receiver).buffer.usedSize ≤ buffSize := by
    rw [← Buffer.length_content, hdelivery.content]
    exact f.length_payload_le.trans hdelivery.fits.1
  rw [Buffer.written_eq hused, hdelivery.writeAddr, hdelivery.content] at hwritten
  rw [hwrite, ← Except.ok.inj hwritten, hview]
  exact ⟨rfl, hx0⟩

/-- The message of a call of `send` is taken once: its sender has called `send` again before another
of its messages is taken. -/
theorem SysRun.taken_once {sender receiver receiver' : Pid} (htakes : Takes t sender receiver)
    {after between : History} {t' : Transition Kernel Event}
    (hsplit : later = after ++ t' :: between) (htakes' : Takes t' sender receiver') :
    ∃ u ∈ t' :: between, ∃ frame, Traps u sender 3 frame := by
  by_contra hnone
  push Not at hnone
  obtain ⟨-, -, hpast⟩ := hrun.upTo.last
  obtain ⟨-, hsends, -⟩ := htakes.connected (SysRun.sane hpast) (SysRun.settled hpast)
  rw [hsplit, List.append_assoc] at hrun
  obtain ⟨-, -, hpre⟩ := hrun.upTo.last
  -- Without a new call of `send`, the sender does not wait for a listener.
  have hstate : (t'.pre.sys.views sender).state ≠ .waitListener := by
    refine hpre.segment (P := fun k ↦ (k.sys.views sender).state ≠ .waitListener)
      (by rw [hsends.1]; decide) fun u hu past hpast hstep hbefore hafter ↦ ?_
    have hsane := SysRun.sane hpast
    rcases (move_of_step hsane hstep).waiting hsane hafter with hwait | ⟨hcurr, frame, haction⟩
    · exact hbefore hwait
    · exact hnone u (.tail _ hu) frame ⟨hcurr, haction⟩
  obtain ⟨code, frame, he, hcurr, hconnects⟩ := htakes'
  rcases hconnects.code_eq with ⟨rfl, hcaller⟩ | ⟨-, -, hwaits⟩
  · exact hnone t' (.head _) frame ⟨hcaller, by rw [he]⟩
  · rw [(sameChannel_trapped ..).1] at hwaits
    exact hstate hwaits

/-- The acknowledgement that releases a sender writes the bytes of its answer and returns its
code. -/
theorem SysRun.answer_written {sender : Pid} (hbefore : (t.pre.sys.views sender).state = .sendingCh)
    (hafter : (t.post.sys.views sender).state ≠ .sendingCh) :
    ∃ receiver f a, SendsTo t.pre.sys.views sender receiver ∧ Traps t receiver 5 a ∧
      InCall past sender 3 f ∧ (a.registers 2).toNat ≤ buffSize ∧
      ∀ u, FirstResume later sender u →
        u.label.resume = some ⟨sender, if f.registers 3 = 0 then none
          else some (f.registers 3,
            a.payload.take (min (f.registers 4).toNat (a.registers 2).toNat))⟩ ∧
        (u.post.sys.views sender).registers 0 = ofInt ((a.registers 0).setWidth 32) := by
  obtain ⟨-, hstep, hpast⟩ := hrun.upTo.last
  have hsane := SysRun.sane hpast
  have hsettled := SysRun.settled hpast
  have hmove := move_of_step hsane hstep
  obtain ⟨f, hcall, haddr, hasked⟩ := (SysRun.owned hpast sender).sent hbefore
  rcases hmove.sending hsane hbefore with hkeep | ⟨a, he, htarget, hsize, hreleased⟩
  · rw [hkeep] at hafter
    exact absurd hbefore hafter
  refine ⟨t.pre.sys.currPid, f, a, ⟨hbefore, htarget⟩, ⟨rfl, by rw [he]⟩, hcall, hsize,
    fun u hu ↦ ?_⟩
  have hready : (t.post.sys.views sender).state = .runnable := by
    rw [hreleased]
    rfl
  have hcurr : t.post.sys.currPid ≠ sender := by
    rw [(hmove.svc (by rw [he]) (by decide)).2.2.1]
    rintro rfl
    have hkernel := (hsettled.proper 0).kernel rfl
    exact nomatch hkernel.symm.trans hbefore
  obtain ⟨hview, write, hwrite, hwritten⟩ := SysRun.view_at_resume hrun hready hcurr hu
  have hcaller : t.pre.sys.currPid ≠ 0 := hmove.traps (by rw [he])
  have hused : ((t.pre.sys.views t.pre.sys.currPid).trapped a (some 5)).acking.buffer.usedSize ≤
      buffSize := (hsettled.used_le hcaller a _).trans hsize
  have hcontent : (t.post.sys.views sender).buffer.content =
      a.payload.take (min (f.registers 4).toNat (a.registers 2).toNat) := by
    have hpayload : ((t.pre.sys.views t.pre.sys.currPid).trapped a (some 5)).buffer.content =
      a.payload := View.trapped_content (hsettled.idle hcaller).1 (.inr rfl) hsize
    have hlong : a.payload.take (a.registers 2).toNat = a.payload :=
      List.take_of_length_le a.length_payload_le
    rw [hreleased, View.released_content _ hused, ← List.take_take, hlong, hasked, ← hpayload]
    rfl
  have haddr' : (t.post.sys.views sender).buffer.writeAddr = f.registers 3 := by
    rw [hreleased]
    exact haddr
  have hbound : (t.post.sys.views sender).buffer.usedSize ≤ buffSize := by
    rw [hreleased]
    exact (min_le_right _ _).trans hused
  rw [Buffer.written_eq hbound, haddr', hcontent] at hwritten
  rw [hwrite, ← Except.ok.inj hwritten, hview, hreleased]
  exact ⟨rfl, rfl⟩

end Runs

/-! ### No message stops the kernel -/

/-- The stops that a message may cause, other than at the assertion of `handle_channel_ack`. -/
def CopyStop (e : Stop) : Prop := IpcStop e ∧ e ≠ .assertion .ackTargetIsReceiver

/-- No step from a reachable state overruns a buffer or fails an assertion on the size of a
message. -/
theorem SysRun.avoids_copyStop {history : History} {k : Kernel} (hrun : SysRun history k)
    (a : Action) : Avoids (step k a) CopyStop := by
  have hsane := SysRun.sane hrun
  have hsettled := SysRun.settled hrun
  have hself : ∀ {code frame t}, k.sys.currPid ≠ 0 → saveContext k frame (some code) = .ok t →
      t.sys.views t.sys.lastPid = (k.sys.views k.sys.currPid).trapped frame (some code) ∧
      (t.sys.views t.sys.lastPid).state = .runnable ∧
        (t.sys.views t.sys.lastPid).pid = t.sys.lastPid := by
    intro code frame t hcurr ht
    obtain ⟨hview, hlast, -⟩ := saveContext_views k frame (some code) t ht
    obtain ⟨hstate, hpid, -⟩ := trapped_invariant hsane hsettled hcurr frame code
    rw [hview, hlast]
    exact ⟨Views.set_self .., hstate, hpid _ (by rw [hstate]; decide)⟩
  have hE : ∀ e, CopyStop e → Watched e := fun e he ↦ he.1.watched
  have hnone : ¬ CopyStop .outOfBounds := fun he ↦ nomatch he.1
  refine step_avoids hE (fun he ↦ absurd he hnone) (fun he ↦ absurd he hnone) (fun q hq ↦ ?_)
    (fun _ q hq ↦ ?_) (fun frame t hcurr ht ↦ ?_)
    fun code frame t hcurr ha ht ↦ ⟨fun hcode ↦ ?_, fun hcode ↦ ?_, fun hcode ↦ ?_⟩
  · exact hsane.pid q fun hfree ↦ nomatch hfree.symm.trans hq
  · exact written_avoids fun _ ↦ (SysRun.owned hrun q).bounded (.inl hq)
  · obtain ⟨hview, -, hpid⟩ := hself hcurr ht
    refine ⟨hpid, written_avoids fun _ haddr ↦ absurd ?_ haddr⟩
    exact (congrArg (·.buffer.writeAddr) hview).trans (hsettled.trapped_writeAddr hcurr frame _)
  · obtain ⟨hview, hstate, -⟩ := hself hcurr ht
    refine syscallSend_avoids hE (fun he ↦ absurd he hnone) hstate fun _ ↦ ?_
    have hused := (congrArg (·.buffer.usedSize) hview).trans_le
      (hsettled.used_le hcurr frame (some code))
    exact hused.trans_eq (congrArg (fun v : View ↦ (v.registers 2).toNat) hview).symm
  · refine syscallReceive_avoids hE (fun he ↦ absurd he hnone) fun _ q hq ↦ ?_
    obtain ⟨hview, hlast, -⟩ := saveContext_views k frame (some code) t ht
    have hkeep : (t.sys.procs q).view = k.sys.views q := by
      have hq' : q ≠ k.sys.currPid := by
        rintro rfl
        have hrunning := (hself hcurr ht).2.1
        rw [hlast] at hrunning
        exact nomatch hrunning.symm.trans hq
      exact (congrFun hview q).trans (Views.set_of_ne _ _ hq')
    have hwait : (k.sys.views q).state = .waitListener := (congrArg View.state hkeep).symm.trans hq
    obtain ⟨f, -, hoffers⟩ := (SysRun.owned hrun q).offered hwait
    rw [← hkeep] at hoffers
    exact ⟨hoffers.used_le, hoffers.sendSize_le⟩
  · subst hcode ha
    intro e he hstop
    have hstep : step k (.svc 5 frame) = .error e := by
      rw [step_acknowledge hcurr ht, he]
      rfl
    by_cases hstale : StaleAck history k (.svc 5 frame)
    · rw [hstale.stops hrun] at hstep
      exact hstop.2 (Except.error.inj hstep).symm
    · obtain ⟨k', hends⟩ := SysRun.acknowledge_ends hrun hcurr frame hstale
      exact nomatch hends.symm.trans hstep

/-! ### The contract of the channels -/

/-- The contract of the channels, for every run.

When a receive completes, its caller is resumed with the pid of the sender in `x0` and, at the
address it passed, the bytes that the sender's buffer held when it called `send`; the message is
taken by no other receive. When an acknowledgement releases a sender, that sender is resumed with
the return code in `x0` and, at the address it passed, the part of the answer that it asked for. No
step overruns a buffer or fails an assertion on the size of a message. -/
theorem payload_integrity {history : History} {k : Kernel} (hrun : SysRun history k) :
    (∀ later t past receiver, history = later ++ t :: past → Completes t receiver →
      ∃ sender f g, InCall (t :: past) sender 3 f ∧ InCall (t :: past) receiver 4 g ∧
        (f.registers 2).toNat ≤ buffSize ∧ (f.registers 2).toNat ≤ (g.registers 1).toNat ∧
        (∀ u, FirstResume later receiver u →
          u.label.resume = some ⟨receiver,
            if g.registers 0 = 0 then none else some (g.registers 0, f.payload)⟩ ∧
          (u.post.sys.views receiver).registers 0 = ofPid sender) ∧
        Takes t sender receiver ∧
        ∀ after t' between receiver', later = after ++ t' :: between → Takes t' sender receiver' →
          ∃ u ∈ t' :: between, ∃ frame, Traps u sender 3 frame) ∧
    (∀ later t past sender, history = later ++ t :: past →
      (t.pre.sys.views sender).state = .sendingCh → (t.post.sys.views sender).state ≠ .sendingCh →
      ∃ receiver f a, SendsTo t.pre.sys.views sender receiver ∧ Traps t receiver 5 a ∧
        InCall past sender 3 f ∧ (a.registers 2).toNat ≤ buffSize ∧
        ∀ u, FirstResume later sender u →
          u.label.resume = some ⟨sender, if f.registers 3 = 0 then none
            else some (f.registers 3,
              a.payload.take (min (f.registers 4).toNat (a.registers 2).toNat))⟩ ∧
          (u.post.sys.views sender).registers 0 = ofInt ((a.registers 0).setWidth 32)) ∧
    ∀ a, step k a ≠ .error .overrun ∧ step k a ≠ .error (.assertion .usedSizeLeBuffSize) ∧
      step k a ≠ .error (.assertion .usedSizeLeReceiveSize) ∧
      step k a ≠ .error (.assertion .ackUsedSizeLeBuffSize) := by
  refine ⟨?_, ?_, fun a ↦ ?_⟩
  · rintro later t past receiver rfl hcomplete
    obtain ⟨-, hstep, hpast⟩ := hrun.upTo.last
    obtain ⟨sender, htakes⟩ := hcomplete.takes (SysRun.sane hpast) (SysRun.settled hpast)
      (move_of_step (SysRun.sane hpast) hstep)
    obtain ⟨f, g, hdelivery, hwritten⟩ := SysRun.message_written hrun htakes
    exact ⟨sender, f, g, hdelivery.send, hdelivery.receive, hdelivery.fits.1, hdelivery.fits.2,
      hwritten, htakes, fun after t' between receiver' hsplit htakes' ↦
        SysRun.taken_once hrun htakes hsplit htakes'⟩
  · rintro later t past sender rfl hbefore hafter
    exact SysRun.answer_written hrun hbefore hafter
  · have havoids := SysRun.avoids_copyStop hrun a
    exact ⟨fun h ↦ havoids _ h ⟨.overrun, nofun⟩,
      fun h ↦ havoids _ h ⟨.usedSizeLeBuffSize, nofun⟩,
      fun h ↦ havoids _ h ⟨.usedSizeLeReceiveSize, nofun⟩,
      fun h ↦ havoids _ h ⟨.ackUsedSizeLeBuffSize, nofun⟩⟩

/-- `init` sends 8 bytes to its child, which is resumed with them at the address it passed. -/
theorem payload_integrity_child : ∃ history k, SysRun history k ∧
    (history.head?.bind (·.label.resume)) = some ⟨2, some (0x6000, List.replicate 8 7)⟩ ∧
    ∀ a, step k a ≠ .error .overrun := by
  obtain ⟨history, k, hrun, hstate⟩ := exists_run sampleBoot sendToChild
    (fun history _ ↦ (history.head?.bind (·.label.resume)) =
      some ⟨2, some (0x6000, List.replicate 8 7)⟩) (by decide +kernel)
  exact ⟨history, k, hrun, of_decide_eq_true hstate, fun a ↦ ((payload_integrity hrun).2.2 a).1⟩

end SysresOs.Proc
