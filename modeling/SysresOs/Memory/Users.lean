import SysresOs.Memory.Running
import SysresOs.Memory.SharedWrite
import SysresOs.Memory.SpaceBoot
import SysresOs.Proc.Context

/-!
# The memory that the processes see

A process at exception level 0 finds its pages through the tables of its root, and may write to them
where `AP[2]` is clear. `spaces` is what the processes find at their pages. `PrivateStep` is what
they may think of the kernel: that a fork gives the child a copy of its parent's memory, that a
translation fault adds a page, that a release takes one away, that a process finds the message that
it is resumed with, and that a store changes a page of one process and of no other. The kernel does
so with counted pages that the processes share, and `Protected` is the shared memory that it keeps
for them.
-/

set_option autoImplicit false
set_option relaxedAutoImplicit false

namespace SysresOs.Mmu

open SysresOs.Outcome SysresOs.Sharing SysresOs.Trace

open SysresOs.AddressSpace (Patch)

open SysresOs.Proc
    (Pid SystemState AllocConf Boot BootRun Event Kernel Resume Step initPid initProc kernelPid)

/-! ### The processes -/

/-- The physical address that the hardware finds for an access at exception level 0, in the tables
of a root: the entry must be valid and its access flag and `AP[1]` set, and for a write `AP[2]` must
be clear. -/
def userTranslation (w : ℕ → Word) (root va : Word) (write : Bool) : Option Word :=
  match if va.toNat < 2 ^ 30 then leaf w root (page va) else none with
  | some e =>
    if e &&& 1#64 <<< 10 ≠ 0 ∧ e &&& 1#64 <<< 6 ≠ 0 ∧ (write → e &&& 1#64 <<< 7 = 0) then
      some (entryAddress e + (va &&& mask 11 0))
    else none
  | none => none

theorem userTranslation_of_leaf {w : ℕ → Word} {root va e : Word} (hva : va.toNat < 2 ^ 30)
    (hleaf : leaf w root (page va) = some e) (write : Bool) : userTranslation w root va write =
      if e &&& 1#64 <<< 10 ≠ 0 ∧ e &&& 1#64 <<< 6 ≠ 0 ∧ (write → e &&& 1#64 <<< 7 = 0) then
        some (entryAddress e + (va &&& mask 11 0)) else none := by
  rw [userTranslation, if_pos hva, hleaf]

theorem userTranslation_eq_some {w : ℕ → Word} {root va pa : Word} {write : Bool}
    (h : userTranslation w root va write = some pa) : ∃ e, leaf w root (page va) = some e ∧
      (write = true → e &&& 1#64 <<< 7 = 0) ∧ pa = entryAddress e + (va &&& mask 11 0) := by
  rw [userTranslation] at h
  by_cases hva : va.toNat < 2 ^ 30
  · rw [if_pos hva] at h
    cases hleaf : leaf w root (page va) with
    | none =>
      rw [hleaf] at h
      cases h
    | some e =>
      rw [hleaf] at h
      dsimp only at h
      by_cases hallowed : e &&& 1#64 <<< 10 ≠ 0 ∧ e &&& 1#64 <<< 6 ≠ 0 ∧
        (write → e &&& 1#64 <<< 7 = 0)
      · rw [if_pos hallowed] at h
        exact ⟨e, rfl, hallowed.2.2, (Option.some.inj h).symm⟩
      · rw [if_neg hallowed] at h
        cases h
  · rw [if_neg hva] at h
    cases h

theorem userTranslation_userPage {w : ℕ → Word} {root va e : Word} (hva : va.toNat < 2 ^ 30)
    (hleaf : leaf w root (page va) =
      some (withAttributes e (newBlockAttributesSg1 (userPage ||| accessFlagSet) normalWtNt)))
      (write : Bool) :
    userTranslation w root va write = some (entryAddress e + (va &&& mask 11 0)) := by
  rw [userTranslation_of_leaf hva hleaf, entryAddress_withAttributes,
    withAttributes_and _ _ _ (by decide), withAttributes_and _ _ _ (by decide),
    withAttributes_and _ _ _ (by decide)]
  exact if_pos ⟨by decide, by decide, fun _ ↦ by decide⟩

/-- The offset of an address in its page. -/
def offset (va : Word) : Fin 0x1000 := ⟨va.toNat % 0x1000, Nat.mod_lt _ (by decide)⟩

/-- The address of a byte of a page. -/
def pageAddress (v : ℕ) (o : Fin 0x1000) : Word := BitVec.ofNat 64 (0x1000 * v + o)

theorem pageAddress_page_offset (va : Word) : pageAddress (page va) (offset va) = va := by
  have hlt := va.isLt
  refine BitVec.eq_of_toNat_eq ?_
  rw [pageAddress, BitVec.toNat_ofNat]
  unfold page offset
  dsimp only
  omega

theorem pageAddress_eq_iff {v : ℕ} {o : Fin 0x1000} {va : Word} (hv : v < 2 ^ 18) :
    va = pageAddress v o ↔ v = page va ∧ o = offset va := by
  have ho := o.isLt
  constructor
  · rintro rfl
    have hvalue : (pageAddress v o).toNat = 0x1000 * v + o := Nat.mod_eq_of_lt (by omega)
    refine ⟨?_, Fin.ext ?_⟩
    · rw [page, hvalue]
      omega
    · change o.val = (pageAddress v o).toNat % 0x1000
      rw [hvalue]
      omega
  · rintro ⟨rfl, rfl⟩
    exact (pageAddress_page_offset va).symm

/-- What happens in a system whose processes write to their pages. -/
inductive UserEvent
  | os (e : OsEvent)
  /-- The running process writes a byte. -/
  | store (va : Word) (b : BitVec 8)
  /-- The kernel writes a byte to the stack of a process, at a trap or when the process is
  resumed. -/
  | push (pid : Pid) (va : Word) (b : BitVec 8)

/-- The steps of such a system. -/
inductive UserStep (L : Layout) : OsState → UserEvent → OsState → Prop
  | os {σ σ' : OsState} {e : OsEvent} (hstep : OsStep L σ e σ') : UserStep L σ (.os e) σ'
  | store {k : Kernel} {mmu : MmuState} {va pa : Word} (b : BitVec 8)
      (hpage : IsUserPage L (page va))
      (haccess : userTranslation mmu.words (getLvl2AddressFromSysState k.sys k.sys.currPid) va
        true = some pa) :
      UserStep L ⟨k, mmu⟩ (.store va b) ⟨k, { mmu with pages := Function.update mmu.pages pa b }⟩
  | push {k : Kernel} {mmu : MmuState} {pid : Pid} {va : Word} (b : BitVec 8) :
      UserStep L ⟨k, mmu⟩ (.push pid va b)
        ⟨k, storeBytes (k.sys.procs pid).memConf.ttbr0El1 [(va, b)] mmu⟩

/-- A user page of a process that is mapped in its tables. -/
structure Mapped (L : Layout) (σ : OsState) (q : Pid) (va : Word) : Prop where
  live : σ.kernel.sys.states q ≠ .free
  user : IsUserPage L (page va)
  mapped : (leaf σ.mmu.words (L.zoneRoot q) (page va)).isSome

/-- A user page of a process that the kernel can write to through the tables of the process: the
access flag of its entry is set, and `AP[2]` is clear. -/
def KernelWritable (L : Layout) (σ : OsState) (q : Pid) (va : Word) : Prop :=
  IsUserPage L (page va) ∧ ∃ e, leaf σ.mmu.words (L.zoneRoot q) (page va) = some e ∧
    e &&& 1#64 <<< 10 ≠ 0 ∧ e &&& 1#64 <<< 7 = 0

/-- What an event relies on: there are free pages below the peripherals, a page that faults is a
user page that the tables map or not, as the kind of the fault says, the pages of a request to the
memory manager are mapped, and what the kernel stores for a process, a message or a part of its own
stack, is on pages that it can write to. A permission fault is about the tables in
`lvl2_table_address`. -/
def Careful (L : Layout) (σ : OsState) : UserEvent → Prop
  | .os (.kernel e) => ∀ r, e.resume = some r → ∀ a, Patch.Covers r.write a →
      KernelWritable L σ r.pid a
  | .os (.fork _ _) => σ.mmu.physicalMemoryMap.head.toNat + 2 ≤ freeLimit L
  | .os (.fault (.translation _ va _)) => σ.mmu.physicalMemoryMap.head.toNat < freeLimit L ∧
      IsUserPage L (page va) ∧
      page va < 0x3f000 ∧ leaf σ.mmu.words (L.zoneRoot σ.kernel.sys.currPid) (page va) = none
  | .os (.fault (.accessFlag va)) => Mapped L σ σ.kernel.sys.currPid va
  | .os (.fault (.permission va _)) => σ.mmu.physicalMemoryMap.head.toNat < freeLimit L ∧
      ∃ q ≠ kernelPid, σ.mmu.lvl2TableAddress = L.zoneRoot q ∧ Mapped L σ q va
  | .os (.release va pid) => page va < 0x3f000 ∧ Mapped L σ pid va
  | .store _ _ => True
  | .push pid va _ => σ.kernel.sys.states pid ≠ .free ∧ KernelWritable L σ pid va

/-- A history of such a system. -/
abbrev UserHistory := List (Transition OsState UserEvent)

/-- The runs in which every event finds what it relies on. -/
abbrev CarefulRun (L : Layout) : UserHistory → OsState → Prop :=
  Run (OsBooted L) fun σ e σ' ↦ UserStep L σ e σ' ∧ Careful L σ e

/-- The number of the processes that have been forked. -/
def forks : UserHistory → ℕ
  | [] => 0
  | t :: history => (match t.label with | .os (.fork _ _) => 1 | _ => 0) + forks history

/-! ### Memories of their own -/

/-- What every process finds at its pages. -/
abbrev Spaces := Pid → ℕ → Option PageBytes

/-- What the processes find at their pages, in the tables of their slots. -/
def spaces (L : Layout) (σ : OsState) : Spaces := fun q v ↦
  if σ.kernel.sys.states q = .free then none
  else (userMapping L σ.mmu.words q v).map fun y ↦ pageBytes σ.mmu.pages y.frame

/-- The kernel, and memories of their own for its processes. -/
structure PrivateState where
  kernel : Kernel
  spaces : Spaces

/-- The system as its processes see it. -/
def privateView (L : Layout) (σ : OsState) : PrivateState := ⟨σ.kernel, spaces L σ⟩

/-- The system after `init_proc`, where the processes have nothing but their stacks. -/
def PrivateBooted (P : PrivateState) : Prop := (∃ boot, initProc boot = .ok P.kernel) ∧
  ∀ q v, (P.spaces q v).isSome ↔ P.kernel.sys.states q ≠ .free ∧ IsStackPage v

/-- Every byte of the memory of a process becomes another one. -/
def overlay (S : Spaces) (q : Pid) (f : Word → BitVec 8 → BitVec 8) : Spaces :=
  Function.update S q fun v ↦ (S q v).map fun d o ↦ f (pageAddress v o) (d o)

/-- The memories after a process is resumed: it finds its message, if there is one. -/
def receive (S : Spaces) : Option Resume → Spaces
  | none => S
  | some r => overlay S r.pid fun a b ↦ Patch.store r.write (fun _ ↦ b) a

/-- The same events where every process has a memory of its own. A page that is added has some
contents. -/
inductive PrivateStep : PrivateState → UserEvent → PrivateState → Prop
  | kernel {k k' : Kernel} {e : Event} {S : Spaces} (hstep : Step k e k')
      (hsome : ∀ r, e.resume = some r → ∀ a, Patch.Covers r.write a → (S r.pid (page a)).isSome) :
      PrivateStep ⟨k, S⟩ (.os (.kernel e))
        ⟨k', fun q v ↦ if k'.sys.states q = .free then none else receive S e.resume q v⟩
  | fork {k k' : Kernel} {e : Event} {child : Pid} {S : Spaces} (hstep : Step k e k')
      (hfree : k.sys.states child = .free) (hnew : k'.sys.states child ≠ .free) :
      PrivateStep ⟨k, S⟩ (.os (.fork e child)) ⟨k', Function.update S child (S k.sys.currPid)⟩
  | translation {k : Kernel} {S : Spaces} {alloc : AllocConf} {va : Word} {lowerEl : Bool}
      (d : PageBytes)
      (hnone : S k.sys.currPid (page va) = none) :
        PrivateStep ⟨k, S⟩ (.os (.fault (.translation alloc va lowerEl)))
        ⟨k, setPage S k.sys.currPid (page va) (some d)⟩
  | accessFlag {P : PrivateState} {va : Word} : PrivateStep P (.os (.fault (.accessFlag va))) P
  | permission {P : PrivateState} {va : Word} {lowerEl : Bool} :
      PrivateStep P (.os (.fault (.permission va lowerEl))) P
  | release {k : Kernel} {S : Spaces} {va : Word} {pid : Pid}
      (hmanager : k.sys.currPid = memManagerPid) (hsome : (S pid (page va)).isSome) :
      PrivateStep ⟨k, S⟩ (.os (.release va pid)) ⟨k, setPage S pid (page va) none⟩
  | store {k : Kernel} {S : Spaces} {va : Word} {b : BitVec 8} {d : PageBytes}
      (hsome : S k.sys.currPid (page va) = some d) : PrivateStep ⟨k, S⟩ (.store va b)
        ⟨k, setPage S k.sys.currPid (page va) (some (Function.update d (offset va) b))⟩
  | push {k : Kernel} {S : Spaces} {pid : Pid} {va : Word} {b : BitVec 8} {d : PageBytes}
      (hsome : S pid (page va) = some d) : PrivateStep ⟨k, S⟩ (.push pid va b)
        ⟨k, setPage S pid (page va) (some (Function.update d (offset va) b))⟩

variable {L : Layout} {σ σ' : OsState} {k k' : Kernel} {mmu mmu' : MmuState} {gen gen' : Pid → ℕ}
  {m m' : SharedPages} {q pid : Pid} {va pa e : Word} {f v n : ℕ} {rest : List ℕ}

/-! ### The shared memory of a run -/

/-- The slots that are in use. -/
def Live (k : Kernel) (q : Pid) : Prop := k.sys.states q ≠ .free

/-- The kernel comes from a run, and its memory is a sound shared memory of the processes, in which
`n` of them have been forked and no frame is lost. -/
structure Protected (L : Layout) (σ : OsState) (n : ℕ) (gen : Pid → ℕ) (m : SharedPages) :
    Prop where
  kernel : ∃ boot past, L.Boots boot ∧ BootRun boot past σ.kernel
  implements : Implements L (Live σ.kernel) gen σ.mmu m
  sound : m.Sound
  hasPrivate : m.HasPrivate stackPages
  card : m.procs.card = n + 2
  accounted : ∀ f, IsFrame L f → m.Accounted f

/-- What a process finds at its pages is what its process of the shared memory finds. -/
theorem Implements.space_eq {live : Pid → Prop} (h : Implements L live gen mmu m)
    (hq : live q) (v : ℕ) :
    m.space (q, gen q) v = (userMapping L mmu.words q v).map fun y ↦
      pageBytes mmu.pages y.frame := by
  have hmap := h.map q hq v
  rw [SharedMemory.space, SharedMemory.frameOf, hmap]
  cases huser : userMapping L mmu.words q v with
  | none => rfl
  | some y =>
    have hframe : m.frameOf (q, gen q) v = some y.frame := by
      rw [SharedMemory.frameOf, hmap, huser]
      rfl
    exact congrArg some (h.contents _ (h.frame _ _ _ hframe))

theorem spaces_of_free (hq : σ.kernel.sys.states q = .free) (v : ℕ) :
    spaces L σ q v = none := if_pos hq

theorem Implements.spaces_eq (h : Implements L (Live k) gen mmu m) (hq : Live k q) (v : ℕ) :
    spaces L ⟨k, mmu⟩ q v = m.space (q, gen q) v := (if_neg hq).trans (h.space_eq hq v).symm

/-- One page of one process has changed. -/
theorem Implements.spaces_setPage (h : Implements L (Live k) gen mmu m)
    (h' : Implements L (Live k) gen mmu' m') (hq : Live k q) {d : Option PageBytes}
    (hspace : m'.space = setPage m.space (q, gen q) v d) :
    spaces L ⟨k, mmu'⟩ = setPage (spaces L ⟨k, mmu⟩) q v d := by
  funext r u
  rw [setPage_apply]
  by_cases hr : Live k r
  · rw [h'.spaces_eq hr, h.spaces_eq hr, hspace, setPage_apply]
    exact if_congr (and_congr_left fun _ ↦ ⟨congrArg Prod.fst, fun heq ↦ by rw [heq]⟩) rfl rfl
  · have hfree : k.sys.states r = .free := of_not_not hr
    have hne : ¬ (r = q ∧ u = v) := fun hand ↦ hr (hand.1 ▸ hq)
    rw [if_neg hne, spaces_of_free hfree, spaces_of_free hfree]

/-- No page of a process has changed. -/
theorem Implements.spaces_same (h : Implements L (Live k) gen mmu m)
    (h' : Implements L (Live k) gen mmu' m') (hspace : m'.space = m.space) :
    spaces L ⟨k, mmu'⟩ = spaces L ⟨k, mmu⟩ := by
  funext r u
  by_cases hr : Live k r
  · rw [h'.spaces_eq hr, h.spaces_eq hr, hspace]
  · have hfree : k.sys.states r = .free := of_not_not hr
    rw [spaces_of_free hfree, spaces_of_free hfree]

namespace Protected

theorem root_eq (h : Protected L ⟨k, mmu⟩ n gen m) (hq : Live k q) :
    getLvl2AddressFromSysState k.sys q = L.zoneRoot q := by
  obtain ⟨boot, past, hboots, hpast⟩ := h.kernel
  exact root_of_bootRun hboots hpast hq

theorem current_live (h : Protected L ⟨k, mmu⟩ n gen m) : Live k k.sys.currPid := by
  obtain ⟨boot, past, -, hpast⟩ := h.kernel
  by_cases hcurr : k.sys.currPid = 0
  · rw [hcurr]
    exact kernel_live (BootRun.sysRun hpast)
  · have hrunning := (Proc.SysRun.sane (BootRun.sysRun hpast)).running hcurr
    change (k.sys.views k.sys.currPid).state ≠ .free
    rw [hrunning]
    decide

/-- One operation on the shared memory. -/
theorem step {op : Op Tenant ℕ PageBytes} (h : Protected L ⟨k, mmu⟩ n gen m)
    (hstep : SharedMemory.Step stackPages m op m') (himplements : Implements L (Live k) gen mmu' m')
    (hcard : m'.procs = m.procs) : Protected L ⟨k, mmu'⟩ n gen m' where
  kernel := h.kernel
  implements := himplements
  sound := hstep.sound h.sound h.hasPrivate
  hasPrivate := hstep.hasPrivate h.sound h.hasPrivate
  card := by rw [hcard, h.card]
  accounted f hf := hstep.accounted h.sound h.hasPrivate (h.accounted f hf)

/-- Only the mappings of the kernel's own bookkeeping have changed. -/
theorem same (h : Protected L ⟨k, mmu⟩ n gen m) (himplements : Implements L (Live k) gen mmu' m) :
    Protected L ⟨k, mmu'⟩ n gen m :=
  ⟨h.kernel, himplements, h.sound, h.hasPrivate, h.card, h.accounted⟩

end Protected

/-! ### The handlers -/

theorem mem_userRange (hpage : page va < 0x3f000) : va.toNat < 0x3f000000 := by
  unfold page at hpage
  omega

theorem range_of_user (hv : IsUserPage L (page va)) : va.toNat < 2 ^ 30 := by
  have hlt := hv.2.1
  unfold page at hlt
  omega

namespace Protected

/-- A translation fault at a page that is not mapped. -/
theorem translation (h : Protected L ⟨k, mmu⟩ n gen m) {alloc : AllocConf} {lowerEl : Bool}
    (hcareful : Careful L ⟨k, mmu⟩ (.os (.fault (.translation alloc va lowerEl)))) :
    ∃ f rest mmu', m.free = f :: rest ∧ m.map (k.sys.currPid, gen k.sys.currPid) (page va) = none ∧
      translationFaultHandler k.sys alloc va lowerEl k.sys.currPid mmu =
        (if alloc.heapBegin ≤ va ∧ va < alloc.heapBegin + alloc.endOffset.signExtend 64
        then .ok mmu'
          else .error (.assertion .segFault)) ∧
      Implements L (Live k) gen mmu' (m.take (k.sys.currPid, gen k.sys.currPid) (page va) f rest) ∧
      leaf mmu'.words (L.zoneRoot k.sys.currPid) (page va) = some (withAttributes (frameAddress f)
        (newBlockAttributesSg1 ((if lowerEl then userPage else kernelPage) ||| accessFlagSet)
        normalWtNt)) := by
  obtain ⟨hhead, huser, hpage, hnone⟩ := hcareful
  obtain ⟨f, rest, hfree⟩ := h.implements.free.exists_cons hhead
  have hlive := h.current_live
  have hmap : m.map (k.sys.currPid, gen k.sys.currPid) (page va) = none := by
    rw [h.implements.map _ hlive, userMapping_of_user huser]
    exact congrArg _ hnone
  have hperm : (if lowerEl then userPage else kernelPage) = userPage ∨
      (if lowerEl then userPage else kernelPage) = kernelPage := by
    cases lowerEl
    · exact .inr rfl
    · exact .inl rfl
  obtain ⟨mmu', hget, himplements⟩ := (h.implements.setRoot (L.zoneRoot k.sys.currPid)).take
    h.sound hlive rfl (mem_userRange hpage) huser hmap hfree hperm
  refine ⟨f, rest, mmu', hfree, hmap, ?_, himplements⟩
  rw [translationFaultHandler, h.root_eq hlive]
  by_cases hrange : alloc.heapBegin ≤ va ∧ va < alloc.heapBegin + alloc.endOffset.signExtend 64
  · rw [if_pos hrange, assert_pos hrange, ok_bind]
    exact (congrArg (fun r ↦ r >>= fun x ↦ Except.ok x.1) hget).trans rfl
  · rw [if_neg hrange, assert_neg hrange]
    rfl

/-- An access flag fault at a mapped page. -/
theorem accessFlag (h : Protected L ⟨k, mmu⟩ n gen m)
    (hcareful : Careful L ⟨k, mmu⟩ (.os (.fault (.accessFlag va)))) :
    ∃ e mmu', leaf mmu.words (L.zoneRoot k.sys.currPid) (page va) = some e ∧
      accessFlagFaultLvl3Handler k.sys va k.sys.currPid mmu = .ok mmu' ∧
      Implements L (Live k) gen mmu' m ∧
      leaf mmu'.words (L.zoneRoot k.sys.currPid) (page va) = some (e ||| 1#64 <<< 10) := by
  obtain ⟨e, hleaf⟩ := Option.isSome_iff_exists.mp hcareful.mapped
  obtain ⟨mmu', hset⟩ := (h.implements.setRoot (L.zoneRoot k.sys.currPid)).setPageAccessFlag
    h.current_live rfl (range_of_user hcareful.user) hcareful.user hleaf
  rw [accessFlagFaultLvl3Handler, h.root_eq h.current_live]
  exact ⟨e, mmu', hleaf, hset⟩

/-- What the permission fault handler asks before it looks at the page holds of the user pages. -/
theorem permissionFaultHandler_eq (hconf : Configured L mmu) (hv : IsUserPage L (page va))
    (lowerEl : Bool) : permissionFaultHandler va lowerEl mmu =
      if lowerEl then handleSharedPageWrite va true mmu else .error (.assertion .faultLevel) := by
  obtain ⟨hend, -⟩ := L.toNat_endAddr_tables
  have hrange : ¬ (va < mmu.idPagingSize ∨ gpioBase < va) := by
    have hrow := hv.1
    have hlt := hv.2.1
    have hgpio : gpioBase.toNat = 0x3f200000 := rfl
    unfold page at hrow hlt
    rw [hconf.idPagingSize, BitVec.lt_def, BitVec.lt_def, hend, hgpio]
    omega
  rw [permissionFaultHandler]
  cases lowerEl with
  | true =>
    rw [assert_eq_ok rfl, ok_bind, decide_eq_false hrange, Bool.not_false, assert_eq_ok rfl,
      ok_bind, if_pos rfl]
  | false => rfl

/-- The counter of a mapped page is at least 1. -/
theorem counter_pos (h : Protected L ⟨k, mmu⟩ n gen m) (hn : n ≤ 253) (hlive : Live k q)
    (hv : IsUserPage L v) (hleaf : leaf mmu.words (L.zoneRoot q) v = some e) :
    0 < (getBindCounter mmu (entryAddress e)).toNat := by
  obtain ⟨-, hframe, hf⟩ := h.implements.frame_of_leaf hlive hv hleaf
  have hmem : (q, gen q) ∈ m.holders (mappingOf e).frame :=
    SharedMemory.mem_holders.mpr ⟨h.implements.procs q hlive, _, hframe⟩
  have hpos := Finset.card_pos.mpr ⟨_, hmem⟩
  have hle : (m.holders (mappingOf e).frame).card ≤ m.procs.card :=
    Finset.card_le_card SharedMemory.holders_subset
  have hcard := h.card
  rw [entryAddress_eq e, h.implements.counter _ hf, BitVec.toNat_ofNat]
  omega

/-- A write fault at a page that several processes have mapped. -/
theorem sharedFault (h : Protected L ⟨k, mmu⟩ n gen m) (hn : n ≤ 253)
    (hhead : mmu.physicalMemoryMap.head.toNat < freeLimit L) (hq : q ≠ kernelPid)
    (hroot : mmu.lvl2TableAddress = L.zoneRoot q) (hlive : Live k q)
    (huser : IsUserPage L (page va)) (hleaf : leaf mmu.words (L.zoneRoot q) (page va) = some e)
    (hone : getBindCounter mmu (entryAddress e) ≠ 1) : SharedFault L mmu q L.kernelTables va e := by
  have hpos := h.counter_pos hn hlive huser hleaf
  obtain ⟨-, hle⟩ := L.toNat_endAddr_tables
  obtain ⟨f, rest, hfree⟩ := h.implements.free.exists_cons hhead
  obtain ⟨hfree', hnext, -⟩ := (hfree ▸ h.implements.free).next
  have hframe : IsFrame L f := h.implements.free.frame f (hfree ▸ List.mem_cons_self)
  have haddress := toNat_frameAddress hframe
  have hlt := hframe.2
  exact {
    configured := h.implements.configured
    process := hq
    root := hroot
    hardwareRoot := h.implements.hardwareRoot
    kernelTables := h.implements.kernelTables
    processTables := hroot ▸ h.implements.tables q hlive
    own := hle
    reserved := h.implements.reserved
    range := range_of_user huser
    mapped := hroot ▸ hleaf
    shared := by
      have hne : (getBindCounter mmu (entryAddress e)).toNat ≠ 1 :=
        fun heq ↦ hone (BitVec.eq_of_toNat_eq heq)
      rw [BitVec.lt_def]
      change 1 < _
      omega
    free := hfree'
    freeAligned := by
      rw [hnext, haddress]
      omega
    freeRam := by
      rw [hnext, haddress]
      omega }

/-- A write fault at a mapped page: the handler returns if and only if the page is mapped by one
process only, and its number is a multiple of eight. -/
theorem permission_iff (h : Protected L ⟨k, mmu⟩ n gen m) (hn : n ≤ 253)
    (hhead : mmu.physicalMemoryMap.head.toNat < freeLimit L) (hq : q ≠ kernelPid)
    (hroot : mmu.lvl2TableAddress = L.zoneRoot q) (hlive : Live k q)
    (huser : IsUserPage L (page va)) (hleaf : leaf mmu.words (L.zoneRoot q) (page va) = some e)
    (lowerEl : Bool) : (∃ mmu', permissionFaultHandler va lowerEl mmu = .ok mmu') ↔
      lowerEl = true ∧ getBindCounter mmu (entryAddress e) = 1 ∧ page va % 8 = 0 := by
  rw [permissionFaultHandler_eq h.implements.configured huser]
  cases lowerEl with
  | false => exact iff_of_false (by rintro ⟨mmu', ⟨⟩⟩) fun hand ↦ absurd hand.1 Bool.false_ne_true
  | true =>
    rw [if_pos rfl, and_iff_right rfl]
    by_cases hone : getBindCounter mmu (entryAddress e) = 1
    · rw [handleSharedPageWrite_alone (hroot ▸ (h.implements.tables q hlive).zone.rooted)
        (range_of_user huser) (hroot ▸ hleaf) hone, and_iff_right hone]
      by_cases hpage : page va % 8 = 0
      · rw [if_pos hpage]
        exact iff_of_true ⟨_, rfl⟩ hpage
      · rw [if_neg hpage]
        exact iff_of_false (by rintro ⟨mmu', ⟨⟩⟩) hpage
    · refine iff_of_false ?_ fun hand ↦ hone hand.1
      -- the copy of a shared page faults
      obtain ⟨addr, hstop⟩ :=
        handleSharedPageWrite_faults (h.sharedFault hn hhead hq hroot hlive huser hleaf hone) true
      rintro ⟨mmu', hok⟩
      cases hstop.symm.trans hok

/-- A write fault whose handler returns. -/
theorem permission (h : Protected L ⟨k, mmu⟩ n gen m) (hn : n ≤ 253) {lowerEl : Bool}
    (hcareful : Careful L ⟨k, mmu⟩ (.os (.fault (.permission va lowerEl))))
    (hok : permissionFaultHandler va lowerEl mmu = .ok mmu') :
    ∃ q e, mmu.lvl2TableAddress = L.zoneRoot q ∧
      leaf mmu.words (L.zoneRoot q) (page va) = some e ∧
      SharedMemory.Step stackPages m (.own (q, gen q) (page va))
        (m.setMap (q, gen q) (page va) (some ⟨(mappingOf e).frame, true⟩)) ∧
      Implements L (Live k) gen mmu'
      (m.setMap (q, gen q) (page va) (some ⟨(mappingOf e).frame, true⟩)) ∧
      leaf mmu'.words (L.zoneRoot q) (page va) =
        some (withAttributes e
          (newBlockAttributesSg1 (userPage ||| accessFlagSet) normalWtNt)) := by
  obtain ⟨hhead, q, hq, hroot, hlive, huser, hsome⟩ := hcareful
  obtain ⟨e, hleaf⟩ := Option.isSome_iff_exists.mp hsome
  have hcard : m.procs.card ≤ 255 := by
    rw [h.card]
    omega
  obtain ⟨rfl, hone, -⟩ :=
    (h.permission_iff hn hhead hq hroot hlive huser hleaf lowerEl).mp ⟨mmu', hok⟩
  rw [permissionFaultHandler_eq h.implements.configured huser, if_pos rfl] at hok
  obtain ⟨hop, himplements, hentry⟩ :=
    h.implements.own hcard hlive hroot (range_of_user huser) huser hleaf hone hok
  rw [if_pos rfl] at hentry
  exact ⟨q, e, hroot, hleaf, hop, himplements, hentry⟩

/-- If no page has been taken, all of them are free. -/
theorem head_pos (h : Protected L ⟨k, mmu⟩ n gen m) (hf : IsFrame L f) (hheld : f ∉ m.free) :
    0 < mmu.physicalMemoryMap.head := by
  have hlength : mmu.physicalMemoryMap.head.toNat + m.free.length = freeLimit L :=
    h.implements.free.head
  have hzero : (0 : BitVec 32).toNat = 0 := rfl
  rw [BitVec.lt_def, hzero]
  by_contra hhead
  have hsub : m.free.toFinset ⊆ Finset.Ico (512 * L.kernelTables) 0x3f000 := fun g hg ↦
    Finset.mem_Ico.mpr (h.implements.free.frame g (List.mem_toFinset.mp hg))
  have heq := Finset.eq_of_subset_of_card_le hsub (by
    rw [Nat.card_Ico, List.toFinset_card_of_nodup h.sound.nodup]
    rw [freeLimit] at hlength
    omega)
  exact hheld (List.mem_toFinset.mp (heq ▸ Finset.mem_Ico.mpr hf))

/-- A release of a mapped page returns. -/
theorem release (h : Protected L ⟨k, mmu⟩ n gen m) (hn : n ≤ 253)
    (hcareful : Careful L ⟨k, mmu⟩ (.os (.release va pid))) :
    ∃ f mmu' status, memManagerFreeVirtualPage k.sys va pid mmu =
        (if mmu.lvl2TableAddress = getLvl2AddressFromSysState k.sys memManagerPid
        then .ok (mmu', status)
          else .error (.assertion .managerRoot)) ∧
      m.frameOf (pid, gen pid) (page va) = some f ∧
      SharedMemory.Step stackPages m (.drop (pid, gen pid) (page va))
      (m.drop (pid, gen pid) (page va) f) ∧
      Implements L (Live k) gen mmu' (m.drop (pid, gen pid) (page va) f) := by
  obtain ⟨hpage, hlive, huser, hsome⟩ := hcareful
  obtain ⟨e, hleaf⟩ := Option.isSome_iff_exists.mp hsome
  have hcard : m.procs.card ≤ 255 := by
    rw [h.card]
    omega
  obtain ⟨-, hframe, hf⟩ := h.implements.frame_of_leaf hlive huser hleaf
  have hhead := h.head_pos hf fun hmem ↦ h.sound.unbound _ hmem _ _ hframe
  obtain ⟨hstep, mmu', status, hfree, himplements⟩ := (h.implements.setRoot (L.zoneRoot pid)).drop
    h.sound hcard hlive
    rfl (mem_userRange hpage) huser hleaf fun _ ↦ hhead
  refine ⟨_, mmu'.setRoot mmu.lvl2TableAddress, status, ?_, hframe, hstep, himplements.setRoot _⟩
  rw [memManagerFreeVirtualPage, h.root_eq hlive]
  by_cases hroot : mmu.lvl2TableAddress = getLvl2AddressFromSysState k.sys memManagerPid
  · rw [if_pos hroot, assert_pos hroot, ok_bind]
    exact (congrArg (fun r ↦ r >>= fun x ↦ Except.ok (x.1.setRoot mmu.lvl2TableAddress, x.2))
      hfree).trans rfl
  · rw [if_neg hroot, assert_neg hroot]
    rfl

/-- A byte is written to a page that no other process has mapped, because it may be written. -/
theorem write (h : Protected L ⟨k, mmu⟩ n gen m) (hlive : Live k q) (hpage : IsUserPage L (page va))
    (hleaf : leaf mmu.words (L.zoneRoot q) (page va) = some e) (hbit : e &&& 1#64 <<< 7 = 0)
    (b : BitVec 8) :
    ∃ m' d, Protected L ⟨k, { mmu with
      pages := Function.update mmu.pages (entryAddress e + (va &&& mask 11 0)) b }⟩ n
        gen m' ∧ spaces L ⟨k, mmu⟩ q (page va) = some d ∧
      spaces L ⟨k, { mmu with
        pages := Function.update mmu.pages (entryAddress e + (va &&& mask 11 0)) b }⟩ =
        setPage (spaces L ⟨k, mmu⟩) q (page va) (some (Function.update d (offset va) b)) := by
  obtain ⟨hop, himplements⟩ := h.implements.store hlive hpage hleaf hbit b (k := offset va) rfl
  have hfind : spaces L ⟨k, mmu⟩ q (page va) = some (pageBytes mmu.pages (mappingOf e).frame) := by
    rw [spaces, if_neg hlive, userMapping_of_user hpage, hleaf]
    rfl
  refine ⟨_, _, h.step hop himplements rfl, hfind, ?_⟩
  exact h.implements.spaces_setPage himplements hlive (hop.space h.sound h.hasPrivate).eq_of_store

end Protected

/-! ### What the kernel stores for a process -/

section Overlay

variable {S : Spaces} {f g : Word → BitVec 8 → BitVec 8}

theorem overlay_apply : overlay S pid f q v =
    if q = pid then (S q v).map fun d o ↦ f (pageAddress v o) (d o) else S q v := by
  rw [overlay, Function.update_apply]
  split_ifs with hq
  · rw [hq]
  · rfl

theorem overlay_id : (overlay S pid fun _ b ↦ b) = S := by
  funext q v
  rw [overlay_apply]
  split_ifs
  · exact congrFun Option.map_id (S q v)
  · rfl

theorem overlay_overlay :
    overlay (overlay S pid f) pid g = overlay S pid fun a b ↦ g a (f a b) := by
  funext q v
  simp only [overlay_apply]
  split_ifs
  · rw [Option.map_map]
    rfl
  · rfl

theorem isSome_overlay : (overlay S pid f q v).isSome = (S q v).isSome := by
  rw [overlay_apply]
  split_ifs
  · exact Option.isSome_map
  · rfl

theorem isSome_receive (S : Spaces) (resume : Option Resume) (q : Pid) (v : ℕ) :
    (receive S resume q v).isSome = (S q v).isSome := by
  cases resume with
  | none => rfl
  | some r => rw [receive, isSome_overlay]

theorem receive_congr {T : Spaces} {resume : Option Resume} (h : S q v = T q v) :
    receive S resume q v = receive T resume q v := by
  cases resume with
  | none => exact h
  | some r => rw [receive, receive, overlay_apply, overlay_apply, h]

/-- A byte that is written is a change of all bytes that leaves all others as they are. -/
theorem setPage_eq_overlay {b : BitVec 8} {d : PageBytes} (hsome : S q (page va) = some d)
    (hsmall : ∀ v, 2 ^ 18 ≤ v → S q v = none) :
    setPage S q (page va) (some (Function.update d (offset va) b)) =
      overlay S q fun a x ↦ if va = a then b else x := by
  funext r v
  rw [setPage_apply, overlay_apply]
  by_cases hr : r = q
  · subst hr
    rw [if_pos rfl]
    by_cases hv : v < 2 ^ 18
    · simp only [pageAddress_eq_iff hv, true_and]
      by_cases hpage : v = page va
      · subst hpage
        rw [if_pos rfl, hsome, Option.map_some]
        refine congrArg some (funext fun o ↦ ?_)
        simp only [Function.update_apply, true_and]
      · rw [if_neg hpage]
        simp only [hpage, false_and, if_false]
        exact (congrFun Option.map_id (S r v)).symm
    · have hnone := hsmall v (Nat.le_of_not_lt hv)
      have hne : ¬ (r = r ∧ v = page va) := by
        rintro ⟨-, rfl⟩
        cases hsome.symm.trans hnone
      rw [if_neg hne, hnone, Option.map_none]
  · rw [if_neg fun hand ↦ hr hand.1, if_neg hr]

end Overlay

theorem spaces_of_large (hv : 2 ^ 18 ≤ v) : spaces L σ q v = none := by
  have hnot : ¬ IsUserPage L v := fun huser ↦ by
    have hlt := huser.2.1
    omega
  rw [spaces, userMapping, if_neg hnot]
  split_ifs <;> rfl

namespace Protected

/-- Where the kernel can write to a page, the access of its tables goes to the page. -/
theorem kernelTranslation_eq (h : Protected L ⟨k, mmu⟩ n gen m) (hlive : Live k q)
    (hwritable : KernelWritable L ⟨k, mmu⟩ q va) :
    ∃ e, leaf mmu.words (L.zoneRoot q) (page va) = some e ∧ e &&& 1#64 <<< 7 = 0 ∧
      kernelTranslation { mmu with ttbr0El1 := (k.sys.procs q).memConf.ttbr0El1 } va true =
      some (entryAddress e) := by
  obtain ⟨huser, e, hleaf, hflag, hbit⟩ := hwritable
  have hroot : (k.sys.procs q).memConf.ttbr0El1 &&& mask 47 1 = L.zoneRoot q := h.root_eq hlive
  refine ⟨e, hleaf, hbit, Mmu.kernelTranslation_eq ?_ (range_of_user huser) ?_ hflag fun _ ↦ hbit⟩
  · rw [hroot]
    exact (h.implements.tables q hlive).zone.rooted
  · rw [hroot]
    exact hleaf

/-- The bytes that the kernel stores one after another for a process. -/
theorem storeBytes (h : Protected L ⟨k, mmu⟩ n gen m) (hlive : Live k q)
    {writes : List (Word × BitVec 8)} (hwrites : ∀ w ∈ writes, KernelWritable L ⟨k, mmu⟩ q w.1) :
    ∃ m', Protected L ⟨k, Mmu.storeBytes (k.sys.procs q).memConf.ttbr0El1 writes mmu⟩ n gen m' ∧
      spaces L ⟨k, Mmu.storeBytes (k.sys.procs q).memConf.ttbr0El1 writes mmu⟩ =
        overlay (spaces L ⟨k, mmu⟩) q (written writes) := by
  induction writes generalizing mmu m with
  | nil => exact ⟨m, h, overlay_id.symm⟩
  | cons w writes ih =>
    obtain ⟨hw, hwrites⟩ := List.forall_mem_cons.mp hwrites
    obtain ⟨e, hleaf, hbit, htranslation⟩ := h.kernelTranslation_eq hlive hw
    obtain ⟨m', d, h', hsome, hspaces⟩ := h.write hlive hw.1 hleaf hbit w.2
    obtain ⟨m'', h'', hspaces'⟩ := ih h' hwrites
    have hstore : Mmu.storeBytes (k.sys.procs q).memConf.ttbr0El1 (w :: writes) mmu =
        Mmu.storeBytes (k.sys.procs q).memConf.ttbr0El1 writes
          { mmu with
            pages := Function.update mmu.pages (entryAddress e + (w.1 &&& mask 11 0)) w.2 } := by
      rw [Mmu.storeBytes, htranslation]
    rw [hstore]
    refine ⟨m'', h'', ?_⟩
    rw [hspaces', hspaces, setPage_eq_overlay hsome fun v hv ↦ spaces_of_large hv, overlay_overlay]
    rfl

/-- The message of a process that is resumed. -/
theorem message (h : Protected L ⟨k, mmu⟩ n gen m) {resume : Option Resume} (buff : Word)
    (hlive : ∀ r, resume = some r → Live k r.pid)
    (hsize : ∀ pid addr bytes, resume = some ⟨pid, some (addr, bytes)⟩ → bytes.length ≤ 2 ^ 64)
    (hwritable : ∀ r, resume = some r → ∀ a, Patch.Covers r.write a →
    KernelWritable L ⟨k, mmu⟩ r.pid a) :
    ∃ m', Protected L ⟨k, writeMessage k buff mmu resume⟩ n gen m' ∧
      spaces L ⟨k, writeMessage k buff mmu resume⟩ = receive (spaces L ⟨k, mmu⟩) resume := by
  match resume with
  | none => exact ⟨m, h, rfl⟩
  | some ⟨pid, none⟩ => exact ⟨m, h, overlay_id.symm⟩
  | some ⟨pid, some (addr, bytes)⟩ =>
    obtain ⟨m', h', hspaces⟩ :=
      h.storeBytes (hlive _ rfl) fun w hw ↦ hwritable _ rfl w.1 (mem_messageWrites hw)
    have hbytes : written (messageWrites buff addr bytes) =
        fun a b ↦ Patch.store (some (addr, bytes)) (fun _ ↦ b) a := by
      funext a b
      exact written_messageWrites buff (hsize pid addr bytes rfl)
    refine ⟨m', h', hspaces.trans ?_⟩
    rw [hbytes, receive]

end Protected

end SysresOs.Mmu
