import SysresOs.Memory.Encoding
import SysresOs.Memory.Lineage

/-!
# The address space of a forked process

What a child has from its parent after `process_init_copy_and_write`: it shares the pages of the
parent, which both can only read from then on, and it has a copy of its stack.
`processInitCopyAndWrite_inherits` puts this together from the description of the tables and of the
counters.
-/

set_option autoImplicit false
set_option relaxedAutoImplicit false

namespace SysresOs.Mmu

open SysresOs.Proc (Pid SystemState kernelPid initPid)

variable {L : Layout} {sys : SystemState} {live : Finset Pid} {pid : Pid} {s t : MmuState}
  {p p' e : Word} {v : ℕ}

/-- The pages `v` of a parent and a child are mapped, with the permissions of a forked page, to the
physical page that the entry `e` of the parent named before. -/
structure SharedPage (s t : MmuState) (parent child : Word) (v : ℕ) (e : Word) : Prop where
  entries : ∃ e', leaf t.words parent v = some e' ∧ leaf t.words child v = some e' ∧
    entryAddress e' = entryAddress e ∧ decode e' = forkedAttributes
  counter : (getBindCounter t (entryAddress e)).toNat = (getBindCounter s (entryAddress e)).toNat +
    1

/-- The page `v` of a child is mapped to the page `new` of its own, with the contents of the page
`old` of the parent, which keeps it. -/
structure CopiedPage (s t : MmuState) (parent child : Word) (v : ℕ) (old new : Word) : Prop where
  entry : ∃ e, leaf t.words child v = some e ∧ entryAddress e = new
  counter : getBindCounter t new = 1
  contents : ∀ k : Word, k < granule → t.pages (new + k) = t.pages (old + k) ∧
    t.pages (old + k) = s.pages (old + k)
  parent : leaf t.words parent v = leaf s.words parent v ∧
    getBindCounter t old = getBindCounter s old

/-- The address space of a child, after a fork that began in the memory `s`. -/
structure Inherits (L : Layout) (s t : MmuState) (parent child p p' : Word) : Prop where
  mapped : ∀ v, IsUserPage L v → ¬ IsStackPage v → ∀ e, leaf s.words parent v = some e →
    SharedPage s t parent child v e
  unmapped : ∀ v, IsUserPage L v → ¬ IsStackPage v → leaf s.words parent v = none →
    leaf t.words parent v = none ∧ leaf t.words child v = none
  stack : CopiedPage s t parent child 0x3f1ff p (nextFreePage s)
  stack' : CopiedPage s t parent child 0x3f1fe p' (nextFreePage (pageTaken s))
  taken : t.physicalMemoryMap = { s.physicalMemoryMap with head := s.physicalMemoryMap.head + 2 }
  reserved : leaf t.words L.mmuTablesStart (page pageRes1) = none ∧
    leaf t.words L.mmuTablesStart (page pageRes2) = none

/-- A forked entry can be read and executed, but not written. -/
theorem decode_forkedEntry (e : Word) (hv : ¬ IsStackPage v) :
    decode (forkedEntry v e) = forkedAttributes ∧ forkedAttributes.accessPermission = 3 := by
  refine ⟨?_, rfl⟩
  rw [forkedEntry, if_neg hv, forkedAttributes, decode_newBlockAttributesSg1]
  rfl

/-! ### Contents -/

theorem copyPage_self (pages : Word → BitVec 8) (dst src : Word) {k : Word} (hk : k < granule) :
    copyPage pages dst src (dst + k) = pages (src + k) := by
  rw [copyPage, BitVec.add_comm dst k, BitVec.add_sub_cancel, if_pos hk]

/-- The other pages keep their contents. -/
theorem copyPage_of_ne (pages : Word → BitVec 8) {dst q k : Word} (src : Word)
    (hdst : dst.toNat % 0x1000 = 0) (hq : q.toNat % 0x1000 = 0) (hdst' : dst.toNat < 0x40000000)
    (hq' : q.toNat < 0x40000000) (hne : q.toNat / 0x1000 ≠ dst.toNat / 0x1000) (hk : k < granule) :
    copyPage pages dst src (q + k) = pages (q + k) := by
  have hgranule : granule.toNat = 0x1000 := rfl
  rw [BitVec.lt_def, hgranule] at hk
  rw [copyPage, if_neg]
  rw [BitVec.lt_def, hgranule, BitVec.toNat_sub, BitVec.toNat_add]
  omega

namespace Forkable

/-- The page of a shared entry. -/
theorem sharedPage (h : Forkable L sys live pid s p p')
    (ht : CopyAndWrite L s t pid (L.zoneRoot (getParentPid sys pid)) p p') (hv : IsUserPage L v)
    (hstack : ¬ IsStackPage v)
    (hleaf : leaf s.words (L.zoneRoot (getParentPid sys pid)) v = some e) :
    SharedPage s t (L.zoneRoot (getParentPid sys pid)) (L.zoneRoot pid) v e := by
  have hframe : frameOf s.words (L.zoneRoot (getParentPid sys pid)) v =
      some ((entryAddress e).toNat / 0x1000) := by
    rw [frameOf, hleaf]
    rfl
  have hparent :=
      ht.otherLeaf _ _ h.forkReady.apart (h.exact.tables _ h.parent) v hv.1
      (by have := hv.2.1; omega)
  rw [if_pos ⟨rfl, hv⟩, hleaf] at hparent
  have hchild := ht.leaf_eq v hv hstack
  rw [hleaf] at hchild
  refine ⟨⟨forkedEntry v e, hparent, hchild, entryAddress_forkedEntry v e,
    (decode_forkedEntry e hstack).1⟩, ?_⟩
  obtain ⟨-, hle⟩ := h.exact.counter_pos h.parent hv hleaf
  have hone : (1 : BitVec 8).toNat = 1 := rfl
  rw [ht.counter, if_neg (h.frameOf_shared_ne (.inl hv) hstack hframe),
    h.card_copiedTo_shared hv hframe, BitVec.toNat_add, BitVec.toNat_ofNat]
  omega

/-- The copies of the two pages of the stack. -/
theorem copiedPages (h : Forkable L sys live pid s p p')
    (ht : CopyAndWrite L s t pid (L.zoneRoot (getParentPid sys pid)) p p') :
    CopiedPage s t (L.zoneRoot (getParentPid sys pid)) (L.zoneRoot pid) 0x3f1ff p (nextFreePage s) ∧
      CopiedPage s t (L.zoneRoot (getParentPid sys pid)) (L.zoneRoot pid) 0x3f1fe p'
      (nextFreePage (pageTaken s)) := by
  obtain ⟨huser, huser'⟩ := isUserPage_stack L
  obtain ⟨hstack, hfree, hnew⟩ := h.forkReady.distinct
  obtain ⟨hne₁, hne₂⟩ := hfree p (.inl rfl)
  obtain ⟨hne₁', hne₂'⟩ := hfree p' (.inr rfl)
  obtain ⟨e, hleaf, rfl⟩ := h.stack
  obtain ⟨e', hleaf', rfl⟩ := h.stack'
  obtain ⟨-, hram⟩ := h.exact.range _ h.parent _ huser e hleaf
  obtain ⟨-, hram'⟩ := h.exact.range _ h.parent _ huser' e' hleaf'
  have haligned := entryAddress_aligned e
  have haligned' := entryAddress_aligned e'
  have hnewRam := h.free.ram
  have hnewRam' := h.free.ram'
  have hparent (v : ℕ) (hv : IsUserPage L v) (hstackPage : IsStackPage v) {x : Word}
      (hx : leaf s.words (L.zoneRoot (getParentPid sys pid)) v = some x) :
      leaf t.words (L.zoneRoot (getParentPid sys pid)) v =
      leaf s.words (L.zoneRoot (getParentPid sys pid)) v := by
    rw [ht.otherLeaf _ _ h.forkReady.apart (h.exact.tables _ h.parent) v hv.1
      (by have := hv.2.1; omega),
      if_pos ⟨rfl, hv⟩, hx, Option.map_some, forkedEntry, if_pos hstackPage]
  have hcounter (q : Word) (hq : q = entryAddress e ∨ q = entryAddress e' ∨ q = nextFreePage s ∨
      q = nextFreePage (pageTaken s)) : getBindCounter t q = 1 := by
    rw [ht.counter, if_pos]
    rcases hq with rfl | rfl | rfl | rfl
    · exact .inl rfl
    · exact .inr (.inl rfl)
    · exact .inr (.inr (.inl rfl))
    · exact .inr (.inr (.inr rfl))
  -- the pages of the parent are kept by both copies, and the first copy by the second
  have hold (q k : Word) (hq : q = entryAddress e ∨ q = entryAddress e') (hk : k < granule) :
      t.pages (q + k) = s.pages (q + k) := by
    rw [ht.contents]
    rcases hq with rfl | rfl
    · rw [copyPage_of_ne _ _ h.free.aligned' haligned hnewRam' hram hne₂ hk,
        copyPage_of_ne _ _ h.free.aligned haligned hnewRam hram hne₁ hk]
    · rw [copyPage_of_ne _ _ h.free.aligned' haligned' hnewRam' hram' hne₂' hk,
        copyPage_of_ne _ _ h.free.aligned haligned' hnewRam hram' hne₁' hk]
  constructor
  · constructor
    case entry =>
      exact ⟨_, ht.stack,
        by rw [entryAddress_withAttributes, entryAddress_of_page h.free.aligned (by omega)]⟩
    case counter => exact hcounter _ (.inr (.inr (.inl rfl)))
    case contents =>
      intro k hk
      refine ⟨?_, hold _ k (.inl rfl) hk⟩
      rw [hold _ k (.inl rfl) hk, ht.contents,
        copyPage_of_ne _ _ h.free.aligned' h.free.aligned hnewRam' hnewRam hnew hk,
        copyPage_self _ _ _ hk]
    case parent =>
      exact ⟨hparent _ huser (.inl rfl) hleaf, (hcounter _ (.inl rfl)).trans h.count.symm⟩
  · constructor
    case entry =>
      exact ⟨_, ht.stack',
        by rw [entryAddress_withAttributes, entryAddress_of_page h.free.aligned' (by omega)]⟩
    case counter => exact hcounter _ (.inr (.inr (.inr rfl)))
    case contents =>
      intro k hk
      refine ⟨?_, hold _ k (.inr rfl) hk⟩
      rw [hold _ k (.inr rfl) hk, ht.contents, copyPage_self _ _ _ hk,
        copyPage_of_ne _ _ h.free.aligned haligned' hnewRam hram' hne₁' hk]
    case parent =>
      exact ⟨hparent _ huser' (.inr rfl) hleaf', (hcounter _ (.inr (.inl rfl))).trans h.count'.symm⟩

end Forkable

/-- `process_init_copy_and_write` gives the child the address space of the parent. -/
theorem processInitCopyAndWrite_inherits (h : Forkable L sys live pid s p p') :
    ∃ t, processInitCopyAndWrite L sys pid (populated L pid s) = .ok t ∧
      Inherits L s t (L.zoneRoot (getParentPid sys pid)) (L.zoneRoot pid) p p' := by
  obtain ⟨t, hinit, -, -, ht⟩ := processInitCopyAndWrite_ok h.forkReady
  obtain ⟨hcopied, hcopied'⟩ := h.copiedPages ht
  have hnone (v : ℕ) (hv : v < 511 * 512) (hleaf : leaf s.words L.mmuTablesStart v = none) :
      leaf t.words L.mmuTablesStart v = none := by
    rw [ht.otherLeaf _ 0 h.forkReady.childApart.symm h.kernelTables v (Nat.zero_le _) hv, hleaf,
      Option.map_none, ite_self]
  refine ⟨t, hinit, ?_⟩
  constructor
  case mapped => exact fun v hv hstack e hleaf ↦ h.sharedPage ht hv hstack hleaf
  case unmapped =>
    intro v hv hstack hleaf
    have hparent := ht.otherLeaf _ _ h.forkReady.apart (h.exact.tables _ h.parent) v hv.1
        (by have := hv.2.1; omega)
    rw [if_pos ⟨rfl, hv⟩, hleaf] at hparent
    have hchild := ht.leaf_eq v hv hstack
    rw [hleaf] at hchild
    exact ⟨hparent, hchild⟩
  case stack => exact hcopied
  case stack' => exact hcopied'
  case taken =>
    have hmap : t.physicalMemoryMap = { s.physicalMemoryMap with
        head := s.physicalMemoryMap.head + 1 + 1 } := by
      rw [ht.fixed]
      rfl
    rw [hmap, BitVec.add_assoc]
    rfl
  case reserved => exact ⟨hnone _ (by decide) h.reserved, hnone _ (by decide) h.reserved'⟩

/-- `init` forks after the boot. -/
theorem processInitCopyAndWrite_inherits_boot : ∃ s p p' t,
    Forkable sampleLayout (forkSystem sampleLayout) {kernelPid, initPid} 3 s p p' ∧
      processInitCopyAndWrite sampleLayout (forkSystem sampleLayout) 3
      (populated sampleLayout 3 s) = .ok t ∧
      Inherits sampleLayout s t (sampleLayout.zoneRoot initPid) (sampleLayout.zoneRoot 3) p p' := by
  obtain ⟨s, p, p', hready, -⟩ := exists_forkable sampleLayout
    (by decide : (3 : Pid) ≠ kernelPid ∧ (3 : Pid) ≠ initPid) fun _ ↦ 0
  obtain ⟨t, hinit, ht⟩ := processInitCopyAndWrite_inherits hready
  exact ⟨s, p, p', t, hready, hinit, ht⟩

end SysresOs.Mmu
