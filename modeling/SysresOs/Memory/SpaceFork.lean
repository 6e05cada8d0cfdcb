import SysresOs.Memory.Inherit
import SysresOs.Memory.Spaces

/-!
# A fork of the shared pages

`c_init_mmu` for a forked process is the fork of `Lib.Sharing`: the pages of the parent are shared
with the child, except for the two of the stack, which are copied to the next two free pages
(`Implements.fork`). The slot of the child may have been in use before.
-/

set_option autoImplicit false
set_option relaxedAutoImplicit false

namespace SysresOs.Mmu

open SysresOs.Outcome SysresOs.Sharing

open SysresOs.Proc (Pid SystemState kernelPid initPid)

variable {L : Layout} {sys : SystemState} {live : Pid → Prop} {gen : Pid → ℕ} {s t : MmuState}
  {m m' : SharedPages} {pid parent q : Pid} {p p' e : Word} {f f' g g' v n : ℕ} {rest : List ℕ}

theorem mem_stackPages : v ∈ stackPages ↔ IsStackPage v := by
  simp [stackPages]

/-- The mapping of a page after a fork. -/
theorem mappingOf_forkedEntry (v : ℕ) (e : Word) :
    mappingOf (forkedEntry v e) = if v ∈ stackPages then mappingOf e
      else ⟨(mappingOf e).frame, false⟩ := by
  rw [forkedEntry]
  simp only [mem_stackPages]
  split_ifs with hv
  · rfl
  · have hbit : withAttributes e forkedAttributes &&& 1#64 <<< 7 ≠ 0 := by
      rw [withAttributes_and _ _ _ (by decide)]
      decide
    rw [mappingOf, entryAddress_withAttributes, decide_eq_false hbit, mappingOf]

/-- What the kernel knows when it sets up the memory of a child: the parent is in use, the slot of
the child is not, and both the parent and the kernel have the tables of their slots. -/
structure Forks (L : Layout) (sys : SystemState) (live : Pid → Prop) (pid parent : Pid) : Prop where
  process : pid ≠ kernelPid ∧ pid ≠ initPid
  fresh : ¬ live pid
  parent_eq : getParentPid sys pid = parent
  parentLive : live parent
  parentRoot : getLvl2AddressFromSysState sys parent = L.zoneRoot parent
  kernelRoot : getLvl2AddressFromSysState sys kernelPid = L.mmuTablesStart

theorem frameOf_eq (w : ℕ → Word) (root : Word) (v : ℕ) :
    frameOf w root v = ((leaf w root v).map mappingOf).map Mapping.frame := by
  rw [frameOf, Option.map_map]
  rfl

namespace Implements

/-- The frames of the pages of a slot in use. -/
theorem frameOf_user (h : Implements L live gen s m) (hq : live q) (hv : IsUserPage L v) :
    frameOf s.words (L.zoneRoot q) v = m.frameOf (q, gen q) v := by
  rw [frameOf_eq, SharedMemory.frameOf, h.map q hq, userMapping_of_user hv]

/-- A writable page of a slot in use is bound once. -/
theorem writable (h : Implements L live gen s m) (hsound : m.Sound) (hq : live q)
    (hmap : m.map (q, gen q) v = some ⟨g, true⟩) :
    IsFrame L g ∧ getBindCounter s (frameAddress g) = 1 ∧
      ∃ e, leaf s.words (L.zoneRoot q) v = some e ∧ entryAddress e = frameAddress g := by
  have hg := h.frame _ _ _ (SharedMemory.frameOf_eq_some hmap)
  obtain ⟨-, e, hleaf, he⟩ := h.exists_leaf hq hmap
  refine ⟨hg, ?_, e, hleaf, ?_⟩
  · rw [h.counter g hg, hsound.holders_eq hmap, Finset.card_singleton]
    rfl
  · rw [entryAddress_eq, he]

/-- `c_init_mmu` has what it relies on. -/
theorem forkReady (h : Implements L live gen s m) (hsound : m.Sound)
    (hforks : Forks L sys live pid parent) (hfree : m.free = f :: f' :: rest)
    (hg : m.map (parent, gen parent) 0x3f1ff = some ⟨g, true⟩)
    (hg' : m.map (parent, gen parent) 0x3f1fe = some ⟨g', true⟩) :
    ForkReady L sys pid s (L.zoneRoot parent) (frameAddress g) (frameAddress g') := by
  obtain ⟨huser, huser'⟩ := isUserPage_stack L
  obtain ⟨hhead, hnext, hrest⟩ := (hfree ▸ h.free).next
  obtain ⟨hhead', hnext', -⟩ := hrest.next (s := pageTaken s)
  have hf : IsFrame L f := h.free.frame f (hfree ▸ List.mem_cons_self)
  have hf' : IsFrame L f' := h.free.frame f' (hfree ▸ List.mem_cons_of_mem f List.mem_cons_self)
  have hframe := SharedMemory.frameOf_eq_some hg
  have hframe' := SharedMemory.frameOf_eq_some hg'
  have hmem : f ∈ m.free := hfree ▸ List.mem_cons_self
  have hmem' : f' ∈ m.free := hfree ▸ List.mem_cons_of_mem f List.mem_cons_self
  have hdiv {k : ℕ} (hk : IsFrame L k) : (frameAddress k).toNat / 0x1000 = k := by
    rw [toNat_frameAddress hk, Nat.mul_div_cancel_left k (by decide)]
  obtain ⟨-, hone, hstack⟩ := h.writable hsound hforks.parentLive hg
  obtain ⟨-, hone', hstack'⟩ := h.writable hsound hforks.parentLive hg'
  have honce {u k : ℕ} (hk : m.frameOf (parent, gen parent) u = some k) (v : ℕ)
      (hv : IsUserPage L v)
      (hmapped : frameOf s.words (L.zoneRoot parent) v = some ((frameAddress k).toNat / 0x1000)) :
      v = u := by
    rw [h.frameOf_user hforks.parentLive hv, hdiv (h.frame _ _ _ hk)] at hmapped
    exact hsound.once _ v u k hmapped hk
  have hzero {k : ℕ} (hk : k ∈ m.free) (hk' : IsFrame L k) :
      getBindCounter s (frameAddress k) = 0 := by
    rw [h.counter k hk', hsound.holders_of_free hk]
    rfl
  have hunbound {k : ℕ} (hk : k ∈ m.free) (hk' : IsFrame L k) (v : ℕ) (hv : IsUserPage L v) :
      frameOf s.words (L.zoneRoot parent) v ≠ some ((frameAddress k).toNat / 0x1000) := by
    rw [h.frameOf_user hforks.parentLive hv, hdiv hk']
    exact hsound.unbound k hk _ v
  have hne : f ≠ f' := by
    have hnodup := hsound.nodup
    rw [hfree, List.nodup_cons] at hnodup
    exact fun heq ↦ hnodup.1 (heq ▸ List.mem_cons_self)
  exact {
    process := hforks.process
    configured := h.configured
    kernelRoot := hforks.kernelRoot
    hardwareRoot := h.hardwareRoot
    parentRoot := by rw [hforks.parent_eq, hforks.parentRoot]
    apart := fun heq ↦ hforks.fresh (L.zoneRoot_inj.mp heq ▸ hforks.parentLive)
    kernelTables := h.kernelTables
    parentTables := h.tables _ hforks.parentLive
    reserved := h.reserved
    reserved' := h.reserved'
    range := by
      intro v hv e hleaf
      obtain ⟨-, -, hk⟩ := h.frame_of_leaf hforks.parentLive hv hleaf
      have hlt := hk.2
      rw [entryAddress_eq e, h.configured.idPagingSize, toNat_frameAddress hk]
      exact ⟨le_frameAddress hk, by omega⟩
    stack := hstack
    stack' := hstack'
    once := honce hframe
    once' := honce hframe'
    count := hone
    count' := hone'
    free := by
      have hlt := hf.2
      have hlt' := hf'.2
      constructor
      case head => exact hhead
      case head' => exact hhead'
      case aligned => rw [hnext, toNat_frameAddress hf]; omega
      case aligned' => rw [hnext', toNat_frameAddress hf']; omega
      case above => rw [hnext, h.configured.idPagingSize]; exact le_frameAddress hf
      case above' => rw [hnext', h.configured.idPagingSize]; exact le_frameAddress hf'
      case ram => rw [hnext, toNat_frameAddress hf]; omega
      case ram' => rw [hnext', toNat_frameAddress hf']; omega
    freeDistinct := by
      rw [hnext, hnext']
      exact fun heq ↦ hne (by rw [← hdiv hf, heq, hdiv hf'])
    freeCount := by rw [hnext]; exact hzero hmem hf
    freeCount' := by rw [hnext']; exact hzero hmem' hf'
    freeUnbound := by rw [hnext]; exact hunbound hmem hf
    freeUnbound' := by rw [hnext']; exact hunbound hmem' hf' }

end Implements

/-- `c_init_mmu` for a forked process, with the contents of the pages. -/
theorem cInitMmu_copied {root : Word} (h : ForkReady L sys pid s root p p') :
    ∃ t, cInitMmu L sys pid s = .ok t ∧ Forked L s t pid root p p' ∧
      t.pages = copyPage (copyPage s.pages (nextFreePage s) p) (nextFreePage (pageTaken s)) p' := by
  obtain ⟨-, hle⟩ := L.toNat_endAddr_tables
  obtain ⟨t, hcopy, hconf, hroot, ht⟩ := processInitCopyAndWrite_ok h
  obtain ⟨u, hperipheral, hu⟩ := mapPeripheralPages_eq hconf (hroot ▸ ht.tables) hle
  rw [hroot] at hu
  refine ⟨u, ?_, ht.forked hu, ?_⟩
  · rw [cInitMmu_eq, if_neg fun hor ↦ hor.elim h.process.1 h.process.2, hcopy, ok_bind]
    exact hperipheral
  · rw [hu.fixed, ht.contents]

/-- The contents of a page after another has been copied. -/
theorem pageBytes_copyPage {pages : Word → BitVec 8} {k : ℕ} (hf : IsFrame L f) (hg : IsFrame L g)
    (hk : IsFrame L k) : pageBytes (copyPage pages (frameAddress f) (frameAddress g)) k =
      if k = f then pageBytes pages g else pageBytes pages k := by
  have hbound {a : ℕ} (ha : IsFrame L a) : a < 0x3f000 := ha.2
  have hadd {a : ℕ} (ha : IsFrame L a) (j : Fin 0x1000) :
      BitVec.ofNat 64 (0x1000 * a + j) = frameAddress a + BitVec.ofNat 64 j := by
    rw [frameAddress, BitVec.ofNat_add]
  have hoffset (j : Fin 0x1000) : BitVec.ofNat 64 j.val < granule := by
    rw [BitVec.lt_def, BitVec.toNat_ofNat]
    change j.val % 2 ^ 64 < 0x1000
    omega
  funext j
  split_ifs with heq
  · rw [heq, pageBytes, pageBytes, hadd hf, hadd hg, copyPage_self _ _ _ (hoffset j)]
  · have haligned {a : ℕ} (ha : IsFrame L a) : (frameAddress a).toNat % 0x1000 = 0 ∧
        (frameAddress a).toNat < 0x40000000 ∧ (frameAddress a).toNat / 0x1000 = a := by
      have hlt := hbound ha
      rw [toNat_frameAddress ha]
      omega
    rw [pageBytes, pageBytes, hadd hk]
    refine copyPage_of_ne _ _ (haligned hf).1 (haligned hk).1 (haligned hf).2.1 (haligned hk).2.1 ?_
      (hoffset j)
    rw [(haligned hf).2.2, (haligned hk).2.2]
    exact heq

/-! ### The fork of the shared memory -/

/-- The shared memory after the fork: the two pages of the child's stack are the next two free
frames. -/
def forkedPages (m : SharedPages) (parent child : Tenant) (f f' g g' : ℕ) (rest : List ℕ) :
    SharedPages :=
  let m₁ := m.share stackPages parent child
  let m₂ := (m₁.take child 0x3f1ff f (f' :: rest)).store f (m₁.contents g)
  (m₂.take child 0x3f1fe f' rest).store f' (m₂.contents g')

section ForkedPages

variable {parent child p : Tenant}

theorem forkedPages_copies (hm : m.Sound) (hparent : parent ∈ m.procs) (hchild : child ∉ m.procs)
    (hfree : m.free = f :: f' :: rest) (hg : m.map parent 0x3f1ff = some ⟨g, true⟩)
    (hg' : m.map parent 0x3f1fe = some ⟨g', true⟩) :
    SharedMemory.Copies parent child stackPages (m.share stackPages parent child)
      (forkedPages m parent child f f' g g' rest) := by
  have hne : parent ≠ child := fun heq ↦ hchild (heq ▸ hparent)
  have hshare (v : ℕ) (hv : v ∈ stackPages) :
      (m.share stackPages parent child).map child v = none := by
    rw [SharedMemory.share]
    exact (if_neg fun hand ↦ hand.1 hv).trans (hm.absent child hchild v)
  refine .cons (hshare _ (by decide)) ?_ hfree (.cons ?_ ?_ rfl .nil)
  · rw [SharedMemory.frameOf_share hne]
    exact SharedMemory.frameOf_eq_some hg
  · rw [SharedMemory.map_copy, if_neg fun hand ↦ absurd hand.2 (by decide)]
    exact hshare _ (by decide)
  · rw [SharedMemory.frameOf, SharedMemory.map_copy, if_neg fun hand ↦ hne hand.1,
      ← SharedMemory.frameOf, SharedMemory.frameOf_share hne]
    exact SharedMemory.frameOf_eq_some hg'

theorem forkedPages_map : (forkedPages m parent child f f' g g' rest).map p v =
    if p = child ∧ v = 0x3f1fe then some ⟨f', true⟩
    else if p = child ∧ v = 0x3f1ff then some ⟨f, true⟩
      else (m.share stackPages parent child).map p v := by
  rw [forkedPages, SharedMemory.map_copy, SharedMemory.map_copy]

theorem forkedPages_contents (hne : g' ≠ f) : (forkedPages m parent child f f' g g' rest).contents =
    Function.update (Function.update m.contents f (m.contents g)) f' (m.contents g') := by
  have hsecond : Function.update m.contents f (m.contents g) g' = m.contents g' :=
    Function.update_of_ne hne _ _
  rw [← hsecond]
  rfl

end ForkedPages

/-- A state in which `parent` forks the process `pid`, which will be number `n` of its slot, with
the frames of the parent's stack and the next two free frames. -/
structure ForkPoint (L : Layout) (sys : SystemState) (live : Pid → Prop)
    (gen : Pid → ℕ) (s : MmuState) (m : SharedPages) (pid parent : Pid) (n f f' g g' : ℕ)
    (rest : List ℕ) : Prop where
  implements : Implements L live gen s m
  sound : m.Sound
  hasPrivate : m.HasPrivate stackPages
  forks : Forks L sys live pid parent
  free : m.free = f :: f' :: rest
  fresh : (pid, n) ∉ m.procs
  stack : m.map (parent, gen parent) 0x3f1ff = some ⟨g, true⟩
  stack' : m.map (parent, gen parent) 0x3f1fe = some ⟨g', true⟩

namespace ForkPoint

theorem procs (h : ForkPoint L sys live gen s m pid parent n f f' g g' rest) :
    (parent, gen parent) ∈ m.procs :=
  h.implements.procs _ h.forks.parentLive

theorem ready (h : ForkPoint L sys live gen s m pid parent n f f' g g' rest) :
    ForkReady L sys pid s (L.zoneRoot parent) (frameAddress g) (frameAddress g') :=
  h.implements.forkReady h.sound h.forks h.free h.stack h.stack'

theorem copies (h : ForkPoint L sys live gen s m pid parent n f f' g g' rest) :
    SharedMemory.Copies (parent, gen parent) (pid, n) stackPages
      (m.share stackPages (parent, gen parent) (pid, n))
      (forkedPages m (parent, gen parent) (pid, n) f f' g g' rest) :=
  forkedPages_copies h.sound h.procs h.fresh h.free h.stack h.stack'

theorem forked (h : ForkPoint L sys live gen s m pid parent n f f' g g' rest) :
    SharedMemory.Forked stackPages (parent, gen parent) (pid, n) m
      (forkedPages m (parent, gen parent) (pid, n) f f' g g' rest) :=
  SharedMemory.forked h.sound h.hasPrivate h.procs h.fresh h.copies

theorem ne (h : ForkPoint L sys live gen s m pid parent n f f' g g' rest) (hq : live q) : q ≠ pid :=
  fun heq ↦ h.forks.fresh (heq ▸ hq)

/-- The four frames are frames of the memory, and those of the stack are not free. -/
theorem frames (h : ForkPoint L sys live gen s m pid parent n f f' g g' rest) :
    (IsFrame L f ∧ IsFrame L f' ∧ IsFrame L g ∧ IsFrame L g') ∧ (f ∈ m.free ∧ f' ∈ m.free) ∧
      g ≠ f ∧ g ≠ f' ∧ g' ≠ f ∧ g' ≠ f' ∧ f ≠ f' := by
  have hmem : f ∈ m.free := h.free ▸ List.mem_cons_self
  have hmem' : f' ∈ m.free := h.free ▸ List.mem_cons_of_mem f List.mem_cons_self
  have hframe := SharedMemory.frameOf_eq_some h.stack
  have hframe' := SharedMemory.frameOf_eq_some h.stack'
  have hnodup := h.sound.nodup
  rw [h.free, List.nodup_cons] at hnodup
  refine ⟨⟨h.implements.free.frame f hmem, h.implements.free.frame f' hmem',
    h.implements.frame _ _ _ hframe, h.implements.frame _ _ _ hframe'⟩, ⟨hmem, hmem'⟩, ?_, ?_, ?_,
    ?_, fun heq ↦ hnodup.1 (heq ▸ List.mem_cons_self)⟩
  all_goals rintro rfl
  · exact h.sound.unbound _ hmem _ _ hframe
  · exact h.sound.unbound _ hmem' _ _ hframe
  · exact h.sound.unbound _ hmem _ _ hframe'
  · exact h.sound.unbound _ hmem' _ _ hframe'

/-- The next two free pages. -/
theorem next (h : ForkPoint L sys live gen s m pid parent n f f' g g' rest) :
    nextFreePage s = frameAddress f ∧ nextFreePage (pageTaken s) = frameAddress f' ∧
      FreeMap L (pageTaken (pageTaken s)).physicalMemoryMap rest := by
  obtain ⟨-, hnext, hrest⟩ := (h.free ▸ h.implements.free).next
  obtain ⟨-, hnext', hrest'⟩ := hrest.next (s := pageTaken s)
  exact ⟨hnext, hnext', hrest'⟩

/-- The tables of the slots that were in use. -/
theorem map_live (h : ForkPoint L sys live gen s m pid parent n f f' g g' rest)
    (ht : Forked L s t pid (L.zoneRoot parent) (frameAddress g) (frameAddress g'))
    (hq : live q) (v : ℕ) : (forkedPages m (parent, gen parent) (pid, n) f f' g g' rest).map
    (q, gen q) v = userMapping L t.words q v := by
  have hne : (q, gen q) ≠ (pid, n) := fun heq ↦ h.ne hq (congrArg Prod.fst heq)
  have hroot : L.zoneRoot q ≠ L.zoneRoot pid := fun heq ↦ h.ne hq (L.zoneRoot_inj.mp heq)
  rw [h.forked.map_of_ne _ v hne, h.implements.map _ h.forks.parentLive, h.implements.map q hq,
    userMapping, userMapping, userMapping]
  by_cases hv : IsUserPage L v
  · have hlt := hv.2.1
    rw [if_pos hv, if_pos hv, if_pos hv,
      ht.otherLeaf _ _ hroot (h.implements.tables q hq) v hv.1 (by omega)]
    by_cases hsame : q = parent
    · subst hsame
      rw [if_pos (⟨rfl, hv⟩ : L.zoneRoot q = L.zoneRoot q ∧ IsUserPage L v), Option.map_map,
        Option.map_map]
      by_cases hstack : v ∈ stackPages
      · rw [if_neg fun hand ↦ hand.1 hstack]
        refine congrArg (fun k ↦ Option.map k _) (funext fun e ↦ ?_)
        rw [Function.comp_apply, mappingOf_forkedEntry, if_pos hstack]
      · rw [if_pos ⟨hstack, rfl⟩]
        refine congrArg (fun k ↦ Option.map k _) (funext fun e ↦ ?_)
        rw [Function.comp_apply, Function.comp_apply, mappingOf_forkedEntry, if_neg hstack]
    · rw [if_neg fun hand ↦ hsame (congrArg Prod.fst hand.2),
        if_neg fun hand ↦ hsame (L.zoneRoot_inj.mp hand.1)]
  · rw [if_neg hv, if_neg hv, if_neg hv, Option.map_none, ite_self]

/-- The tables of the child. -/
theorem map_child (h : ForkPoint L sys live gen s m pid parent n f f' g g' rest)
    (ht : Forked L s t pid (L.zoneRoot parent) (frameAddress g) (frameAddress g')) (v : ℕ) :
    (forkedPages m (parent, gen parent) (pid, n) f f' g g' rest).map (pid, n) v =
      userMapping L t.words pid v := by
  obtain ⟨⟨hf, hf', -⟩, -⟩ := h.frames
  obtain ⟨hnext, hnext', -⟩ := h.next
  obtain ⟨huser, huser'⟩ := isUserPage_stack L
  have hentry {k : ℕ} (hk : IsFrame L k) :
      mappingOf (withAttributes (frameAddress k) userAttributes) = ⟨k, true⟩ :=
    mappingOf_withAttributes hk (.inl rfl)
  by_cases hv : v = 0x3f1fe
  · rw [hv, forkedPages_map, if_pos ⟨rfl, rfl⟩, userMapping_of_user huser', ht.stack', hnext',
      Option.map_some, hentry hf']
  by_cases hv' : v = 0x3f1ff
  · rw [hv', forkedPages_map, if_neg fun hand ↦ absurd hand.2 (by decide), if_pos ⟨rfl, rfl⟩,
      userMapping_of_user huser, ht.stack, hnext, Option.map_some, hentry hf]
  have hstack : v ∉ stackPages := fun hmem ↦ (mem_stackPages.mp hmem).elim hv' hv
  rw [h.forked.map_child v hstack, h.implements.map _ h.forks.parentLive, userMapping, userMapping]
  by_cases huserPage : IsUserPage L v
  · rw [if_pos huserPage, if_pos huserPage, ht.leaf_eq v huserPage fun hor ↦
      hstack (mem_stackPages.mpr hor), Option.map_map, Option.map_map]
    refine congrArg (fun k ↦ Option.map k _) (funext fun e ↦ ?_)
    rw [Function.comp_apply, Function.comp_apply, mappingOf_forkedEntry, if_neg hstack]
  · rw [if_neg huserPage, if_neg huserPage, Option.map_none]

/-- The frames of the child other than those of its stack are frames of the parent. -/
theorem frameOf_child (h : ForkPoint L sys live gen s m pid parent n f f' g g' rest) {k : ℕ}
    (hk : (forkedPages m (parent, gen parent) (pid, n) f f' g g' rest).frameOf
    (pid, n) v = some k) : k = f ∨ k = f' ∨ v ∉ stackPages ∧ m.frameOf
    (parent, gen parent) v = some k := by
  rw [SharedMemory.frameOf] at hk
  by_cases hstack : v ∈ stackPages
  · rcases mem_stackPages.mp hstack with rfl | rfl
    · rw [forkedPages_map, if_neg fun hand ↦ absurd hand.2 (by decide), if_pos ⟨rfl, rfl⟩] at hk
      exact .inl (Option.some.inj hk).symm
    · rw [forkedPages_map, if_pos ⟨rfl, rfl⟩] at hk
      exact .inr (.inl (Option.some.inj hk).symm)
  · rw [h.forked.map_child v hstack, Option.map_map] at hk
    exact .inr (.inr ⟨hstack, hk⟩)

/-- The child has its two stack frames. -/
theorem frameOf_stack :
    (forkedPages m (parent, gen parent) (pid, n) f f' g g' rest).frameOf (pid, n) 0x3f1ff = some f ∧
      (forkedPages m (parent, gen parent) (pid, n) f f' g g' rest).frameOf (pid, n) 0x3f1fe =
        some f' := by
  constructor
  · rw [SharedMemory.frameOf, forkedPages_map, if_neg fun hand ↦ absurd hand.2 (by decide),
      if_pos ⟨rfl, rfl⟩]
    rfl
  · rw [SharedMemory.frameOf, forkedPages_map, if_pos ⟨rfl, rfl⟩]
    rfl

/-- The child has the two frames of its stack, and the frames of the other pages of its parent. -/
theorem child_holds_iff (h : ForkPoint L sys live gen s m pid parent n f f' g g' rest) {k : ℕ} :
    (∃ v, (forkedPages m (parent, gen parent) (pid, n) f f' g g' rest).frameOf (pid, n) v =
      some k) ↔
      (k = f ∨ k = f') ∨ ∃ v ∉ stackPages, m.frameOf (parent, gen parent) v = some k := by
  constructor
  · rintro ⟨v, hv⟩
    rcases h.frameOf_child hv with hk | hk | ⟨hstack, hframe⟩
    · exact .inl (.inl hk)
    · exact .inl (.inr hk)
    · exact .inr ⟨v, hstack, hframe⟩
  · rintro ((rfl | rfl) | ⟨v, hstack, hframe⟩)
    · exact ⟨_, frameOf_stack.1⟩
    · exact ⟨_, frameOf_stack.2⟩
    · refine ⟨v, ?_⟩
      rw [SharedMemory.frameOf, h.forked.map_child v hstack, Option.map_map]
      exact hframe

open scoped Classical in
/-- The processes that have a frame after the fork. -/
theorem card_holders (h : ForkPoint L sys live gen s m pid parent n f f' g g' rest) (k : ℕ) :
    ((forkedPages m (parent, gen parent) (pid, n) f f' g g' rest).holders k).card =
      (m.holders k).card +
        if (k = f ∨ k = f') ∨ ∃ v ∉ stackPages, m.frameOf (parent, gen parent) v = some k then 1
        else 0 := by
  rw [h.forked.holders_eq h.fresh]
  by_cases hheld : ∃ v, (forkedPages m (parent, gen parent) (pid, n) f f' g g' rest).frameOf
      (pid, n) v = some k
  · rw [if_pos hheld, if_pos (h.child_holds_iff.mp hheld)]
    exact Finset.card_insert_of_notMem fun hmem ↦ h.fresh (SharedMemory.mem_holders.mp hmem).1
  · rw [if_neg hheld, if_neg (mt h.child_holds_iff.mpr hheld)]
    rfl

/-- A page outside the stack has another frame than the stack. -/
theorem frame_ne_stack (h : ForkPoint L sys live gen s m pid parent n f f' g g' rest) {k : ℕ}
    (hstack : v ∉ stackPages) (hframe : m.frameOf (parent, gen parent) v = some k) :
    k ≠ g ∧ k ≠ g' := by
  have honce {u : ℕ} (hu : m.frameOf (parent, gen parent) u = some k) : v = u :=
    h.sound.once _ v u k hframe hu
  refine ⟨?_, ?_⟩
  · rintro rfl
    exact hstack (honce (SharedMemory.frameOf_eq_some h.stack) ▸ by decide)
  · rintro rfl
    exact hstack (honce (SharedMemory.frameOf_eq_some h.stack') ▸ by decide)

open scoped Classical in
/-- The double loop counts a frame outside the stack once if the parent has it. -/
theorem card_copied (h : ForkPoint L sys live gen s m pid parent n f f' g g' rest) {k : ℕ}
    (hk : ¬ (k = g ∨ k = g')) :
    (copiedTo s.words (L.zoneRoot parent) L.kernelTables k (512 * 505)).card =
      if ∃ v ∉ stackPages, m.frameOf (parent, gen parent) v = some k then 1 else 0 := by
  split_ifs with hheld
  · obtain ⟨v, -, hframe⟩ := hheld
    obtain ⟨y, hy, -⟩ := Option.map_eq_some_iff.mp hframe
    have huser : IsUserPage L v := (h.implements.exists_leaf h.forks.parentLive hy).1
    refine card_copiedTo_of_once huser ?_ fun u hu hmapped ↦ ?_
    · rw [h.implements.frameOf_user h.forks.parentLive huser, hframe]
    · rw [h.implements.frameOf_user h.forks.parentLive hu] at hmapped
      exact h.sound.once _ u v k hmapped hframe
  · refine card_copiedTo_of_unbound fun v hv hframe ↦ hheld ⟨v, fun hstack ↦ hk ?_, ?_⟩
    · rw [h.implements.frameOf_user h.forks.parentLive hv] at hframe
      rcases mem_stackPages.mp hstack with rfl | rfl
      · exact .inl (Option.some.inj (hframe.symm.trans (SharedMemory.frameOf_eq_some h.stack)))
      · exact .inr (Option.some.inj (hframe.symm.trans (SharedMemory.frameOf_eq_some h.stack')))
    · rw [← h.implements.frameOf_user h.forks.parentLive hv, hframe]

/-- The counters count the child. -/
theorem counter (h : ForkPoint L sys live gen s m pid parent n f f' g g' rest)
    (ht : Forked L s t pid (L.zoneRoot parent) (frameAddress g) (frameAddress g')) {k : ℕ}
    (hk : IsFrame L k) : getBindCounter t (frameAddress k) =
      BitVec.ofNat 8
        ((forkedPages m (parent, gen parent) (pid, n) f f' g g' rest).holders k).card := by
  classical
  obtain ⟨⟨hf, hf', hg, hg'⟩, ⟨hmem, hmem'⟩, -⟩ := h.frames
  obtain ⟨hnext, hnext', -⟩ := h.next
  have hdiv {k : ℕ} (hk : IsFrame L k) : (frameAddress k).toNat / 0x1000 = k := by
    rw [toNat_frameAddress hk, Nat.mul_div_cancel_left k (by decide)]
  rw [ht.counter, hnext, hnext', hdiv hk, hdiv hf, hdiv hf', hdiv hg, hdiv hg', if_neg hk.notMem,
    h.card_holders]
  by_cases hnew : k = f ∨ k = f'
  · -- the child is the only one
    have hfree : k ∈ m.free := by
      rcases hnew with rfl | rfl
      · exact hmem
      · exact hmem'
    rw [if_pos (.inr (.inr hnew)), if_pos (.inl hnew), h.sound.holders_of_free hfree]
    rfl
  by_cases hold : k = g ∨ k = g'
  · -- the parent stays the only one
    have hnone : ¬ ∃ v ∉ stackPages, m.frameOf (parent, gen parent) v = some k := by
      rintro ⟨v, hstack, hframe⟩
      obtain ⟨hne, hne'⟩ := h.frame_ne_stack hstack hframe
      exact hold.elim hne hne'
    have hholders : m.holders k = {(parent, gen parent)} := by
      rcases hold with rfl | rfl
      · exact h.sound.holders_eq h.stack
      · exact h.sound.holders_eq h.stack'
    rw [if_pos (hold.imp_right .inl), if_neg (not_or.mpr ⟨hnew, hnone⟩), hholders]
    rfl
  · -- the child counts if the page is shared
    rw [if_neg (by tauto), h.implements.counter k hk, h.card_copied hold,
      if_congr (or_iff_right hnew) rfl rfl, BitVec.ofNat_add]
    exact BitVec.add_zero _

/-- The frames other than the two new ones keep their contents, and these get the contents of the
parent's stack. -/
theorem contents (h : ForkPoint L sys live gen s m pid parent n f f' g g' rest)
    (hpages : t.pages = copyPage (copyPage s.pages (nextFreePage s) (frameAddress g))
      (nextFreePage (pageTaken s))
      (frameAddress g')) {k : ℕ} (hk : IsFrame L k) :
    (forkedPages m (parent, gen parent) (pid, n) f f' g g' rest).contents k =
      pageBytes t.pages k := by
  obtain ⟨⟨hf, hf', hg, hg'⟩, -, -, -, hg'f, -⟩ := h.frames
  obtain ⟨hnext, hnext', -⟩ := h.next
  rw [forkedPages_contents hg'f, hpages, hnext, hnext', pageBytes_copyPage hf' hg' hk,
    pageBytes_copyPage hf hg hg', pageBytes_copyPage hf hg hk, if_neg hg'f, Function.update_apply,
    Function.update_apply, h.implements.contents g hg,
    h.implements.contents g' hg', h.implements.contents k hk]

end ForkPoint

namespace Implements

/-- A fork that makes a process is a fork of the shared memory. -/
theorem fork (h : Implements L live gen s m) (hsound : m.Sound) (hprivate : m.HasPrivate stackPages)
    (hforks : Forks L sys live pid parent) (hfree : m.free = f :: f' :: rest)
    (hn : (pid, n) ∉ m.procs) : ∃ t m', cInitMmu L sys pid s = .ok t ∧
      SharedMemory.Step stackPages m (.fork (parent, gen parent) (pid, n)) m' ∧
      (m'.procs = insert (pid, n) m.procs ∧ m'.free = rest) ∧
      Implements L (fun q ↦ live q ∨ q = pid) (Function.update gen pid n) t m' := by
  obtain ⟨g, hg⟩ := hprivate _ (h.procs _ hforks.parentLive) 0x3f1ff (by decide)
  obtain ⟨g', hg'⟩ := hprivate _ (h.procs _ hforks.parentLive) 0x3f1fe (by decide)
  have hpoint : ForkPoint L sys live gen s m pid parent n f f' g g' rest :=
    ⟨h, hsound, hprivate, hforks, hfree, hn, hg, hg'⟩
  obtain ⟨t, hinit, ht, hpages⟩ := cInitMmu_copied hpoint.ready
  obtain ⟨-, -, hrest⟩ := hpoint.next
  obtain ⟨⟨hf, hf', -⟩, -⟩ := hpoint.frames
  have hchild : L.mmuTablesStart ≠ L.zoneRoot pid := hpoint.ready.childApart.symm
  have hnone (v : ℕ) (hv : v < 511 * 512) (hleaf : leaf s.words L.mmuTablesStart v = none) :
      leaf t.words L.mmuTablesStart v = none := by
    rw [ht.otherLeaf _ 0 hchild h.kernelTables v (Nat.zero_le _) hv, hleaf,
      Option.map_none, ite_self]
  have hgen (q : Pid) (hq : q ≠ pid) : Function.update gen pid n q = gen q :=
    Function.update_of_ne hq _ _
  refine ⟨t, _, hinit, .fork hpoint.procs hn hpoint.copies, ⟨hpoint.forked.procs, rfl⟩, ?_⟩
  constructor
  case configured =>
    rw [ht.fixed]
    exact ⟨rfl, h.configured.bindCounter,
      h.configured.bindCounterOffset.trans (by rw [h.configured.idPagingSize]; rfl)⟩
  case hardwareRoot =>
    rw [ht.fixed]
    exact h.hardwareRoot
  case kernelTables => exact ht.otherTables _ _ hchild h.kernelTables
  case reserved => exact hnone _ (by decide) h.reserved
  case reserved' => exact hnone _ (by decide) h.reserved'
  case tables =>
    rintro q (hq | rfl)
    · exact ht.otherTables _ _ (fun heq ↦ hpoint.ne hq (L.zoneRoot_inj.mp heq)) (h.tables q hq)
    · exact ht.tables
  case procs =>
    rintro q (hq | rfl)
    · rw [hgen q (hpoint.ne hq), hpoint.forked.procs]
      exact Finset.mem_insert_of_mem (h.procs q hq)
    · rw [Function.update_self, hpoint.forked.procs]
      exact Finset.mem_insert_self _ _
  case map =>
    rintro q (hq | rfl) v
    · rw [hgen q (hpoint.ne hq)]
      exact hpoint.map_live ht hq v
    · rw [Function.update_self]
      exact hpoint.map_child ht v
  case frame =>
    intro p v k hk
    by_cases hp : p = (pid, n)
    · subst hp
      rcases hpoint.frameOf_child hk with rfl | rfl | ⟨-, hframe⟩
      · exact hf
      · exact hf'
      · exact h.frame _ _ _ hframe
    · rw [hpoint.forked.frameOf_of_ne p v hp] at hk
      exact h.frame p v k hk
  case counter => exact fun k hk ↦ hpoint.counter ht hk
  case contents => exact fun k hk ↦ hpoint.contents hpages hk
  case free =>
    rw [ht.fixed]
    exact hrest

end Implements

end SysresOs.Mmu
