import SysresOs.Memory.PagePool
import SysresOs.Lib.Trace

/-!
# Conservation of the physical pages

The pages are handed out by `get_new_page` and come back by `free_virtual_page`, in any order.
`pages_conserved` says that at any time the free part of the map and the pages handed out are
together the initial pool, each page once, and that no assertion stops the calls. The invariant is
`PoolInvariant`: a page is bound by a leaf exactly as long as it is handed out, and its counter is
then 1.
-/

set_option autoImplicit false
set_option relaxedAutoImplicit false

namespace SysresOs.Mmu

open SysresOs.Outcome SysresOs.Trace

/-! ### Runs -/

/-- The memory, and the addresses of the calls of `get_new_page` whose pages are not given back. -/
structure PoolState where
  mmu : MmuState
  held : List Word

/-- The calls on the pool. -/
inductive PoolAction
  /-- `get_new_page`. -/
  | take (va perm cache : Word)
  /-- `free_virtual_page`. -/
  | release (va : Word)

/-- One call. -/
def poolStep (p : PoolState) : PoolAction → Except Stop PoolState
  | .take va perm cache => do
    let (s, _) ← getNewPage p.mmu va perm cache
    .ok ⟨s, va :: p.held⟩
  | .release va => do
    let (s, _) ← freeVirtualPage p.mmu va
    .ok ⟨s, p.held.eraseP fun x ↦ page x = page va⟩

/-- The calls considered: a page is taken for an address that is not mapped, as long as the pool of
`n` pages is not used up, and an address is released that is mapped to a page with bind counter
1. -/
def Allowed (n : ℕ) (p : PoolState) : PoolAction → Prop
  | .take va _ _ => va.toNat < 0x3fe00000 ∧
      translate p.mmu.words p.mmu.lvl2TableAddress va = none ∧ p.held.length < n
  | .release va => ∃ pa, translate p.mmu.words p.mmu.lvl2TableAddress va = some pa ∧
      p.mmu.idPagingSize ≤ pa ∧ getBindCounter p.mmu pa = 1

/-- A sequence of calls on the pool of `n` pages. -/
abbrev PoolRun (n : ℕ) (s₀ : MmuState) : List (Transition PoolState PoolAction) →
    PoolState → Prop :=
  Run (fun p ↦ p = ⟨s₀, []⟩) fun p a p' ↦ Allowed n p a ∧ poolStep p a = .ok p'

/-- The memory after `init_physical_memory_map`, when the tables map no page from `id_paging_size`
on, and the last level-2 entry is invalid. -/
def Fresh (L : Layout) (s₀ : MmuState) : Prop :=
  ∃ s, s₀ = initPhysicalMemoryMap L s ∧ s.idPagingSize = L.endAddr ∧
    Directory s.words s.lvl2TableAddress ∧ present s.words s.lvl2TableAddress 511 = false ∧
    ∀ v < 511 * 512, ∀ e, leaf s.words s.lvl2TableAddress v = some e →
    entryAddress e < s.idPagingSize

/-- The free part of a map of `n` pages. -/
def freePages (m : PhysicalMemoryMap) (n : ℕ) : List Word :=
  (List.range (n - m.head.toNat)).map fun i ↦ (m.map (m.head.toNat + i)).setWidth 64

/-- The physical page that the tables give the page of an address. -/
def physicalPage (s : MmuState) (va : Word) : Option Word :=
  (leaf s.words s.lvl2TableAddress (page va)).map entryAddress

/-- The pages in the free part of the map and those handed out. -/
def allPages (p : PoolState) (n : ℕ) : List (Option Word) :=
  (freePages p.mmu.physicalMemoryMap n).map some ++ p.held.map (physicalPage p.mmu)

/-! ### The free part of the map -/

section FreePages

variable {m : PhysicalMemoryMap} {n : ℕ}

theorem freePages_pop (h : m.head.toNat < n) (hn : n ≤ 0x40000) :
    freePages m n = (m.map m.head.toNat).setWidth 64 :: freePages { m with
      head := m.head + 1 } n := by
  have hhead : (m.head + 1).toNat = m.head.toNat + 1 := by
    have hone : (1 : BitVec 32).toNat = 1 := rfl
    rw [BitVec.toNat_add, hone]
    omega
  obtain ⟨k, hk⟩ : ∃ k, n - m.head.toNat = k + 1 := ⟨n - m.head.toNat - 1, by omega⟩
  have hk' : n - (m.head.toNat + 1) = k := by omega
  simp only [freePages, hhead, hk, hk', List.range_succ_eq_map, List.map_cons, List.map_map]
  refine congrArg _ (List.map_congr_left fun i _ ↦ ?_)
  simp only [Function.comp_apply]
  rw [show m.head.toNat + (i + 1) = m.head.toNat + 1 + i by omega]

theorem freePages_push (pa : Word) (h : 0 < m.head) (hn : m.head.toNat ≤ n)
    (hpa : pa.toNat < 2 ^ 32) : freePages { m with
      head := m.head - 1
      map := Function.update m.map (m.head - 1).toNat (pa.setWidth 32) } n =
          pa :: freePages m n := by
  have hpos : 0 < m.head.toNat := h
  have hhead : (m.head - 1).toNat = m.head.toNat - 1 := by
    have hone : (1 : BitVec 32).toNat = 1 := rfl
    rw [BitVec.toNat_sub, hone]
    omega
  have hvalue : (pa.setWidth 32).setWidth 64 = pa := by
    apply BitVec.eq_of_toNat_eq
    rw [BitVec.toNat_setWidth, BitVec.toNat_setWidth]
    omega
  have hlength : n - (m.head.toNat - 1) = n - m.head.toNat + 1 := by omega
  simp only [freePages, hhead, hlength, List.range_succ_eq_map, List.map_cons, List.map_map]
  refine congrArg₂ _ ?_ (List.map_congr_left fun i _ ↦ ?_)
  · rw [add_zero, Function.update_self, hvalue]
  · simp only [Function.comp_apply]
    rw [Function.update_of_ne (by omega),
      show m.head.toNat - 1 + (i + 1) = m.head.toNat + i by omega]

end FreePages

/-! ### The invariant -/

/-- A list of distinct physical pages from `__end` on. -/
structure IsPool (L : Layout) (pool : List Word) : Prop where
  nodup : pool.Nodup
  aligned : ∀ q ∈ pool, q.toNat % 0x1000 = 0
  low : ∀ q ∈ pool, L.endAddr ≤ q
  high : ∀ q ∈ pool, q.toNat < 0x40000000

/-- The invariant of the calls on a pool: every address in `held` is mapped, no other page from
`__end` on is, and the counter of a page is 1 while it is handed out. -/
structure PoolInvariant (L : Layout) (pool : List Word) (p : PoolState) : Prop where
  configured : Configured L p.mmu
  directory : Directory p.mmu.words p.mmu.lvl2TableAddress
  last : present p.mmu.words p.mmu.lvl2TableAddress 511 = false
  size : p.mmu.physicalMemoryMap.size = 0x100000
  head : p.mmu.physicalMemoryMap.head.toNat = p.held.length
  room : p.held.length ≤ pool.length
  below : pool.length ≤ 0x40000
  distinct : (p.held.map page).Nodup
  reach : ∀ va ∈ p.held, page va < 511 * 512
  mapped : ∀ va ∈ p.held, leaf p.mmu.words p.mmu.lvl2TableAddress (page va) ≠ none
  owned : ∀ v < 511 * 512, ∀ e, leaf p.mmu.words p.mmu.lvl2TableAddress v = some e →
    L.endAddr ≤ entryAddress e → ∃ va ∈ p.held, page va = v
  conserved : (allPages p pool.length).Perm (pool.map some)
  counted : ∀ q ∈ pool, getBindCounter p.mmu q =
    if some q ∈ p.held.map (physicalPage p.mmu) then 1 else 0

variable {L : Layout} {pool : List Word} {p : PoolState} {va pa e perm cache : Word}

theorem IsPool.nodup_some (h : IsPool L pool) : (pool.map some).Nodup :=
  h.nodup.map (Option.some_injective _)

/-- Two pages of the pool have one number only if they are the same. -/
theorem IsPool.eq_of_div (h : IsPool L pool) {q r : Word} (hq : q ∈ pool) (hr : r ∈ pool) :
    q.toNat / 0x1000 = r.toNat / 0x1000 ↔ q = r := by
  have hq' := h.aligned q hq
  have hr' := h.aligned r hr
  rw [← BitVec.toNat_inj]
  omega

/-- A page that the tables give a handed-out address is one of the pool. -/
theorem PoolInvariant.mem_pool (h : PoolInvariant L pool p)
    (hmem : some pa ∈ allPages p pool.length) : pa ∈ pool := by
  obtain ⟨q, hq, heq⟩ := List.mem_map.mp ((h.conserved.mem_iff).mp hmem)
  rwa [← Option.some.inj heq]

/-! ### A page is taken -/

/-- The entry of the next free page when it is taken. -/
def handOutEntry (s : MmuState) (perm cache : Word) : Word :=
  withAttributes (nextFreePage s) (newBlockAttributesSg1 perm cache)

/-- The state in which the next free page has been taken for an address. -/
def handOut (p : PoolState) (va perm cache : Word) : PoolState :=
  ⟨bound (pageTaken p.mmu) (page va) (nextFreePage p.mmu) (handOutEntry p.mmu perm cache),
    va :: p.held⟩

namespace PoolInvariant

variable {v : ℕ}

theorem allPages_eq (h : PoolInvariant L pool p) (hroom : p.held.length < pool.length) :
    allPages p pool.length = some (nextFreePage p.mmu) ::
      ((freePages (pageTaken p.mmu).physicalMemoryMap pool.length).map some ++ p.held.map
      (physicalPage p.mmu)) := by
  have hhead := h.head
  rw [allPages, freePages_pop (m := p.mmu.physicalMemoryMap) (n := pool.length) (by omega) h.below]
  rfl

/-- The next free page is one of the pool. -/
theorem next_mem (h : PoolInvariant L pool p) (hroom : p.held.length < pool.length) :
    nextFreePage p.mmu ∈ pool :=
  h.mem_pool (by rw [h.allPages_eq hroom]; exact List.mem_cons_self)

/-- It is not handed out. -/
theorem next_free (h : PoolInvariant L pool p) (hpool : IsPool L pool)
    (hroom : p.held.length < pool.length) :
    some (nextFreePage p.mmu) ∉ p.held.map (physicalPage p.mmu) := by
  have hnodup := (h.conserved.nodup_iff).mpr hpool.nodup_some
  rw [h.allPages_eq hroom, List.nodup_cons] at hnodup
  exact fun hin ↦ hnodup.1 (List.mem_append_right _ hin)

theorem poolStep_take (h : PoolInvariant L pool p) (hpool : IsPool L pool)
    (hroom : p.held.length < pool.length) (hva : va.toNat < 0x3fe00000) :
    poolStep p (.take va perm cache) = .ok (handOut p va perm cache) := by
  have hmem := h.next_mem hroom
  have hhead := h.head
  have hbelow := h.below
  have hlt : p.mmu.physicalMemoryMap.head < p.mmu.physicalMemoryMap.size := by
    rw [BitVec.lt_def, h.size]
    exact (by omega : p.mmu.physicalMemoryMap.head.toNat < 0x100000)
  rw [poolStep, getNewPage_eq perm cache h.configured h.directory hlt hva (hpool.aligned _ hmem)
    (hpool.high _ hmem)]
  rfl

/-- The leaves when the page `page va` has been bound. -/
theorem leaf_handOut (h : PoolInvariant L pool p) (hpage : page va < 511 * 512)
    (hv : v < 511 * 512) : leaf (handOut p va perm cache).mmu.words p.mmu.lvl2TableAddress v =
      if v = page va then some (handOutEntry p.mmu perm cache)
        else leaf p.mmu.words p.mmu.lvl2TableAddress v :=
  h.directory.leaf_bindWords hpage hv (isBlockEntry_withAttributes _ _)

/-- An address with a page is not on the page of one that is not mapped. -/
theorem page_ne (h : PoolInvariant L pool p)
    (hnone : leaf p.mmu.words p.mmu.lvl2TableAddress (page va) = none)
    {x : Word} (hx : x ∈ p.held) : page x ≠ page va := by
  intro heq
  exact h.mapped x hx (by rw [heq, hnone])

theorem physicalPages_handOut (h : PoolInvariant L pool p) (hpool : IsPool L pool)
    (hroom : p.held.length < pool.length) (hpage : page va < 511 * 512)
    (hnone : leaf p.mmu.words p.mmu.lvl2TableAddress (page va) = none) :
    (handOut p va perm cache).held.map (physicalPage (handOut p va perm cache).mmu) =
      some (nextFreePage p.mmu) :: p.held.map (physicalPage p.mmu) := by
  have hmem := h.next_mem hroom
  have hhigh := hpool.high _ hmem
  have hroot : (handOut p va perm cache).mmu.lvl2TableAddress = p.mmu.lvl2TableAddress := rfl
  have hheld (x : Word) (hx : x ∈ p.held) :
      physicalPage (handOut p va perm cache).mmu x = physicalPage p.mmu x := by
    rw [physicalPage, hroot, h.leaf_handOut hpage (h.reach x hx), if_neg (h.page_ne hnone hx),
      physicalPage]
  have hnew : physicalPage (handOut p va perm cache).mmu va = some (nextFreePage p.mmu) := by
    rw [physicalPage, hroot, h.leaf_handOut hpage hpage, if_pos rfl, Option.map_some, handOutEntry,
      entryAddress_withAttributes, entryAddress_of_page (hpool.aligned _ hmem) (by omega)]
  exact congrArg₂ List.cons hnew (List.map_congr_left hheld)

/-- The counters when the next free page has been bound. -/
theorem counted_handOut (h : PoolInvariant L pool p) (hpool : IsPool L pool)
    (hroom : p.held.length < pool.length) {q : Word} (hq : q ∈ pool) :
    getBindCounter (handOut p va perm cache).mmu q =
      if some q ∈ some (nextFreePage p.mmu) :: p.held.map (physicalPage p.mmu) then 1 else 0 := by
  have hmem := h.next_mem hroom
  have hlow : p.mmu.idPagingSize ≤ nextFreePage p.mmu := by
    rw [h.configured.idPagingSize]
    exact hpool.low _ hmem
  have hcount := h.counted q hq
  rw [Mmu.handOut, getBindCounter_bound]
  by_cases hq' : q = nextFreePage p.mmu
  · rw [if_pos ⟨hlow, by rw [hq']⟩, if_pos (by rw [hq']; exact List.mem_cons_self)]
    rw [if_neg (by rw [hq']; exact h.next_free hpool hroom)] at hcount
    exact congrArg (· + 1) hcount
  · have hne : ¬ ((pageTaken p.mmu).idPagingSize ≤ nextFreePage p.mmu ∧
        q.toNat / 0x1000 = (nextFreePage p.mmu).toNat / 0x1000) :=
      fun hand ↦ hq' ((hpool.eq_of_div hq hmem).mp hand.2)
    rw [if_neg hne]
    refine hcount.trans (if_congr ?_ rfl rfl)
    rw [List.mem_cons, Option.some_inj, or_iff_right hq']

/-- The invariant holds when the next free page has been bound at a page that was not mapped. -/
theorem handOut (h : PoolInvariant L pool p) (hpool : IsPool L pool)
    (hroom : p.held.length < pool.length) (hpage : page va < 511 * 512)
    (hnone : leaf p.mmu.words p.mmu.lvl2TableAddress (page va) = none) :
    PoolInvariant L pool (Mmu.handOut p va perm cache) := by
  have hmap : (Mmu.handOut p va perm cache).held.map
      (physicalPage (Mmu.handOut p va perm cache).mmu) =
        some (nextFreePage p.mmu) :: p.held.map (physicalPage p.mmu) :=
    h.physicalPages_handOut hpool hroom hpage hnone
  constructor
  case configured =>
    exact ⟨h.configured.idPagingSize, h.configured.bindCounter, h.configured.bindCounterOffset⟩
  case directory => exact h.directory.bindWords_directory hpage
  case last =>
    refine (h.directory.present_bindWords hpage (by omega)).trans ?_
    rw [if_neg (by omega), h.last]
  case size => exact h.size
  case head =>
    have hone : (1 : BitVec 32).toNat = 1 := rfl
    have hhead := h.head
    have hbelow := h.below
    change (p.mmu.physicalMemoryMap.head + 1).toNat = p.held.length + 1
    rw [BitVec.toNat_add, hone]
    omega
  case room => exact hroom
  case below => exact h.below
  case distinct =>
    refine List.nodup_cons.mpr ⟨fun hin ↦ ?_, h.distinct⟩
    obtain ⟨x, hx, heq⟩ := List.mem_map.mp hin
    exact h.page_ne hnone hx heq
  case reach =>
    intro x hx
    rcases List.mem_cons.mp hx with rfl | hx
    · exact hpage
    · exact h.reach x hx
  case mapped =>
    intro x hx
    rcases List.mem_cons.mp hx with rfl | hx
    · exact ne_of_eq_of_ne ((h.leaf_handOut hpage hpage).trans (if_pos rfl)) (Option.some_ne_none _)
    · have hkept : leaf (Mmu.handOut p va perm cache).mmu.words p.mmu.lvl2TableAddress (page x) =
          leaf p.mmu.words p.mmu.lvl2TableAddress (page x) :=
        (h.leaf_handOut hpage (h.reach x hx)).trans (if_neg (h.page_ne hnone hx))
      exact ne_of_eq_of_ne hkept (h.mapped x hx)
  case owned =>
    intro v hv e he hlow
    have he' := (h.leaf_handOut hpage hv).symm.trans he
    split_ifs at he' with hv'
    · exact ⟨va, List.mem_cons_self, hv'.symm⟩
    · obtain ⟨x, hx, heq⟩ := h.owned v hv e he' hlow
      exact ⟨x, List.mem_cons_of_mem va hx, heq⟩
  case conserved =>
    rw [allPages, hmap]
    refine List.perm_middle.trans ?_
    exact (h.allPages_eq hroom) ▸ h.conserved
  case counted =>
    intro q hq
    rw [hmap, h.counted_handOut hpool hroom hq]

theorem take (h : PoolInvariant L pool p) (hpool : IsPool L pool)
    (hallowed : Allowed pool.length p (.take va perm cache)) :
    ∃ p', poolStep p (.take va perm cache) = .ok p' ∧ PoolInvariant L pool p' := by
  obtain ⟨hva, hunmapped, hroom⟩ := hallowed
  have hnone : leaf p.mmu.words p.mmu.lvl2TableAddress (page va) = none := by
    rw [translate, if_pos (by omega)] at hunmapped
    exact Option.map_eq_none_iff.mp hunmapped
  exact ⟨_, h.poolStep_take hpool hroom hva, h.handOut hpool hroom (by unfold page; omega) hnone⟩

end PoolInvariant

/-! ### A page is released -/

/-- The address `y` is handed out, on the page `v`, which is mapped with the entry `e`. The others
are those in `before` and `after`. -/
structure Holds (p : PoolState) (v : ℕ) (e y : Word) (before after : List Word) : Prop where
  held : p.held = before ++ y :: after
  page_eq : page y = v
  mapped : leaf p.mmu.words p.mmu.lvl2TableAddress v = some e

namespace Holds

variable {v u : ℕ} {y : Word} {before after : List Word}

theorem physicalPages (hy : Holds p v e y before after) : p.held.map (physicalPage p.mmu) =
    before.map (physicalPage p.mmu) ++ some (entryAddress e) :: after.map (physicalPage p.mmu) := by
  have hphys : physicalPage p.mmu y = some (entryAddress e) := by
    rw [physicalPage, hy.page_eq, hy.mapped, Option.map_some]
  rw [hy.held, List.map_append, List.map_cons, hphys]

theorem subset (hy : Holds p v e y before after) {z : Word} (hz : z ∈ before ++ after) :
    z ∈ p.held := by
  rw [hy.held]
  rcases List.mem_append.mp hz with hz | hz
  · exact List.mem_append_left _ hz
  · exact List.mem_append_right _ (List.mem_cons_of_mem _ hz)

theorem length_eq (hy : Holds p v e y before after) :
    p.held.length = (before ++ after).length + 1 := by
  rw [hy.held, List.length_append, List.length_cons, List.length_append]
  omega

/-- The other addresses are on other pages. -/
theorem distinct (hy : Holds p v e y before after) (h : PoolInvariant L pool p) :
    v ∉ (before ++ after).map page ∧ ((before ++ after).map page).Nodup := by
  have hnodup := h.distinct
  rw [hy.held, List.map_append, List.map_cons, List.perm_middle.nodup_iff,
    List.nodup_cons, hy.page_eq, ← List.map_append] at hnodup
  exact hnodup

theorem page_ne (hy : Holds p v e y before after) (h : PoolInvariant L pool p) {z : Word}
    (hz : z ∈ before ++ after) : page z ≠ v := fun heq ↦
  (hy.distinct h).1 (heq ▸ List.mem_map_of_mem hz)

theorem page_lt (hy : Holds p v e y before after) (h : PoolInvariant L pool p) : v < 511 * 512 := by
  rw [← hy.page_eq]
  exact h.reach y (by rw [hy.held]; exact List.mem_append_right _ List.mem_cons_self)

theorem mem_pool (hy : Holds p v e y before after) (h : PoolInvariant L pool p) :
    entryAddress e ∈ pool := by
  refine h.mem_pool ?_
  rw [allPages, hy.physicalPages]
  exact List.mem_append_right _ (List.mem_append_right _ List.mem_cons_self)

/-- The page is handed out once. -/
theorem once (hy : Holds p v e y before after) (h : PoolInvariant L pool p)
    (hpool : IsPool L pool) :
    some (entryAddress e) ∉ before.map (physicalPage p.mmu) ++ after.map (physicalPage p.mmu) := by
  have hnodup := (h.conserved.nodup_iff).mpr hpool.nodup_some
  rw [allPages, hy.physicalPages] at hnodup
  have hperm := (List.nodup_append.mp hnodup).2.1
  rw [List.perm_middle.nodup_iff, List.nodup_cons] at hperm
  exact hperm.1

theorem head_pos (hy : Holds p v e y before after) (h : PoolInvariant L pool p) :
    0 < p.mmu.physicalMemoryMap.head := by
  rw [BitVec.lt_def, h.head, hy.length_eq]
  exact Nat.succ_pos _

theorem leaf_freed (hy : Holds p v e y before after) (h : PoolInvariant L pool p)
    (hu : u < 511 * 512) :
    leaf (pageFreed p.mmu v (entryAddress e)).words p.mmu.lvl2TableAddress u =
      if u = v then none else leaf p.mmu.words p.mmu.lvl2TableAddress u :=
  h.directory.leaf_invalidate (hy.page_lt h) hu

theorem physicalPages_freed (hy : Holds p v e y before after) (h : PoolInvariant L pool p) :
    (before ++ after).map (physicalPage (pageFreed p.mmu v (entryAddress e))) =
      (before ++ after).map (physicalPage p.mmu) := by
  have hroot : (pageFreed p.mmu v (entryAddress e)).lvl2TableAddress = p.mmu.lvl2TableAddress := rfl
  refine List.map_congr_left fun z hz ↦ ?_
  rw [physicalPage, hroot, hy.leaf_freed h (h.reach z (hy.subset hz)), if_neg (hy.page_ne h hz),
    physicalPage]

/-- The page comes back to the free part of the map. -/
theorem conserved_freed (hy : Holds p v e y before after) (h : PoolInvariant L pool p)
    (hpool : IsPool L pool) :
    (allPages ⟨pageFreed p.mmu v (entryAddress e), before ++ after⟩ pool.length).Perm
      (pool.map some) := by
  have hhigh := hpool.high _ (hy.mem_pool h)
  have hpush := freePages_push (m := p.mmu.physicalMemoryMap) (n := pool.length) (entryAddress e)
    (hy.head_pos h) (by rw [h.head]; exact h.room) (by omega)
  have hmap : (pageFreed p.mmu v (entryAddress e)).physicalMemoryMap =
    { p.mmu.physicalMemoryMap with
      head := p.mmu.physicalMemoryMap.head - 1
      map := Function.update p.mmu.physicalMemoryMap.map (p.mmu.physicalMemoryMap.head - 1).toNat
        ((entryAddress e).setWidth 32) } := rfl
  rw [allPages, hmap, hpush, hy.physicalPages_freed h, List.map_append, List.map_cons,
    List.cons_append]
  refine List.Perm.trans ?_ h.conserved
  rw [allPages, hy.physicalPages, ← List.append_assoc, ← List.append_assoc]
  exact List.perm_middle.symm

theorem counted_freed (hy : Holds p v e y before after) (h : PoolInvariant L pool p)
    (hpool : IsPool L pool) {q : Word} (hq : q ∈ pool) :
    getBindCounter (pageFreed p.mmu v (entryAddress e)) q =
      if some q ∈ (before ++ after).map (physicalPage p.mmu) then 1 else 0 := by
  have hcount : getBindCounter (pageFreed p.mmu v (entryAddress e)) q =
      if q.toNat / 0x1000 = (entryAddress e).toNat / 0x1000 then 0 else getBindCounter p.mmu q :=
    getBindCounter_setBindCounter p.mmu (entryAddress e) q 0
  rw [hcount, List.map_append]
  by_cases hq' : q = entryAddress e
  · rw [if_pos (by rw [hq']), if_neg (by rw [hq']; exact hy.once h hpool)]
  · rw [if_neg fun heq ↦ hq' ((hpool.eq_of_div hq (hy.mem_pool h)).mp heq), h.counted q hq,
      hy.physicalPages]
    refine if_congr ?_ rfl rfl
    rw [List.mem_append, List.mem_append, List.mem_cons, Option.some_inj, or_iff_right hq']

/-- The invariant holds when the page has been released. -/
theorem freed (hy : Holds p v e y before after) (h : PoolInvariant L pool p)
    (hpool : IsPool L pool) :
    PoolInvariant L pool ⟨pageFreed p.mmu v (entryAddress e), before ++ after⟩ := by
  have hpage := hy.page_lt h
  have hlength := hy.length_eq
  have hroom := h.room
  constructor
  case configured =>
    exact ⟨h.configured.idPagingSize, h.configured.bindCounter, h.configured.bindCounterOffset⟩
  case directory => exact h.directory.writeEntry_directory hpage
  case last => exact (h.directory.present_writeEntry hpage (by omega)).trans h.last
  case size => exact h.size
  case head =>
    have hone : (1 : BitVec 32).toNat = 1 := rfl
    have hbelow := h.below
    have hhead := h.head
    change (p.mmu.physicalMemoryMap.head - 1).toNat = (before ++ after).length
    rw [BitVec.toNat_sub, hone]
    omega
  case room =>
    change (before ++ after).length ≤ _
    omega
  case below => exact h.below
  case distinct => exact (hy.distinct h).2
  case reach => exact fun z hz ↦ h.reach z (hy.subset hz)
  case mapped =>
    intro z hz
    have hkept := (hy.leaf_freed h (h.reach z (hy.subset hz))).trans (if_neg (hy.page_ne h hz))
    exact ne_of_eq_of_ne hkept (h.mapped z (hy.subset hz))
  case owned =>
    intro u hu e' he' hlow
    have hleaf := (hy.leaf_freed h hu).symm.trans he'
    split_ifs at hleaf with hv
    obtain ⟨z, hz, heq⟩ := h.owned u hu e' hleaf hlow
    refine ⟨z, ?_, heq⟩
    rw [hy.held] at hz
    rcases List.mem_append.mp hz with hz | hz
    · exact List.mem_append_left _ hz
    rcases List.mem_cons.mp hz with rfl | hz
    · exact absurd (heq.symm.trans hy.page_eq) hv
    · exact List.mem_append_right _ hz
  case conserved => exact hy.conserved_freed h hpool
  case counted =>
    intro q hq
    rw [hy.physicalPages_freed h]
    exact hy.counted_freed h hpool hq

end Holds

/-- An address has the counter of the page that it is on. -/
theorem getBindCounter_entryAddress (s : MmuState) (e va : Word) :
    getBindCounter s (entryAddress e + (va &&& mask 11 0)) = getBindCounter s (entryAddress e) ∧
      (entryAddress e + (va &&& mask 11 0)).toNat = (entryAddress e).toNat + va.toNat % 0x1000 := by
  have haligned := entryAddress_aligned e
  have hoffset :
      (entryAddress e + (va &&& mask 11 0)).toNat = (entryAddress e).toNat + va.toNat % 0x1000 := by
    have hlt := entryAddress_lt e
    rw [BitVec.toNat_add, toNat_and_mask va (by omega) (by omega)]
    omega
  refine ⟨?_, hoffset⟩
  rw [getBindCounter, getBindCounter]
  refine congrArg _ (getBindCounterAddress_inj.mpr ?_)
  omega

theorem PoolInvariant.release (h : PoolInvariant L pool p) (hpool : IsPool L pool)
    (hallowed : Allowed pool.length p (.release va)) :
    ∃ p', poolStep p (.release va) = .ok p' ∧ PoolInvariant L pool p' := by
  obtain ⟨x, htranslate, hid, hcounter⟩ := hallowed
  rw [translate] at htranslate
  split_ifs at htranslate with hva
  obtain ⟨e, hleaf, rfl⟩ := Option.map_eq_some_iff.mp htranslate
  obtain ⟨hsame, hoffset⟩ := getBindCounter_entryAddress p.mmu e va
  rw [hsame] at hcounter
  have hpage : page va < 511 * 512 := by
    obtain ⟨hpresent, -, -⟩ := leaf_eq_some hleaf
    have hlast := h.last
    have hlt := Mmu.page_lt hva
    by_contra hge
    rw [show page va / 512 = 511 by omega, hlast] at hpresent
    exact nomatch hpresent
  have hlow : L.endAddr ≤ entryAddress e := by
    have haligned := entryAddress_aligned e
    have hend := L.toNat_endAddr
    have hzone := L.mmuTablesStart_aligned
    rw [h.configured.idPagingSize] at hid
    have hid' : L.endAddr.toNat ≤ (entryAddress e + (va &&& mask 11 0)).toNat := hid
    rw [BitVec.le_def]
    omega
  obtain ⟨x, hx, hxpage⟩ := h.owned (page va) hpage e hleaf hlow
  obtain ⟨y, before, after, -, hy, hsplit, herase⟩ :=
    List.exists_of_eraseP (p := fun z ↦ decide (page z = page va)) hx (decide_eq_true hxpage)
  have hholds : Holds p (page va) e y before after := ⟨hsplit, of_decide_eq_true hy, hleaf⟩
  have hstep := freeVirtualPage_eq h.directory.rooted hva hleaf
    (by rw [h.configured.idPagingSize]; exact hlow) hcounter (hholds.head_pos h)
  refine ⟨_, ?_, hholds.freed h hpool⟩
  rw [poolStep, hstep, ← herase]
  rfl

/-! ### Runs from the initial map -/

variable {s₀ : MmuState}

/-- The initial pool: the entries that `init_physical_memory_map` writes. -/
def initialPool (s₀ : MmuState) : List Word :=
  freePages s₀.physicalMemoryMap (poolSize s₀.idPagingSize)

section InitialPool

variable {s : MmuState} {q : ℕ}

/-- The entries that `init_physical_memory_map` writes. -/
theorem initialPool_eq (L : Layout) (hq : s.idPagingSize.toNat = 0x1000 * q) (hid : q ≤ 0x3f000) :
    initialPool (initPhysicalMemoryMap L s) =
      (List.range (0x3fffd - q)).map fun i ↦ BitVec.ofNat 64 (0x1000 * poolPage q i) := by
  obtain ⟨counters, hinit, -⟩ := initPhysicalMemoryMap_eq L hq hid
  have hsize : poolSize (initPhysicalMemoryMap L s).idPagingSize = 0x3fffd - q := by
    rw [hinit]
    exact poolSize_eq hq hid
  have hhead : (initPhysicalMemoryMap L s).physicalMemoryMap.head.toNat = 0 := by rw [hinit]; rfl
  have hmap : (initPhysicalMemoryMap L s).physicalMemoryMap.map =
      filledMap s.physicalMemoryMap.map q (0x3fffd - q) := by rw [hinit]
  rw [initialPool, hsize, freePages, hhead, Nat.sub_zero]
  refine List.map_congr_left fun i hi ↦ ?_
  have hi' := List.mem_range.mp hi
  have hle := skipped_le q (i + 1)
  rw [Nat.zero_add, hmap, filledMap, if_pos hi']
  apply BitVec.eq_of_toNat_eq
  rw [BitVec.toNat_setWidth, BitVec.toNat_ofNat, BitVec.toNat_ofNat, poolPage]
  omega

theorem mem_initialPool (L : Layout) (hq : s.idPagingSize.toNat = 0x1000 * q) (hid : q ≤ 0x3f000)
    {r : Word} : r ∈ initialPool (initPhysicalMemoryMap L s) ↔
      ∃ i < 0x3fffd - q, r.toNat = 0x1000 * poolPage q i := by
  rw [initialPool_eq L hq hid, List.mem_map]
  have hvalue (i : ℕ) (hi : i < 0x3fffd - q) :
      (BitVec.ofNat 64 (0x1000 * poolPage q i)).toNat = 0x1000 * poolPage q i := by
    have hle := skipped_le q (i + 1)
    rw [BitVec.toNat_ofNat, poolPage]
    omega
  constructor
  · rintro ⟨i, hi, rfl⟩
    exact ⟨i, List.mem_range.mp hi, hvalue i (List.mem_range.mp hi)⟩
  · rintro ⟨i, hi, hr⟩
    exact ⟨i, List.mem_range.mpr hi, BitVec.eq_of_toNat_eq (by rw [hvalue i hi, hr])⟩

theorem nodup_initialPool (L : Layout) (hq : s.idPagingSize.toNat = 0x1000 * q)
    (hid : q ≤ 0x3f000) : (initialPool (initPhysicalMemoryMap L s)).Nodup := by
  rw [initialPool_eq L hq hid]
  refine List.Nodup.map_on (fun i hi j hj heq ↦ poolPage_injective q ?_) List.nodup_range
  have hi' := List.mem_range.mp hi
  have hj' := List.mem_range.mp hj
  have hle := skipped_le q (i + 1)
  have hle' := skipped_le q (j + 1)
  have heq' := congrArg BitVec.toNat heq
  rw [BitVec.toNat_ofNat, BitVec.toNat_ofNat] at heq'
  unfold poolPage at heq' ⊢
  omega

end InitialPool

theorem Layout.endAddr_page (L : Layout) :
    L.endAddr.toNat = 0x1000 * (L.mmuTablesStart.toNat / 0x1000 + 0x4200) ∧
      L.mmuTablesStart.toNat / 0x1000 + 0x4200 ≤ 0x3f000 := by
  have hend := L.toNat_endAddr
  have hzone := L.mmuTablesStart_aligned
  have hbelow := L.below_peripherals
  omega

/-- `init_physical_memory_map` writes no table. -/
theorem initPhysicalMemoryMap_tables {s : MmuState} (hid : s.idPagingSize = L.endAddr) :
    (initPhysicalMemoryMap L s).words = s.words ∧
      (initPhysicalMemoryMap L s).lvl2TableAddress = s.lvl2TableAddress ∧
      (initPhysicalMemoryMap L s).idPagingSize = s.idPagingSize := by
  obtain ⟨hq, hqle⟩ := L.endAddr_page
  rw [← hid] at hq
  obtain ⟨counters, hinit, -⟩ := initPhysicalMemoryMap_eq L hq hqle
  rw [hinit]
  exact ⟨rfl, rfl, rfl⟩

theorem Fresh.isPool (h : Fresh L s₀) :
    IsPool L (initialPool s₀) ∧ PoolInvariant L (initialPool s₀) ⟨s₀, []⟩ := by
  obtain ⟨s, hs₀, hid, hdir, hlast, hnone⟩ := h
  obtain ⟨hq, hqle⟩ := L.endAddr_page
  obtain ⟨q, hqdef⟩ : ∃ q, q = L.mmuTablesStart.toNat / 0x1000 + 0x4200 := ⟨_, rfl⟩
  rw [← hqdef] at hq hqle
  rw [← hid] at hq
  obtain ⟨counters, hinit, hzero⟩ := initPhysicalMemoryMap_eq L hq hqle
  rw [← hs₀] at hinit
  have hid₀ : s₀.idPagingSize = s.idPagingSize := hs₀ ▸ (initPhysicalMemoryMap_tables hid).2.2
  have hpoolSize : poolSize s₀.idPagingSize = 0x3fffd - q := by rw [hid₀, poolSize_eq hq hqle]
  have hmem (r : Word) (hr : r ∈ initialPool s₀) :
      ∃ i < 0x3fffd - q, r.toNat = 0x1000 * poolPage q i :=
    (mem_initialPool L hq hqle).mp (hs₀ ▸ hr)
  have hlength : (initialPool s₀).length = 0x3fffd - q := by
    rw [hs₀, initialPool_eq L hq hqle, List.length_map, List.length_range]
  obtain ⟨hwords, hroot, -⟩ := hs₀ ▸ initPhysicalMemoryMap_tables hid
  constructor
  · constructor
    case nodup =>
      rw [hs₀]
      exact nodup_initialPool L hq hqle
    case aligned =>
      intro r hr
      obtain ⟨i, -, hi⟩ := hmem r hr
      omega
    case low =>
      intro r hr
      obtain ⟨i, -, hi⟩ := hmem r hr
      rw [BitVec.le_def, ← hid, hq, hi, poolPage]
      omega
    case high =>
      intro r hr
      obtain ⟨i, hi', hi⟩ := hmem r hr
      have hle := skipped_le q (i + 1)
      rw [hi, poolPage]
      omega
  · constructor
    case configured =>
      refine ⟨hid₀.trans hid, ?_, ?_⟩
      · rw [hinit]
        rfl
      · rw [hinit]
        rfl
    case directory => rwa [hwords, hroot]
    case last => rwa [hwords, hroot]
    case size => rw [hinit]; rfl
    case head => rw [hinit]; rfl
    case room => exact Nat.zero_le _
    case below =>
      rw [hlength]
      omega
    case distinct => exact List.nodup_nil
    case reach => exact fun va hva ↦ absurd hva List.not_mem_nil
    case mapped => exact fun va hva ↦ absurd hva List.not_mem_nil
    case owned =>
      intro v hv e he hlow
      rw [hwords, hroot] at he
      have hlt := hnone v hv e he
      rw [hid] at hlt
      exact absurd hlow (BitVec.not_le.mpr hlt)
    case conserved =>
      rw [allPages, List.map_nil, List.append_nil, hlength, ← hpoolSize, initialPool]
    case counted =>
      intro r hr
      obtain ⟨i, hi', hi⟩ := hmem r hr
      have hle := skipped_le q (i + 1)
      rw [List.map_nil, if_neg List.not_mem_nil, hinit]
      unfold poolPage at hi
      exact hzero r (by omega) (by omega)

theorem PoolInvariant.step (h : PoolInvariant L pool p) (hpool : IsPool L pool) {a : PoolAction}
    (hallowed : Allowed pool.length p a) :
    ∃ p', poolStep p a = .ok p' ∧ PoolInvariant L pool p' := by
  cases a with
  | take va perm cache => exact h.take hpool hallowed
  | release va => exact h.release hpool hallowed

theorem length_initialPool (hfresh : Fresh L s₀) :
    (initialPool s₀).length = poolSize s₀.idPagingSize := by
  obtain ⟨s, rfl, hid, -⟩ := hfresh
  obtain ⟨hq, hqle⟩ := L.endAddr_page
  rw [← hid] at hq
  obtain ⟨counters, hinit, -⟩ := initPhysicalMemoryMap_eq L hq hqle
  have hhead : (initPhysicalMemoryMap L s).physicalMemoryMap.head.toNat = 0 := by rw [hinit]; rfl
  rw [initialPool, freePages, List.length_map, List.length_range, hhead, Nat.sub_zero]

theorem PoolRun.poolInvariant (hfresh : Fresh L s₀)
    {history : List (Transition PoolState PoolAction)}
    (hrun : PoolRun (poolSize s₀.idPagingSize) s₀ history p) :
    PoolInvariant L (initialPool s₀) p := by
  obtain ⟨hpool, hstart⟩ := hfresh.isPool
  refine hrun.state_invariant (fun p hp ↦ hp ▸ hstart) fun p a p' hinv ⟨hallowed, hstep⟩ ↦ ?_
  rw [← length_initialPool hfresh] at hallowed
  obtain ⟨p'', hstep', hinv'⟩ := hinv.step hpool hallowed
  rw [hstep] at hstep'
  rwa [Except.ok.inj hstep']

/-- Physical page conservation: after every sequence of calls, the free part of the map and the
pages of the addresses not given back are together the initial pool, each page once, and no further
call is stopped. -/
theorem pages_conserved (hfresh : Fresh L s₀) {history : List (Transition PoolState PoolAction)}
    (hrun : PoolRun (poolSize s₀.idPagingSize) s₀ history p) :
    (allPages p (poolSize s₀.idPagingSize)).Perm ((initialPool s₀).map some) ∧
      (allPages p (poolSize s₀.idPagingSize)).Nodup ∧
      ∀ a, Allowed (poolSize s₀.idPagingSize) p a → Ends (poolStep p a) := by
  obtain ⟨hpool, -⟩ := hfresh.isPool
  have hinv := PoolRun.poolInvariant hfresh hrun
  rw [← length_initialPool hfresh]
  refine ⟨hinv.conserved, hinv.conserved.nodup_iff.mpr hpool.nodup_some, fun a hallowed ↦ ?_⟩
  obtain ⟨p', hstep, -⟩ := hinv.step hpool hallowed
  exact ⟨p', hstep⟩

theorem sampleTables_fresh :
    Fresh sampleLayout (initPhysicalMemoryMap sampleLayout (sampleTables 0)) := by
  refine ⟨sampleTables 0, rfl, rfl, sampleTables_directory 0, present_sampleTables_last 0,
    fun v hv e he ↦ ?_⟩
  rw [leaf_sampleTables 0 (by omega)] at he
  exact nomatch he

theorem sampleTables_allowed :
    Allowed (poolSize (initPhysicalMemoryMap sampleLayout (sampleTables 0)).idPagingSize)
      ⟨initPhysicalMemoryMap sampleLayout (sampleTables 0),
      []⟩ (.take 0x8000000 userPage normalWtNt) := by
  obtain ⟨hwords, hroot, hid⟩ :=
      initPhysicalMemoryMap_tables (L := sampleLayout) (s := sampleTables 0) rfl
  have hunmapped : translate (initPhysicalMemoryMap sampleLayout (sampleTables 0)).words
      (initPhysicalMemoryMap sampleLayout (sampleTables 0)).lvl2TableAddress 0x8000000 = none := by
    rw [hwords, hroot, translate, leaf_sampleTables 0 (by decide), Option.map_none, ite_self]
  have hroom : 0 < poolSize (initPhysicalMemoryMap sampleLayout (sampleTables 0)).idPagingSize := by
    rw [hid, poolSize_eq (q := 0x4400) rfl (by decide)]
    decide
  exact ⟨by decide, hunmapped, hroom⟩

/-- A page is taken for an address of the heap. -/
theorem pages_conserved_sampleTables : ∃ (s₀ : MmuState) (p : PoolState)
    (history : List (Transition PoolState PoolAction)), Fresh sampleLayout s₀ ∧
    history.map Transition.label = [.take 0x8000000 userPage normalWtNt] ∧
    (allPages p (poolSize s₀.idPagingSize)).Perm ((initialPool s₀).map some) := by
  have hfresh := sampleTables_fresh
  have hallowed := sampleTables_allowed
  obtain ⟨s₀, hs₀⟩ : ∃ s₀, initPhysicalMemoryMap sampleLayout (sampleTables 0) = s₀ := ⟨_, rfl⟩
  rw [hs₀] at hfresh hallowed
  obtain ⟨hpool, hinv⟩ := hfresh.isPool
  obtain ⟨p, hstep, -⟩ := hinv.step hpool (by rwa [length_initialPool hfresh])
  have hrun : PoolRun (poolSize s₀.idPagingSize) s₀
      [⟨⟨s₀, []⟩, .take 0x8000000 userPage normalWtNt, p⟩] p := .next (.start rfl) ⟨hallowed, hstep⟩
  exact ⟨s₀, p, [⟨⟨s₀, []⟩, .take 0x8000000 userPage normalWtNt, p⟩], hfresh, rfl,
    (pages_conserved hfresh hrun).1⟩

end SysresOs.Mmu
