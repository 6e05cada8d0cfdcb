import SysresOs.Memory.Fork

/-!
# Processes that can fork

`ExactCounters` says that the bind counters of the pages of the user parts of the tables are the
numbers of the processes that have them mapped. With it, `Forkable` needs little more than the two
mapped pages of the parent's stack and two free pages for `c_init_mmu` to run to its end
(`Forkable.forkReady`). `Settled` is what a system relies on from fork to fork: it holds after the
boot, over any contents of the memory (`Booted.settled`), and while it holds, a child of any process
can be forked (`Settled.forkable`).
-/

set_option autoImplicit false
set_option relaxedAutoImplicit false

namespace SysresOs.Mmu

open SysresOs.Loop SysresOs.Outcome

open SysresOs.Proc (Pid SystemState kernelPid initPid zeroDescriptor)

variable {L : Layout} {sys : SystemState} {live : Finset Pid} {pid q : Pid} {s t : MmuState}
  {p p' e : Word} {f u v : ℕ}

/-! ### Exact counters -/

/-- The pages from `id_paging_size` on that a process has mapped on purpose. -/
def IsBoundPage (L : Layout) (v : ℕ) : Prop := IsUserPage L v ∨ v ∈ peripheralPages

/-- The processes with a user page that is mapped to the physical page number `f`. -/
def holders (L : Layout) (w : ℕ → Word) (live : Finset Pid) (f : ℕ) : Finset Pid :=
  live.filter fun q ↦ ∃ v < 512 * 505, IsUserPage L v ∧ frameOf w (L.zoneRoot q) v = some f

/-- The user parts of the tables of the live processes map pages of the memory above
`id_paging_size`, every process has a page mapped once at most, and the counter of a page is the
number of processes that have it mapped. The pages of the peripherals have other counters. -/
structure ExactCounters (L : Layout) (s : MmuState) (live : Finset Pid) : Prop where
  tables : ∀ q ∈ live, ZoneTables s.words (L.zoneRoot q) L.kernelTables
  range : ∀ q ∈ live, ∀ v, IsUserPage L v → ∀ e, leaf s.words (L.zoneRoot q) v = some e →
    s.idPagingSize ≤ entryAddress e ∧ (entryAddress e).toNat < 0x40000000
  peripheral : ∀ q ∈ live, ∀ v ∈ peripheralPages, frameOf s.words (L.zoneRoot q) v = some v
  once : ∀ q ∈ live, ∀ u v f, IsBoundPage L u → IsBoundPage L v →
    frameOf s.words (L.zoneRoot q) u = some f → frameOf s.words (L.zoneRoot q) v = some f → u = v
  counter : ∀ pa : Word, s.idPagingSize ≤ pa → pa.toNat < 0x40000000 →
    pa.toNat / 0x1000 ∉ peripheralPages →
    getBindCounter s pa = BitVec.ofNat 8 (holders L s.words live (pa.toNat / 0x1000)).card

theorem mem_holders {w : ℕ → Word} :
    q ∈ holders L w live f ↔ q ∈ live ∧ ∃ v, IsUserPage L v ∧
      frameOf w (L.zoneRoot q) v = some f := by
  rw [holders, Finset.mem_filter]
  refine and_congr_right fun _ ↦ ⟨?_, ?_⟩
  · rintro ⟨v, -, huser, hframe⟩
    exact ⟨v, huser, hframe⟩
  · rintro ⟨v, huser, hframe⟩
    exact ⟨v, huser.2.1, huser, hframe⟩

theorem holders_singleton {w : ℕ → Word} {P : Prop} [Decidable P]
    (h : (∃ v, IsUserPage L v ∧ frameOf w (L.zoneRoot q) v = some f) ↔ P) :
    holders L w {q} f = if P then {q} else ∅ := by
  ext x
  rw [mem_holders, Finset.mem_singleton]
  split_ifs with hP
  · rw [Finset.mem_singleton]
    refine and_iff_left_of_imp fun hx ↦ ?_
    rw [hx]
    exact h.mpr hP
  · refine iff_of_false (fun ⟨hx, hmapped⟩ ↦ hP ?_) (Finset.notMem_empty x)
    rw [hx] at hmapped
    exact h.mp hmapped

/-- The number of holders when two processes are live. -/
theorem card_holders_pair {w : ℕ → Word} {P P' : Prop} [Decidable P] [Decidable P'] {q' : Pid}
    (hne : q ≠ q') (h : (∃ v, IsUserPage L v ∧ frameOf w (L.zoneRoot q) v = some f) ↔ P)
    (h' : (∃ v, IsUserPage L v ∧ frameOf w (L.zoneRoot q') v = some f) ↔ P') :
    (holders L w {q, q'} f).card = (if P then 1 else 0) + if P' then 1 else 0 := by
  have hunion : holders L w {q, q'} f = holders L w {q} f ∪ holders L w {q'} f := by
    rw [holders, Finset.insert_eq, Finset.filter_union, holders, holders]
  have hdisjoint : Disjoint (holders L w {q} f) (holders L w {q'} f) :=
    Finset.disjoint_filter_filter (Finset.disjoint_singleton.mpr hne)
  rw [hunion, Finset.card_union_of_disjoint hdisjoint, holders_singleton h, holders_singleton h',
    apply_ite Finset.card, apply_ite Finset.card, Finset.card_singleton, Finset.card_singleton,
    Finset.card_empty]

namespace ExactCounters

/-- A user page is not mapped to a page of the peripherals. -/
theorem frame_notMem (h : ExactCounters L s live) (hq : q ∈ live) (hv : IsUserPage L v)
    (hframe : frameOf s.words (L.zoneRoot q) v = some f) : f ∉ peripheralPages := by
  intro hf
  have hsame := h.once q hq v f f (.inl hv) (.inr hf) hframe (h.peripheral q hq f hf)
  have htimer : timerPage = 0x3f00b := rfl
  obtain ⟨-, hlt, hne⟩ := hv
  rw [← hsame, mem_peripheralPages] at hf
  omega

/-- The counter of a mapped user page is between 1 and the number of the processes. -/
theorem counter_pos (h : ExactCounters L s live) (hq : q ∈ live) (hv : IsUserPage L v)
    (hleaf : leaf s.words (L.zoneRoot q) v = some e) :
    1 ≤ (getBindCounter s (entryAddress e)).toNat ∧
      (getBindCounter s (entryAddress e)).toNat ≤ 32 := by
  obtain ⟨habove, hram⟩ := h.range q hq v hv e hleaf
  have hframe : frameOf s.words (L.zoneRoot q) v = some ((entryAddress e).toNat / 0x1000) := by
    rw [frameOf, hleaf]
    rfl
  have hpos : 0 < (holders L s.words live ((entryAddress e).toNat / 0x1000)).card :=
    Finset.card_pos.mpr ⟨q, mem_holders.mpr ⟨hq, v, hv, hframe⟩⟩
  have hle : (holders L s.words live ((entryAddress e).toNat / 0x1000)).card ≤ 32 :=
    (Finset.card_le_univ _).trans (by rw [Fintype.card_fin])
  rw [h.counter _ habove hram (h.frame_notMem hq hv hframe), BitVec.toNat_ofNat]
  omega

/-- The kernel has the row of its stack and of the timer. -/
theorem kernelRow (h : ExactCounters L s live) (hkernel : kernelPid ∈ live) :
    present s.words L.mmuTablesStart 504 = true := by
  have hframe := h.peripheral _ hkernel timerPage (by decide)
  rw [L.zoneRoot_kernel] at hframe
  obtain ⟨e, hleaf, -⟩ := Option.map_eq_some_iff.mp hframe
  exact (leaf_eq_some hleaf).1

/-- A user page whose counter is 1 is mapped nowhere else. -/
theorem eq_of_counter_one (h : ExactCounters L s live) (hq : q ∈ live) (hv : IsUserPage L v)
    (hleaf : leaf s.words (L.zoneRoot q) v = some e) (hone : getBindCounter s (entryAddress e) = 1)
    {r : Pid} (hr : r ∈ live) (hu : IsUserPage L u)
    (hframe : frameOf s.words (L.zoneRoot r) u = some ((entryAddress e).toNat / 0x1000)) :
    r = q ∧ u = v := by
  obtain ⟨habove, hram⟩ := h.range q hq v hv e hleaf
  have hframe' : frameOf s.words (L.zoneRoot q) v = some ((entryAddress e).toNat / 0x1000) := by
    rw [frameOf, hleaf]
    rfl
  have hle : (holders L s.words live ((entryAddress e).toNat / 0x1000)).card ≤ 32 :=
    (Finset.card_le_univ _).trans (by rw [Fintype.card_fin])
  have hcount := h.counter _ habove hram (h.frame_notMem hq hv hframe')
  rw [hone] at hcount
  have hcard : (holders L s.words live ((entryAddress e).toNat / 0x1000)).card ≤ 1 := by
    have hnat := congrArg BitVec.toNat hcount
    have hone' : (1 : BitVec 8).toNat = 1 := rfl
    rw [BitVec.toNat_ofNat, hone'] at hnat
    omega
  obtain rfl : r = q := Finset.card_le_one.mp hcard r (mem_holders.mpr ⟨hr, u, hu, hframe⟩) q
    (mem_holders.mpr ⟨hq, v, hv, hframe'⟩)
  exact ⟨rfl, h.once r hr u v _ (.inl hu) (.inl hv) hframe hframe'⟩

end ExactCounters

/-! ### A process that can fork -/

/-- A state in which a process can be forked as the process `pid`: the bind counters are exact, the
parent has its two stack pages mapped, which are its own, the kernel maps nothing at the two
reserved pages, and two pages are free. -/
structure Forkable (L : Layout) (sys : SystemState) (live : Finset Pid) (pid : Pid)
    (s : MmuState) (p p' : Word) : Prop where
  process : pid ≠ kernelPid ∧ pid ≠ initPid
  fresh : pid ∉ live
  parent : getParentPid sys pid ∈ live
  parentRoot : getLvl2AddressFromSysState sys (getParentPid sys pid) =
    L.zoneRoot (getParentPid sys pid)
  kernelRoot : getLvl2AddressFromSysState sys kernelPid = L.mmuTablesStart
  hardwareRoot : s.ttbr0El1 &&& mask 47 1 = L.mmuTablesStart
  configured : Configured L s
  kernelTables : ZoneTables s.words L.mmuTablesStart 0
  reserved : leaf s.words L.mmuTablesStart (page pageRes1) = none
  reserved' : leaf s.words L.mmuTablesStart (page pageRes2) = none
  exact : ExactCounters L s live
  stack : ∃ e, leaf s.words (L.zoneRoot (getParentPid sys pid)) 0x3f1ff = some e ∧
    entryAddress e = p
  stack' : ∃ e, leaf s.words (L.zoneRoot (getParentPid sys pid)) 0x3f1fe = some e ∧
    entryAddress e = p'
  count : getBindCounter s p = 1
  count' : getBindCounter s p' = 1
  free : FreePair s
  freeDistinct : nextFreePage s ≠ nextFreePage (pageTaken s)
  freeUnbound : ∀ q ∈ live, ∀ v, IsBoundPage L v →
    frameOf s.words (L.zoneRoot q) v ≠ some ((nextFreePage s).toNat / 0x1000)
  freeUnbound' : ∀ q ∈ live, ∀ v, IsBoundPage L v →
    frameOf s.words (L.zoneRoot q) v ≠ some ((nextFreePage (pageTaken s)).toNat / 0x1000)

namespace Forkable

/-- The counter of a page that nothing is bound to. -/
theorem counter_eq_zero {pa : Word} (h : Forkable L sys live pid s p p')
    (habove : s.idPagingSize ≤ pa) (hram : pa.toNat < 0x40000000)
    (hunbound : ∀ q ∈ live, ∀ v, IsBoundPage L v →
      frameOf s.words (L.zoneRoot q) v ≠ some (pa.toNat / 0x1000)) :
    pa.toNat / 0x1000 ∉ peripheralPages ∧ getBindCounter s pa = 0 := by
  have hperipheral : pa.toNat / 0x1000 ∉ peripheralPages := fun hmem ↦
    hunbound _ h.parent _ (.inr hmem) (h.exact.peripheral _ h.parent _ hmem)
  have hempty : holders L s.words live (pa.toNat / 0x1000) = ∅ := by
    refine Finset.eq_empty_of_forall_notMem fun q hq ↦ ?_
    obtain ⟨hlive, v, huser, hframe⟩ := mem_holders.mp hq
    exact hunbound q hlive v (.inl huser) hframe
  refine ⟨hperipheral, ?_⟩
  rw [h.exact.counter pa habove hram hperipheral, hempty]
  rfl

/-- `c_init_mmu` has what it relies on. -/
theorem forkReady (h : Forkable L sys live pid s p p') :
    ForkReady L sys pid s (L.zoneRoot (getParentPid sys pid)) p p' := by
  obtain ⟨huser, huser'⟩ := isUserPage_stack L
  have honce (u : ℕ) (hu : IsUserPage L u) (q : Word)
      (hstack : ∃ e, leaf s.words (L.zoneRoot (getParentPid sys pid)) u = some e ∧
      entryAddress e = q) (v : ℕ) (hv : IsUserPage L v)
      (hframe : frameOf s.words (L.zoneRoot (getParentPid sys pid)) v = some (q.toNat / 0x1000)) :
      v = u := by
    obtain ⟨e, hleaf, rfl⟩ := hstack
    refine h.exact.once _ h.parent v u _ (.inl hv) (.inl hu) hframe ?_
    rw [frameOf, hleaf]
    rfl
  exact {
    process := h.process
    configured := h.configured
    kernelRoot := h.kernelRoot
    hardwareRoot := h.hardwareRoot
    parentRoot := h.parentRoot
    apart := fun heq ↦ h.fresh (L.zoneRoot_inj.mp heq ▸ h.parent)
    kernelTables := h.kernelTables
    parentTables := h.exact.tables _ h.parent
    reserved := h.reserved
    reserved' := h.reserved'
    range := h.exact.range _ h.parent
    stack := h.stack
    stack' := h.stack'
    once := honce _ huser p h.stack
    once' := honce _ huser' p' h.stack'
    count := h.count
    count' := h.count'
    free := h.free
    freeDistinct := h.freeDistinct
    freeCount := (h.counter_eq_zero h.free.above h.free.ram h.freeUnbound).2
    freeCount' := (h.counter_eq_zero h.free.above' h.free.ram' h.freeUnbound').2
    freeUnbound := fun v hv ↦ h.freeUnbound _ h.parent v (.inl hv)
    freeUnbound' := fun v hv ↦ h.freeUnbound' _ h.parent v (.inl hv) }

end Forkable

/-- The first pages of the pool are not those of the peripherals. -/
theorem poolPage_notMem (L : Layout) {n : ℕ} (hn : 512 * L.kernelTables + n ≤ 0x3f007) :
    poolPage (512 * L.kernelTables) n ∉ peripheralPages := by
  have hskipped := skipped_le (512 * L.kernelTables) (n + 1)
  rw [mem_peripheralPages, poolPage]
  omega

/-- A memory between two forks: the bind counters are exact, all that the processes have bound is
from the first `n` pages of the pool, every one of them has its own stack, and the kernel maps
nothing at the two reserved pages. -/
structure Settled (L : Layout) (live : Finset Pid) (s : MmuState) (n : ℕ) : Prop where
  kernelLive : kernelPid ∈ live
  hardwareRoot : s.ttbr0El1 &&& mask 47 1 = L.mmuTablesStart
  pool : PoolAt L s n
  kernelTables : ZoneTables s.words L.mmuTablesStart 0
  reserved : leaf s.words L.mmuTablesStart (page pageRes1) = none
  reserved' : leaf s.words L.mmuTablesStart (page pageRes2) = none
  exact : ExactCounters L s live
  stack : ∀ q ∈ live, ∀ v, IsStackPage v →
    ∃ e, leaf s.words (L.zoneRoot q) v = some e ∧ getBindCounter s (entryAddress e) = 1
  bound : ∀ q ∈ live, ∀ v, IsUserPage L v → ∀ f, frameOf s.words (L.zoneRoot q) v = some f →
    ∃ i < n, f = poolPage (512 * L.kernelTables) i

/-- It is not about the contents of the pages. -/
theorem Settled.congr_pages {n : ℕ} (h : Settled L live s n) (pages : Word → BitVec 8) :
    Settled L live { s with pages } n where
  kernelLive := h.kernelLive
  hardwareRoot := h.hardwareRoot
  pool := ⟨⟨h.pool.configured.1, h.pool.configured.2, h.pool.configured.3⟩, h.pool.head,
    h.pool.size, h.pool.entry⟩
  kernelTables := h.kernelTables
  reserved := h.reserved
  reserved' := h.reserved'
  exact := ⟨h.exact.tables, h.exact.range, h.exact.peripheral, h.exact.once, h.exact.counter⟩
  stack := h.stack
  bound := h.bound

/-- A system in which the process `pid` is new and a child of a live process. -/
structure ChildOf (L : Layout) (sys : SystemState) (live : Finset Pid) (pid : Pid) : Prop where
  process : pid ≠ kernelPid ∧ pid ≠ initPid
  fresh : pid ∉ live
  parent : getParentPid sys pid ∈ live
  parentRoot : getLvl2AddressFromSysState sys (getParentPid sys pid) =
    L.zoneRoot (getParentPid sys pid)
  kernelRoot : getLvl2AddressFromSysState sys kernelPid = L.mmuTablesStart

/-- The next child can be forked as long as the pool does not reach the peripherals. -/
theorem Settled.forkable {n : ℕ} (h : Settled L live s n) (hchild : ChildOf L sys live pid)
    (hroom : 512 * L.kernelTables + n ≤ 0x3f006) : ∃ p p', Forkable L sys live pid s p p' := by
  have hunbound (i : ℕ) (hi : n ≤ i) (hi' : i ≤ n + 1) (q : Pid) (hq : q ∈ live) (v : ℕ)
      (hv : IsBoundPage L v) :
      frameOf s.words (L.zoneRoot q) v ≠ some (poolPage (512 * L.kernelTables) i) := by
    intro hframe
    rcases hv with huser | hperipheral
    · obtain ⟨j, hj, heq⟩ := h.bound q hq v huser _ hframe
      have hlt := poolPage_lt (q := 512 * L.kernelTables) (show j < i by omega)
      omega
    · rw [h.exact.peripheral q hq v hperipheral, Option.some_inj] at hframe
      exact poolPage_notMem L (by omega) (hframe ▸ hperipheral)
  have hnext : (nextFreePage s).toNat / 0x1000 = poolPage (512 * L.kernelTables) n := by
    rw [h.pool.next (by omega), Nat.mul_div_cancel_left _ (by decide)]
  have hnext' :
      (nextFreePage (pageTaken s)).toNat / 0x1000 = poolPage (512 * L.kernelTables) (n + 1) := by
    rw [(h.pool.taken (by omega)).next (by omega), Nat.mul_div_cancel_left _ (by decide)]
  obtain ⟨e, hleaf, hcount⟩ := h.stack _ hchild.parent _ (.inl rfl)
  obtain ⟨e', hleaf', hcount'⟩ := h.stack _ hchild.parent _ (.inr rfl)
  exact ⟨entryAddress e, entryAddress e', {
    process := hchild.process
    fresh := hchild.fresh
    parent := hchild.parent
    parentRoot := hchild.parentRoot
    kernelRoot := hchild.kernelRoot
    hardwareRoot := h.hardwareRoot
    configured := h.pool.configured
    kernelTables := h.kernelTables
    reserved := h.reserved
    reserved' := h.reserved'
    exact := h.exact
    stack := ⟨e, hleaf, rfl⟩
    stack' := ⟨e', hleaf', rfl⟩
    count := hcount
    count' := hcount'
    free := h.pool.freePair (by omega)
    freeDistinct := by
      intro heq
      have hlt := poolPage_lt (q := 512 * L.kernelTables) (show n < n + 1 by omega)
      rw [heq] at hnext
      omega
    freeUnbound := by
      rw [hnext]
      exact hunbound n le_rfl (by omega)
    freeUnbound' := by
      rw [hnext']
      exact hunbound (n + 1) (by omega) le_rfl }⟩

/-! ### The state after the boot -/

namespace BootLeaves

variable {w : ℕ → Word} {root : Word}

theorem frameOf_peripheral (h : BootLeaves L w root p p') (hv : v ∈ peripheralPages) :
    frameOf w root v = some v := by
  have hlt : v < 0x40000 := by
    rw [mem_peripheralPages] at hv
    omega
  rw [frameOf, h.peripheral v hv, Option.map_some, entryAddress_peripheralEntry hlt]
  exact congrArg some (by omega)

/-- The only user pages at boot are those of the stack. -/
theorem frameOf_user (h : BootLeaves L w root p p') (hv : IsUserPage L v) :
    frameOf w root v = some f ↔
      v = 0x3f1ff ∧ f = p.toNat / 0x1000 ∨ v = 0x3f1fe ∧ f = p'.toNat / 0x1000 := by
  obtain ⟨hrow, hlt, htimer⟩ := hv
  have htimerPage : timerPage = 0x3f00b := rfl
  by_cases hfirst : v = 0x3f1ff
  · obtain ⟨e, hleaf, rfl⟩ := h.stack
    rw [hfirst, frameOf, hleaf, Option.map_some, Option.some_inj]
    constructor
    · exact fun hf ↦ .inl ⟨rfl, hf.symm⟩
    · rintro (⟨-, hf⟩ | ⟨hv, -⟩)
      · exact hf.symm
      · exact absurd hv (by decide)
  by_cases hsecond : v = 0x3f1fe
  · obtain ⟨e, hleaf, rfl⟩ := h.stack'
    rw [hsecond, frameOf, hleaf, Option.map_some, Option.some_inj]
    constructor
    · exact fun hf ↦ .inr ⟨rfl, hf.symm⟩
    · rintro (⟨hv, -⟩ | ⟨-, hf⟩)
      · exact absurd hv (by decide)
      · exact hf.symm
  rw [frameOf, h.other v (by omega) (by omega) (fun hor ↦ hor.elim hfirst hsecond)
    (by rw [mem_peripheralPages]; omega), Option.map_none]
  constructor
  · rintro ⟨⟩
  · exact fun hor ↦ hor.elim (fun hand ↦ absurd hand.1 hfirst) fun hand ↦ absurd hand.1 hsecond

/-- A process maps a user page to a page number exactly when it is that of a page of its stack. -/
theorem exists_frameOf (h : BootLeaves L w root p p') :
    (∃ v, IsUserPage L v ∧ frameOf w root v = some f) ↔
      f = p.toNat / 0x1000 ∨ f = p'.toNat / 0x1000 := by
  obtain ⟨huser, huser'⟩ := isUserPage_stack L
  constructor
  · rintro ⟨v, hv, hframe⟩
    exact ((h.frameOf_user hv).mp hframe).imp And.right And.right
  · rintro (hf | hf)
    · exact ⟨_, huser, (h.frameOf_user huser).mpr (.inl ⟨rfl, hf⟩)⟩
    · exact ⟨_, huser', (h.frameOf_user huser').mpr (.inr ⟨rfl, hf⟩)⟩

/-- The pages of a process at boot are different ones. -/
theorem once (h : BootLeaves L w root p p') (hne : p.toNat / 0x1000 ≠ p'.toNat / 0x1000)
    (hp : p.toNat / 0x1000 ∉ peripheralPages) (hp' : p'.toNat / 0x1000 ∉ peripheralPages)
    (hu : IsBoundPage L u) (hv : IsBoundPage L v) (hframe : frameOf w root u = some f)
    (hframe' : frameOf w root v = some f) : u = v := by
  have hcases (x : ℕ) (hx : IsBoundPage L x) (hframe : frameOf w root x = some f) :
      (x = 0x3f1ff ∧ f = p.toNat / 0x1000) ∨ (x = 0x3f1fe ∧ f = p'.toNat / 0x1000) ∨
        (x ∈ peripheralPages ∧ f = x) := by
    rcases hx with hx | hx
    · exact ((h.frameOf_user hx).mp hframe).imp_right .inl
    · rw [h.frameOf_peripheral hx] at hframe
      exact .inr (.inr ⟨hx, (Option.some.inj hframe).symm⟩)
  rcases hcases u hu hframe with ⟨hu, hf⟩ | ⟨hu, hf⟩ | ⟨hu, hf⟩ <;>
    rcases hcases v hv hframe' with ⟨hv, hf'⟩ | ⟨hv, hf'⟩ | ⟨hv, hf'⟩
  · rw [hu, hv]
  · exact absurd (hf.symm.trans hf') hne
  · exact absurd (hf ▸ hf' ▸ hv) hp
  · exact absurd (hf'.symm.trans hf) hne
  · rw [hu, hv]
  · exact absurd (hf ▸ hf' ▸ hv) hp'
  · exact absurd (hf' ▸ hf ▸ hu) hp
  · exact absurd (hf' ▸ hf ▸ hu) hp'
  · rw [← hf, ← hf']

end BootLeaves

/-- `init_physical_memory_map` clears the counters of the pages above `id_paging_size`. -/
theorem initPhysicalMemoryMap_counter {pa : Word} (hid : s.idPagingSize = L.endAddr)
    (habove : L.endAddr ≤ pa) (hram : pa.toNat < 0x40000000) :
    getBindCounter (initPhysicalMemoryMap L s) pa = 0 := by
  obtain ⟨hend, hle⟩ := L.toNat_endAddr_tables
  obtain ⟨q, hqdef⟩ : ∃ q, q = 512 * L.kernelTables := ⟨_, rfl⟩
  have hq : s.idPagingSize.toNat = 0x1000 * q := by
    rw [hid, hend]
    omega
  obtain ⟨counters, hinit, hzero⟩ := initPhysicalMemoryMap_eq L hq (by omega)
  rw [BitVec.le_def, hend] at habove
  rw [hinit]
  exact hzero pa (by omega) hram

theorem initPhysicalMemoryMap_ttbr0El1 (hid : s.idPagingSize = L.endAddr) :
    (initPhysicalMemoryMap L s).ttbr0El1 = s.ttbr0El1 := by
  obtain ⟨hend, hle⟩ := L.toNat_endAddr_tables
  obtain ⟨q, hqdef⟩ : ∃ q, q = 512 * L.kernelTables := ⟨_, rfl⟩
  have hq : s.idPagingSize.toNat = 0x1000 * q := by
    rw [hid, hend]
    omega
  obtain ⟨counters, hinit, -⟩ := initPhysicalMemoryMap_eq L hq (by omega)
  rw [hinit]
  rfl

namespace Booted

variable {s₀ s₁ s₂ : MmuState}

/-- The numbers of the first six pages of the pool, four of which the boot takes. -/
theorem next_div (h : Booted L s s₀ s₁ s₂) :
    (nextFreePage s₀).toNat / 0x1000 = poolPage (512 * L.kernelTables) 0 ∧
      (nextFreePage (pageTaken s₀)).toNat / 0x1000 = poolPage (512 * L.kernelTables) 1 ∧
      (nextFreePage (populated L initPid s₁)).toNat / 0x1000 = poolPage (512 * L.kernelTables) 2 ∧
      (nextFreePage (pageTaken (populated L initPid s₁))).toNat / 0x1000 =
      poolPage (512 * L.kernelTables) 3 ∧
      (nextFreePage s₂).toNat / 0x1000 = poolPage (512 * L.kernelTables) 4 ∧
      (nextFreePage (pageTaken s₂)).toNat / 0x1000 = poolPage (512 * L.kernelTables) 5 := by
  obtain ⟨-, hle⟩ := L.toNat_endAddr_tables
  have hpool := h.pool
  have hpool₁ := h.populated_pool
  have hpool₂ := h.pool₂
  rw [hpool.next (by omega), (hpool.taken (by omega)).next (by omega), hpool₁.next (by omega),
    (hpool₁.taken (by omega)).next (by omega), hpool₂.next (by omega),
    (hpool₂.taken (by omega)).next (by omega)]
  have hdiv (x : ℕ) : 0x1000 * x / 0x1000 = x := Nat.mul_div_cancel_left x (by decide)
  exact ⟨hdiv _, hdiv _, hdiv _, hdiv _, hdiv _, hdiv _⟩

/-- The counter of a page above `id_paging_size` after the boot. -/
theorem counter (h : Booted L s s₀ s₁ s₂) {pa : Word} (habove : L.endAddr ≤ pa)
    (hram : pa.toNat < 0x40000000) (hperipheral : pa.toNat / 0x1000 ∉ peripheralPages) :
    getBindCounter s₂ pa =
      (if pa.toNat / 0x1000 = poolPage (512 * L.kernelTables) 0 then 1 else 0) +
      (if pa.toNat / 0x1000 = poolPage (512 * L.kernelTables) 1 then 1 else 0) +
      (if pa.toNat / 0x1000 = poolPage (512 * L.kernelTables) 2 then 1 else 0) +
      if pa.toNat / 0x1000 = poolPage (512 * L.kernelTables) 3 then 1 else 0 := by
  obtain ⟨hnext₀, hnext₁, hnext₂, hnext₃, -⟩ := h.next_div
  have hzero : getBindCounter s₀ pa = 0 := by
    rw [h.start]
    exact initPhysicalMemoryMap_counter rfl habove hram
  have hcount₁ := h.kernel.counter pa
  have hcount₂ := h.init.counter pa
  have hsame : getBindCounter (populated L initPid s₁) pa = getBindCounter s₁ pa :=
    populated_counter L initPid s₁ pa
  rw [hnext₀, hnext₁, if_neg hperipheral, hzero] at hcount₁
  rw [hnext₂, hnext₃, if_neg hperipheral, hsame, hcount₁] at hcount₂
  rw [hcount₂]
  split_ifs <;> rfl

/-- The bind counters are exact after the boot. -/
theorem exactCounters (h : Booted L s s₀ s₁ s₂) : ExactCounters L s₂ {kernelPid, initPid} := by
  obtain ⟨hend, hle⟩ := L.toNat_endAddr_tables
  obtain ⟨hnext₀, hnext₁, hnext₂, hnext₃, -⟩ := h.next_div
  have hlt₀ := poolPage_lt (q := 512 * L.kernelTables) (show 0 < 1 by omega)
  have hlt₁ := poolPage_lt (q := 512 * L.kernelTables) (show 1 < 2 by omega)
  have hlt₂ := poolPage_lt (q := 512 * L.kernelTables) (show 2 < 3 by omega)
  have hleaves (q : Pid) (hq : q ∈ ({kernelPid, initPid} : Finset Pid)) : ∃ i j : Word,
      BootLeaves L s₂.words (L.zoneRoot q) i j ∧
        ∃ a ≤ 2, i.toNat = 0x1000 * poolPage (512 * L.kernelTables) a ∧
        j.toNat = 0x1000 * poolPage (512 * L.kernelTables) (a + 1) := by
    rw [Finset.mem_insert, Finset.mem_singleton] at hq
    rcases hq with rfl | rfl
    · exact ⟨_, _, h.kernelLeaves, 0, by omega, h.pool.next (by omega),
        (h.pool.taken (by omega)).next (by omega)⟩
    · exact ⟨_, _, h.init.leaves, 2, le_rfl, h.populated_pool.next (by omega),
        (h.populated_pool.taken (by omega)).next (by omega)⟩
  constructor
  case tables =>
    intro q hq
    obtain ⟨i, j, hboot, -⟩ := hleaves q hq
    exact hboot.tables.mono (by omega)
  case range =>
    intro q hq v hv e hleaf
    obtain ⟨i, j, hboot, a, ha, hi, hj⟩ := hleaves q hq
    have hframe : frameOf s₂.words (L.zoneRoot q) v = some ((entryAddress e).toNat / 0x1000) := by
      rw [frameOf, hleaf]
      rfl
    obtain ⟨hlow, hhigh⟩ := PoolAt.poolPage_bounds (L := L) (h := a) (by omega)
    obtain ⟨hlow', hhigh'⟩ := PoolAt.poolPage_bounds (L := L) (h := a + 1) (by omega)
    rw [h.pool₂.configured.idPagingSize, BitVec.le_def, hend]
    rcases (hboot.frameOf_user hv).mp hframe with ⟨-, hf⟩ | ⟨-, hf⟩
    · rw [hi] at hf
      omega
    · rw [hj] at hf
      omega
  case peripheral =>
    intro q hq v hv
    obtain ⟨i, j, hboot, -⟩ := hleaves q hq
    exact hboot.frameOf_peripheral hv
  case once =>
    intro q hq u v f hu hv hframe hframe'
    obtain ⟨i, j, hboot, a, ha, hi, hj⟩ := hleaves q hq
    have hlt := poolPage_lt (q := 512 * L.kernelTables) (show a < a + 1 by omega)
    have hi' : i.toNat / 0x1000 = poolPage (512 * L.kernelTables) a := by omega
    have hj' : j.toNat / 0x1000 = poolPage (512 * L.kernelTables) (a + 1) := by omega
    refine hboot.once (by omega) ?_ ?_ hu hv hframe hframe'
    · rw [hi']
      exact poolPage_notMem L (by omega)
    · rw [hj']
      exact poolPage_notMem L (by omega)
  case counter =>
    intro pa habove hram hperipheral
    rw [h.pool₂.configured.idPagingSize] at habove
    have hcard := card_holders_pair (L := L) (w := s₂.words) (show kernelPid ≠ initPid by decide)
      (h.kernelLeaves.exists_frameOf (f := pa.toNat / 0x1000)) h.init.leaves.exists_frameOf
    rw [hnext₀, hnext₁, hnext₂, hnext₃] at hcard
    rw [h.counter habove hram hperipheral, hcard]
    split_ifs <;> first | rfl | omega

end Booted

theorem BootTables.ttbr0El1 {root : Word} (h : BootTables L s t root) :
    t.ttbr0El1 = s.ttbr0El1 := by
  rw [h.fixed]
  rfl

theorem Booted.ttbr0El1 {s₀ s₁ s₂ : MmuState} (h : Booted L s s₀ s₁ s₂) :
    s₂.ttbr0El1 = s.ttbr0El1 := by
  rw [h.init.ttbr0El1, populated_ttbr0El1, h.kernel.ttbr0El1, h.start,
    initPhysicalMemoryMap_ttbr0El1 (populated_idPagingSize L kernelPid s), populated_ttbr0El1]

/-- The memory outside the zones of the kernel and of `init` is kept by the boot. -/
theorem Booted.frame {s₀ s₁ s₂ : MmuState} (h : Booted L s s₀ s₁ s₂)
    (hpid : pid ≠ kernelPid ∧ pid ≠ initPid) {a : ℕ}
    (ha : (L.zoneRoot pid).toNat ≤ a) (ha' : a < (L.zoneRoot pid).toNat + 0x200000) :
    s₂.words a = s.words a := by
  have hzone := L.zoneRoot_zone pid
  have hapart (q : Pid) (hq : pid ≠ q) :
      a < (L.zoneRoot q).toNat ∨ (L.zoneRoot q).toNat + 0x200000 ≤ a := by
    have haligned := hzone.aligned
    have haligned' := (L.zoneRoot_zone q).aligned
    have hne : (L.zoneRoot pid).toNat ≠ (L.zoneRoot q).toNat := fun heq ↦
      hq (L.zoneRoot_inj.mp (BitVec.eq_of_toNat_eq heq))
    omega
  have hwords₀ : s₀.words = populateWords s.words (L.zoneRoot kernelPid) 511 := by
    rw [h.start, (initPhysicalMemoryMap_tables (populated_idPagingSize L kernelPid s)).1,
      populated_words]
  rw [h.init.frame a (hapart _ hpid.2), populated_words,
    ZoneTables.populateWords_apart (L.zoneRoot_zone _) hzone
    (by rw [ne_eq, L.zoneRoot_inj]; exact hpid.2) ha ha',
    h.kernel.frame a (hapart _ hpid.1), hwords₀,
    ZoneTables.populateWords_apart (L.zoneRoot_zone _) hzone
    (by rw [ne_eq, L.zoneRoot_inj]; exact hpid.1) ha ha']

/-- The first memory between two forks is that after the boot. -/
theorem Booted.settled {s₀ s₁ s₂ : MmuState} (h : Booted L s s₀ s₁ s₂)
    (hhardware : s.ttbr0El1 &&& mask 47 1 = L.mmuTablesStart) :
    Settled L {kernelPid, initPid} s₂ 4 := by
  obtain ⟨hend, hle⟩ := L.toNat_endAddr_tables
  obtain ⟨hnext₀, hnext₁, hnext₂, hnext₃, -⟩ := h.next_div
  have hkernel := h.kernelLeaves
  have hexact := h.exactCounters
  have hnone (v : ℕ) (hlow : 0x3f000 ≤ v) (hv : v < 511 * 512) (hstack : ¬ IsStackPage v)
      (hperipheral : v ∉ peripheralPages) : leaf s₂.words L.mmuTablesStart v = none := by
    rw [← L.zoneRoot_kernel]
    exact hkernel.other v (by omega) hv hstack hperipheral
  -- the two pages of a stack are among the first four of the pool
  have hleaves (q : Pid) (hq : q ∈ ({kernelPid, initPid} : Finset Pid)) : ∃ p p' : Word,
      BootLeaves L s₂.words (L.zoneRoot q) p p' ∧
        (∃ i < 4, p.toNat / 0x1000 = poolPage (512 * L.kernelTables) i) ∧
        ∃ i < 4, p'.toNat / 0x1000 = poolPage (512 * L.kernelTables) i := by
    rw [Finset.mem_insert, Finset.mem_singleton] at hq
    rcases hq with rfl | rfl
    · exact ⟨_, _, hkernel, ⟨0, by omega, hnext₀⟩, 1, by omega, hnext₁⟩
    · exact ⟨_, _, h.init.leaves, ⟨2, by omega, hnext₂⟩, 3, by omega, hnext₃⟩
  have hcount (pa : Word) (habove : s₂.idPagingSize ≤ pa) (hram : pa.toNat < 0x40000000)
      (hpa : ∃ i < 4, pa.toNat / 0x1000 = poolPage (512 * L.kernelTables) i) :
      getBindCounter s₂ pa = 1 := by
    obtain ⟨i, hi, hpage⟩ := hpa
    rw [h.counter (h.pool₂.configured.idPagingSize ▸ habove) hram
      (by rw [hpage]; exact poolPage_notMem L (by omega)), hpage]
    simp only [(poolPage_injective _).eq_iff]
    obtain rfl | rfl | rfl | rfl : i = 0 ∨ i = 1 ∨ i = 2 ∨ i = 3 := by omega
    all_goals rfl
  constructor
  case kernelLive => exact Finset.mem_insert_self _ _
  case hardwareRoot => rw [h.ttbr0El1, hhardware]
  case pool => exact h.pool₂
  case kernelTables => exact L.zoneRoot_kernel ▸ hkernel.tables
  case reserved => exact hnone _ (by decide) (by decide) (by decide) (by decide)
  case reserved' => exact hnone _ (by decide) (by decide) (by decide) (by decide)
  case exact => exact hexact
  case stack =>
    intro q hq v hv
    obtain ⟨p, p', hboot, hp, hp'⟩ := hleaves q hq
    obtain ⟨e, hleaf, he⟩ := hboot.stack
    obtain ⟨e', hleaf', he'⟩ := hboot.stack'
    obtain ⟨habove, hram⟩ := hexact.range q hq _ (isUserPage_stack L).1 e hleaf
    obtain ⟨habove', hram'⟩ := hexact.range q hq _ (isUserPage_stack L).2 e' hleaf'
    rcases hv with rfl | rfl
    · exact ⟨e, hleaf, hcount _ habove hram (he ▸ hp)⟩
    · exact ⟨e', hleaf', hcount _ habove' hram' (he' ▸ hp')⟩
  case bound =>
    intro q hq v hv f hframe
    obtain ⟨p, p', hboot, ⟨i, hi, hp⟩, j, hj, hp'⟩ := hleaves q hq
    rcases (hboot.frameOf_user hv).mp hframe with ⟨-, hf⟩ | ⟨-, hf⟩
    · exact ⟨i, hi, hf.trans hp⟩
    · exact ⟨j, hj, hf.trans hp'⟩

/-- The boot leaves the level-2 entries of both processes as `BootLeaves` says. -/
theorem Booted.present_eq {s₀ s₁ s₂ : MmuState} (h : Booted L s s₀ s₁ s₂)
    (hq : q ∈ ({kernelPid, initPid} : Finset Pid)) {i : ℕ} (hi : i < 512) :
    present s₂.words (L.zoneRoot q) i = decide (i < L.kernelTables ∨ i = 504 ∨ i = 505) ∧
      ZoneTables s₂.words (L.zoneRoot q) 0 := by
  rw [Finset.mem_insert, Finset.mem_singleton] at hq
  rcases hq with rfl | rfl
  · exact ⟨h.kernelLeaves.present_eq i hi, h.kernelLeaves.tables⟩
  · exact ⟨h.init.leaves.present_eq i hi, h.init.leaves.tables⟩

/-- Both processes have the page of the timer. -/
theorem Booted.counter_timer {s₀ s₁ s₂ : MmuState} (h : Booted L s s₀ s₁ s₂) :
    getBindCounter s₂ timerIrqPage = 2 := by
  obtain ⟨hend, hle⟩ := L.toNat_endAddr_tables
  obtain ⟨hnext₀, hnext₁, hnext₂, hnext₃, -⟩ := h.next_div
  have htimer : timerIrqPage.toNat = 0x3f00b000 := rfl
  have hmem : timerIrqPage.toNat / 0x1000 ∈ peripheralPages := by decide
  have hzero : getBindCounter s₀ timerIrqPage = 0 := by
    rw [h.start]
    exact initPhysicalMemoryMap_counter rfl (by rw [BitVec.le_def, hend]; omega) (by decide)
  have hne (i : ℕ) (hi : i ≤ 5) : timerIrqPage.toNat / 0x1000 ≠ poolPage (512 * L.kernelTables) i :=
    fun heq ↦
    poolPage_notMem L (by omega) (heq ▸ hmem)
  have hsame : getBindCounter (populated L initPid s₁) timerIrqPage =
      getBindCounter s₁ timerIrqPage :=
    populated_counter L initPid s₁ _
  rw [h.init.counter, hnext₂, hnext₃, if_neg (hne 2 (by omega)), if_neg (hne 3 (by omega)),
    if_pos hmem, hsame, h.kernel.counter, hnext₀, hnext₁, if_neg (hne 0 (by omega)),
    if_neg (hne 1 (by omega)), if_pos hmem, hzero]
  rfl

/-- A system in which every process has the tables of its zone and is a child of `init`. -/
def forkSystem (L : Layout) : SystemState where
  currPid := initPid
  lastPid := initPid
  procs :=
      fun pid ↦ { zeroDescriptor with parentPid := initPid, memConf := ⟨L.zoneRoot pid, ⟨0, 0, 0⟩⟩ }
  prioProcN := fun _ ↦ 0
  nRunnableProcs := 1
  prioProc := fun _ ↦ none

theorem forkSystem_root (L : Layout) (pid : Pid) :
    getLvl2AddressFromSysState (forkSystem L) pid = L.zoneRoot pid := by
  have hzone := L.zoneRoot_zone pid
  have haligned := hzone.aligned
  have hbounded := hzone.bounded
  change L.zoneRoot pid &&& mask 47 1 = L.zoneRoot pid
  apply BitVec.eq_of_toNat_eq
  rw [toNat_and_mask _ (by omega) (by omega)]
  omega

theorem childOf_forkSystem (L : Layout) (hinit : initPid ∈ live) (hkernel : kernelPid ∈ live)
    (hpid : pid ∉ live) : ChildOf L (forkSystem L) live pid where
  process := ⟨fun heq ↦ hpid (heq ▸ hkernel), fun heq ↦ hpid (heq ▸ hinit)⟩
  fresh := hpid
  parent := hinit
  parentRoot := forkSystem_root L _
  kernelRoot := (forkSystem_root L kernelPid).trans L.zoneRoot_kernel

/-- After a boot over the words `w` the process `pid` can be forked, in a zone that still has these
words. -/
theorem exists_forkable (L : Layout) (hpid : pid ≠ kernelPid ∧ pid ≠ initPid) (w : ℕ → Word) :
    ∃ s p p', Forkable L (forkSystem L) {kernelPid, initPid} pid s p p' ∧
      ∀ a, (L.zoneRoot pid).toNat ≤ a → a < (L.zoneRoot pid).toNat + 0x200000 →
      s.words a = w a := by
  have hkernel := forkSystem_root L kernelPid
  have hroot : L.mmuTablesStart &&& mask 47 1 = L.mmuTablesStart := by
    rw [← L.zoneRoot_kernel]
    exact hkernel
  obtain ⟨-, hle⟩ := L.toNat_endAddr_tables
  obtain ⟨s₀, s₁, s₂, -, -, h⟩ := exists_booted L (forkSystem L)
    { sampleTables 0 with words := w, ttbr0El1 := L.mmuTablesStart }
  have hfresh : pid ∉ ({kernelPid, initPid} : Finset Pid) := by
    rw [Finset.mem_insert, Finset.mem_singleton]
    exact fun hor ↦ hor.elim hpid.1 hpid.2
  have hchild := childOf_forkSystem L (Finset.mem_insert_of_mem (Finset.mem_singleton_self _))
    (Finset.mem_insert_self _ _) hfresh
  obtain ⟨p, p', hready⟩ := (h.settled hroot).forkable hchild (by omega)
  exact ⟨s₂, p, p', hready, fun a ha ha' ↦ h.frame hpid ha ha'⟩

end SysresOs.Mmu
