import SysresOs.Memory.SpaceFork

/-!
# The shared pages after the boot

The boot leaves a shared memory with two processes, the kernel and `init`, that have their stacks
and no other page (`Booted.implements`).
-/

set_option autoImplicit false
set_option relaxedAutoImplicit false

namespace SysresOs.Mmu

open SysresOs.Outcome SysresOs.Sharing

open SysresOs.Proc (Pid SystemState kernelPid initPid)

variable {L : Layout} {sys : SystemState} {s t s₀ s₁ s₂ : MmuState} {root e : Word} {f v : ℕ}
  {q : Pid}

/-- The pages of a stack may be written. -/
def StackWritable (w : ℕ → Word) (root : Word) : Prop :=
  ∀ v, IsStackPage v → ∃ e, leaf w root v = some e ∧ e &&& 1#64 <<< 7 = 0

/-- The pages that the set-up of a root takes for the stack may be written. -/
theorem initIdentity_writable (hconf : Configured L s) (h : ZoneTables s.words s.lvl2TableAddress 0)
    (hpresent : ∀ i < 511, present s.words s.lvl2TableAddress i = true) (hfree : FreePair s)
    (hok : initIdentity L s = .ok t) : StackWritable t.words s.lvl2TableAddress := by
  obtain ⟨t₁, hok₁, ht₁⟩ := initIdentity_bound hconf h hpresent hfree
  obtain rfl := Except.ok.inj (hok₁.symm.trans hok)
  have hroot : t₁.lvl2TableAddress = s.lvl2TableAddress := by rw [ht₁.fixed]
  have htables := ht₁.tables _ 0 h
  obtain ⟨he, he'⟩ := isBlockEntry_stackEntry s
  intro v hv
  rw [words_stackBound _ _ hroot, htables.leaf_stack htables (Nat.zero_le _) (by omega) he he']
  rcases hv with rfl | rfl
  · refine ⟨stackEntry s, ?_, ?_⟩
    · rw [if_neg fun hand ↦ absurd hand.2 (by decide), if_pos ⟨rfl, rfl⟩]
    · rw [stackEntry, withAttributes_and _ _ _ (by decide)]
      decide
  · refine ⟨stackEntry' s, if_pos ⟨rfl, rfl⟩, ?_⟩
    rw [stackEntry', withAttributes_and _ _ _ (by decide)]
    decide

/-- The peripherals are bound after that. -/
theorem initIdentity_peripheral_writable (hconf : Configured L s) (hfree : FreePair s)
    (h : ZoneTables s.words s.lvl2TableAddress 0)
    (hpresent : ∀ i < 511, present s.words s.lvl2TableAddress i = true)
    (hok : (initIdentity L s >>= mapPeripheralPages) = .ok t) :
    StackWritable t.words s.lvl2TableAddress := by
  obtain ⟨t₁, hidentity, hperipheral⟩ := bind_eq_ok.mp hok
  have hwritable := initIdentity_writable hconf h hpresent hfree hidentity
  obtain ⟨t₁', hidentity', ht₁⟩ := initIdentity_eq hconf h hpresent hfree
  obtain rfl := Except.ok.inj (hidentity'.symm.trans hidentity)
  have hroot : t₁'.lvl2TableAddress = s.lvl2TableAddress := by rw [ht₁.fixed]; rfl
  have hconf' : Configured L t₁' := by
    rw [ht₁.fixed]
    exact ⟨hconf.idPagingSize, hconf.bindCounter, hconf.bindCounterOffset⟩
  obtain ⟨t', hperipheral', ht'⟩ :=
    mapPeripheralPages_eq hconf' (hroot ▸ ht₁.tables _ 0 h) (by omega)
  obtain rfl := Except.ok.inj (hperipheral'.symm.trans hperipheral)
  rw [hroot] at ht'
  intro v hv
  rw [ht'.leaf_eq _ 0 (ht₁.tables _ 0 h) v (Nat.zero_le _) (by omega), if_neg]
  · exact hwritable v hv
  · rintro ⟨-, hmem⟩
    rw [mem_peripheralPages] at hmem
    omega

/-- The stacks of the kernel and of `init` may be written after the boot. -/
theorem Booted.stackWritable (h : Booted L s s₀ s₁ s₂)
    (hkernel : cInitMmu L sys kernelPid s = .ok s₁)
    (hinit : cInitMmu L sys initPid s₁ = .ok s₂) (hq : q = kernelPid ∨ q = initPid) :
    StackWritable s₂.words (L.zoneRoot q) := by
  obtain ⟨hend, hle⟩ := L.toNat_endAddr_tables
  rcases hq with rfl | rfl
  · obtain ⟨hwords, hroot, -⟩ := initPhysicalMemoryMap_tables (populated_idPagingSize L kernelPid s)
    rw [populated_words] at hwords
    rw [populated_lvl2TableAddress] at hroot
    rw [cInitMmu_eq, if_pos (.inl rfl), if_pos rfl] at hkernel
    have htables :
        ZoneTables (populateWords s.words (L.zoneRoot kernelPid) 511) (L.zoneRoot kernelPid) 0 :=
      .ofPopulate (L.zoneRoot_zone kernelPid)
    have hpool : PoolAt L (initPhysicalMemoryMap L (populated L kernelPid s)) 0 :=
      .start (populated_idPagingSize L kernelPid s)
    have hwritable := initIdentity_peripheral_writable hpool.configured (hpool.freePair (by omega))
      (by rwa [hwords, hroot]) (by rw [hwords, hroot]; exact fun i hi ↦ present_populateWords hi)
      hkernel
    rw [hroot] at hwritable
    -- the tables of `init` are other ones
    have hne : L.zoneRoot kernelPid ≠ L.zoneRoot initPid := by
      rw [ne_eq, L.zoneRoot_inj]
      decide
    have hzone := L.zoneRoot_zone initPid
    have htables₁ := h.kernel.leaves.tables
    intro v hv
    rw [h.init.otherLeaf _ 0 (by rw [populated_words]; exact htables₁.populate hzone hne) hne v
      (Nat.zero_le _)
      (by omega), populated_words, htables₁.leaf_populate hzone hne (Nat.zero_le _) (by omega)]
    exact hwritable v hv
  · rw [cInitMmu_eq, if_pos (.inr rfl), if_neg (by decide)] at hinit
    have hroot := populated_lvl2TableAddress L initPid s₁
    have htables : ZoneTables (populated L initPid s₁).words (L.zoneRoot initPid) 0 := by
      rw [populated_words]
      exact .ofPopulate (L.zoneRoot_zone initPid)
    have hpresent : ∀ i < 511, present (populated L initPid s₁).words (L.zoneRoot initPid) i =
        true := by
      rw [populated_words]
      exact fun i hi ↦ present_populateWords hi
    have hwritable := initIdentity_peripheral_writable (populated_configured h.pool₁.configured)
      (h.populated_pool.freePair (by omega)) (hroot.symm ▸ htables) (hroot.symm ▸ hpresent) hinit
    rw [hroot] at hwritable
    exact hwritable

/-! ### The shared memory -/

/-- The first processes. -/
def bootTenants : Finset Tenant := {(kernelPid, 0), (initPid, 0)}

/-- The shared memory after the boot. -/
def bootPages (L : Layout) (s : MmuState) : SharedPages where
  procs := bootTenants
  map := fun p v ↦ if p ∈ bootTenants then userMapping L s.words p.1 v else none
  contents := pageBytes s.pages
  free := (List.range' 4 (freeLimit L - 4)).map (poolPage (512 * L.kernelTables))

theorem mem_bootTenants {p : Tenant} :
    p ∈ bootTenants ↔ (p.1 = kernelPid ∨ p.1 = initPid) ∧ p.2 = 0 := by
  obtain ⟨q, n⟩ := p
  simp only [bootTenants, Finset.mem_insert, Finset.mem_singleton, Prod.mk.injEq]
  tauto

/-- The pages of the pool below the peripherals. -/
theorem poolPage_eq {i : ℕ} (hi : i < freeLimit L) :
    poolPage (512 * L.kernelTables) i = 512 * L.kernelTables + i ∧
      IsFrame L (poolPage (512 * L.kernelTables) i) := by
  rw [freeLimit] at hi
  have hskip : skipped (512 * L.kernelTables) (i + 1) = 0 := by
    unfold skipped
    exact if_pos (by omega)
  rw [IsFrame, poolPage, hskip]
  omega

/-- Every frame is a page of the pool. -/
theorem IsFrame.exists_poolPage (hf : IsFrame L f) :
    ∃ i < freeLimit L, f = poolPage (512 * L.kernelTables) i := by
  have hi : f - 512 * L.kernelTables < freeLimit L := by
    rw [freeLimit]
    have := hf.1
    have := hf.2
    omega
  refine ⟨_, hi, ?_⟩
  rw [(poolPage_eq hi).1]
  have := hf.1
  omega

theorem bootPages_frameOf {p : Tenant} : (bootPages L s).frameOf p v = some f ↔
    p ∈ bootTenants ∧ IsUserPage L v ∧ frameOf s.words (L.zoneRoot p.1) v = some f := by
  rw [SharedMemory.frameOf, bootPages]
  dsimp only
  split_ifs with hp
  · rw [userMapping, frameOf_eq]
    split_ifs with hv
    · exact (and_iff_right hp).trans (and_iff_right hv) |>.symm
    · exact iff_of_false (by rintro ⟨⟩) fun hand ↦ hv hand.2.1
  · exact iff_of_false (by rintro ⟨⟩) fun hand ↦ hp hand.1

theorem bootPages_free : (bootPages L s).free =
    (List.range' 4 (freeLimit L - 4)).map (poolPage (512 * L.kernelTables)) := by
  rw [bootPages]

theorem mem_bootPages_free : f ∈ (bootPages L s).free ↔
    ∃ i, 4 ≤ i ∧ i < freeLimit L ∧ f = poolPage (512 * L.kernelTables) i := by
  rw [bootPages_free, List.mem_map]
  constructor
  · rintro ⟨i, hi, rfl⟩
    rw [List.mem_range'_1] at hi
    exact ⟨i, hi.1, by omega, rfl⟩
  · rintro ⟨i, hlow, hi, hfi⟩
    exact ⟨i, List.mem_range'_1.mpr ⟨hlow, by omega⟩, hfi.symm⟩

namespace Booted

/-- The pages that the boot takes are bound once. -/
theorem counter_taken (h : Booted L s s₀ s₁ s₂) (hroom : L.kernelTables < 504) {i : ℕ} (hi : i < 4)
    (hfi : f = poolPage (512 * L.kernelTables) i) :
    IsFrame L f ∧ getBindCounter s₂ (frameAddress f) = 1 := by
  have hframe : IsFrame L f := hfi ▸ (poolPage_eq (by rw [freeLimit]; omega)).2
  have haddress := toNat_frameAddress hframe
  have hlt := hframe.2
  have hdiv : (frameAddress f).toNat / 0x1000 = f := by
    rw [haddress, Nat.mul_div_cancel_left f (by decide)]
  refine ⟨hframe, ?_⟩
  rw [h.counter (le_frameAddress hframe) (by omega) (by rw [hdiv]; exact hframe.notMem), hdiv, hfi]
  simp only [(poolPage_injective _).eq_iff]
  obtain rfl | rfl | rfl | rfl : i = 0 ∨ i = 1 ∨ i = 2 ∨ i = 3 := by omega
  all_goals rfl

/-- All that is mapped after the boot is one of these pages. -/
theorem exists_taken (h : Booted L s s₀ s₁ s₂)
    (hhardware : s.ttbr0El1 &&& mask 47 1 = L.mmuTablesStart) {p : Tenant}
    (hframe : (bootPages L s₂).frameOf p v = some f) :
    p.1 ∈ ({kernelPid, initPid} : Finset Pid) ∧ ∃ i < 4, f = poolPage (512 * L.kernelTables) i := by
  obtain ⟨hp, hv, hframe⟩ := bootPages_frameOf.mp hframe
  have hmem : p.1 ∈ ({kernelPid, initPid} : Finset Pid) := by
    rw [Finset.mem_insert, Finset.mem_singleton]
    exact (mem_bootTenants.mp hp).1
  exact ⟨hmem, (h.settled hhardware).bound _ hmem v hv f hframe⟩

/-- The shared memory after the boot is sound. -/
theorem sound (h : Booted L s s₀ s₁ s₂) (hroom : L.kernelTables < 504)
    (hhardware : s.ttbr0El1 &&& mask 47 1 = L.mmuTablesStart) : (bootPages L s₂).Sound := by
  have hexact := h.exactCounters
  constructor
  case absent => exact fun p hp v ↦ if_neg hp
  case once =>
    intro p u v f hu hv
    obtain ⟨hmem, -⟩ := h.exists_taken hhardware hu
    obtain ⟨-, huser, hframe⟩ := bootPages_frameOf.mp hu
    obtain ⟨-, huser', hframe'⟩ := bootPages_frameOf.mp hv
    exact hexact.once _ hmem u v f (.inl huser) (.inl huser') hframe hframe'
  case single =>
    intro p q u v f hu hv
    obtain ⟨hp, i, hi, hfi⟩ := h.exists_taken hhardware (SharedMemory.frameOf_eq_some hu)
    obtain ⟨hq, -⟩ := h.exists_taken hhardware hv
    obtain ⟨hptenant, huser, hframe⟩ := bootPages_frameOf.mp (SharedMemory.frameOf_eq_some hu)
    obtain ⟨hqtenant, huser', hframe'⟩ := bootPages_frameOf.mp hv
    obtain ⟨e, hleaf, he⟩ := Option.map_eq_some_iff.mp hframe
    have hone : getBindCounter s₂ (entryAddress e) = 1 := by
      rw [entryAddress_eq]
      exact (h.counter_taken hroom hi (he.trans hfi)).2
    have hsame := (hexact.eq_of_counter_one hp huser hleaf hone hq huser' (by rw [hframe', ← he])).1
    exact Prod.ext hsame ((mem_bootTenants.mp hqtenant).2.trans
      (mem_bootTenants.mp hptenant).2.symm)
  case nodup =>
    rw [bootPages_free]
    exact List.Nodup.map (poolPage_injective _) List.nodup_range'
  case unbound =>
    intro f hf p v hframe
    obtain ⟨-, i, hi, heq⟩ := h.exists_taken hhardware hframe
    obtain ⟨j, hj, -, hfj⟩ := mem_bootPages_free.mp hf
    have hij := poolPage_injective _ (heq.symm.trans hfj)
    omega

/-- The shared memory after the boot has the stacks. -/
theorem hasPrivate (hwritable : ∀ q, q = kernelPid ∨ q = initPid → StackWritable s₂.words
    (L.zoneRoot q)) : (bootPages L s₂).HasPrivate stackPages := by
  intro p hp v hv
  obtain ⟨e, hleaf, hbit⟩ := hwritable p.1 (mem_bootTenants.mp hp).1 v (mem_stackPages.mp hv)
  have huser : IsUserPage L v := by
    rcases mem_stackPages.mp hv with rfl | rfl
    · exact (isUserPage_stack L).1
    · exact (isUserPage_stack L).2
  refine ⟨(mappingOf e).frame, (if_pos hp).trans ?_⟩
  rw [userMapping_of_user huser, hleaf, Option.map_some, mappingOf, decide_eq_true hbit]

/-- The processes that hold a frame are those that the counters count. -/
theorem card_holders (f : ℕ) :
    ((bootPages L s₂).holders f).card = (holders L s₂.words {kernelPid, initPid} f).card := by
  have hmap : (bootPages L s₂).holders f =
      (holders L s₂.words {kernelPid, initPid} f).map ⟨fun q ↦ (q, 0),
      fun _ _ heq ↦ congrArg Prod.fst heq⟩ := by
    ext p
    rw [SharedMemory.mem_holders, Finset.mem_map]
    constructor
    · rintro ⟨hp, v, hframe⟩
      obtain ⟨-, huser, hframe⟩ := bootPages_frameOf.mp hframe
      obtain ⟨hmem, hzero⟩ := mem_bootTenants.mp hp
      exact ⟨p.1, mem_holders.mpr ⟨by simpa using hmem, v, huser, hframe⟩, Prod.ext rfl hzero.symm⟩
    · rintro ⟨q, hq, rfl⟩
      obtain ⟨hmem, v, huser, hframe⟩ := mem_holders.mp hq
      have hp : (q, 0) ∈ bootTenants := mem_bootTenants.mpr ⟨by simpa using hmem, rfl⟩
      exact ⟨hp, v, bootPages_frameOf.mpr ⟨hp, huser, hframe⟩⟩
  rw [hmap, Finset.card_map]

/-- The memory after the boot is a shared memory of the kernel and `init`. -/
theorem implements (h : Booted L s s₀ s₁ s₂) (hroom : L.kernelTables < 504)
    (hhardware : s.ttbr0El1 &&& mask 47 1 = L.mmuTablesStart) :
    Implements L (fun q ↦ q = kernelPid ∨ q = initPid) (fun _ ↦ 0) s₂ (bootPages L s₂) := by
  obtain ⟨-, hle⟩ := L.toNat_endAddr_tables
  have hsettled := h.settled hhardware
  have hmem (q : Pid) (hq : q = kernelPid ∨ q = initPid) :
      q ∈ ({kernelPid, initPid} : Finset Pid) := by simpa using hq
  have htenant (q : Pid) (hq : q = kernelPid ∨ q = initPid) : (q, 0) ∈ bootTenants :=
    mem_bootTenants.mpr ⟨hq, rfl⟩
  constructor
  case configured => exact hsettled.pool.configured
  case hardwareRoot => exact hsettled.hardwareRoot
  case kernelTables => exact hsettled.kernelTables
  case reserved => exact hsettled.reserved
  case reserved' => exact hsettled.reserved'
  case tables => exact fun q hq ↦ hsettled.exact.tables q (hmem q hq)
  case procs => exact fun q hq ↦ htenant q hq
  case map => exact fun q hq v ↦ if_pos (htenant q hq)
  case frame =>
    intro p v f hframe
    obtain ⟨-, i, hi, hfi⟩ := h.exists_taken hhardware hframe
    exact (h.counter_taken hroom hi hfi).1
  case counter =>
    intro f hf
    have hlt := hf.2
    have haddress := toNat_frameAddress hf
    have hdiv : (frameAddress f).toNat / 0x1000 = f := by
      rw [haddress, Nat.mul_div_cancel_left f (by decide)]
    have hcount := hsettled.exact.counter (frameAddress f)
      (by rw [hsettled.pool.configured.idPagingSize]; exact le_frameAddress hf) (by omega)
      (by rw [hdiv]; exact hf.notMem)
    rw [hcount, hdiv, card_holders]
  case contents => exact fun f _ ↦ rfl
  case free =>
    have hhead := hsettled.pool.head
    constructor
    case size => exact hsettled.pool.size
    case head =>
      rw [hhead, bootPages_free, List.length_map, List.length_range', freeLimit]
      omega
    case entry =>
      intro i hi
      have hlength : (bootPages L s₂).free.length = freeLimit L - 4 := by
        rw [bootPages_free, List.length_map, List.length_range']
      rw [hlength, freeLimit] at hi
      have hentry := hsettled.pool.entry (4 + i) (by omega)
      rw [BitVec.toNat_setWidth_of_le (by decide)] at hentry
      simp only [hhead, hentry, bootPages_free, List.getElem_map, List.getElem_range', Nat.one_mul]
    case frame =>
      intro f hf
      obtain ⟨i, -, hi, hfi⟩ := mem_bootPages_free.mp hf
      exact hfi ▸ (poolPage_eq hi).2

/-- After the boot every frame is free or held. -/
theorem accounted (h : Booted L s s₀ s₁ s₂) (hroom : L.kernelTables < 504)
    (hhardware : s.ttbr0El1 &&& mask 47 1 = L.mmuTablesStart) (hf : IsFrame L f) :
    (bootPages L s₂).Accounted f := by
  obtain ⟨i, hi, hfi⟩ := hf.exists_poolPage
  by_cases htaken : i < 4
  · right
    have hcount := (h.implements hroom hhardware).counter _ hf
    rw [(h.counter_taken hroom htaken hfi).2] at hcount
    rw [← Finset.card_pos]
    by_contra hzero
    rw [Nat.eq_zero_of_not_pos hzero] at hcount
    exact absurd hcount (by decide)
  · exact .inl (mem_bootPages_free.mpr ⟨i, by omega, hi, hfi⟩)

/-- A process has no user page but its stack. -/
theorem leaf_none (h : Booted L s s₀ s₁ s₂) (hq : q = kernelPid ∨ q = initPid) (hv : IsUserPage L v)
    (hstack : v ∉ stackPages) : leaf s₂.words (L.zoneRoot q) v = none := by
  obtain ⟨hrow, hlt, htimer⟩ := hv
  have htimerPage : timerPage = 0x3f00b := rfl
  have hperipheral : v ∉ peripheralPages := by
    rw [mem_peripheralPages]
    omega
  have hnot : ¬ IsStackPage v := fun hmem ↦ hstack (mem_stackPages.mpr hmem)
  rcases hq with rfl | rfl
  · exact h.kernelLeaves.other v (by omega) (by omega) hnot hperipheral
  · exact h.init.leaves.other v (by omega) (by omega) hnot hperipheral

end Booted

end SysresOs.Mmu
