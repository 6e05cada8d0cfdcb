import SysresOs.Memory.Conservation

/-!
# The pool at boot and at its end

Which pages `init_physical_memory_map` puts into the map, and what `get_unbound_physical_page`
returns when there are none left. The loop skips three of the four pages of the peripherals: the
page after `GPIO_BASE` is stored in the round that skips `GPIO_BASE` (`not_poolRight`). The guard of
`get_unbound_physical_page` compares `head` with `0x100000`, which is more than the number of
entries: `detects_iff` says that the function keeps to the pages it was given exactly as long as one
is left.
-/

set_option autoImplicit false
set_option relaxedAutoImplicit false

namespace SysresOs.Mmu

open SysresOs.Outcome SysresOs.Trace

/-! ### The initial pool -/

/-- The four pages that `map_peripheral_pages` binds. -/
def IsPeripheral (pa : Word) : Prop :=
  pa = gpioBase ∨ pa = gpioBase + 0x1000 ∨ pa = gpioBase + 0x15000 ∨ pa = timerIrqPage

/-- A pool of all pages from an address to the end of the memory but those of the peripherals, each
page once. -/
structure PoolRight (id : Word) (pool : List Word) : Prop where
  nodup : pool.Nodup
  aligned : ∀ pa ∈ pool, pa.toNat % 0x1000 = 0
  range : ∀ pa ∈ pool, id ≤ pa ∧ pa < ramSize
  peripheral : ∀ pa ∈ pool, ¬ IsPeripheral pa
  complete : ∀ pa : Word, pa.toNat % 0x1000 = 0 → id ≤ pa → pa < ramSize →
    ¬ IsPeripheral pa → pa ∈ pool

variable {L : Layout} {s s' s₀ : MmuState} {q n : ℕ} {pa : Word}

/-- The pages that the rounds of the loop store. -/
theorem exists_poolPage_iff (hq : q ≤ 0x3f000) {f : ℕ} : (∃ i < 0x3fffd - q, f = poolPage q i) ↔
    q ≤ f ∧ f < 0x40000 ∧ f ≠ 0x3f00b ∧ f ≠ 0x3f200 ∧ f ≠ 0x3f215 := by
  constructor
  · rintro ⟨i, hi, rfl⟩
    unfold poolPage skipped
    split_ifs <;> omega
  · rintro ⟨hlow, hhigh, htimer, hgpio, hgpio'⟩
    have hskip : ∃ d, d ≤ 3 ∧ skipped q (f - q - d + 1) = d ∧ d ≤ f - q := by
      unfold skipped
      rcases Nat.lt_or_ge f 0x3f00b with h | h
      · exact ⟨0, by omega, if_pos (by omega), by omega⟩
      rcases Nat.lt_or_ge f 0x3f200 with h' | h'
      · refine ⟨1, by omega, ?_, by omega⟩
        rw [if_neg (by omega), if_pos (by omega)]
      rcases Nat.lt_or_ge f 0x3f215 with h'' | h''
      · refine ⟨2, by omega, ?_, by omega⟩
        rw [if_neg (by omega), if_neg (by omega), if_pos (by omega)]
      · refine ⟨3, by omega, ?_, by omega⟩
        rw [if_neg (by omega), if_neg (by omega), if_neg (by omega)]
    obtain ⟨d, hd, heq, hle⟩ := hskip
    refine ⟨f - q - d, ?_, ?_⟩
    · unfold skipped at heq
      split_ifs at heq <;> omega
    · rw [poolPage, heq]
      omega

/-- The entries that `init_physical_memory_map` writes: every page but three. -/
theorem mem_initialPool_iff (L : Layout) (hq : s.idPagingSize.toNat = 0x1000 * q)
    (hid : q ≤ 0x3f000) : pa ∈ initialPool (initPhysicalMemoryMap L s) ↔
    pa.toNat % 0x1000 = 0 ∧ s.idPagingSize ≤ pa ∧ pa < ramSize ∧
      pa ≠ timerIrqPage ∧ pa ≠ gpioBase ∧ pa ≠ gpioBase + 0x15000 := by
  have hram : ramSize.toNat = 0x40000000 := rfl
  have htimer : timerIrqPage.toNat = 0x1000 * 0x3f00b := rfl
  have hgpio : gpioBase.toNat = 0x1000 * 0x3f200 := rfl
  have hgpio' : (gpioBase + 0x15000).toNat = 0x1000 * 0x3f215 := rfl
  have hpage : (∃ i < 0x3fffd - q, pa.toNat = 0x1000 * poolPage q i) ↔
      pa.toNat % 0x1000 = 0 ∧ ∃ i < 0x3fffd - q, pa.toNat / 0x1000 = poolPage q i := by
    constructor
    · rintro ⟨i, hi, heq⟩
      exact ⟨by omega, i, hi, by omega⟩
    · rintro ⟨haligned, i, hi, heq⟩
      exact ⟨i, hi, by omega⟩
  have hne : (pa ≠ timerIrqPage ↔ pa.toNat ≠ 0x1000 * 0x3f00b) ∧
      (pa ≠ gpioBase ↔ pa.toNat ≠ 0x1000 * 0x3f200) ∧
      (pa ≠ gpioBase + 0x15000 ↔ pa.toNat ≠ 0x1000 * 0x3f215) := by
    rw [← htimer, ← hgpio, ← hgpio']
    exact ⟨not_congr BitVec.toNat_inj.symm, not_congr BitVec.toNat_inj.symm,
      not_congr BitVec.toNat_inj.symm⟩
  rw [mem_initialPool L hq hid, hpage, exists_poolPage_iff hid, BitVec.le_def, BitVec.lt_def,
    hq, hram, hne.1, hne.2.1, hne.2.2]
  omega

/-- The page after `GPIO_BASE` is in the pool that `init_physical_memory_map` fills. -/
theorem not_poolRight (L : Layout) (hid : s.idPagingSize.toNat % 0x1000 = 0)
    (hperipherals : s.idPagingSize.toNat ≤ 0x3f000000) :
    ¬ PoolRight s.idPagingSize (initialPool (initPhysicalMemoryMap L s)) := by
  intro h
  have hq : s.idPagingSize.toNat = 0x1000 * (s.idPagingSize.toNat / 0x1000) := by omega
  have hgpio : (gpioBase + 0x1000).toNat = 0x3f201000 := rfl
  refine h.peripheral (gpioBase + 0x1000) ((mem_initialPool_iff L hq (by omega)).mpr ?_)
    (.inr (.inl rfl))
  refine ⟨by rw [hgpio], ?_, by decide, by decide, by decide, by decide⟩
  rw [BitVec.le_def, hgpio]
  omega

/-- The pool of a small image. -/
theorem not_poolRight_sampleTables :
    ¬ PoolRight (sampleTables 0).idPagingSize
      (initialPool (initPhysicalMemoryMap sampleLayout (sampleTables 0))) :=
  not_poolRight sampleLayout (by decide) (by decide)

/-- The page that is stored although it belongs to a peripheral. -/
theorem gpio_mem_initialPool :
    gpioBase + 0x1000 ∈ initialPool (initPhysicalMemoryMap sampleLayout (sampleTables 0)) ∧
      ¬ PoolRight (sampleTables 0).idPagingSize
        (initialPool (initPhysicalMemoryMap sampleLayout (sampleTables 0))) := by
  have hmem :
      gpioBase + 0x1000 ∈ initialPool (initPhysicalMemoryMap sampleLayout (sampleTables 0)) :=
    (mem_initialPool_iff sampleLayout (q := 0x4400) rfl (by decide)).mpr
      ⟨by decide, by decide, by decide, by decide, by decide, by decide⟩
  exact ⟨hmem, fun h ↦ h.peripheral _ hmem (.inr (.inl rfl))⟩

/-! ### The end of the pool -/

/-- The memory, and the addresses that were pushed onto the map. -/
structure MapState where
  mmu : MmuState
  pushed : List Word

/-- The steps that allocate and free pages. -/
inductive MapAction
  /-- `get_unbound_physical_page`. -/
  | take
  /-- `free_physical_page`. -/
  | push (pa : Word)
  /-- Whatever leaves the map alone: a change of the tables, of a counter, of the pages. -/
  | other (s : MmuState)

/-- One step. -/
def mapStep (t : MapState) : MapAction → Except Stop MapState
  | .take => do
    let (s, _) ← getUnboundPhysicalPage t.mmu
    .ok ⟨s, t.pushed⟩
  | .push pa => do
    let s ← freePhysicalPage t.mmu pa
    .ok ⟨s, pa :: t.pushed⟩
  | .other s => .ok ⟨{ s with physicalMemoryMap := t.mmu.physicalMemoryMap }, t.pushed⟩

/-- An allocation is made while one of the `n` entries is left, and an address that is pushed fits
into an entry. -/
def WithinPool (n : ℕ) (t : MapState) : MapAction → Prop
  | .take => t.mmu.physicalMemoryMap.head.toNat < n
  | .push pa => pa.toNat < 2 ^ 32
  | .other _ => True

/-- The sequences of steps from boot, of those that satisfy a condition. -/
abbrev MapRun (C : MapState → MapAction → Prop) (s₀ : MmuState) :
    List (Transition MapState MapAction) → MapState → Prop :=
  Run (fun t ↦ t = ⟨s₀, []⟩) fun t a t' ↦ C t a ∧ mapStep t a = .ok t'

/-- `get_unbound_physical_page` returns only pages of the pool and pages that were pushed, and none
when all of them are in use. -/
structure DetectsExhaustion (pool : List Word) (t : MapState) : Prop where
  known : ∀ s pa, getUnboundPhysicalPage t.mmu = .ok (s, pa) → pa ∈ pool ∨ pa ∈ t.pushed
  aborts : pool.length ≤ t.mmu.physicalMemoryMap.head.toNat → ¬ Ends (getUnboundPhysicalPage t.mmu)

/-- What the steps keep: the entries from `head` on are known. -/
structure MapInvariant (pool : List Word) (t : MapState) : Prop where
  size : t.mmu.physicalMemoryMap.size = 0x100000
  head : t.mmu.physicalMemoryMap.head.toNat ≤ pool.length
  known : ∀ i, t.mmu.physicalMemoryMap.head.toNat ≤ i → i < pool.length →
    (t.mmu.physicalMemoryMap.map i).setWidth 64 ∈ pool ∨
    (t.mmu.physicalMemoryMap.map i).setWidth 64 ∈ t.pushed

variable {pool : List Word} {t t' : MapState} {a : MapAction}

theorem MapInvariant.take (h : MapInvariant pool t)
    (hleft : t.mmu.physicalMemoryMap.head.toNat < pool.length)
    (hpool : pool.length ≤ 0x40000) (hstep : mapStep t .take = .ok t') : MapInvariant pool t' := by
  obtain ⟨⟨s', pa⟩, hget, hok⟩ := bind_eq_ok.mp hstep
  have hsize := h.size
  have hlt : t.mmu.physicalMemoryMap.head < t.mmu.physicalMemoryMap.size := by
    rw [BitVec.lt_def, hsize]
    exact (by omega : t.mmu.physicalMemoryMap.head.toNat < 0x100000)
  rw [getUnboundPhysicalPage_eq hlt] at hget
  obtain ⟨rfl, -⟩ := Prod.mk.inj (Except.ok.inj hget)
  obtain rfl := Except.ok.inj hok
  have hone : (1 : BitVec 32).toNat = 1 := rfl
  have hhead :
      (t.mmu.physicalMemoryMap.head + 1).toNat = t.mmu.physicalMemoryMap.head.toNat + 1 := by
    rw [BitVec.toNat_add, hone]
    omega
  refine ⟨hsize, hhead.le.trans hleft, fun i hi hi' ↦ h.known i ?_ hi'⟩
  exact (Nat.le_succ _).trans (hhead.ge.trans hi)

theorem MapInvariant.push (h : MapInvariant pool t) (hpa : pa.toNat < 2 ^ 32)
    (hstep : mapStep t (.push pa) = .ok t') : MapInvariant pool t' := by
  obtain ⟨s', hfree, hok⟩ := bind_eq_ok.mp hstep
  obtain rfl := Except.ok.inj hok
  rw [freePhysicalPage] at hfree
  obtain ⟨⟨⟩, hpos, hfree⟩ := bind_eq_ok.mp hfree
  obtain ⟨⟨⟩, -, hfree⟩ := bind_eq_ok.mp hfree
  obtain ⟨⟨⟩, -, hfree⟩ := bind_eq_ok.mp hfree
  obtain rfl := Except.ok.inj hfree
  have hpos' : 0 < t.mmu.physicalMemoryMap.head := of_decide_eq_true (of_assert_ok hpos)
  have hone : (1 : BitVec 32).toNat = 1 := rfl
  have hpos'' : 0 < t.mmu.physicalMemoryMap.head.toNat := hpos'
  have hroom := h.head
  have hhead :
      (t.mmu.physicalMemoryMap.head - 1).toNat = t.mmu.physicalMemoryMap.head.toNat - 1 := by
    rw [BitVec.toNat_sub, hone]
    omega
  have hvalue : (pa.setWidth 32).setWidth 64 = pa := by
    apply BitVec.eq_of_toNat_eq
    rw [BitVec.toNat_setWidth, BitVec.toNat_setWidth]
    omega
  refine ⟨h.size, hhead.le.trans (by omega), fun i hi hi' ↦ ?_⟩
  dsimp only at hi ⊢
  by_cases heq : i = (t.mmu.physicalMemoryMap.head - 1).toNat
  · rw [heq, Function.update_self, hvalue]
    exact .inr List.mem_cons_self
  · rw [Function.update_of_ne heq]
    exact (h.known i (by omega) hi').imp_right (List.mem_cons_of_mem pa)

theorem MapInvariant.step (h : MapInvariant pool t) (hpool : pool.length ≤ 0x40000)
    (hwithin : WithinPool pool.length t a) (hstep : mapStep t a = .ok t') :
    MapInvariant pool t' := by
  cases a with
  | take => exact h.take hwithin hpool hstep
  | push pa => exact h.push hwithin hstep
  | other s =>
    obtain rfl := Except.ok.inj hstep
    exact ⟨h.size, h.head, h.known⟩

/-- The function keeps to the pool exactly as long as an entry is left. -/
theorem MapInvariant.detected_iff (h : MapInvariant pool t) (hpool : pool.length ≤ 0x40000) :
    DetectsExhaustion pool t ↔ t.mmu.physicalMemoryMap.head.toNat < pool.length := by
  have hhead := h.head
  have hlt : t.mmu.physicalMemoryMap.head < t.mmu.physicalMemoryMap.size := by
    rw [BitVec.lt_def, h.size]
    exact (by omega : t.mmu.physicalMemoryMap.head.toNat < 0x100000)
  have hget := getUnboundPhysicalPage_eq hlt
  constructor
  · intro hdetects
    by_contra hge
    exact hdetects.aborts (by omega) ⟨_, hget⟩
  · intro hleft
    refine ⟨fun s' pa heq ↦ ?_, fun hge ↦ absurd hleft (by omega)⟩
    rw [hget] at heq
    obtain ⟨-, rfl⟩ := Prod.mk.inj (Except.ok.inj heq)
    exact h.known _ le_rfl hleft

/-- The pool of an image that ends below the peripherals. -/
theorem mapInvariant_boot (L : Layout) (hid : s.idPagingSize.toNat % 0x1000 = 0)
    (hperipherals : s.idPagingSize.toNat ≤ 0x3f000000) :
    (initialPool (initPhysicalMemoryMap L s)).length = poolSize s.idPagingSize ∧
      poolSize s.idPagingSize ≤ 0x40000 ∧
      (initPhysicalMemoryMap L s).physicalMemoryMap.head.toNat = 0 ∧
      MapInvariant (initialPool (initPhysicalMemoryMap L s)) ⟨initPhysicalMemoryMap L s, []⟩ := by
  obtain ⟨q, hq⟩ : ∃ q, s.idPagingSize.toNat = 0x1000 * q :=
    ⟨s.idPagingSize.toNat / 0x1000, by omega⟩
  have hqle : q ≤ 0x3f000 := by omega
  have hlength : (initialPool (initPhysicalMemoryMap L s)).length = poolSize s.idPagingSize := by
    rw [initialPool_eq L hq hqle, List.length_map, List.length_range, poolSize_eq hq hqle]
  obtain ⟨counters, hinit, -⟩ := initPhysicalMemoryMap_eq L hq hqle
  have hsize : (initPhysicalMemoryMap L s).physicalMemoryMap.size = 0x100000 := by rw [hinit]; rfl
  have hhead : (initPhysicalMemoryMap L s).physicalMemoryMap.head.toNat = 0 := by rw [hinit]; rfl
  have hid' : (initPhysicalMemoryMap L s).idPagingSize = s.idPagingSize := by rw [hinit]; rfl
  have hpool : poolSize s.idPagingSize ≤ 0x40000 := by
    rw [poolSize_eq hq hqle]
    omega
  obtain ⟨s₀, hs₀⟩ : ∃ s₀, initPhysicalMemoryMap L s = s₀ := ⟨_, rfl⟩
  rw [hs₀] at hlength hsize hhead hid' ⊢
  refine ⟨hlength, hpool, hhead, hsize, hhead.le.trans (Nat.zero_le _), fun i _ hi ↦ .inl ?_⟩
  rw [hlength] at hi
  rw [initialPool, freePages, hid', hhead, Nat.sub_zero]
  refine List.mem_map.mpr ⟨i, List.mem_range.mpr hi, ?_⟩
  rw [Nat.zero_add]

theorem MapRun.mapInvariant (L : Layout) (hid : s.idPagingSize.toNat % 0x1000 = 0)
    (hperipherals : s.idPagingSize.toNat ≤ 0x3f000000)
    {history : List (Transition MapState MapAction)}
    (hrun : MapRun (WithinPool (poolSize s.idPagingSize)) (initPhysicalMemoryMap L s) history t) :
    MapInvariant (initialPool (initPhysicalMemoryMap L s)) t := by
  obtain ⟨hlength, hpool, -, hstart⟩ := mapInvariant_boot L hid hperipherals
  rw [← hlength] at hpool hrun
  exact hrun.state_invariant (fun t ht ↦ ht ▸ hstart) fun t a t' hinv ⟨hwithin, hstep⟩ ↦
    hinv.step hpool hwithin hstep

/-- In every run whose allocations are made while an entry is left, the end of the pool is detected
exactly in the states in which it is not reached. -/
theorem detects_iff (L : Layout) (hid : s.idPagingSize.toNat % 0x1000 = 0)
    (hperipherals : s.idPagingSize.toNat ≤ 0x3f000000)
    {history : List (Transition MapState MapAction)}
    (hrun : MapRun (WithinPool (poolSize s.idPagingSize)) (initPhysicalMemoryMap L s) history t) :
    DetectsExhaustion (initialPool (initPhysicalMemoryMap L s)) t ↔
      t.mmu.physicalMemoryMap.head.toNat < poolSize s.idPagingSize := by
  obtain ⟨hlength, hpool, -, -⟩ := mapInvariant_boot L hid hperipherals
  rw [← hlength]
  exact (MapRun.mapInvariant L hid hperipherals hrun).detected_iff (hlength.le.trans hpool)

/-- The pages of the pool can be taken one after the other. -/
theorem exists_mapRun (L : Layout) (hid : s.idPagingSize.toNat % 0x1000 = 0)
    (hperipherals : s.idPagingSize.toNat ≤ 0x3f000000) (hn : n ≤ poolSize s.idPagingSize) :
    ∃ history t, MapRun (WithinPool (poolSize s.idPagingSize)) (initPhysicalMemoryMap L s) history
      t ∧
      t.mmu.physicalMemoryMap.head.toNat = n ∧ t.pushed = [] ∧
      t.mmu.physicalMemoryMap.map = (initPhysicalMemoryMap L s).physicalMemoryMap.map := by
  obtain ⟨-, hpool, hstart, -⟩ := mapInvariant_boot L hid hperipherals
  induction n with
  | zero => exact ⟨[], _, .start rfl, hstart, rfl, rfl⟩
  | succ n ih =>
    obtain ⟨history, t, hrun, hhead, hpushed, hmap⟩ := ih (by omega)
    have hlt : t.mmu.physicalMemoryMap.head < t.mmu.physicalMemoryMap.size := by
      rw [BitVec.lt_def, (MapRun.mapInvariant L hid hperipherals hrun).size]
      exact (by omega : t.mmu.physicalMemoryMap.head.toNat < 0x100000)
    have hstep : mapStep t .take = .ok ⟨pageTaken t.mmu, t.pushed⟩ := by
      rw [mapStep, getUnboundPhysicalPage_eq hlt]
      rfl
    have hone : (1 : BitVec 32).toNat = 1 := rfl
    have hhead' : (pageTaken t.mmu).physicalMemoryMap.head.toNat = n + 1 := by
      change (t.mmu.physicalMemoryMap.head + 1).toNat = n + 1
      rw [BitVec.toNat_add, hone]
      omega
    have hleft : t.mmu.physicalMemoryMap.head.toNat < poolSize s.idPagingSize := by omega
    exact ⟨⟨t, .take, ⟨pageTaken t.mmu, t.pushed⟩⟩ :: history, ⟨pageTaken t.mmu, t.pushed⟩,
      .next hrun ⟨hleft, hstep⟩, hhead', hpushed, hmap⟩

/-- A page is taken at boot. -/
theorem detects_iff_sampleTables : ∃ t : MapState, t.mmu.physicalMemoryMap.head.toNat = 1 ∧
    (DetectsExhaustion (initialPool (initPhysicalMemoryMap sampleLayout (sampleTables 0))) t ↔
      t.mmu.physicalMemoryMap.head.toNat < poolSize (sampleTables 0).idPagingSize) := by
  have hone : 1 ≤ poolSize (sampleTables 0).idPagingSize := by
    rw [poolSize_eq (q := 0x4400) rfl (by decide)]
    decide
  obtain ⟨history, t, hrun, hhead, -⟩ := exists_mapRun sampleLayout (s := sampleTables 0)
    (by decide) (by decide) hone
  exact ⟨t, hhead, detects_iff sampleLayout (by decide) (by decide) hrun⟩

/-- When all pages are taken, the next call returns the address 0. -/
theorem not_detects_sampleTables : ∃ history t s',
    MapRun (fun _ _ ↦ True) (initPhysicalMemoryMap sampleLayout (sampleTables 0)) history t ∧
    t.pushed = [] ∧
      getUnboundPhysicalPage t.mmu = .ok (s', 0) ∧
      ¬ DetectsExhaustion (initialPool (initPhysicalMemoryMap sampleLayout (sampleTables 0)))
      t := by
  obtain ⟨history, t, hrun, hhead, hpushed, hmap⟩ := exists_mapRun sampleLayout
    (s := sampleTables 0) (by decide) (by decide) le_rfl
  have hpool : poolSize (sampleTables 0).idPagingSize = 0x3fffd - 0x4400 :=
    poolSize_eq rfl (by decide)
  obtain ⟨counters, hinit, -⟩ := initPhysicalMemoryMap_eq sampleLayout (s := sampleTables 0)
      (q := 0x4400)
    rfl (by decide)
  have hlt : t.mmu.physicalMemoryMap.head < t.mmu.physicalMemoryMap.size := by
    rw [BitVec.lt_def, hhead, hpool,
      (MapRun.mapInvariant sampleLayout (by decide) (by decide) hrun).size]
    decide
  have hentry : nextFreePage t.mmu = 0 := by
    rw [nextFreePage, hhead, hmap, hinit]
    dsimp only
    rw [filledMap, if_neg (by omega)]
    rfl
  refine ⟨history, t, pageTaken t.mmu, hrun.mono_step fun _ _ _ h ↦ ⟨trivial, h.2⟩,
    hpushed, ?_, fun h ↦ ?_⟩
  · rw [getUnboundPhysicalPage_eq hlt, hentry]
  · obtain ⟨hlength, hle, -, -⟩ :=
        mapInvariant_boot sampleLayout (s := sampleTables 0) (by decide) (by decide)
    have hmap := MapRun.mapInvariant sampleLayout (by decide) (by decide) hrun
    have hleft := (hmap.detected_iff (hlength.le.trans hle)).mp h
    omega

end SysresOs.Mmu
