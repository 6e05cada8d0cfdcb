import SysresOs.Memory.Peripherals
import SysresOs.Memory.Copying
import SysresOs.Memory.Release

/-!
# The tables at boot

`c_init_mmu` for the kernel and for `init`: the level-2 table is populated over whatever the memory
holds, the identity is bound, the level-2 entries behind it are made invalid, and the stack and the
peripherals get their pages, in level-3 tables that are set up on demand. `BootTables` is the result
of this for one root, as a description of all its leaves; `boot_mapping` reads the translations off
it.
-/

set_option autoImplicit false
set_option relaxedAutoImplicit false

namespace SysresOs.Mmu

open SysresOs.Loop SysresOs.Outcome

open SysresOs.Proc (Pid SystemState kernelPid initPid)

variable {L : Layout} {s t : MmuState} {root r va pa q e : Word} {n m i u v : ℕ}
  {ba : BlockAttributesSg1}

/-! ### The pages of the stack -/

/-- `get_new_page` on a page of the zone's own tables. -/
theorem getNewPage_zone (va perm cache : Word) (hconf : Configured L s)
    (h : ZoneTables s.words s.lvl2TableAddress n) (hn : n ≤ page va / 512)
    (hva : va.toNat < 0x3fe00000) (hhead : s.physicalMemoryMap.head < s.physicalMemoryMap.size)
    (haligned : (nextFreePage s).toNat % 0x1000 = 0) (hram : (nextFreePage s).toNat < 0x40000000) :
    getNewPage s va perm cache = .ok (bound (pageTaken s) (page va) (nextFreePage s)
      (withAttributes (nextFreePage s) (newBlockAttributesSg1 perm cache)), 0) := by
  have hrow : page va / 512 < 511 := by
    unfold page
    omega
  exact getNewPage_apart perm cache hconf h.zone.rooted (h.rowApart hn hrow) hhead
    (by omega) haligned hram

/-- The next two free pages are pages of the memory above `__end`. -/
structure FreePair (s : MmuState) : Prop where
  head : s.physicalMemoryMap.head < s.physicalMemoryMap.size
  head' : (pageTaken s).physicalMemoryMap.head < s.physicalMemoryMap.size
  aligned : (nextFreePage s).toNat % 0x1000 = 0
  aligned' : (nextFreePage (pageTaken s)).toNat % 0x1000 = 0
  above : s.idPagingSize ≤ nextFreePage s
  above' : s.idPagingSize ≤ nextFreePage (pageTaken s)
  ram : (nextFreePage s).toNat < 0x40000000
  ram' : (nextFreePage (pageTaken s)).toNat < 0x40000000

/-- The result of `identity_paging` and of the set-up of the stack for one root, with a frame for
the others. -/
structure StackTables (L : Layout) (s t : MmuState) (root : Word) : Prop where
  fixed : t = { pageTaken (pageTaken s) with words := t.words, counters := t.counters }
  tables : ∀ r m, ZoneTables s.words r m → ZoneTables t.words r m
  present_eq : ∀ i < 512, present t.words root i = decide (i < L.kernelTables ∨ i = 504)
  identity : ∀ v < 512 * L.kernelTables, ∃ e, leaf t.words root v = some e ∧
    (entryAddress e).toNat = 0x1000 * v
  stack : ∃ e, leaf t.words root 0x3f1ff = some e ∧ entryAddress e = nextFreePage s
  stack' : ∃ e, leaf t.words root 0x3f1fe = some e ∧ entryAddress e = nextFreePage (pageTaken s)
  other : ∀ v, 512 * L.kernelTables ≤ v → v < 511 * 512 → ¬ IsStackPage v →
    leaf t.words root v = none
  otherLeaf : ∀ r m, ZoneTables s.words r m → r ≠ root → ∀ v, m ≤ v / 512 → v < 511 * 512 →
    leaf t.words r v = leaf s.words r v
  otherPresent : ∀ r, ZoneRoot r → r ≠ root → ∀ i < 512, present t.words r i = present s.words r i
  frame : ∀ a, a < root.toNat ∨ root.toNat + 0x200000 ≤ a → t.words a = s.words a
  last : entryAddress (t.words (lvl2Place root 511)) = entryAddress (s.words (lvl2Place root 511))
  counter : ∀ q, getBindCounter t q = getBindCounter s q +
    (if q.toNat / 0x1000 = (nextFreePage s).toNat / 0x1000 then 1 else 0) +
    if q.toNat / 0x1000 = (nextFreePage (pageTaken s)).toNat / 0x1000 then 1 else 0

/-- The words after the two pages of the stack are bound. -/
def stackWords (w : ℕ → Word) (root e e' : Word) : ℕ → Word :=
  bindWords (bindWords w root 0x3f1ff e) root 0x3f1fe e'

namespace ZoneTables

variable {w : ℕ → Word} {e' : Word}

theorem stack (h : ZoneTables w root 0) (hr : ZoneTables w r m) (e e' : Word) :
    ZoneTables (stackWords w root e e') r m :=
  (h.bind h (by omega) (by omega)).bind (h.bind hr (by omega) (by omega)) (by omega) (by omega)

theorem leaf_stack (h : ZoneTables w root 0) (hr : ZoneTables w r m) (hm : m ≤ v / 512)
    (hv : v < 511 * 512) (he : isBlockEntry e = true) (he' : isBlockEntry e' = true) :
    leaf (stackWords w root e e') r v = if r = root ∧ v = 0x3f1fe then some e'
      else if r = root ∧ v = 0x3f1ff then some e else leaf w r v := by
  have h' : ZoneTables (bindWords w root 0x3f1ff e) root 0 := h.bind h (by omega) (by omega)
  rw [stackWords, h'.leaf_bindWords (h.bind hr (by omega) (by omega)) (by omega)
    (by omega) hm hv he', h.leaf_bindWords hr (by omega) (by omega) hm hv he]

theorem present_stack (h : ZoneTables w root 0) (hr : ZoneRoot r) (hi : i < 512) :
    present (stackWords w root e e') r i = if r = root ∧ i = 504 then true else present w r i := by
  have h' : ZoneTables (bindWords w root 0x3f1ff e) root 0 := h.bind h (by omega) (by omega)
  rw [stackWords, h'.present_bindWords hr (by omega) (by omega) hi,
    h.present_bindWords hr (by omega) (by omega) hi]
  by_cases hsame : r = root ∧ i = 504
  · exact (if_pos hsame).trans (if_pos hsame).symm
  · exact (if_neg hsame).trans ((if_neg hsame).trans (if_neg hsame).symm)

theorem stack_of_not_mem (h : ZoneTables w root 0) {a : ℕ} (ha : OffRow root 504 a) :
    stackWords w root e e' a = w a := by
  have h' : ZoneTables (bindWords w root 0x3f1ff e) root 0 := h.bind h (by omega) (by omega)
  rw [stackWords, h'.bindWords_of_not_mem (by omega) (by omega) ha,
    h.bindWords_of_not_mem (by omega) (by omega) ha]

end ZoneTables

/-- The state after the stack gets its two pages. -/
def stackBound (s t : MmuState) (e e' : Word) : MmuState :=
  bound (pageTaken (bound (pageTaken t) 0x3f1ff (nextFreePage s) e)) 0x3f1fe
    (nextFreePage (pageTaken s)) e'

theorem words_stackBound (e e' : Word) (hroot : t.lvl2TableAddress = root) :
    (stackBound s t e e').words = stackWords t.words root e e' := by
  rw [← hroot]
  rfl

theorem getBindCounter_bound_of_le (hpa : s.idPagingSize ≤ pa) (v : ℕ) (e q : Word) :
    getBindCounter (bound s v pa e) q =
      getBindCounter s q + if q.toNat / 0x1000 = pa.toNat / 0x1000 then 1 else 0 := by
  rw [getBindCounter_bound]
  by_cases hq : q.toNat / 0x1000 = pa.toNat / 0x1000
  · rw [if_pos ⟨hpa, hq⟩, if_pos hq]
  · rw [if_neg fun hand ↦ hq hand.2, if_neg hq]
    exact (BitVec.add_zero _).symm

/-- Both pages of the stack are counted once more. -/
theorem getBindCounter_stackBound (hfree : FreePair s) (hid : t.idPagingSize = s.idPagingSize)
    (hcount : getBindCounter t q = getBindCounter s q) (e e' : Word) :
    getBindCounter (stackBound s t e e') q = getBindCounter s q +
      (if q.toNat / 0x1000 = (nextFreePage s).toNat / 0x1000 then 1 else 0) +
      if q.toNat / 0x1000 = (nextFreePage (pageTaken s)).toNat / 0x1000 then 1 else 0 := by
  have hfirst : (pageTaken t).idPagingSize ≤ nextFreePage s := hid.trans_le hfree.above
  have hsecond : (pageTaken (bound (pageTaken t) 0x3f1ff (nextFreePage s) e)).idPagingSize ≤
      nextFreePage (pageTaken s) := hid.trans_le hfree.above'
  rw [stackBound, getBindCounter_bound_of_le hsecond, ← hcount]
  exact congrArg (· + _) (getBindCounter_bound_of_le hfirst 0x3f1ff e q)

/-- The level-2 entries of the identity, as `identity_paging` leaves them. -/
theorem IdentityPaged.present_eq (ht : IdentityPaged s t root L.kernelTables (512 - L.kernelTables))
    (hi : i < 512) : present t.words root i = decide (i < L.kernelTables) := by
  obtain ⟨hend, hle⟩ := L.toNat_endAddr_tables
  by_cases hik : i < L.kernelTables
  · obtain ⟨e, hleaf, -⟩ := ht.identity (512 * i) (by omega)
    have hpresent := (leaf_eq_some hleaf).1
    rw [show 512 * i / 512 = i by omega] at hpresent
    rw [hpresent, decide_eq_true hik]
  · rw [ht.absent i (by omega) (by omega), decide_eq_false hik]

/-- The stack gets its two pages after `identity_paging`. -/
theorem StackTables.of_identityPaged {t : MmuState} {e e' : Word}
    (ht : IdentityPaged s t root L.kernelTables (512 - L.kernelTables))
    (h : ZoneTables s.words root 0) (hroot : s.lvl2TableAddress = root) (hfree : FreePair s)
    (he : isBlockEntry e = true) (he' : isBlockEntry e' = true)
    (haddress : entryAddress e = nextFreePage s)
    (haddress' : entryAddress e' = nextFreePage (pageTaken s)) :
    StackTables L s (stackBound s t e e') root := by
  obtain ⟨hend, hle⟩ := L.toNat_endAddr_tables
  have hroot' : t.lvl2TableAddress = root := by rw [ht.fixed]; exact hroot
  have htables := ht.tables root 0 h
  have hwords := words_stackBound (s := s) e e' hroot'
  constructor
  case fixed =>
    rw [ht.fixed]
    rfl
  case tables =>
    intro r m hr
    rw [hwords]
    exact htables.stack (ht.tables r m hr) e e'
  case present_eq =>
    intro i hi
    rw [hwords, htables.present_stack h.zone hi, ht.present_eq hi]
    by_cases hi' : i = 504 <;> simp [hi']
  case identity =>
    intro v hv
    rw [hwords, htables.leaf_stack htables (by omega) (by omega) he he', if_neg (by omega),
      if_neg (by omega)]
    exact ht.identity v hv
  case stack =>
    rw [hwords, htables.leaf_stack htables (by omega) (by omega) he he', if_neg (by omega),
      if_pos ⟨rfl, rfl⟩]
    exact ⟨e, rfl, haddress⟩
  case stack' =>
    rw [hwords, htables.leaf_stack htables (by omega) (by omega) he he', if_pos ⟨rfl, rfl⟩]
    exact ⟨e', rfl, haddress'⟩
  case other =>
    intro v hlow hv hstack
    rw [hwords, htables.leaf_stack htables (by omega) hv he he',
      if_neg fun hsame ↦ hstack (.inr hsame.2), if_neg fun hsame ↦ hstack (.inl hsame.2)]
    exact leaf_eq_none_of_absent (ht.absent _ (by omega) (by omega))
  case otherLeaf =>
    intro r m hr hne v hm hv
    rw [hwords, htables.leaf_stack (ht.tables r m hr) hm hv he he', if_neg fun hsame ↦ hne hsame.1,
      if_neg fun hsame ↦ hne hsame.1]
    exact ht.otherLeaf r m hr hne v hm hv
  case otherPresent =>
    intro r hr hne i hi
    rw [hwords, htables.present_stack hr hi, if_neg fun hsame ↦ hne hsame.1]
    exact ht.otherPresent r hr hne i hi
  case frame =>
    intro a ha
    rw [hwords, htables.stack_of_not_mem (offRow_of_outside (by omega) ha)]
    exact ht.frame a ha
  case last =>
    have hlast : OffRow root 504 (lvl2Place root 511) :=
      offRow_lvl2Place (by omega) (by omega) (by omega)
    rw [hwords, htables.stack_of_not_mem hlast, ht.last]
  case counter =>
    intro q
    refine getBindCounter_stackBound hfree (by rw [ht.fixed]) ?_ e e'
    rw [ht.fixed]
    rfl

/-- The entry of the first page of the stack. -/
def stackEntry (s : MmuState) : Word :=
  withAttributes (nextFreePage s) (newBlockAttributesSg1 (dataPage ||| accessFlagSet) normalWtNt)

/-- The entry of the second page of the stack. -/
def stackEntry' (s : MmuState) : Word :=
  withAttributes (nextFreePage (pageTaken s))
    (newBlockAttributesSg1 (kernelPage ||| accessFlagSet) normalWtNt)

theorem isBlockEntry_stackEntry (s : MmuState) :
    isBlockEntry (stackEntry s) = true ∧ isBlockEntry (stackEntry' s) = true :=
  ⟨isBlockEntry_withAttributes _ _, isBlockEntry_withAttributes _ _⟩

/-- `identity_paging`, its check, and the two pages of the stack. -/
theorem initIdentity_bound (hconf : Configured L s) (h : ZoneTables s.words s.lvl2TableAddress 0)
    (hpresent : ∀ i < 511, present s.words s.lvl2TableAddress i = true) (hfree : FreePair s) :
    ∃ t, initIdentity L s = .ok (stackBound s t (stackEntry s) (stackEntry' s)) ∧
      IdentityPaged s t s.lvl2TableAddress L.kernelTables (512 - L.kernelTables) := by
  obtain ⟨hend, hle⟩ := L.toNat_endAddr_tables
  obtain ⟨t, hpaging, ht⟩ := identityPaging_eq hconf.idPagingSize h hpresent
  have hroot : t.lvl2TableAddress = s.lvl2TableAddress := by rw [ht.fixed]
  have hid : t.idPagingSize = s.idPagingSize := by rw [ht.fixed]
  have htables := ht.tables _ 0 h
  have hcheck : checkIdentityPaging t = .ok t :=
    checkIdentityPaging_eq (hroot ▸ h.zone.rooted) (by rw [hid, hconf.idPagingSize, hend]) hle
      (hroot ▸ ht.identity)
  have hconf₁ : Configured L t := by
    rw [ht.fixed]
    exact ⟨hconf.idPagingSize, hconf.bindCounter, hconf.bindCounterOffset⟩
  have hnext₁ : nextFreePage t = nextFreePage s := by rw [ht.fixed]; rfl
  have hget₁ := getNewPage_zone (s := t) stackPage1 (dataPage ||| accessFlagSet) normalWtNt hconf₁
    (hroot ▸ htables) (by omega) (by decide) (by rw [ht.fixed]; exact hfree.head)
    (by rw [hnext₁]; exact hfree.aligned) (by rw [hnext₁]; exact hfree.ram)
  rw [hnext₁, ← stackEntry] at hget₁
  obtain ⟨u, hu⟩ : ∃ u, u = bound (pageTaken t) (page stackPage1) (nextFreePage s) (stackEntry s) :=
    ⟨_, rfl⟩
  rw [← hu] at hget₁
  have hconf₂ : Configured L u := by
    rw [hu]
    exact ⟨hconf₁.idPagingSize, hconf₁.bindCounter, hconf₁.bindCounterOffset⟩
  have hroot₂ : u.lvl2TableAddress = s.lvl2TableAddress := by rw [hu]; exact hroot
  have htables₂ : ZoneTables u.words s.lvl2TableAddress 0 := by
    rw [hu]
    exact hroot ▸ htables.bind htables (by omega) (by decide)
  have hnext₂ : nextFreePage u = nextFreePage (pageTaken s) := by rw [hu, ht.fixed]; rfl
  have hget₂ := getNewPage_zone (s := u) stackPage2 (kernelPage ||| accessFlagSet) normalWtNt hconf₂
    (hroot₂ ▸ htables₂) (by omega) (by decide) (by rw [hu, ht.fixed]; exact hfree.head')
    (by rw [hnext₂]; exact hfree.aligned') (by rw [hnext₂]; exact hfree.ram')
  rw [hnext₂, ← stackEntry'] at hget₂
  refine ⟨t, ?_, ht⟩
  rw [initIdentity, hpaging, ok_bind, hcheck, ok_bind, hget₁]
  simp only [ok_bind, hget₂]
  rw [hu]
  rfl

/-- The tables after the stack has its two pages. -/
theorem initIdentity_eq (hconf : Configured L s) (h : ZoneTables s.words s.lvl2TableAddress 0)
    (hpresent : ∀ i < 511, present s.words s.lvl2TableAddress i = true) (hfree : FreePair s) :
    ∃ t, initIdentity L s = .ok t ∧ StackTables L s t s.lvl2TableAddress := by
  obtain ⟨t, hok, ht⟩ := initIdentity_bound hconf h hpresent hfree
  have haddress : entryAddress (stackEntry s) = nextFreePage s := by
    have hram := hfree.ram
    rw [stackEntry, entryAddress_withAttributes, entryAddress_of_page hfree.aligned (by omega)]
  have haddress' : entryAddress (stackEntry' s) = nextFreePage (pageTaken s) := by
    have hram := hfree.ram'
    rw [stackEntry', entryAddress_withAttributes, entryAddress_of_page hfree.aligned' (by omega)]
  obtain ⟨he, he'⟩ := isBlockEntry_stackEntry s
  exact ⟨_, hok, .of_identityPaged ht h rfl hfree he he' haddress haddress'⟩

/-! ### The tables of one root -/

/-- The tables of the kernel and of `init` after `c_init_mmu`, with the physical pages of the
stack. -/
structure BootLeaves (L : Layout) (w : ℕ → Word) (root p p' : Word) : Prop where
  tables : ZoneTables w root 0
  present_eq : ∀ i < 512, present w root i = decide (i < L.kernelTables ∨ i = 504 ∨ i = 505)
  identity : ∀ v < 512 * L.kernelTables, ∃ e, leaf w root v = some e ∧
    (entryAddress e).toNat = 0x1000 * v
  stack : ∃ e, leaf w root 0x3f1ff = some e ∧ entryAddress e = p
  stack' : ∃ e, leaf w root 0x3f1fe = some e ∧ entryAddress e = p'
  peripheral : ∀ v ∈ peripheralPages, leaf w root v = some (peripheralEntry v)
  other : ∀ v, 512 * L.kernelTables ≤ v → v < 511 * 512 → ¬ IsStackPage v → v ∉ peripheralPages →
    leaf w root v = none

/-- The effect of `c_init_mmu` after `populate_lvl2_table`, with a frame for the other zones. -/
structure BootTables (L : Layout) (s t : MmuState) (root : Word) : Prop where
  fixed : t = { pageTaken (pageTaken s) with words := t.words, counters := t.counters }
  leaves : BootLeaves L t.words root (nextFreePage s) (nextFreePage (pageTaken s))
  otherTables : ∀ r m, ZoneTables s.words r m → ZoneTables t.words r m
  otherLeaf : ∀ r m, ZoneTables s.words r m → r ≠ root → ∀ v, m ≤ v / 512 → v < 511 * 512 →
    leaf t.words r v = leaf s.words r v
  otherPresent : ∀ r, ZoneRoot r → r ≠ root → ∀ i < 512, present t.words r i = present s.words r i
  frame : ∀ a, a < root.toNat ∨ root.toNat + 0x200000 ≤ a → t.words a = s.words a
  last : entryAddress (t.words (lvl2Place root 511)) = entryAddress (s.words (lvl2Place root 511))
  counter : ∀ q, getBindCounter t q = getBindCounter s q +
    (if q.toNat / 0x1000 = (nextFreePage s).toNat / 0x1000 then 1 else 0) +
    (if q.toNat / 0x1000 = (nextFreePage (pageTaken s)).toNat / 0x1000 then 1 else 0) +
    if q.toNat / 0x1000 ∈ peripheralPages then 1 else 0

theorem mem_peripheralPages :
    v ∈ peripheralPages ↔ v = 0x3f00b ∨ v = 0x3f215 ∨ v = 0x3f201 ∨ v = 0x3f200 := by
  simp [peripheralPages]

/-- The peripherals after the stack. -/
theorem StackTables.bootTables {t' : MmuState} (h : StackTables L s t root)
    (htables : ZoneTables s.words root 0) (h' : PeripheralsBound t t' root peripheralPages) :
    BootTables L s t' root := by
  obtain ⟨hend, hle⟩ := L.toNat_endAddr_tables
  have htables' := h.tables root 0 htables
  have hleaf (v : ℕ) (hv : v < 511 * 512) : leaf t'.words root v =
      if v ∈ peripheralPages then some (peripheralEntry v) else leaf t.words root v := by
    rw [h'.leaf_eq root 0 htables' v (by omega) hv]
    exact if_congr (and_iff_right rfl) rfl rfl
  constructor
  case fixed => rw [h'.fixed, h.fixed]
  case leaves =>
    constructor
    case tables => exact h'.tables root 0 htables'
    case present_eq =>
      intro i hi
      have hrows : (∃ v ∈ peripheralPages, i = v / 512) ↔ i = 504 ∨ i = 505 := by
        simp [peripheralPages]
      rw [h'.present_eq root htables.zone i hi, h.present_eq i hi]
      simp only [true_and, hrows]
      by_cases hi' : i = 504 <;> by_cases hi'' : i = 505 <;> simp [hi', hi'']
    case identity =>
      intro v hv
      rw [hleaf v (by omega), if_neg (by rw [mem_peripheralPages]; omega)]
      exact h.identity v hv
    case stack =>
      rw [hleaf _ (by omega), if_neg (by decide)]
      exact h.stack
    case stack' =>
      rw [hleaf _ (by omega), if_neg (by decide)]
      exact h.stack'
    case peripheral =>
      intro v hv
      rw [hleaf v (by rw [mem_peripheralPages] at hv; omega), if_pos hv]
    case other =>
      intro v hlow hv hstack hperipheral
      rw [hleaf v hv, if_neg hperipheral]
      exact h.other v hlow hv hstack
  case otherTables => exact fun r m hr ↦ h'.tables r m (h.tables r m hr)
  case otherLeaf =>
    intro r m hr hne v hm hv
    rw [h'.leaf_eq r m (h.tables r m hr) v hm hv, if_neg fun hsame ↦ hne hsame.1]
    exact h.otherLeaf r m hr hne v hm hv
  case otherPresent =>
    intro r hr hne i hi
    rw [h'.present_eq r hr i hi, if_neg fun hsame ↦ hne hsame.1]
    exact h.otherPresent r hr hne i hi
  case frame =>
    intro a ha
    rw [← h.frame a ha]
    exact h'.frame a fun v hv ↦ offRow_of_outside (by rw [mem_peripheralPages] at hv; omega) ha
  case last =>
    rw [h'.frame _ fun v hv ↦ ?_, h.last]
    rw [mem_peripheralPages] at hv
    exact offRow_lvl2Place (by omega) (by omega) (by omega)
  case counter =>
    intro q
    rw [h'.counter q, h.counter q]
    split_ifs <;> simp

/-! ### `c_init_mmu` for the kernel and for `init` -/

/-- The memory after `populate_lvl2_table`. -/
def populated (L : Layout) (pid : Pid) (s : MmuState) : MmuState :=
  { s with
    idPagingSize := L.endAddr
    lvl2TableAddress := L.zoneRoot pid
    words := populateWords s.words (L.zoneRoot pid) 511 }

theorem populated_words (L : Layout) (pid : Pid) (s : MmuState) :
    (populated L pid s).words = populateWords s.words (L.zoneRoot pid) 511 := rfl

theorem populated_lvl2TableAddress (L : Layout) (pid : Pid) (s : MmuState) :
    (populated L pid s).lvl2TableAddress = L.zoneRoot pid := rfl

theorem populated_physicalMemoryMap (L : Layout) (pid : Pid) (s : MmuState) :
    (populated L pid s).physicalMemoryMap = s.physicalMemoryMap := rfl

theorem populated_idPagingSize (L : Layout) (pid : Pid) (s : MmuState) :
    (populated L pid s).idPagingSize = L.endAddr := rfl

theorem populated_ttbr0El1 (L : Layout) (pid : Pid) (s : MmuState) :
    (populated L pid s).ttbr0El1 = s.ttbr0El1 := rfl

theorem populated_counter (L : Layout) (pid : Pid) (s : MmuState) (pa : Word) :
    getBindCounter (populated L pid s) pa = getBindCounter s pa := rfl

theorem populated_configured {pid : Pid} (h : Configured L s) :
    Configured L (populated L pid s) where
  idPagingSize := rfl
  bindCounter := h.bindCounter
  bindCounterOffset := by
    rw [populated_physicalMemoryMap, h.bindCounterOffset, h.idPagingSize]
    rfl

theorem cInitMmu_eq (L : Layout) (sys : SystemState) (pid : Pid) (s : MmuState) :
    cInitMmu L sys pid s = (do
      let s ← if pid = kernelPid ∨ pid = initPid then
          initIdentity L (if pid = kernelPid then initPhysicalMemoryMap L (populated L pid s)
          else populated L pid s)
        else processInitCopyAndWrite L sys pid (populated L pid s)
      mapPeripheralPages s) := by
  have hpopulate := populateLvl2Table_eq (s := ({ s with
    idPagingSize := L.endAddr }).setRoot (L.zoneRoot pid)) (L.zoneRoot_zone pid)
  have hroot : L.mmuTablesStart + BitVec.ofNat 64 pid.val * 512 * granule = L.zoneRoot pid := rfl
  rw [cInitMmu]
  simp only [hroot]
  rw [hpopulate, ok_bind]
  rfl

/-- The pool as `init_physical_memory_map` fills it, with `h` pages taken. -/
structure PoolAt (L : Layout) (s : MmuState) (h : ℕ) : Prop where
  configured : Configured L s
  head : s.physicalMemoryMap.head.toNat = h
  size : s.physicalMemoryMap.size = 0x100000
  entry : ∀ i < 0x3fffd - 512 * L.kernelTables,
    ((s.physicalMemoryMap.map i).setWidth 64).toNat = 0x1000 * poolPage (512 * L.kernelTables) i

namespace PoolAt

variable {h : ℕ}

theorem start (hid : s.idPagingSize = L.endAddr) : PoolAt L (initPhysicalMemoryMap L s) 0 := by
  obtain ⟨hend, hle⟩ := L.toNat_endAddr_tables
  have hq : s.idPagingSize.toNat = 0x1000 * (512 * L.kernelTables) := by
    rw [hid, hend]
    omega
  have hqle : 512 * L.kernelTables ≤ 0x3f000 := by omega
  obtain ⟨counters, hinit, -⟩ := initPhysicalMemoryMap_eq L hq hqle
  obtain ⟨pages, hpages⟩ : ∃ pages, 0x3fffd - 512 * L.kernelTables = pages := ⟨_, rfl⟩
  rw [hpages] at hinit
  constructor
  case configured =>
    rw [hinit]
    exact ⟨hid, rfl, rfl⟩
  case head => rw [hinit]; rfl
  case size => rw [hinit]; rfl
  case entry =>
    intro i hi
    have hle := skipped_le (512 * L.kernelTables) (i + 1)
    rw [hinit]
    dsimp only
    rw [filledMap, if_pos (hpages ▸ hi), BitVec.toNat_setWidth, BitVec.toNat_ofNat, poolPage]
    omega

theorem congr (hpool : PoolAt L s h) (hconf : Configured L t)
    (hmap : t.physicalMemoryMap = s.physicalMemoryMap) : PoolAt L t h := by
  refine ⟨hconf, ?_, ?_, ?_⟩
  · rw [hmap]; exact hpool.head
  · rw [hmap]; exact hpool.size
  · rw [hmap]; exact hpool.entry

theorem next (hpool : PoolAt L s h) (hh : h < 0x3fffd - 512 * L.kernelTables) :
    (nextFreePage s).toNat = 0x1000 * poolPage (512 * L.kernelTables) h := by
  rw [nextFreePage, hpool.head]
  exact hpool.entry h hh

theorem taken (hpool : PoolAt L s h) (hh : h < 0x3fffd - 512 * L.kernelTables) :
    PoolAt L (pageTaken s) (h + 1) := by
  have hone : (1 : BitVec 32).toNat = 1 := rfl
  have hhead := hpool.head
  refine ⟨⟨hpool.configured.idPagingSize, hpool.configured.bindCounter,
    hpool.configured.bindCounterOffset⟩, ?_, hpool.size, hpool.entry⟩
  change (s.physicalMemoryMap.head + 1).toNat = h + 1
  rw [BitVec.toNat_add, hhead, hone]
  omega

theorem head_lt (hpool : PoolAt L s h) (hh : h < 0x3fffd) :
    s.physicalMemoryMap.head < s.physicalMemoryMap.size := by
  rw [BitVec.lt_def, hpool.head, hpool.size]
  exact (by omega : h < 0x100000)

theorem poolPage_bounds (hh : h < 0x3fffd - 512 * L.kernelTables) :
    512 * L.kernelTables ≤ poolPage (512 * L.kernelTables) h ∧
      poolPage (512 * L.kernelTables) h < 0x40000 := by
  have hle := skipped_le (512 * L.kernelTables) (h + 1)
  unfold poolPage
  omega

theorem freePair (hpool : PoolAt L s h) (hh : h + 1 < 0x3fffd - 512 * L.kernelTables) :
    FreePair s := by
  obtain ⟨hend, -⟩ := L.toNat_endAddr_tables
  have hnext := hpool.next (by omega)
  have htaken := hpool.taken (by omega)
  have hnext' := htaken.next hh
  obtain ⟨hlow, hhigh⟩ := poolPage_bounds (L := L) (h := h) (by omega)
  obtain ⟨hlow', hhigh'⟩ := poolPage_bounds (L := L) (h := h + 1) hh
  constructor
  case head => exact hpool.head_lt (by omega)
  case head' => exact htaken.head_lt (by omega)
  case aligned => omega
  case aligned' => omega
  case above =>
    rw [hpool.configured.idPagingSize, BitVec.le_def, hend, hnext]
    omega
  case above' =>
    rw [hpool.configured.idPagingSize, BitVec.le_def, hend, hnext']
    omega
  case ram => omega
  case ram' => omega

/-- The next page is one of the pool. -/
theorem next_mem (hpool : PoolAt L s h) (hh : h < 0x3fffd - 512 * L.kernelTables)
    (hid : t.idPagingSize = L.endAddr) :
    nextFreePage s ∈ initialPool (initPhysicalMemoryMap L t) := by
  obtain ⟨hend, hle⟩ := L.toNat_endAddr_tables
  have hnext := hpool.next hh
  have hq : t.idPagingSize.toNat = 0x1000 * (512 * L.kernelTables) := by
    rw [hid, hend]
    omega
  rw [initialPool_eq L hq (by omega), List.mem_map]
  refine ⟨h, List.mem_range.mpr hh, BitVec.eq_of_toNat_eq ?_⟩
  obtain ⟨-, hlt⟩ := poolPage_bounds hh
  rw [hnext, BitVec.toNat_ofNat]
  omega

end PoolAt

/-- The pool after the set-up of one root. -/
theorem PoolAt.bootTables {h : ℕ} (hpool : PoolAt L s h) (ht : BootTables L s t root)
    (hh : h + 1 < 0x3fffd - 512 * L.kernelTables) : PoolAt L t (h + 2) := by
  have htaken := (hpool.taken (by omega)).taken hh
  rw [ht.fixed]
  exact htaken.congr ⟨htaken.configured.idPagingSize, htaken.configured.bindCounter,
    htaken.configured.bindCounterOffset⟩ rfl

/-- The set-up of the tables of the kernel or of `init`, once they are populated. -/
theorem initIdentity_bootTables (hconf : Configured L s) (hfree : FreePair s)
    (htables : ZoneTables s.words s.lvl2TableAddress 0)
    (hpresent : ∀ i < 511, present s.words s.lvl2TableAddress i = true) :
    ∃ t, (initIdentity L s >>= mapPeripheralPages) = .ok t ∧
      BootTables L s t s.lvl2TableAddress := by
  obtain ⟨t, hidentity, ht⟩ := initIdentity_eq hconf htables hpresent hfree
  have hroot : t.lvl2TableAddress = s.lvl2TableAddress := by rw [ht.fixed]; rfl
  have hconf' : Configured L t := by
    rw [ht.fixed]
    exact ⟨hconf.idPagingSize, hconf.bindCounter, hconf.bindCounterOffset⟩
  obtain ⟨t', hperipheral, ht'⟩ :=
    mapPeripheralPages_eq hconf' (hroot ▸ ht.tables _ 0 htables) (by omega)
  rw [hroot] at ht'
  refine ⟨t', ?_, ht.bootTables htables ht'⟩
  rw [hidentity, ok_bind, hperipheral]

/-- `c_init_mmu` for the kernel. -/
theorem cInitMmu_kernel (L : Layout) (sys : SystemState) (s : MmuState) :
    ∃ t, cInitMmu L sys kernelPid s = .ok t ∧
      BootTables L (initPhysicalMemoryMap L (populated L kernelPid s)) t
      (L.zoneRoot kernelPid) := by
  obtain ⟨hend, hle⟩ := L.toNat_endAddr_tables
  obtain ⟨hwords, hroot, -⟩ := initPhysicalMemoryMap_tables (populated_idPagingSize L kernelPid s)
  rw [populated_words] at hwords
  rw [populated_lvl2TableAddress] at hroot
  have htables :
      ZoneTables (populateWords s.words (L.zoneRoot kernelPid) 511) (L.zoneRoot kernelPid) 0 :=
    .ofPopulate (L.zoneRoot_zone kernelPid)
  have hpool : PoolAt L (initPhysicalMemoryMap L (populated L kernelPid s)) 0 :=
    .start (populated_idPagingSize L kernelPid s)
  obtain ⟨t, ht, hboot⟩ := initIdentity_bootTables hpool.configured (hpool.freePair (by omega))
    (by rwa [hwords, hroot]) (by rw [hwords, hroot]; exact fun i hi ↦ present_populateWords hi)
  rw [hroot] at hboot
  refine ⟨t, ?_, hboot⟩
  rw [cInitMmu_eq, if_pos (.inl rfl), if_pos rfl]
  exact ht

/-- `c_init_mmu` for `init`. -/
theorem cInitMmu_init (sys : SystemState) (hconf : Configured L s)
    (hfree : FreePair (populated L initPid s)) :
    ∃ t, cInitMmu L sys initPid s = .ok t ∧
      BootTables L (populated L initPid s) t (L.zoneRoot initPid) := by
  have hroot := populated_lvl2TableAddress L initPid s
  have htables : ZoneTables (populated L initPid s).words (L.zoneRoot initPid) 0 := by
    rw [populated_words]
    exact .ofPopulate (L.zoneRoot_zone initPid)
  have hpresent : ∀ i < 511, present (populated L initPid s).words (L.zoneRoot initPid) i =
      true := by
    rw [populated_words]
    exact fun i hi ↦ present_populateWords hi
  obtain ⟨t, ht, hboot⟩ := initIdentity_bootTables (populated_configured hconf) hfree
    (hroot.symm ▸ htables) (hroot.symm ▸ hpresent)
  rw [hroot] at hboot
  refine ⟨t, ?_, hboot⟩
  rw [cInitMmu_eq, if_pos (.inr rfl), if_neg (by decide)]
  exact ht

/-! ### The translations -/

/-- A translation that ends at a valid entry. -/
def MapsTo (s : MmuState) (va pa : Word) : Prop :=
  ¬ Unmapped s va ∧ getPhysicalAddress s va = .ok pa

theorem MapsTo.of_leaf (hroot : Rooted s.lvl2TableAddress) (hva : va.toNat < 2 ^ 30)
    (h : leaf s.words s.lvl2TableAddress (page va) = some e) :
    MapsTo s va (entryAddress e + (va &&& mask 11 0)) := by
  refine ⟨fun hnone ↦ ?_, getPhysicalAddress_eq hroot hva h⟩
  rw [(unmapped_iff hroot hva).mp hnone] at h
  cases h

/-- An entry with the address of its own page maps the page to itself. -/
theorem MapsTo.self (hroot : Rooted s.lvl2TableAddress) (hva : va.toNat < 2 ^ 30)
    (h : leaf s.words s.lvl2TableAddress (page va) = some e)
    (he : (entryAddress e).toNat = 0x1000 * page va) : MapsTo s va va := by
  have hself : entryAddress e + (va &&& mask 11 0) = va := by
    apply BitVec.eq_of_toNat_eq
    rw [BitVec.toNat_add, toNat_and_mask va (by omega) (by omega), he, page]
    omega
  have hmaps := MapsTo.of_leaf hroot hva h
  rwa [hself] at hmaps

/-- The tables at `lvl2_table_address` are those of the kernel or of `init` at boot. -/
structure BootMapped (pool : List Word) (s : MmuState) : Prop where
  identity : ∀ va, va < s.idPagingSize → MapsTo s va va
  stack : ∃ p ∈ pool, ∃ p' ∈ pool, p ≠ p' ∧
    (∀ va, page va = page stackPage1 → MapsTo s va (p + (va &&& mask 11 0))) ∧
    ∀ va, page va = page stackPage2 → MapsTo s va (p' + (va &&& mask 11 0))
  peripheral : ∀ va, page va ∈ peripheralPages → MapsTo s va va
  other : ∀ va, s.idPagingSize ≤ va → va < ramSize → page va ≠ page stackPage1 →
    page va ≠ page stackPage2 → page va ∉ peripheralPages → Unmapped s va

/-- The leaves of the tables give the translations. -/
theorem BootLeaves.bootMapped {pool : List Word} {p p' : Word}
    (h : BootLeaves L s.words s.lvl2TableAddress p p')
    (hid : s.idPagingSize = L.endAddr) (hp : p ∈ pool) (hp' : p' ∈ pool) (hne : p ≠ p') :
    BootMapped pool s := by
  obtain ⟨hend, hle⟩ := L.toNat_endAddr_tables
  have hroot := h.tables.zone.rooted
  have hstack : page stackPage1 = 0x3f1ff := rfl
  have hstack' : page stackPage2 = 0x3f1fe := rfl
  constructor
  case identity =>
    intro va hva
    rw [hid, BitVec.lt_def, hend] at hva
    obtain ⟨e, hleaf, he⟩ := h.identity (page va) (by unfold page; omega)
    exact .self hroot (by omega) hleaf he
  case stack =>
    obtain ⟨e, hleaf, rfl⟩ := h.stack
    obtain ⟨e', hleaf', rfl⟩ := h.stack'
    refine ⟨_, hp, _, hp', hne, fun va hva ↦ ?_, fun va hva ↦ ?_⟩
    · rw [hstack] at hva
      exact .of_leaf hroot (by unfold page at hva; omega) (hva ▸ hleaf)
    · rw [hstack'] at hva
      exact .of_leaf hroot (by unfold page at hva; omega) (hva ▸ hleaf')
  case peripheral =>
    intro va hva
    have hlt : page va < 0x40000 := by
      rw [mem_peripheralPages] at hva
      omega
    exact .self hroot (by unfold page at hlt; omega) (h.peripheral _ hva)
      (entryAddress_peripheralEntry hlt)
  case other =>
    intro va hlow hram hva hva' hperipheral
    rw [hid, BitVec.le_def, hend] at hlow
    have hram' : va.toNat < 0x40000000 := hram
    rw [unmapped_iff hroot (by omega)]
    rcases Nat.lt_or_ge (page va) (511 * 512) with hlt | hge
    · exact h.other (page va) (by unfold page; omega) hlt (fun hpage ↦ hpage.elim hva hva')
        hperipheral
    · refine leaf_eq_none_of_absent ?_
      unfold page at hge ⊢
      rw [h.present_eq _ (by omega), decide_eq_false (by omega)]

/-- The tables of one root are those of boot in any memory that agrees with it on their present
entries and leaves. -/
theorem BootLeaves.congr {w w' : ℕ → Word} {p p' : Word} (h : BootLeaves L w root p p')
    (htables : ZoneTables w' root 0) (hpresent : ∀ i < 512, present w' root i = present w root i)
    (hleaf : ∀ v < 511 * 512, leaf w' root v = leaf w root v) : BootLeaves L w' root p p' := by
  obtain ⟨hend, hle⟩ := L.toNat_endAddr_tables
  constructor
  case tables => exact htables
  case present_eq => exact fun i hi ↦ (hpresent i hi).trans (h.present_eq i hi)
  case identity =>
    intro v hv
    rw [hleaf v (by omega)]
    exact h.identity v hv
  case stack =>
    rw [hleaf _ (by decide)]
    exact h.stack
  case stack' =>
    rw [hleaf _ (by decide)]
    exact h.stack'
  case peripheral =>
    intro v hv
    rw [hleaf v (by rw [mem_peripheralPages] at hv; omega)]
    exact h.peripheral v hv
  case other =>
    intro v hlow hv hstack hperipheral
    rw [hleaf v hv]
    exact h.other v hlow hv hstack hperipheral

/-- The tables of the kernel are kept when those of `init` are set up. -/
theorem BootTables.bootLeaves_kernel {p p' : Word}
    (h : BootTables L (populated L initPid s) t (L.zoneRoot initPid))
    (hkernel : BootLeaves L s.words (L.zoneRoot kernelPid) p p') :
    BootLeaves L t.words (L.zoneRoot kernelPid) p p' := by
  have hzone := L.zoneRoot_zone kernelPid
  have hzone' := L.zoneRoot_zone initPid
  have hne : L.zoneRoot kernelPid ≠ L.zoneRoot initPid := by
    rw [ne_eq, L.zoneRoot_inj]
    decide
  have htables : ZoneTables (populated L initPid s).words (L.zoneRoot kernelPid) 0 := by
    rw [populated_words]
    exact hkernel.tables.populate hzone' hne
  refine hkernel.congr (h.otherTables _ 0 htables) (fun i hi ↦ ?_) fun v hv ↦ ?_
  · rw [h.otherPresent _ hzone hne i hi, populated_words, present,
      ZoneTables.populateWords_apart hzone' hzone hne
      (by unfold lvl2Place; omega) (by unfold lvl2Place; omega), present]
  · rw [h.otherLeaf _ 0 htables hne v (by omega) hv, populated_words,
      hkernel.tables.leaf_populate hzone' hne (by omega) hv]

/-- The pool that `c_init_mmu` sets up for the kernel. -/
def bootPool (L : Layout) (s : MmuState) : List Word :=
  initialPool (initPhysicalMemoryMap L (populated L kernelPid s))

/-- A root's tables at boot, when its two stack pages are the next ones of the pool. -/
theorem BootLeaves.bootMapped_next {h : ℕ} {s₀ : MmuState}
    (hleaves : BootLeaves L t.words t.lvl2TableAddress
    (nextFreePage s) (nextFreePage (pageTaken s))) (hid : t.idPagingSize = L.endAddr)
    (hpool : PoolAt L s h) (hh : h + 1 < 0x3fffd - 512 * L.kernelTables) :
    BootMapped (bootPool L s₀) t := by
  have htaken := hpool.taken (by omega)
  have hnext := hpool.next (by omega)
  have hnext' := htaken.next hh
  refine hleaves.bootMapped hid (hpool.next_mem (by omega) rfl) (htaken.next_mem hh rfl)
    fun heq ↦ ?_
  have hlt := poolPage_lt (q := 512 * L.kernelTables) (show h < h + 1 by omega)
  rw [heq] at hnext
  omega

/-- The states of the boot: after `init_physical_memory_map`, and after `c_init_mmu` for the kernel
and for `init`. -/
structure Booted (L : Layout) (s s₀ s₁ s₂ : MmuState) : Prop where
  start : s₀ = initPhysicalMemoryMap L (populated L kernelPid s)
  pool : PoolAt L s₀ 0
  kernel : BootTables L s₀ s₁ (L.zoneRoot kernelPid)
  init : BootTables L (populated L initPid s₁) s₂ (L.zoneRoot initPid)
  root : s₁.lvl2TableAddress = L.zoneRoot kernelPid
  root' : s₂.lvl2TableAddress = L.zoneRoot initPid

/-- The boot, over any contents of the memory. -/
theorem exists_booted (L : Layout) (sys : SystemState) (s : MmuState) :
    ∃ s₀ s₁ s₂, cInitMmu L sys kernelPid s = .ok s₁ ∧ cInitMmu L sys initPid s₁ = .ok s₂ ∧
      Booted L s s₀ s₁ s₂ := by
  obtain ⟨hend, hle⟩ := L.toNat_endAddr_tables
  obtain ⟨s₁, hinit₁, htables₁⟩ := cInitMmu_kernel L sys s
  obtain ⟨s₀, hs₀⟩ : ∃ s₀, initPhysicalMemoryMap L (populated L kernelPid s) = s₀ := ⟨_, rfl⟩
  obtain ⟨-, hroot₀, -⟩ := hs₀ ▸ initPhysicalMemoryMap_tables (populated_idPagingSize L kernelPid s)
  rw [populated_lvl2TableAddress] at hroot₀
  have hpool₀ : PoolAt L s₀ 0 := hs₀ ▸ PoolAt.start rfl
  rw [hs₀] at htables₁
  have hroot₁ : s₁.lvl2TableAddress = L.zoneRoot kernelPid := by rw [htables₁.fixed]; exact hroot₀
  have hpool₁ : PoolAt L s₁ 2 := hpool₀.bootTables htables₁ (by omega)
  have hpool₁' : PoolAt L (populated L initPid s₁) 2 :=
    hpool₁.congr (populated_configured hpool₁.configured) (populated_physicalMemoryMap L initPid s₁)
  obtain ⟨s₂, hinit₂, htables₂⟩ := cInitMmu_init sys hpool₁.configured (hpool₁'.freePair (by omega))
  have hroot₂ : s₂.lvl2TableAddress = L.zoneRoot initPid := by rw [htables₂.fixed]; rfl
  exact ⟨s₀, s₁, s₂, hinit₁, hinit₂, hs₀.symm, hpool₀, htables₁, htables₂, hroot₁, hroot₂⟩

namespace Booted

variable {s₀ s₁ s₂ : MmuState}

theorem pool₁ (h : Booted L s s₀ s₁ s₂) : PoolAt L s₁ 2 := by
  obtain ⟨-, hle⟩ := L.toNat_endAddr_tables
  exact h.pool.bootTables h.kernel (by omega)

theorem populated_pool (h : Booted L s s₀ s₁ s₂) : PoolAt L (populated L initPid s₁) 2 :=
  h.pool₁.congr (populated_configured h.pool₁.configured) (populated_physicalMemoryMap L initPid s₁)

theorem pool₂ (h : Booted L s s₀ s₁ s₂) : PoolAt L s₂ 4 := by
  obtain ⟨-, hle⟩ := L.toNat_endAddr_tables
  exact h.populated_pool.bootTables h.init (by omega)

/-- The tables of the kernel after the boot. -/
theorem kernelLeaves (h : Booted L s s₀ s₁ s₂) :
    BootLeaves L s₂.words (L.zoneRoot kernelPid) (nextFreePage s₀) (nextFreePage (pageTaken s₀)) :=
  h.init.bootLeaves_kernel h.kernel.leaves

end Booted

/-- The mapping at boot: over any contents of the memory, the kernel and then `init` get their
tables. -/
theorem boot_mapping (L : Layout) (sys : SystemState) (s : MmuState) :
    ∃ s₁ s₂, cInitMmu L sys kernelPid s = .ok s₁ ∧ cInitMmu L sys initPid s₁ = .ok s₂ ∧
      BootMapped (bootPool L s) s₁ ∧ BootMapped (bootPool L s) s₂ ∧
      BootMapped (bootPool L s) (s₂.setRoot s₁.lvl2TableAddress) := by
  obtain ⟨hend, hle⟩ := L.toNat_endAddr_tables
  obtain ⟨s₀, s₁, s₂, hinit₁, hinit₂, h⟩ := exists_booted L sys s
  have hid₁ := h.pool₁.configured.idPagingSize
  have hid₂ := h.pool₂.configured.idPagingSize
  have hkernel := h.kernelLeaves
  rw [← h.root] at hkernel
  refine ⟨s₁, s₂, hinit₁, hinit₂, ?_, ?_, ?_⟩
  · exact BootLeaves.bootMapped_next (h.root.symm ▸ h.kernel.leaves) hid₁ h.pool (by omega)
  · exact BootLeaves.bootMapped_next (h.root'.symm ▸ h.init.leaves) hid₂ h.populated_pool (by omega)
  · exact BootLeaves.bootMapped_next (t := s₂.setRoot s₁.lvl2TableAddress) hkernel hid₂
      h.pool (by omega)

end SysresOs.Mmu
