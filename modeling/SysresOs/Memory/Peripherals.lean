import SysresOs.Memory.Identity
import SysresOs.Memory.BootPool

/-!
# The pages of the peripherals

`map_peripheral_pages` binds four pages of the peripherals to themselves, in the tables of every
process. `mapPeripheralPages_eq` says what it makes of the tables, in the zones of all processes,
and of the counters.
-/

set_option autoImplicit false
set_option relaxedAutoImplicit false

namespace SysresOs.Mmu

open SysresOs.Outcome

variable {L : Layout} {s t : MmuState} {root r va pa q e : Word} {n m i u v : ℕ}
  {ba : BlockAttributesSg1}

/-! ### Binding a page of a zone -/

theorem Configured.bound (h : Configured L s) (v : ℕ) (pa e : Word) :
    Configured L (bound s v pa e) :=
  ⟨h.idPagingSize, h.bindCounter, h.bindCounterOffset⟩

/-- `bind_address` on a page of the zone's own tables. -/
theorem bindAddress_zone (va pa : Word) (ba : BlockAttributesSg1) (hconf : Configured L s)
    (h : ZoneTables s.words s.lvl2TableAddress n) (hn : n ≤ page va / 512)
    (hva : va.toNat < 0x3fe00000) (hpa : pa.toNat % 0x1000 = 0) (hram : pa.toNat < 0x40000000) :
    bindAddress s va pa ba = .ok (bound s (page va) pa (withAttributes pa ba), 0) := by
  have hrow : page va / 512 < 511 := by
    unfold page
    omega
  exact bindAddress_apart ba h.zone.rooted (by omega) hpa (by omega)
    (fun hid ↦ hconf.counter_lt hid hram) (h.rowApart hn hrow)

/-! ### The four pages -/

/-- The pages that `map_peripheral_pages` binds, the last one first. -/
def peripheralPages : List ℕ := [0x3f00b, 0x3f215, 0x3f201, 0x3f200]

/-- The entry of a page of the peripherals. -/
def peripheralEntry (v : ℕ) : Word :=
  withAttributes (BitVec.ofNat 64 (0x1000 * v))
    (newBlockAttributesSg1 ((if v = 0x3f00b then kernelPage else ioPage) ||| accessFlagSet) device)

theorem isBlockEntry_peripheralEntry (v : ℕ) : isBlockEntry (peripheralEntry v) = true :=
  isBlockEntry_withAttributes _ _

theorem entryAddress_peripheralEntry (hv : v < 0x40000) :
    (entryAddress (peripheralEntry v)).toNat = 0x1000 * v := by
  have hnat : (BitVec.ofNat 64 (0x1000 * v)).toNat = 0x1000 * v := by
    rw [BitVec.toNat_ofNat]
    omega
  rw [peripheralEntry, entryAddress_withAttributes, entryAddress_of_page (by omega) (by omega),
    hnat]

/-- Pages of the peripherals have been bound to themselves in the tables of a root. -/
structure PeripheralsBound (s t : MmuState) (root : Word) (pages : List ℕ) : Prop where
  fixed : t = { s with words := t.words, counters := t.counters }
  tables : ∀ r m, ZoneTables s.words r m → ZoneTables t.words r m
  present_eq : ∀ r, ZoneRoot r → ∀ i < 512, present t.words r i =
    if r = root ∧ ∃ v ∈ pages, i = v / 512 then true else present s.words r i
  leaf_eq : ∀ r m, ZoneTables s.words r m → ∀ u, m ≤ u / 512 → u < 511 * 512 → leaf t.words r u =
    if r = root ∧ u ∈ pages then some (peripheralEntry u) else leaf s.words r u
  frame : ∀ a, (∀ v ∈ pages, OffRow root (v / 512) a) → t.words a = s.words a
  counter : ∀ q, getBindCounter t q =
    if q.toNat / 0x1000 ∈ pages then getBindCounter s q + 1 else getBindCounter s q

namespace PeripheralsBound

theorem start (s : MmuState) (root : Word) : PeripheralsBound s s root [] where
  fixed := rfl
  tables _ _ h := h
  present_eq _ _ _ _ := by simp
  leaf_eq _ _ _ _ _ _ := by simp
  frame _ _ := rfl
  counter _ := by simp

/-- One more page is bound. -/
theorem bind {pages : List ℕ} (h : PeripheralsBound s t root pages)
    (htables : ZoneTables s.words root n) (hroot : s.lvl2TableAddress = root) (hnew : v ∉ pages)
    (hn : n ≤ v / 512) (hv : v < 511 * 512) (hid : s.idPagingSize.toNat ≤ 0x1000 * v) :
    PeripheralsBound s (bound t v (BitVec.ofNat 64 (0x1000 * v)) (peripheralEntry v)) root
      (v :: pages) := by
  have hroot' : t.lvl2TableAddress = root := by rw [h.fixed]; exact hroot
  have hid' : t.idPagingSize = s.idPagingSize := by rw [h.fixed]
  have hnat : (BitVec.ofNat 64 (0x1000 * v)).toNat = 0x1000 * v := by
    rw [BitVec.toNat_ofNat]
    omega
  have htables' := h.tables root n htables
  have hwords : (bound t v (BitVec.ofNat 64 (0x1000 * v)) (peripheralEntry v)).words =
      bindWords t.words root v (peripheralEntry v) := by rw [bound, hroot']
  constructor
  case fixed => rw [h.fixed]; rfl
  case tables =>
    intro r m hr
    rw [hwords]
    exact htables'.bind (h.tables r m hr) hn hv
  case present_eq =>
    intro r hr i hi
    rw [hwords, htables'.present_bindWords hr hn hv hi, h.present_eq r hr i hi]
    by_cases hsame : r = root <;> by_cases hrow : i = v / 512 <;> simp [hsame, hrow]
  case leaf_eq =>
    intro r m hr u hm hu
    rw [hwords, htables'.leaf_bindWords (h.tables r m hr) hn hv hm hu
      (isBlockEntry_peripheralEntry v), h.leaf_eq r m hr u hm hu]
    by_cases hsame : r = root <;> by_cases huv : u = v <;> simp [hsame, huv]
  case frame =>
    intro a ha
    rw [hwords, ← h.frame a fun u hu ↦ ha u (List.mem_cons_of_mem _ hu)]
    exact htables'.bindWords_of_not_mem hn hv (ha v List.mem_cons_self)
  case counter =>
    intro q
    have hbelow : t.idPagingSize ≤ BitVec.ofNat 64 (0x1000 * v) := by
      rw [hid', BitVec.le_def, hnat]
      exact hid
    have hpage : (BitVec.ofNat 64 (0x1000 * v)).toNat / 0x1000 = v := by omega
    rw [getBindCounter_bound, h.counter q, hpage]
    by_cases hq : q.toNat / 0x1000 = v
    · rw [if_pos ⟨hbelow, hq⟩, if_neg (by rw [hq]; exact hnew),
        if_pos (by rw [hq]; exact List.mem_cons_self)]
    · rw [if_neg fun hsame ↦ hq hsame.2]
      refine if_congr ?_ rfl rfl
      rw [List.mem_cons, or_iff_right hq]

/-- A call of `bind_address` in `map_peripheral_pages`. -/
theorem bindAddress {pages : List ℕ} (va : Word) (ba : BlockAttributesSg1)
    (h : PeripheralsBound s t root pages) (htables : ZoneTables s.words root n)
    (hroot : s.lvl2TableAddress = root) (hconf : Configured L s) (hva : va.toNat = 0x1000 * v)
    (hnew : v ∉ pages) (hn : n ≤ v / 512) (hv : v < 511 * 512)
    (hid : s.idPagingSize.toNat ≤ 0x1000 * v) (hentry : withAttributes va ba = peripheralEntry v) :
    ∃ t', Mmu.bindAddress t va va ba = .ok (t', 0) ∧ PeripheralsBound s t' root (v :: pages) := by
  have hroot' : t.lvl2TableAddress = root := by rw [h.fixed]; exact hroot
  have hconf' : Configured L t := by
    rw [h.fixed]
    exact ⟨hconf.idPagingSize, hconf.bindCounter, hconf.bindCounterOffset⟩
  have hpage : page va = v := by
    unfold page
    omega
  have hbind := bindAddress_zone va va ba hconf' (hroot' ▸ h.tables root n htables) (by omega)
    (by omega) (by omega) (by omega)
  have hva' : va = BitVec.ofNat 64 (0x1000 * v) := by
    rw [← hva, BitVec.ofNat_toNat, BitVec.setWidth_eq]
  refine ⟨_, hbind, ?_⟩
  rw [hpage, hentry, hva']
  exact h.bind htables hroot hnew hn hv hid

end PeripheralsBound

/-- `map_peripheral_pages` on tables whose last rows are in their zone. -/
theorem mapPeripheralPages_eq (hconf : Configured L s) (h : ZoneTables s.words s.lvl2TableAddress n)
    (hn : n ≤ 504) :
    ∃ t, mapPeripheralPages s = .ok t ∧
      PeripheralsBound s t s.lvl2TableAddress peripheralPages := by
  obtain ⟨hend, hle⟩ := L.toNat_endAddr_tables
  have hid : s.idPagingSize.toNat ≤ 0x3f000000 := by
    rw [hconf.idPagingSize]
    omega
  obtain ⟨t₁, hbind₁, ht₁⟩ := (PeripheralsBound.start s s.lvl2TableAddress).bindAddress
    (v := 0x3f200) gpioBase
    (newBlockAttributesSg1 (ioPage ||| accessFlagSet) device) h rfl hconf rfl (by decide)
    (by omega) (by decide) (by omega) rfl
  obtain ⟨t₂, hbind₂, ht₂⟩ := ht₁.bindAddress (v := 0x3f201) (gpioBase + 0x1000)
    (newBlockAttributesSg1 (ioPage ||| accessFlagSet) device) h rfl hconf rfl (by decide)
    (by omega) (by decide) (by omega) rfl
  obtain ⟨t₃, hbind₃, ht₃⟩ := ht₂.bindAddress (v := 0x3f215) (gpioBase + 0x15000)
    (newBlockAttributesSg1 (ioPage ||| accessFlagSet) device) h rfl hconf rfl (by decide)
    (by omega) (by decide) (by omega) rfl
  obtain ⟨t₄, hbind₄, ht₄⟩ := ht₃.bindAddress (v := 0x3f00b) timerIrqPage
    (newBlockAttributesSg1 (kernelPage ||| accessFlagSet) device) h rfl hconf rfl (by decide)
    (by omega) (by decide) (by omega) rfl
  refine ⟨t₄, ?_, ht₄⟩
  rw [mapPeripheralPages]
  simp only [hbind₁, hbind₂, hbind₃, hbind₄, ok_bind]

end SysresOs.Mmu
