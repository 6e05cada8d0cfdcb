import SysresOs.Memory.Copying

/-!
# Copying a stack page

`copy_forked_page` gives a forked process a physical page of its own for a stack page it shares with
its parent. The copy is made by the kernel, which maps the two physical pages at `PAGE_RES_1` and
`PAGE_RES_2` for the time of the copy. `copyForkedPage_eq` says what is left of this: the tables of
the kernel map what they mapped before.
-/

set_option autoImplicit false
set_option relaxedAutoImplicit false

namespace SysresOs.Mmu

open SysresOs.Loop SysresOs.Outcome

open SysresOs.Proc (SystemState kernelPid)

variable {s t : MmuState} {kernel child va pa old new e : Word} {n u v : ℕ}

/-! ### The hardware's walk -/

/-- The two entries that the hardware reads are those of the tables of `TTBR0_EL1`. -/
theorem kernelTranslation_entries (hroot : Rooted (s.ttbr0El1 &&& mask 47 1))
    (hva : va.toNat < 2 ^ 30) :
    s.word ((s.ttbr0El1 &&& mask 47 1) + 8#64 * ((va &&& mask 29 21) >>> 21)) =
        s.words (lvl2Place (s.ttbr0El1 &&& mask 47 1) (page va / 512)) ∧
      (getAddressSg1 s ((s.ttbr0El1 &&& mask 47 1) + 8#64 * ((va &&& mask 29 21) >>> 21)) +
        8#64 * ((va &&& mask 20 12) >>> 12)).toNat =
        lvl3Place s.words (s.ttbr0El1 &&& mask 47 1) (page va) := by
  have hbound := hroot.2
  have hpage := page_lt hva
  have hlvl2 : ((s.ttbr0El1 &&& mask 47 1) + 8#64 * ((va &&& mask 29 21) >>> 21)).toNat =
      lvl2Place (s.ttbr0El1 &&& mask 47 1) (page va / 512) := by
    rw [BitVec.toNat_add, BitVec.toNat_mul, toNat_lvl2Index hva, BitVec.toNat_ofNat, lvl2Place]
    omega
  have hentry : s.word ((s.ttbr0El1 &&& mask 47 1) + 8#64 * ((va &&& mask 29 21) >>> 21)) =
      s.words (lvl2Place (s.ttbr0El1 &&& mask 47 1) (page va / 512)) := by rw [MmuState.word, hlvl2]
  refine ⟨hentry, ?_⟩
  have hlt := table_lt s.words (s.ttbr0El1 &&& mask 47 1) (page va / 512)
  rw [BitVec.toNat_add, BitVec.toNat_mul, toNat_lvl3Index, BitVec.toNat_ofNat,
    getAddressSg1_eq, hentry, ← table, lvl3Place]
  omega

/-- An access of the kernel to a page that its tables map with the access flag set, and for a write
with no write protection. -/
theorem kernelTranslation_eq {write : Bool} (hroot : Rooted (s.ttbr0El1 &&& mask 47 1))
    (hva : va.toNat < 2 ^ 30) (hleaf : leaf s.words (s.ttbr0El1 &&& mask 47 1) (page va) = some e)
    (hflag : e &&& 1#64 <<< 10 ≠ 0) (hwrite : write → e &&& 1#64 <<< 7 = 0) :
    kernelTranslation s va write = some (entryAddress e) := by
  obtain ⟨hpresent, hword, hblock⟩ := leaf_eq_some hleaf
  obtain ⟨hentry, hlvl3⟩ := kernelTranslation_entries hroot hva
  have hlow : va &&& mask 63 30 = 0 := by
    rw [and_mask_eq_zero va (by omega) (by omega)]
    omega
  have htable : isTableEntry (s.words (lvl2Place (s.ttbr0El1 &&& mask 47 1) (page va / 512))) =
      true := hpresent
  simp only [kernelTranslation]
  rw [hentry, MmuState.word, hlvl3, hword, if_pos ⟨hlow, htable, hblock, hflag, hwrite⟩,
    entryAddress]

/-- An access of the kernel to a page that its tables do not map. -/
theorem kernelTranslation_eq_none (write : Bool) (hroot : Rooted (s.ttbr0El1 &&& mask 47 1))
    (hva : va.toNat < 2 ^ 30) (hleaf : leaf s.words (s.ttbr0El1 &&& mask 47 1) (page va) = none) :
    kernelTranslation s va write = none := by
  obtain ⟨hentry, hlvl3⟩ := kernelTranslation_entries hroot hva
  simp only [kernelTranslation]
  rw [hentry, MmuState.word, hlvl3, if_neg]
  rintro ⟨-, htable, hblock, -, -⟩
  rw [leaf, if_pos ⟨htable, hblock⟩] at hleaf
  cases hleaf

/-- The attributes of the kernel's own pages. -/
def kernelAttributes : BlockAttributesSg1 :=
  newBlockAttributesSg1 (kernelPage ||| accessFlagSet) normalWtNt

/-- The attributes of the pages of a process. -/
def userAttributes : BlockAttributesSg1 :=
  newBlockAttributesSg1 (userPage ||| accessFlagSet) normalWtNt

theorem withAttributes_and (e m : Word) (ba : BlockAttributesSg1) (hm : mask 47 12 &&& m = 0) :
    withAttributes e ba &&& m = attributes ba &&& m := by
  have hzero : e &&& (0 : Word) = 0 := BitVec.and_zero
  have hor (x : Word) : 0 ||| x = x := BitVec.zero_or
  rw [withAttributes_eq, BitVec.and_or_distrib_right, entryAddress, BitVec.and_assoc, hm, hzero,
    hor]

/-- The kernel may read and write what it has mapped for itself. -/
theorem kernelTranslation_kernelAttributes (pa : Word) {write : Bool}
    (hroot : Rooted (s.ttbr0El1 &&& mask 47 1)) (hva : va.toNat < 2 ^ 30)
    (hleaf : leaf s.words (s.ttbr0El1 &&& mask 47 1) (page va) =
      some (withAttributes pa kernelAttributes)) :
    kernelTranslation s va write = some (entryAddress pa) := by
  rw [kernelTranslation_eq hroot hva hleaf, entryAddress_withAttributes]
  · rw [withAttributes_and _ _ _ (by decide)]
    decide
  · intro _
    rw [withAttributes_and _ _ _ (by decide)]
    decide

/-- The memory after the page `src` is copied to the page `dst`. -/
def copyPage (pages : Word → BitVec 8) (dst src : Word) : Word → BitVec 8 := fun a ↦
  if a - dst < granule then pages (src + (a - dst)) else pages a

theorem memmovePage_eq {dst src dstPage srcPage : Word}
    (hsrc : kernelTranslation s src false = some srcPage)
    (hdst : kernelTranslation s dst true = some dstPage) :
    memmovePage s dst src = .ok { s with pages := copyPage s.pages dstPage srcPage } := by
  rw [memmovePage, hsrc, hdst]
  rfl

/-! ### Mappings for the time of the copy -/

/-- The words after two pages are bound and made invalid again. -/
def scratch (w : ℕ → Word) (root : Word) (u v : ℕ) (e e' : Word) : ℕ → Word :=
  invalidate (invalidate (bindWords (bindWords w root u e) root v e') root u) root v

section Scratch

variable {w : ℕ → Word} {root e' : Word} {a x : ℕ}

/-- The tables stay a directory between the writes of `scratch`. -/
theorem Directory.between (h : Directory w root) (hu : u < 511 * 512) (hv : v < 511 * 512)
    (e e' : Word) :
    Directory (bindWords w root u e) root ∧
      Directory (bindWords (bindWords w root u e) root v e') root ∧
      Directory (invalidate (bindWords (bindWords w root u e) root v e') root u) root := by
  have h₁ := h.bindWords_directory (e := e) hu
  have h₂ := h₁.bindWords_directory (e := e') hv
  exact ⟨h₁, h₂, h₂.writeEntry_directory hu⟩

/-- The tables stay in their zone between the writes of `scratch`. -/
theorem ZoneTables.between (h : ZoneTables w root 0) (hu : u < 511 * 512) (hv : v < 511 * 512)
    (e e' : Word) :
    ZoneTables (bindWords w root u e) root 0 ∧
      ZoneTables (bindWords (bindWords w root u e) root v e') root 0 ∧
      ZoneTables (invalidate (bindWords (bindWords w root u e) root v e') root u) root 0 := by
  have h₁ : ZoneTables (bindWords w root u e) root 0 := h.bind h (by omega) hu
  have h₂ : ZoneTables (bindWords (bindWords w root u e) root v e') root 0 :=
    h₁.bind h₁ (by omega) hv
  refine ⟨h₁, h₂, ?_⟩
  rw [invalidate, writeEntry, h₂.lvl3Place_eq (by omega) hu]
  exact h₂.write h.zone hu

theorem table_scratch (h : Directory w root) (hu : u < 511 * 512) (hv : v < 511 * 512)
    (hx : x < 512) : table (scratch w root u v e e') root x = table w root x := by
  obtain ⟨h₁, h₂, h₃⟩ := h.between hu hv e e'
  calc table (scratch w root u v e e') root x
      = table (invalidate (bindWords (bindWords w root u e) root v e') root u) root x :=
        h₃.table_writeEntry hv hx
    _ = table (bindWords (bindWords w root u e) root v e') root x := h₂.table_writeEntry hu hx
    _ = table (bindWords w root u e) root x := h₁.table_bindWords hv hx
    _ = table w root x := h.table_bindWords hu hx

/-- Two pages that were not mapped are not mapped again, and the others keep their leaves. -/
theorem leaf_scratch (h : Directory w root) (hu : u < 511 * 512) (hv : v < 511 * 512)
    (hx : x < 511 * 512) (he : isBlockEntry e = true) (he' : isBlockEntry e' = true)
    (hnone : leaf w root u = none) (hnone' : leaf w root v = none) :
    leaf (scratch w root u v e e') root x = leaf w root x := by
  obtain ⟨h₁, h₂, h₃⟩ := h.between hu hv e e'
  rw [scratch, h₃.leaf_invalidate hv hx, h₂.leaf_invalidate hu hx, h₁.leaf_bindWords hv hx he',
    h.leaf_bindWords hu hx he]
  split_ifs with hxv hxu
  · rw [hxv, hnone']
  · rw [hxu, hnone]
  · rfl

/-- Words outside the zone are kept. -/
theorem scratch_of_not_mem (h : ZoneTables w root 0) (hu : u < 511 * 512) (hv : v < 511 * 512)
    (ha : a < root.toNat ∨ root.toNat + 0x200000 ≤ a) : scratch w root u v e e' a = w a := by
  have hdir := h.directory
  obtain ⟨h₁, h₂, h₃⟩ := hdir.between hu hv e e'
  have htable (i : ℕ) (hi : i < 511) : table w root i = root.toNat + 0x1000 * (i + 1) :=
    h.table_eq i (by omega) hi
  have htable₁ (i : ℕ) (hi : i < 511) :
      table (bindWords w root u e) root i = root.toNat + 0x1000 * (i + 1) :=
    (hdir.table_bindWords hu (by omega)).trans (htable i hi)
  have htable₂ (i : ℕ) (hi : i < 511) : table (bindWords (bindWords w root u e) root v e') root i =
      root.toNat + 0x1000 * (i + 1) := (h₁.table_bindWords hv (by omega)).trans (htable₁ i hi)
  have htable₃ (i : ℕ) (hi : i < 511) :
      table (invalidate (bindWords (bindWords w root u e) root v e') root u) root i =
        root.toNat + 0x1000 * (i + 1) := (h₂.table_writeEntry hu (by omega)).trans (htable₂ i hi)
  have hplace (x : ℕ) (hx : x < 511 * 512) : a ≠ lvl2Place root (x / 512) := by
    unfold lvl2Place
    omega
  calc scratch w root u v e e' a
      = invalidate (bindWords (bindWords w root u e) root v e') root u a := by
        refine Function.update_of_ne ?_ _ _
        rw [lvl3Place, htable₃ _ (by omega)]
        omega
    _ = bindWords (bindWords w root u e) root v e' a := by
        refine Function.update_of_ne ?_ _ _
        rw [lvl3Place, htable₂ _ (by omega)]
        omega
    _ = bindWords w root u e a := by
        refine h₁.bindWords_of_not_mem hv (hplace v hv) ?_
        rw [htable₁ _ (by omega)]
        omega
    _ = w a := by
        refine hdir.bindWords_of_not_mem hu (hplace u hu) ?_
        rw [htable _ (by omega)]
        omega

/-- Two pages of present tables that were not mapped leave no trace that the walk sees. -/
theorem pointer_scratch (h : ZoneTables w root 0) (hu : u < 511 * 512) (hv : v < 511 * 512)
    (hpresent : present w root (u / 512) = true) (hpresent' : present w root (v / 512) = true)
    (hnone : leaf w root u = none) (hnone' : leaf w root v = none) :
    pointer (scratch w root u v e e' a) = pointer (w a) := by
  obtain ⟨h₁, h₂, h₃⟩ := h.between hu hv e e'
  have hpresent₁ : present (bindWords w root u e) root (v / 512) = true := by
    rw [h.present_bindWords h.zone (by omega) hu (by omega), hpresent', ite_self]
  -- the pages are not mapped, so their entries were not valid
  have hinvalid (x : ℕ) (hx : x < 511 * 512) (hvalid : present w root (x / 512) = true)
      (hx' : leaf w root x = none) : pointer (w (zonePlace root x)) = none := by
    rw [h.leaf_eq (by omega) hx, hvalid] at hx'
    rw [pointer_eq_none]
    simpa using hx'
  by_cases hav : a = zonePlace root v
  · rw [hav, hinvalid v hv hpresent' hnone', scratch, invalidate, writeEntry,
      h₃.lvl3Place_eq (by omega) hv, Function.update_self, pointer_eq_none, isBlockEntry_cleared]
  · rw [scratch, invalidate, writeEntry, h₃.lvl3Place_eq (by omega) hv, Function.update_of_ne hav]
    by_cases hau : a = zonePlace root u
    · rw [hau, hinvalid u hu hpresent hnone, invalidate, writeEntry, h₂.lvl3Place_eq (by omega) hu,
        Function.update_self, pointer_eq_none, isBlockEntry_cleared]
    · rw [invalidate, writeEntry, h₂.lvl3Place_eq (by omega) hu, Function.update_of_ne hau,
        h₁.bindWords_eq (by omega) hv, if_pos hpresent₁, zoneWrite, Function.update_of_ne hav,
        h.bindWords_eq (by omega) hu, if_pos hpresent, zoneWrite, Function.update_of_ne hau]

/-- In a row without a table the pages get a new table. -/
theorem scratch_of_absent (h : ZoneTables w root 0) (hu : u < 511 * 512) (hv : v < 511 * 512)
    (hrow : u / 512 = v / 512) (habsent : ¬ present w root (v / 512) = true)
    (hau : a ≠ zonePlace root u) (hav : a ≠ zonePlace root v) :
    scratch w root u v e e' a = newTable w root (v / 512) a := by
  obtain ⟨h₁, h₂, h₃⟩ := h.between hu hv e e'
  have hmade : present (bindWords w root u e) root (v / 512) = true := by
    rw [h.present_bindWords h.zone (by omega) hu (by omega), if_pos ⟨rfl, hrow.symm⟩]
  rw [scratch, invalidate, writeEntry, h₃.lvl3Place_eq (by omega) hv, Function.update_of_ne hav,
    invalidate, writeEntry, h₂.lvl3Place_eq (by omega) hu, Function.update_of_ne hau,
    h₁.bindWords_eq (by omega) hv, if_pos hmade, zoneWrite, Function.update_of_ne hav,
    h.bindWords_eq (by omega) hu, hrow, if_neg habsent, zoneWrite, Function.update_of_ne hau]

/-- The entries of the pages are invalid in the end. -/
theorem isBlockEntry_scratch (h : ZoneTables w root 0) (hu : u < 511 * 512) (hv : v < 511 * 512)
    (ha : a = zonePlace root u ∨ a = zonePlace root v) :
    isBlockEntry (scratch w root u v e e' a) = false := by
  obtain ⟨h₁, h₂, h₃⟩ := h.between hu hv e e'
  rw [scratch, invalidate, writeEntry, h₃.lvl3Place_eq (by omega) hv]
  by_cases hav : a = zonePlace root v
  · rw [hav, Function.update_self, isBlockEntry_cleared]
  · rw [Function.update_of_ne hav, ha.resolve_right hav, invalidate, writeEntry,
      h₂.lvl3Place_eq (by omega) hu, Function.update_self, isBlockEntry_cleared]

/-- Two pages of one row that were not mapped leave its table, if there was none, without a valid
entry. -/
theorem valid_scratch (h : ZoneTables w root 0) (hu : u < 511 * 512) (hv : v < 511 * 512)
    (hrow : u / 512 = v / 512) (hnone : leaf w root u = none) (hnone' : leaf w root v = none)
    (ha : a % 8 = 0) : isBlockEntry (scratch w root u v e e' a) = if present w root (v / 512) = true
    then isBlockEntry (w a)
      else if a = lvl2Place root (v / 512) then true
      else if root.toNat + 0x1000 * (v / 512 + 1) ≤ a ∧ a < root.toNat + 0x1000 * (v / 512 + 2)
        then false
      else isBlockEntry (w a) := by
  have haligned := h.zone.aligned
  have htable := h.table_eq (v / 512) (by omega) (by omega)
  split_ifs with hpresent hlvl2 hentry
  · exact isBlockEntry_congr (pointer_scratch h hu hv (hrow ▸ hpresent) hpresent hnone hnone')
  · unfold lvl2Place at hlvl2
    rw [scratch_of_absent h hu hv hrow hpresent (by unfold zonePlace; omega)
      (by unfold zonePlace; omega), newTable,
      clearTable_of_not_mem (by omega), hlvl2, ← lvl2Place, Function.update_self,
      isBlockEntry_or_three]
  · by_cases hbound : a = zonePlace root u ∨ a = zonePlace root v
    · exact isBlockEntry_scratch h hu hv hbound
    · rw [not_or] at hbound
      rw [scratch_of_absent h hu hv hrow hpresent hbound.1 hbound.2, newTable, clearTable, htable,
        if_pos (by omega), isBlockEntry_cleared]
  · rw [scratch_of_absent h hu hv hrow hpresent (by unfold zonePlace; omega)
      (by unfold zonePlace; omega), newTable_of_not_mem hlvl2 (by omega)]

variable {r : Word} {m : ℕ}

theorem ZoneTables.scratch (hr : ZoneTables w r m) (h : ZoneTables w root 0) (hu : u < 511 * 512)
    (hv : v < 511 * 512) : ZoneTables (Mmu.scratch w root u v e e') r m := by
  refine ⟨hr.zone, fun i hi hlt ↦ ?_⟩
  by_cases hsame : r = root
  · subst hsame
    rw [table_scratch h.directory hu hv (by omega), hr.table_eq i hi hlt]
  · have haligned := h.zone.aligned
    have haligned' := hr.zone.aligned
    have hapart : r.toNat ≠ root.toNat := fun heq ↦ hsame (BitVec.eq_of_toNat_eq heq)
    rw [table, scratch_of_not_mem h hu hv (by unfold lvl2Place; omega)]
    exact hr.table_eq i hi hlt

/-- The leaves of all zones are kept. -/
theorem ZoneTables.leaf_scratch (hr : ZoneTables w r m) (h : ZoneTables w root 0)
    (hu : u < 511 * 512) (hv : v < 511 * 512) (hm : m ≤ x / 512) (hx : x < 511 * 512)
    (he : isBlockEntry e = true) (he' : isBlockEntry e' = true) (hnone : leaf w root u = none)
    (hnone' : leaf w root v = none) : leaf (Mmu.scratch w root u v e e') r x = leaf w r x := by
  by_cases hsame : r = root
  · subst hsame
    exact Mmu.leaf_scratch h.directory hu hv hx he he' hnone hnone'
  · have haligned := h.zone.aligned
    have haligned' := hr.zone.aligned
    have hapart : r.toNat ≠ root.toNat := fun heq ↦ hsame (BitVec.eq_of_toNat_eq heq)
    exact hr.leaf_congr hm hx (scratch_of_not_mem h hu hv (by unfold lvl2Place; omega))
      (scratch_of_not_mem h hu hv (by unfold zonePlace; omega))

/-- The level-2 entries of the other zones are kept. -/
theorem present_scratch (h : ZoneTables w root 0) (hr : ZoneRoot r) (hne : r ≠ root)
    (hu : u < 511 * 512) (hv : v < 511 * 512) {i : ℕ} (hi : i < 512) :
    present (scratch w root u v e e') r i = present w r i := by
  have haligned := h.zone.aligned
  have haligned' := hr.aligned
  have hapart : r.toNat ≠ root.toNat := fun heq ↦ hne (BitVec.eq_of_toNat_eq heq)
  rw [present, scratch_of_not_mem h hu hv (by unfold lvl2Place; omega), present]

end Scratch

/-! ### `copy_forked_page` -/

/-- What `copy_forked_page` relies on for the page `v`: the child shares the physical page `old`
with its parent, the kernel maps nothing at the two reserved pages, and the next free page is bound
nowhere. -/
structure Shared (L : Layout) (sys : SystemState) (t : MmuState) (n v : ℕ) (old : Word) : Prop where
  configured : Configured L t
  kernelRoot : getLvl2AddressFromSysState sys kernelPid = L.mmuTablesStart
  hardwareRoot : t.ttbr0El1 &&& mask 47 1 = L.mmuTablesStart
  kernelTables : ZoneTables t.words L.mmuTablesStart 0
  childTables : ZoneTables t.words t.lvl2TableAddress n
  apart : t.lvl2TableAddress ≠ L.mmuTablesStart
  reserved : leaf t.words L.mmuTablesStart (page pageRes1) = none
  reserved' : leaf t.words L.mmuTablesStart (page pageRes2) = none
  mapped : ∃ e, leaf t.words t.lvl2TableAddress v = some e ∧ entryAddress e = old
  above : t.idPagingSize ≤ old
  ram : old.toNat < 0x40000000
  count : getBindCounter t old = 2
  free : t.physicalMemoryMap.head < t.physicalMemoryMap.size
  freeAligned : (nextFreePage t).toNat % 0x1000 = 0
  freeAbove : t.idPagingSize ≤ nextFreePage t
  freeRam : (nextFreePage t).toNat < 0x40000000
  freeCount : getBindCounter t (nextFreePage t) = 0

/-- The state after `copy_forked_page` has run for the page `v` of the tables of
`lvl2_table_address`, with the physical page `old`. -/
structure Unshared (L : Layout) (t t' : MmuState) (n v : ℕ) (old : Word) : Prop where
  fixed : t' = { pageTaken t with words := t'.words, counters := t'.counters, pages := t'.pages }
  contents : t'.pages = copyPage t.pages (nextFreePage t) old
  words : ∃ e e', isBlockEntry e = true ∧ isBlockEntry e' = true ∧
    t'.words = zoneWrite (scratch t.words L.mmuTablesStart (page pageRes1) (page pageRes2) e e')
      t.lvl2TableAddress v (withAttributes (nextFreePage t) userAttributes)
  counter : ∀ pa, getBindCounter t' pa = if pa.toNat / 0x1000 = old.toNat / 0x1000 ∨
    pa.toNat / 0x1000 = (nextFreePage t).toNat / 0x1000 then 1 else getBindCounter t pa

theorem getBindCounter_congr {q : Word} (h : pa.toNat / 0x1000 = q.toNat / 0x1000) :
    getBindCounter t pa = getBindCounter t q := by
  rw [getBindCounter, getBindCounter, getBindCounterAddress_inj.mpr h]

theorem getBindCounter_decrement (t : MmuState) (q pa : Word) :
    getBindCounter (decrementBindCounter t q) pa =
      if pa.toNat / 0x1000 = q.toNat / 0x1000 then getBindCounter t pa - 1
        else getBindCounter t pa := by
  rw [decrementBindCounter, getBindCounter_setBindCounter]
  split_ifs with h
  · rw [getBindCounter_congr h]
  · rfl

theorem decrementBindCounter_eq (t : MmuState) (pa : Word) :
    decrementBindCounter t pa = setBindCounter t pa (getBindCounter t pa - 1) := rfl

/-! ### The steps of `copy_forked_page` -/

/-- The entries of the two reserved pages while the page is copied. -/
def oldEntry (old : Word) : Word := withAttributes old kernelAttributes

def newEntry (t : MmuState) : Word := withAttributes (nextFreePage t) kernelAttributes

/-- The page is bound once less, and the tables of the kernel are at `lvl2_table_address`. -/
def atKernel (L : Layout) (t : MmuState) (old : Word) : MmuState :=
  (setBindCounter t old 1).setRoot L.mmuTablesStart

/-- The page is mapped at `PAGE_RES_1`. -/
def oldBound (L : Layout) (t : MmuState) (old : Word) : MmuState :=
  bound (atKernel L t old) (page pageRes1) old (oldEntry old)

/-- The next free page is taken, and mapped at `PAGE_RES_2`. -/
def bothBound (L : Layout) (t : MmuState) (old : Word) : MmuState :=
  bound (pageTaken (oldBound L t old)) (page pageRes2) (nextFreePage t) (newEntry t)

/-- The page is copied, and the mappings of the kernel are not counted any more. -/
def uncounted (L : Layout) (t : MmuState) (old : Word) : MmuState :=
  decrementBindCounter (decrementBindCounter
    { bothBound L t old with pages := copyPage (bothBound L t old).pages (nextFreePage t) old } old)
    (nextFreePage t)

/-- The mappings of the kernel are undone, and the tables of the child are at
`lvl2_table_address`. -/
def unmapped (L : Layout) (t : MmuState) (old : Word) : MmuState :=
  { uncounted L t old with
    words :=
      scratch t.words L.mmuTablesStart (page pageRes1) (page pageRes2) (oldEntry old) (newEntry t)
    lvl2TableAddress := t.lvl2TableAddress }

/-- The new page is bound in the tables of the child. -/
def rebound (L : Layout) (t : MmuState) (v : ℕ) (old : Word) : MmuState :=
  bound (unmapped L t old) v (nextFreePage t) (withAttributes (nextFreePage t) userAttributes)

theorem words_bothBound (L : Layout) (t : MmuState) (old : Word) : (bothBound L t old).words =
    bindWords (bindWords t.words L.mmuTablesStart (page pageRes1) (oldEntry old)) L.mmuTablesStart
    (page pageRes2)
      (newEntry t) := rfl

namespace Shared

variable {L : Layout} {sys : SystemState}

theorem old_aligned (h : Shared L sys t n v old) : old.toNat % 0x1000 = 0 := by
  obtain ⟨e, -, rfl⟩ := h.mapped
  exact entryAddress_aligned e

/-- A configuration does not depend on the words and the counters. -/
theorem configured_atKernel (h : Shared L sys t n v old) : Configured L (atKernel L t old) :=
  ⟨h.configured.idPagingSize, h.configured.bindCounter, h.configured.bindCounterOffset⟩

theorem bind_old (h : Shared L sys t n v old) :
    bindAddress (atKernel L t old) pageRes1 old kernelAttributes = .ok (oldBound L t old, 0) := by
  have hram := h.ram
  exact bindAddress_eq kernelAttributes h.kernelTables.directory (by decide)
    h.old_aligned (by omega) fun hid ↦ h.configured_atKernel.counter_lt hid hram

theorem bind_new (h : Shared L sys t n v old) :
    getNewPage (oldBound L t old) pageRes2 (kernelPage ||| accessFlagSet) normalWtNt =
      .ok (bothBound L t old, 0) := by
  have hdir : Directory (atKernel L t old).words (atKernel L t old).lvl2TableAddress :=
    h.kernelTables.directory
  have hconf := h.configured_atKernel
  exact getNewPage_eq (s := oldBound L t old) _ _
    ⟨hconf.idPagingSize, hconf.bindCounter, hconf.bindCounterOffset⟩
    (hdir.bindWords_directory (by decide)) h.free (by decide) h.freeAligned h.freeRam

/-- While the page is copied, the kernel has both pages mapped. -/
theorem leaf_bothBound (h : Shared L sys t n v old) :
    Directory (bothBound L t old).words L.mmuTablesStart ∧
    leaf (bothBound L t old).words L.mmuTablesStart (page pageRes1) = some (oldEntry old) ∧
      leaf (bothBound L t old).words L.mmuTablesStart (page pageRes2) = some (newEntry t) := by
  have hdir := h.kernelTables.directory
  have hold : isBlockEntry (oldEntry old) = true := isBlockEntry_withAttributes _ _
  have hnew : isBlockEntry (newEntry t) = true := isBlockEntry_withAttributes _ _
  have hdir' : Directory (bindWords t.words L.mmuTablesStart (page pageRes1) (oldEntry old))
      L.mmuTablesStart :=
    hdir.bindWords_directory (by decide)
  rw [words_bothBound]
  refine ⟨hdir'.bindWords_directory (by decide), ?_, ?_⟩
  · rw [hdir'.leaf_bindWords (by decide) (by decide) hnew, if_neg (by decide),
      hdir.leaf_bindWords (by decide) (by decide) hold, if_pos rfl]
  · rw [hdir'.leaf_bindWords (by decide) (by decide) hnew, if_pos rfl]

theorem entryAddress_new (h : Shared L sys t n v old) :
    entryAddress (nextFreePage t) = nextFreePage t := by
  have hram := h.freeRam
  exact entryAddress_of_page h.freeAligned (by omega)

theorem physicalAddress_new (h : Shared L sys t n v old) :
    getPhysicalAddress (bothBound L t old) pageRes2 = .ok (nextFreePage t) := by
  obtain ⟨hdir, -, hleaf⟩ := h.leaf_bothBound
  rw [getPhysicalAddress_eq (s := bothBound L t old) hdir.rooted (by decide) hleaf, newEntry,
    entryAddress_withAttributes, h.entryAddress_new]
  exact congrArg _ (BitVec.add_zero _)

/-- The copy of the kernel. -/
theorem move (h : Shared L sys t n v old) : memmovePage (bothBound L t old) pageRes2 pageRes1 = .ok
    { bothBound L t old with
      pages := copyPage (bothBound L t old).pages (nextFreePage t) old } := by
  have hram := h.ram
  obtain ⟨hdir, hold, hnew⟩ := h.leaf_bothBound
  have hhardware : (bothBound L t old).ttbr0El1 &&& mask 47 1 = L.mmuTablesStart := h.hardwareRoot
  have hrooted : Rooted ((bothBound L t old).ttbr0El1 &&& mask 47 1) := hhardware ▸ hdir.rooted
  refine memmovePage_eq ?_ ?_
  · rw [kernelTranslation_kernelAttributes old hrooted (by decide)
      (by rw [hhardware, hold, oldEntry]), entryAddress_of_page h.old_aligned (by omega)]
  · rw [kernelTranslation_kernelAttributes (nextFreePage t) hrooted (by decide)
      (by rw [hhardware, hnew, newEntry]), h.entryAddress_new]

/-- The mappings of the kernel are made invalid again. -/
theorem unmap_old (h : Shared L sys t n v old) : setInvalidPage (uncounted L t old) pageRes1 = .ok
    { uncounted L t old with
      words := invalidate (bothBound L t old).words L.mmuTablesStart (page pageRes1) } := by
  obtain ⟨hdir, hold, -⟩ := h.leaf_bothBound
  exact setInvalidPage_eq (s := uncounted L t old) hdir.rooted (by decide) (leaf_eq_some hold).1

theorem unmap_new (h : Shared L sys t n v old) :
    setInvalidPage { uncounted L t old with
      words := invalidate (bothBound L t old).words L.mmuTablesStart (page pageRes1) } pageRes2 =
        .ok
    { uncounted L t old with
      words := scratch t.words L.mmuTablesStart (page pageRes1) (page pageRes2) (oldEntry old)
          (newEntry t) } := by
  obtain ⟨hdir, -, hnew⟩ := h.leaf_bothBound
  exact setInvalidPage_eq (s := { uncounted L t old with
    words := invalidate (bothBound L t old).words L.mmuTablesStart (page pageRes1) })
      hdir.rooted (by decide)
    ((hdir.present_writeEntry (by decide) (by decide)).trans (leaf_eq_some hnew).1)

/-- The zone of the child has kept its words. -/
theorem words_unmapped (h : Shared L sys t n v old) {a : ℕ} (ha : t.lvl2TableAddress.toNat ≤ a)
    (ha' : a < t.lvl2TableAddress.toNat + 0x200000) : (unmapped L t old).words a = t.words a := by
  have haligned := h.childTables.zone.aligned
  have haligned' := h.kernelTables.zone.aligned
  have hapart : t.lvl2TableAddress.toNat ≠ L.mmuTablesStart.toNat :=
    fun heq ↦ h.apart (BitVec.eq_of_toNat_eq heq)
  exact scratch_of_not_mem h.kernelTables (by decide) (by decide) (by omega)

theorem tables_unmapped (h : Shared L sys t n v old) :
    ZoneTables (unmapped L t old).words t.lvl2TableAddress n := by
  refine h.childTables.congr fun i _ hi ↦ ?_
  rw [h.words_unmapped (by unfold lvl2Place; omega) (by unfold lvl2Place; omega)]

theorem present_unmapped (h : Shared L sys t n v old) (hv : v < 511 * 512) :
    present (unmapped L t old).words t.lvl2TableAddress (v / 512) = true := by
  obtain ⟨e, hleaf, -⟩ := h.mapped
  rw [present, h.words_unmapped (by unfold lvl2Place; omega) (by unfold lvl2Place; omega)]
  exact (leaf_eq_some hleaf).1

/-- The new page is bound in the tables of the child. -/
theorem bind_child (h : Shared L sys t n (page va) old) (hva : va.toNat < 0x3fe00000) :
    bindAddress (unmapped L t old) va (nextFreePage t) userAttributes =
      .ok (rebound L t (page va) old, 0) := by
  have hram := h.freeRam
  have hconf : Configured L (unmapped L t old) :=
    ⟨h.configured.idPagingSize, h.configured.bindCounter, h.configured.bindCounterOffset⟩
  exact bindAddressWithin_present userAttributes 1 h.tables_unmapped.zone.rooted (by omega)
    h.freeAligned (by omega)
    (fun hid ↦ hconf.counter_lt hid hram) (h.present_unmapped (by unfold page; omega))

/-- The old and the new page are different. -/
theorem new_ne_old (h : Shared L sys t n v old) :
    old.toNat / 0x1000 ≠ (nextFreePage t).toNat / 0x1000 := by
  intro heq
  have hcount := h.freeCount
  rw [← getBindCounter_congr heq, h.count] at hcount
  exact absurd hcount (by decide)

/-- The counters after the copy: those of the two pages are one. -/
theorem counter_rebound (h : Shared L sys t n v old) (u : ℕ) (pa : Word) :
    getBindCounter (rebound L t u old) pa = if pa.toNat / 0x1000 = old.toNat / 0x1000 ∨
      pa.toNat / 0x1000 = (nextFreePage t).toNat / 0x1000 then 1 else getBindCounter t pa := by
  have hold : (atKernel L t old).idPagingSize ≤ old := h.above
  have hnew : (oldBound L t old).idPagingSize ≤ nextFreePage t := h.freeAbove
  have hnew' : (unmapped L t old).idPagingSize ≤ nextFreePage t := h.freeAbove
  have hfirst : getBindCounter (oldBound L t old) pa =
      if pa.toNat / 0x1000 = old.toNat / 0x1000 then getBindCounter (atKernel L t old) pa + 1
      else getBindCounter (atKernel L t old) pa := by
    rw [oldBound, getBindCounter_bound]
    exact if_congr (and_iff_right hold) rfl rfl
  have hsecond : getBindCounter (bothBound L t old) pa =
      if pa.toNat / 0x1000 = (nextFreePage t).toNat / 0x1000
        then getBindCounter (oldBound L t old) pa + 1
      else getBindCounter (oldBound L t old) pa := by
    rw [bothBound, getBindCounter_bound]
    exact if_congr (and_iff_right hnew) rfl rfl
  have hlast : getBindCounter (rebound L t u old) pa =
      if pa.toNat / 0x1000 = (nextFreePage t).toNat / 0x1000
        then getBindCounter (uncounted L t old) pa + 1
      else getBindCounter (uncounted L t old) pa := by
    rw [rebound, getBindCounter_bound]
    exact if_congr (and_iff_right hnew') rfl rfl
  have hzero : getBindCounter (atKernel L t old) pa =
      if pa.toNat / 0x1000 = old.toNat / 0x1000 then 1 else getBindCounter t pa :=
    getBindCounter_setBindCounter t old pa 1
  have hpages : getBindCounter { bothBound L t old with
      pages := copyPage (bothBound L t old).pages (nextFreePage t) old } pa =
          getBindCounter (bothBound L t old) pa := rfl
  rw [hlast, uncounted, getBindCounter_decrement, getBindCounter_decrement, hpages,
    hsecond, hfirst, hzero]
  have hne := h.new_ne_old
  by_cases hpa : pa.toNat / 0x1000 = old.toNat / 0x1000
  · have hpa' : pa.toNat / 0x1000 ≠ (nextFreePage t).toNat / 0x1000 := hpa ▸ hne
    simp only [hpa, hne, if_true, if_false, true_or]
    decide
  · by_cases hpa' : pa.toNat / 0x1000 = (nextFreePage t).toNat / 0x1000
    · have hfree : getBindCounter t pa = 0 := by
        rw [getBindCounter_congr hpa']
        exact h.freeCount
      simp only [hpa', Ne.symm hne, hfree, if_true, if_false, or_true]
      decide
    · simp only [hpa, hpa', if_false, or_self]

/-- What the steps leave. -/
theorem unshared (h : Shared L sys t n v old) (hn : n ≤ v / 512) (hv : v < 511 * 512) :
    Unshared L t (rebound L t v old) n v old where
  fixed := rfl
  contents := rfl
  words := by
    refine ⟨oldEntry old, newEntry t, isBlockEntry_withAttributes _ _,
      isBlockEntry_withAttributes _ _, ?_⟩
    change bindWords (unmapped L t old).words t.lvl2TableAddress _ _ = _
    rw [bindWords, if_pos (h.present_unmapped hv), writeEntry, h.tables_unmapped.lvl3Place_eq hn hv,
      zoneWrite]
    rfl
  counter := h.counter_rebound v

end Shared

/-- `copy_forked_page` on a page of the user part of the tables. -/
theorem copyForkedPage_eq {L : Layout} {sys : SystemState} (h : Shared L sys t n (page va) old)
    (haligned : va.toNat % 0x1000 = 0) (hn : n ≤ page va / 512) (hva : va.toNat < 0x3fe00000) :
    ∃ t', copyForkedPage L sys va t = .ok t' ∧ Unshared L t t' n (page va) old := by
  refine ⟨rebound L t (page va) old, ?_, h.unshared hn (by unfold page; omega)⟩
  obtain ⟨e, hleaf, hold⟩ := h.mapped
  have hgranule : va % granule = 0 := by
    apply BitVec.eq_of_toNat_eq
    rw [BitVec.toNat_umod]
    exact haligned
  have hphys : getPhysicalAddress t va = .ok old := by
    have hzero : va &&& mask 11 0 = 0 := (page_aligned_iff va).mpr haligned
    rw [getPhysicalAddress_eq h.childTables.zone.rooted (by omega) hleaf, hold, hzero]
    exact congrArg _ (BitVec.add_zero _)
  have hdecr : decrementBindCounter t old = setBindCounter t old 1 := by
    rw [decrementBindCounter_eq, h.count]
    rfl
  have hunmapped : ({ uncounted L t old with
      words := scratch t.words L.mmuTablesStart (page pageRes1) (page pageRes2) (oldEntry old)
        (newEntry t) } : MmuState).setRoot (setBindCounter t old 1).lvl2TableAddress =
        unmapped L t old := rfl
  rw [copyForkedPage, assert_pos hgranule, ok_bind, hphys, ok_bind, assert_pos h.count, ok_bind]
  simp only [hdecr, h.kernelRoot]
  rw [assert_pos trivial, ok_bind, ← kernelAttributes, ← atKernel, h.bind_old, ok_bind]
  dsimp only
  rw [assert_pos rfl, ok_bind, h.bind_new, ok_bind]
  dsimp only
  rw [assert_pos rfl, ok_bind, h.physicalAddress_new, ok_bind, h.move, ok_bind, ← uncounted,
    h.unmap_old, ok_bind, h.unmap_new, ok_bind, hunmapped, ← userAttributes,
    h.bind_child hva, ok_bind]

/-- Whether a word outside of the zone of a child is a valid entry when its stack has been copied:
if the kernel had no table for the two reserved pages, it has one then, without a valid entry. -/
def validOutside (L : Layout) (w : ℕ → Word) (a : ℕ) : Bool :=
  if present w L.mmuTablesStart 504 = true then isBlockEntry (w a)
  else if a = lvl2Place L.mmuTablesStart 504 then true
  else if L.mmuTablesStart.toNat + 0x1000 * 505 ≤ a ∧ a < L.mmuTablesStart.toNat + 0x1000 * 506
    then false
  else isBlockEntry (w a)

section Unshared

variable {L : Layout} {sys : SystemState} {t' : MmuState} {r : Word} {m : ℕ}

theorem Unshared.zoneTables (h' : Unshared L t t' n v old) (h : Shared L sys t n v old)
    (hv : v < 511 * 512) (hr : ZoneTables t.words r m) : ZoneTables t'.words r m := by
  obtain ⟨e, e', -, -, hwords⟩ := h'.words
  rw [hwords]
  exact (hr.scratch h.kernelTables (by decide) (by decide)).write h.childTables.zone hv

theorem Unshared.present_eq (h' : Unshared L t t' n v old) (h : Shared L sys t n v old)
    (hv : v < 511 * 512) (hr : ZoneRoot r) (hne : r ≠ L.mmuTablesStart) {i : ℕ} (hi : i < 512) :
    present t'.words r i = present t.words r i := by
  obtain ⟨e, e', -, -, hwords⟩ := h'.words
  rw [hwords, ZoneTables.present_zoneWrite h.childTables.zone hr hv hi,
    present_scratch h.kernelTables hr hne (by decide) (by decide) hi]

/-- A page is copied without a trace outside of the zone of the child. -/
theorem Unshared.pointers (h' : Unshared L t t' n v old) (h : Shared L sys t n v old)
    (hv : v < 511 * 512) (hpresent : present t.words L.mmuTablesStart 504 = true) {a : ℕ}
    (ha : a < t.lvl2TableAddress.toNat ∨ t.lvl2TableAddress.toNat + 0x200000 ≤ a) :
    pointer (t'.words a) = pointer (t.words a) := by
  obtain ⟨e, e', -, -, hwords⟩ := h'.words
  rw [hwords, zoneWrite, Function.update_of_ne (by unfold zonePlace; omega)]
  exact pointer_scratch h.kernelTables (by decide) (by decide) hpresent hpresent
    h.reserved h.reserved'

/-- Outside of the zone of the child, a page is copied without a trace but for the table of the
kernel that the two reserved pages are in. -/
theorem Unshared.valid_eq (h' : Unshared L t t' n v old) (h : Shared L sys t n v old)
    (hv : v < 511 * 512) {a : ℕ} (haligned : a % 8 = 0)
    (ha : a < t.lvl2TableAddress.toNat ∨ t.lvl2TableAddress.toNat + 0x200000 ≤ a) :
    isBlockEntry (t'.words a) = validOutside L t.words a := by
  obtain ⟨e, e', -, -, hwords⟩ := h'.words
  rw [hwords, zoneWrite, Function.update_of_ne (by unfold zonePlace; omega)]
  exact valid_scratch h.kernelTables (by decide) (by decide) (by decide) h.reserved
    h.reserved' haligned

/-- The leaves after `copy_forked_page`, in the zones of all processes. -/
theorem Unshared.leaf_eq (h' : Unshared L t t' n v old) (h : Shared L sys t n v old)
    (hv : v < 511 * 512) (hr : ZoneTables t.words r m) (hm : m ≤ u / 512) (hu : u < 511 * 512) :
    leaf t'.words r u = if r = t.lvl2TableAddress ∧ u = v then
      some (withAttributes (nextFreePage t) userAttributes) else leaf t.words r u := by
  obtain ⟨e, e', he, he', hwords⟩ := h'.words
  obtain ⟨old', hleaf, -⟩ := h.mapped
  have hvalid : present (scratch t.words L.mmuTablesStart (page pageRes1) (page pageRes2) e e')
      t.lvl2TableAddress (v / 512) = true ∧
      isBlockEntry (withAttributes (nextFreePage t) userAttributes) = true := by
    refine ⟨?_, isBlockEntry_withAttributes _ _⟩
    rw [present_scratch h.kernelTables h.childTables.zone h.apart (by decide)
      (by decide) (by omega)]
    exact (leaf_eq_some hleaf).1
  rw [hwords, (hr.scratch h.kernelTables (by decide) (by decide)).leaf_zoneWrite
    h.childTables.zone hv hm hu,
    if_pos hvalid, hr.leaf_scratch h.kernelTables (by decide) (by decide) hm hu he he'
    h.reserved h.reserved']

end Unshared

end SysresOs.Mmu
