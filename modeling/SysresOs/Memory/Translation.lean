import SysresOs.Memory.Tables

/-!
# The walk and `bind_address`

What the functions of `mmu.c` that walk the tables of `lvl2_table_address` do to the leaves of these
tables. `bindAddress_eq` is the lemma for `bind_address`: on a directory it binds the page, making a
level-3 table where there is none, and counts the physical page. `bindAddress_updates_iff` says that
it updates the translation as a map, and its counter as a number as long as the counter does not
wrap.
-/

set_option autoImplicit false
set_option relaxedAutoImplicit false

namespace SysresOs.Mmu

open SysresOs.Loop SysresOs.Outcome

/-- The page number of a virtual address. -/
def page (va : Word) : ℕ := va.toNat / 0x1000

/-- The translation of a virtual address by the tables of a root. -/
def translate (w : ℕ → Word) (root va : Word) : Option Word :=
  if va.toNat < 2 ^ 30 then
    (leaf w root (page va)).map fun e ↦ entryAddress e + (va &&& mask 11 0)
  else none

variable {s s' : MmuState} {va pa e : Word} {ba : BlockAttributesSg1}

@[simp] theorem words_setWord (s : MmuState) (a v : Word) (n : ℕ) :
    (s.setWord a v).words n = if n = a.toNat then v else s.words n := by
  simp [MmuState.setWord, Function.update_apply]

theorem getAddressSg1_eq (s : MmuState) (a : Word) : getAddressSg1 s a = entryAddress (s.word a) :=
  rfl

theorem page_lt (h : va.toNat < 2 ^ 30) : page va < 512 * 512 := by
  unfold page
  omega

theorem errorCode_eq_zero (a : Word) : errorCode a = 0 ↔ a.toNat % 8 = 0 := by
  rw [errorCode, and_mask_eq_zero a (by omega) (by omega)]
  omega

theorem page_aligned_iff (pa : Word) : pa &&& mask 11 0 = 0 ↔ pa.toNat % 0x1000 = 0 := by
  rw [and_mask_eq_zero pa (by omega) (by omega)]
  omega

/-! ### The walk -/

/-- The bits of an address that select the level-2 entry. -/
theorem toNat_lvl2Index (hva : va.toNat < 2 ^ 30) :
    ((va &&& mask 29 21) >>> 21).toNat = page va / 512 := by
  rw [BitVec.toNat_ushiftRight, toNat_and_mask va (by omega) (by omega), Nat.shiftRight_eq_div_pow]
  unfold page
  omega

/-- The bits of an address that select the level-3 entry. -/
theorem toNat_lvl3Index (va : Word) : ((va &&& mask 20 12) >>> 12).toNat = page va % 512 := by
  rw [BitVec.toNat_ushiftRight, toNat_and_mask va (by omega) (by omega), Nat.shiftRight_eq_div_pow]
  unfold page
  omega

theorem getLvl2TableEntryPhysAddress_eq (hroot : Rooted s.lvl2TableAddress)
    (hva : va.toNat < 2 ^ 30) :
    (getLvl2TableEntryPhysAddress s va).toNat = lvl2Place s.lvl2TableAddress (page va / 512) := by
  have hlow : va &&& mask 47 30 = 0 := by
    rw [and_mask_eq_zero va (by omega) (by omega)]
    omega
  have hhigh : va &&& mask 63 48 = 0 := by
    rw [and_mask_eq_zero va (by omega) (by omega)]
    omega
  have haligned : s.lvl2TableAddress &&& mask 16 0 = 0 := by
    rw [and_mask_eq_zero _ (by omega) (by omega)]
    have := hroot.1
    omega
  have hindex := toNat_lvl2Index hva
  have hbound := hroot.2
  have hpage := page_lt hva
  rw [getLvl2TableEntryPhysAddress, if_neg (not_not.mpr hlow), if_neg (not_not.mpr hhigh),
    if_neg (not_not.mpr haligned)]
  rw [BitVec.toNat_add, BitVec.toNat_mul, hindex, BitVec.toNat_ofNat, lvl2Place]
  omega

theorem errorCode_lvl2 (hroot : Rooted s.lvl2TableAddress) (hva : va.toNat < 2 ^ 30) :
    errorCode (getLvl2TableEntryPhysAddress s va) = 0 := by
  rw [errorCode_eq_zero, getLvl2TableEntryPhysAddress_eq hroot hva, lvl2Place]
  have := hroot.1
  omega

theorem word_lvl2 (hroot : Rooted s.lvl2TableAddress) (hva : va.toNat < 2 ^ 30) :
    s.word (getLvl2TableEntryPhysAddress s va) =
      s.words (lvl2Place s.lvl2TableAddress (page va / 512)) := by
  rw [MmuState.word, getLvl2TableEntryPhysAddress_eq hroot hva]

theorem getLvl3EntryPhysAddress_eq (hroot : Rooted s.lvl2TableAddress) (hva : va.toNat < 2 ^ 30)
    (hpresent : present s.words s.lvl2TableAddress (page va / 512) = true) :
    (getLvl3EntryPhysAddress s va).toNat = lvl3Place s.words s.lvl2TableAddress (page va) := by
  have hindex := toNat_lvl3Index va
  have htable : isTableEntry (s.word (getLvl2TableEntryPhysAddress s va)) = true := by
    rwa [word_lvl2 hroot hva]
  have hlt := table_lt s.words s.lvl2TableAddress (page va / 512)
  simp only [getLvl3EntryPhysAddress]
  rw [if_neg (not_not.mpr (errorCode_lvl2 hroot hva)), htable]
  simp only [Bool.not_true, Bool.false_eq_true, if_false]
  rw [BitVec.toNat_add, BitVec.toNat_mul, hindex, BitVec.toNat_ofNat, getAddressSg1_eq,
    word_lvl2 hroot hva, ← table, lvl3Place]
  omega

theorem getLvl3EntryPhysAddress_absent (hroot : Rooted s.lvl2TableAddress) (hva : va.toNat < 2 ^ 30)
    (habsent : present s.words s.lvl2TableAddress (page va / 512) = false) :
    getLvl3EntryPhysAddress s va = 5 := by
  have htable : isTableEntry (s.word (getLvl2TableEntryPhysAddress s va)) = false := by
    rwa [word_lvl2 hroot hva]
  simp only [getLvl3EntryPhysAddress]
  rw [if_neg (not_not.mpr (errorCode_lvl2 hroot hva)), htable]
  rfl

theorem errorCode_lvl3 (hroot : Rooted s.lvl2TableAddress) (hva : va.toNat < 2 ^ 30)
    (hpresent : present s.words s.lvl2TableAddress (page va / 512) = true) :
    errorCode (getLvl3EntryPhysAddress s va) = 0 := by
  rw [errorCode_eq_zero, getLvl3EntryPhysAddress_eq hroot hva hpresent, lvl3Place]
  have := table_aligned s.words s.lvl2TableAddress (page va / 512)
  omega

theorem word_lvl3 (hroot : Rooted s.lvl2TableAddress) (hva : va.toNat < 2 ^ 30)
    (hpresent : present s.words s.lvl2TableAddress (page va / 512) = true) :
    s.word (getLvl3EntryPhysAddress s va) =
      s.words (lvl3Place s.words s.lvl2TableAddress (page va)) := by
  rw [MmuState.word, getLvl3EntryPhysAddress_eq hroot hva hpresent]

/-! ### Functions on one entry -/

theorem setInvalidEntry_lvl3 (hroot : Rooted s.lvl2TableAddress) (hva : va.toNat < 2 ^ 30)
    (hpresent : present s.words s.lvl2TableAddress (page va / 512) = true) :
    setInvalidEntry s (getLvl3EntryPhysAddress s va) =
      { s with words := invalidate s.words s.lvl2TableAddress (page va) } := by
  simp only [setInvalidEntry, MmuState.setWord, word_lvl3 hroot hva hpresent,
    getLvl3EntryPhysAddress_eq hroot hva hpresent, invalidate, writeEntry]

theorem setInvalidPage_eq (hroot : Rooted s.lvl2TableAddress) (hva : va.toNat < 2 ^ 30)
    (hpresent : present s.words s.lvl2TableAddress (page va / 512) = true) :
    setInvalidPage s va = .ok { s with
      words := invalidate s.words s.lvl2TableAddress (page va) } := by
  rw [setInvalidPage, assert_pos (errorCode_lvl3 hroot hva hpresent), ok_bind,
    setInvalidEntry_lvl3 hroot hva hpresent]

theorem getAddressSg1_lvl3 (hroot : Rooted s.lvl2TableAddress) (hva : va.toNat < 2 ^ 30)
    (hleaf : leaf s.words s.lvl2TableAddress (page va) = some e) :
    getAddressSg1 s (getLvl3EntryPhysAddress s va) = entryAddress e := by
  obtain ⟨hpresent, hword, -⟩ := leaf_eq_some hleaf
  rw [getAddressSg1_eq, word_lvl3 hroot hva hpresent, hword]

theorem getPhysicalAddress_eq (hroot : Rooted s.lvl2TableAddress) (hva : va.toNat < 2 ^ 30)
    (hleaf : leaf s.words s.lvl2TableAddress (page va) = some e) :
    getPhysicalAddress s va = .ok (entryAddress e + (va &&& mask 11 0)) := by
  rw [getPhysicalAddress, assert_pos (errorCode_lvl3 hroot hva (leaf_eq_some hleaf).1), ok_bind,
    getAddressSg1_lvl3 hroot hva hleaf]

theorem initNewLvl3Table_eq {entry root : Word} {i : ℕ} (he : entry.toNat = lvl2Place root i)
    (hapart : entry.toNat < table s.words root i ∨ table s.words root i + 0x1000 ≤ entry.toNat) :
    initNewLvl3Table s entry = .ok { s with words := newTable s.words root i } := by
  have hword : s.word entry = s.words (lvl2Place root i) := by rw [MmuState.word, he]
  have htable : isTableEntry ((setIdentifierTableEntry s entry).word entry) = true := by
    rw [setIdentifierTableEntry, MmuState.word, words_setWord, if_pos rfl]
    exact isBlockEntry_or_three _
  have hloop (k : ℕ) (hk : k ≤ 512) : forUpTo k (fun i s ↦
      setInvalidEntry s (getAddressSg1 s entry + BitVec.ofNat 64 i * 8))
      (setIdentifierTableEntry s entry) =
      { s with words := clearTable (Function.update s.words (lvl2Place root i)
        (s.words (lvl2Place root i) ||| 3)) (table s.words root i) k } := by
    induction k with
    | zero => rw [forUpTo, clearTable_zero, setIdentifierTableEntry, MmuState.setWord, hword, he]
    | succ k ih =>
      have hentry : clearTable (Function.update s.words (lvl2Place root i)
          (s.words (lvl2Place root i) ||| 3)) (table s.words root i) k entry.toNat =
          s.words (lvl2Place root i) ||| 3 := by
        rw [clearTable_of_not_mem (by omega), he, Function.update_self]
      have hplace : (entryAddress (s.words (lvl2Place root i)) + BitVec.ofNat 64 k * 8).toNat =
          table s.words root i + 8 * k := by
        have hlt := table_lt s.words root i
        have height : (8 : Word).toNat = 8 := rfl
        rw [table] at hlt ⊢
        rw [BitVec.toNat_add, BitVec.toNat_mul, BitVec.toNat_ofNat, height]
        omega
      rw [forUpTo, ih (by omega)]
      simp only [setInvalidEntry, getAddressSg1_eq, MmuState.word, MmuState.setWord, hentry,
        entryAddress_or_three, hplace, clearTable_succ]
  rw [initNewLvl3Table, assert_eq_ok htable]
  exact congrArg Except.ok (hloop 512 le_rfl)

/-! ### Counters -/

/-- The state has the symbols of the linker script, as `c_init_mmu` and `init_physical_memory_map`
leave them. -/
structure Configured (L : Layout) (s : MmuState) : Prop where
  idPagingSize : s.idPagingSize = L.endAddr
  bindCounter : s.physicalMemoryMap.bindCounter = L.physicalMemoryMap + 0x100000
  bindCounterOffset : s.physicalMemoryMap.bindCounterOffset = s.idPagingSize / granule

theorem Layout.toNat_endAddr (L : Layout) :
    L.endAddr.toNat = L.mmuTablesStart.toNat + 0x4200000 := by
  have hbelow := L.below_peripherals
  have hmap : (0x4000000 : Word).toNat = 0x4000000 := rfl
  have hend : (0x200000 : Word).toNat = 0x200000 := rfl
  rw [endAddr, physicalMemoryMap, BitVec.toNat_add, BitVec.toNat_add, hmap, hend]
  omega

/-- The counters of the physical pages end below `__end`. -/
theorem Configured.counter_lt {L : Layout} (h : Configured L s) (hid : s.idPagingSize ≤ pa)
    (hpa : pa.toNat < 0x40000000) : getBindCounterAddress s pa < s.idPagingSize := by
  have hbelow := L.below_peripherals
  have hend := L.toNat_endAddr
  have hle : s.idPagingSize.toNat ≤ pa.toNat := hid
  have hgranule : granule.toNat = 0x1000 := rfl
  have hmap : (0x4000000 : Word).toNat = 0x4000000 := rfl
  have hcounters : (0x100000 : Word).toNat = 0x100000 := rfl
  have hbase : (L.physicalMemoryMap + 0x100000).toNat = L.mmuTablesStart.toNat + 0x4100000 := by
    rw [Layout.physicalMemoryMap, BitVec.toNat_add, BitVec.toNat_add, hmap, hcounters]
    omega
  rw [h.idPagingSize, hend] at hle
  rw [BitVec.lt_def, getBindCounterAddress, h.bindCounter, h.bindCounterOffset, BitVec.toNat_sub,
    BitVec.toNat_add, BitVec.toNat_udiv, BitVec.toNat_udiv, hbase, hgranule, h.idPagingSize, hend]
  have hdiv : (L.mmuTablesStart.toNat + 0x4200000) / 0x1000 ≤ pa.toNat / 0x1000 := by omega
  have hdiv' : pa.toNat / 0x1000 < (L.mmuTablesStart.toNat + 0x4200000) / 0x1000 + 0x40000 := by
    omega
  omega

/-- Two physical addresses have one counter exactly when they are in one page. -/
theorem getBindCounterAddress_inj {q : Word} :
    getBindCounterAddress s q = getBindCounterAddress s pa ↔
      q.toNat / 0x1000 = pa.toNat / 0x1000 := by
  have hgranule : granule.toNat = 0x1000 := rfl
  rw [getBindCounterAddress, getBindCounterAddress, BitVec.sub_left_inj, BitVec.add_right_inj,
    ← BitVec.toNat_inj, BitVec.toNat_udiv, BitVec.toNat_udiv, hgranule]

theorem incrementBindCounter_eq (s : MmuState) (pa : Word)
    (h : getBindCounterAddress s pa < s.idPagingSize) :
    incrementBindCounter s pa = .ok (setBindCounter s pa (getBindCounter s pa + 1)) := by
  rw [incrementBindCounter, assert_pos h]
  rfl

theorem getBindCounter_setBindCounter (s : MmuState) (pa q : Word) (c : BitVec 8) :
    getBindCounter (setBindCounter s pa c) q =
      if q.toNat / 0x1000 = pa.toNat / 0x1000 then c else getBindCounter s q := by
  change Function.update s.counters (getBindCounterAddress s pa) c (getBindCounterAddress s q) = _
  rw [Function.update_apply]
  exact if_congr getBindCounterAddress_inj rfl rfl

/-! ### Binding a page -/

/-- The counters after a physical page is bound. -/
def bindCounters (s : MmuState) (pa : Word) : Word → BitVec 8 :=
  if s.idPagingSize ≤ pa then
    Function.update s.counters (getBindCounterAddress s pa) (getBindCounter s pa + 1)
  else s.counters

/-- The state after a page is bound by an entry to a physical page. -/
def bound (s : MmuState) (v : ℕ) (pa e : Word) : MmuState :=
  { s with words := bindWords s.words s.lvl2TableAddress v e, counters := bindCounters s pa }

theorem getBindCounter_bound (s : MmuState) (v : ℕ) (pa e q : Word) :
    getBindCounter (bound s v pa e) q =
      if s.idPagingSize ≤ pa ∧ q.toNat / 0x1000 = pa.toNat / 0x1000 then getBindCounter s q + 1
      else getBindCounter s q := by
  change bindCounters s pa (getBindCounterAddress s q) = _
  unfold bindCounters
  by_cases hid : s.idPagingSize ≤ pa
  · rw [if_pos hid, Function.update_apply]
    by_cases hq : getBindCounterAddress s q = getBindCounterAddress s pa
    · rw [if_pos hq, if_pos ⟨hid, getBindCounterAddress_inj.mp hq⟩, getBindCounter,
        getBindCounter, hq]
    · rw [if_neg hq, if_neg fun h ↦ hq (getBindCounterAddress_inj.mpr h.2), getBindCounter]
  · rw [if_neg hid, if_neg fun h ↦ hid h.1, getBindCounter]

theorem bindAddressWithin_present (ba : BlockAttributesSg1) (calls : ℕ)
    (hroot : Rooted s.lvl2TableAddress) (hva : va.toNat < 2 ^ 30)
    (hpa : pa.toNat % 0x1000 = 0) (hpa' : pa.toNat < 2 ^ 36)
    (hcounter : s.idPagingSize ≤ pa → getBindCounterAddress s pa < s.idPagingSize)
    (hpresent : present s.words s.lvl2TableAddress (page va / 512) = true) :
    bindAddressWithin va pa ba (calls + 1) s =
      .ok (bound s (page va) pa (withAttributes pa ba), 0) := by
  have hwords : initBlockAndPageEntrySg1 s (getLvl3EntryPhysAddress s va) pa ba =
      { s with
        words := bindWords s.words s.lvl2TableAddress (page va) (withAttributes pa ba) } := by
    simp only [initBlockAndPageEntrySg1, setBlockAndPageAttributesSg1, MmuState.setWord,
      MmuState.word, getLvl3EntryPhysAddress_eq hroot hva hpresent, Function.update_self,
      Function.update_idem, withAttributes_init ba hpa hpa', bindWords, writeEntry,
      hpresent, if_true]
  rw [bindAddressWithin, if_neg (not_not.mpr ((page_aligned_iff pa).mpr hpa))]
  simp only [errorCode_lvl3 hroot hva hpresent, if_true, hwords, bound, bindCounters]
  split_ifs with hid
  · have hincrement := incrementBindCounter_eq
      { s with words := bindWords s.words s.lvl2TableAddress (page va) (withAttributes pa ba) } pa
      (hcounter hid)
    rw [hincrement]
    rfl
  · rfl

/-- `bind_address` on a page whose level-2 entry is not in its own table. -/
theorem bindAddress_apart (ba : BlockAttributesSg1) (hroot : Rooted s.lvl2TableAddress)
    (hva : va.toNat < 2 ^ 30) (hpa : pa.toNat % 0x1000 = 0) (hpa' : pa.toNat < 2 ^ 36)
    (hcounter : s.idPagingSize ≤ pa → getBindCounterAddress s pa < s.idPagingSize)
    (hapart : RowApart s.words s.lvl2TableAddress (page va / 512)) :
    bindAddress s va pa ba = .ok (bound s (page va) pa (withAttributes pa ba), 0) := by
  by_cases hpresent : present s.words s.lvl2TableAddress (page va / 512) = true
  · exact bindAddressWithin_present ba 1 hroot hva hpa hpa' hcounter hpresent
  · have hplace := getLvl2TableEntryPhysAddress_eq hroot hva
    have hnew := initNewLvl3Table_eq (s := s) hplace (by rw [hplace]; exact hapart)
    have hpresent' := hapart.present_newTable
    have hretry := bindAddressWithin_present ba 0
      (s := { s with words := newTable s.words s.lvl2TableAddress (page va / 512) })
      hroot hva hpa hpa' hcounter hpresent'
    have hfive : errorCode 5 = 5 := by decide
    rw [bindAddress, bindAddressWithin, if_neg (not_not.mpr ((page_aligned_iff pa).mpr hpa))]
    simp only [getLvl3EntryPhysAddress_absent hroot hva (Bool.eq_false_iff.mpr hpresent), hfive,
      hnew]
    rw [if_neg (by decide), if_pos trivial, ok_bind, hretry]
    simp only [bound, bindWords, hpresent', if_pos, if_neg hpresent]
    rfl

/-- `bind_address` on a page of the tables. -/
theorem bindAddress_eq (ba : BlockAttributesSg1) (h : Directory s.words s.lvl2TableAddress)
    (hva : va.toNat < 0x3fe00000)
    (hpa : pa.toNat % 0x1000 = 0) (hpa' : pa.toNat < 2 ^ 36)
    (hcounter : s.idPagingSize ≤ pa → getBindCounterAddress s pa < s.idPagingSize) :
    bindAddress s va pa ba = .ok (bound s (page va) pa (withAttributes pa ba), 0) := by
  have hindex : page va / 512 < 511 := by
    unfold page
    omega
  exact bindAddress_apart ba h.rooted (by omega) hpa hpa' hcounter (h.rowApart hindex)

end SysresOs.Mmu
