import SysresOs.Memory.PagePool

/-!
# Tables in their zones

`populate_lvl2_table` puts the level-3 tables of a process one after the other, so the level-3
entries of all pages are one array of its zone, `zonePlace`. A write to one entry changes the leaf
of one page of one process (`ZoneTables.leaf_zoneWrite`), whatever processes have their tables in
the other zones.
-/

set_option autoImplicit false
set_option relaxedAutoImplicit false

namespace SysresOs.Mmu

/-- The level-2 entries of a root from number `n` on point to the tables of its zone. -/
structure ZoneTables (w : ℕ → Word) (root : Word) (n : ℕ) : Prop where
  zone : ZoneRoot root
  table_eq : ∀ i, n ≤ i → i < 511 → table w root i = root.toNat + 0x1000 * (i + 1)

/-- The place of the level-3 entry of a page in a zone. -/
def zonePlace (root : Word) (v : ℕ) : ℕ := root.toNat + 0x1000 + 8 * v

/-- The words after the level-3 entry of a page of a zone is written. -/
def zoneWrite (w : ℕ → Word) (root : Word) (v : ℕ) (e : Word) : ℕ → Word :=
  Function.update w (zonePlace root v) e

/-- A place that is neither the level-2 entry `i` of a zone nor in its table. -/
def OffRow (root : Word) (i a : ℕ) : Prop :=
  a ≠ lvl2Place root i ∧ (a < root.toNat + 0x1000 * (i + 1) ∨ root.toNat + 0x1000 * (i + 2) ≤ a)

/-- The words after a level-2 entry is made invalid. -/
def dropRow (w : ℕ → Word) (root : Word) (i : ℕ) : ℕ → Word :=
  Function.update w (lvl2Place root i) (w (lvl2Place root i) &&& mask 63 1)

variable {w w' : ℕ → Word} {root r e : Word} {n m i j u v : ℕ}

/-! ### Places -/

theorem lvl2Place_ne_zonePlace (h : ZoneRoot root) (h' : ZoneRoot r) (hi : i < 512)
    (hv : v < 511 * 512) : lvl2Place r i ≠ zonePlace root v := by
  have haligned := h.aligned
  have haligned' := h'.aligned
  unfold lvl2Place zonePlace
  omega

theorem zonePlace_inj (h : ZoneRoot root) (h' : ZoneRoot r) (hu : u < 511 * 512)
    (hv : v < 511 * 512) : zonePlace r u = zonePlace root v ↔ r = root ∧ u = v := by
  have haligned := h.aligned
  have haligned' := h'.aligned
  rw [← BitVec.toNat_inj]
  unfold zonePlace
  omega

theorem lvl2Place_inj (h : ZoneRoot root) (h' : ZoneRoot r) (hi : i < 512) (hj : j < 512) :
    lvl2Place r j = lvl2Place root i ↔ r = root ∧ j = i := by
  have haligned := h.aligned
  have haligned' := h'.aligned
  rw [← BitVec.toNat_inj]
  unfold lvl2Place
  omega

/-- The address of a level-2 entry of a zone. -/
theorem ZoneRoot.toNat_lvl2 (h : ZoneRoot root) (hi : i < 512) :
    (root + BitVec.ofNat 64 i * 8).toNat = lvl2Place root i := by
  have hbounded := h.bounded
  have height : (8 : Word).toNat = 8 := rfl
  rw [BitVec.toNat_add, BitVec.toNat_mul, BitVec.toNat_ofNat, height, lvl2Place]
  omega

/-- A level-2 entry is made invalid. -/
theorem ZoneRoot.setInvalidEntry_lvl2 (h : ZoneRoot root) (s : MmuState) (hi : i < 512) :
    setInvalidEntry s (root + BitVec.ofNat 64 i * 8) = { s with
      words := dropRow s.words root i } := by
  rw [setInvalidEntry, MmuState.setWord, MmuState.word, h.toNat_lvl2 hi, dropRow]

theorem offRow_of_outside (hi : i < 511) {a : ℕ} (ha : a < root.toNat ∨ root.toNat + 0x200000 ≤ a) :
    OffRow root i a := by
  unfold OffRow lvl2Place
  omega

theorem offRow_lvl2Place (hi : i < 511) (hj : j < 512) (hne : j ≠ i) :
    OffRow root i (lvl2Place root j) := by
  unfold OffRow lvl2Place
  omega

theorem offRow_zonePlace (hi : i < 511) (hne : v / 512 ≠ i) : OffRow root i (zonePlace root v) := by
  unfold OffRow zonePlace lvl2Place
  omega

namespace ZoneTables

theorem lvl3Place_eq (h : ZoneTables w root n) (hn : n ≤ v / 512) (hv : v < 511 * 512) :
    lvl3Place w root v = zonePlace root v := by
  rw [lvl3Place, h.table_eq _ hn (by omega), zonePlace]
  omega

/-- The valid entry of a page, read from the array of the zone. -/
theorem leaf_eq (h : ZoneTables w root n) (hn : n ≤ v / 512) (hv : v < 511 * 512) :
    leaf w root v = if present w root (v / 512) ∧ isBlockEntry (w (zonePlace root v)) then
      some (w (zonePlace root v)) else none := by
  rw [leaf, h.lvl3Place_eq hn hv]

theorem mono (h : ZoneTables w root n) (hle : n ≤ m) : ZoneTables w root m :=
  ⟨h.zone, fun i hi hlt ↦ h.table_eq i (by omega) hlt⟩

/-- Tables that are all in the zone are a directory. -/
theorem directory (h : ZoneTables w root 0) : Directory w root where
  rooted := h.zone.rooted
  distinct i hi j hj heq := by
    rw [h.table_eq i (by omega) hi, h.table_eq j (by omega) hj] at heq
    omega
  apart i hi := by
    rw [h.table_eq i (by omega) hi]
    omega

theorem rowApart (h : ZoneTables w root n) (hn : n ≤ i) (hi : i < 511) : RowApart w root i := by
  rw [RowApart, h.table_eq i hn hi, lvl2Place]
  omega

/-- Binding a page changes words of its row only. -/
theorem bindWords_of_not_mem (h : ZoneTables w root n) (hn : n ≤ v / 512) (hv : v < 511 * 512)
    {a : ℕ} (ha : OffRow root (v / 512) a) : bindWords w root v e a = w a := by
  obtain ⟨hentry, hrow⟩ := ha
  have hend :
      root.toNat + 0x1000 * (v / 512 + 1) + 0x1000 = root.toNat + 0x1000 * (v / 512 + 2) := by ring
  refine (h.rowApart hn (by omega)).bindWords_of_not_mem hentry ?_
  rw [h.table_eq _ hn (by omega), hend]
  exact hrow

/-- A leaf depends on two words of the zone. -/
theorem leaf_congr (h : ZoneTables w root n) (hn : n ≤ v / 512) (hv : v < 511 * 512)
    (hlvl2 : w' (lvl2Place root (v / 512)) = w (lvl2Place root (v / 512)))
    (hlvl3 : w' (zonePlace root v) = w (zonePlace root v)) : leaf w' root v = leaf w root v := by
  refine Mmu.leaf_congr hlvl2 ?_
  rwa [h.lvl3Place_eq hn hv]

theorem congr (h : ZoneTables w root n)
    (hlvl2 : ∀ i, n ≤ i → i < 511 → entryAddress (w' (lvl2Place root i)) = entryAddress
    (w (lvl2Place root i))) : ZoneTables w' root n := by
  refine ⟨h.zone, fun i hi hlt ↦ ?_⟩
  rw [table, hlvl2 i hi hlt]
  exact h.table_eq i hi hlt

/-! ### Writing a level-3 entry -/

theorem lvl2_zoneWrite (h : ZoneRoot root) (h' : ZoneRoot r) (hv : v < 511 * 512) (hi : i < 512) :
    zoneWrite w root v e (lvl2Place r i) = w (lvl2Place r i) :=
  Function.update_of_ne (lvl2Place_ne_zonePlace h h' hi hv) _ _

theorem present_zoneWrite (h : ZoneRoot root) (h' : ZoneRoot r) (hv : v < 511 * 512)
    (hi : i < 512) : present (zoneWrite w root v e) r i = present w r i := by
  rw [present, lvl2_zoneWrite h h' hv hi, present]

theorem write (h : ZoneTables w r n) (h' : ZoneRoot root) (hv : v < 511 * 512) :
    ZoneTables (zoneWrite w root v e) r n :=
  h.congr fun i _ hlt ↦ by rw [lvl2_zoneWrite h' h.zone hv (by omega)]

/-- The leaves of all zones after a write to an entry. -/
theorem leaf_zoneWrite (h : ZoneTables w r n) (h' : ZoneRoot root) (hv : v < 511 * 512)
    (hn : n ≤ u / 512) (hu : u < 511 * 512) :
    leaf (zoneWrite w root v e) r u =
      if r = root ∧ u = v then if present w root (v / 512) ∧ isBlockEntry e then some e else none
      else leaf w r u := by
  split_ifs with hsame hvalid
  · obtain ⟨rfl, rfl⟩ := hsame
    rw [(h.write h' hv).leaf_eq hn hu, present_zoneWrite h' h' hv (by omega), zoneWrite,
      Function.update_self, if_pos hvalid]
  · obtain ⟨rfl, rfl⟩ := hsame
    rw [(h.write h' hv).leaf_eq hn hu, present_zoneWrite h' h' hv (by omega), zoneWrite,
      Function.update_self, if_neg hvalid]
  · refine h.leaf_congr hn hu (lvl2_zoneWrite h' h.zone hv (by omega)) ?_
    exact Function.update_of_ne (fun heq ↦ hsame ((zonePlace_inj h' h.zone hu hv).mp heq)) _ _

/-! ### Dropping a level-2 entry -/

theorem lvl2_dropRow (h : ZoneRoot root) (h' : ZoneRoot r) (hi : i < 512) (hj : j < 512) :
    dropRow w root i (lvl2Place r j) =
      if r = root ∧ j = i then w (lvl2Place root i) &&& mask 63 1 else w (lvl2Place r j) := by
  rw [dropRow, Function.update_apply]
  exact if_congr (lvl2Place_inj h h' hi hj) rfl rfl

theorem drop (h : ZoneTables w r n) (h' : ZoneRoot root) (hi : i < 512) :
    ZoneTables (dropRow w root i) r n := by
  refine h.congr fun j _ hj ↦ ?_
  rw [lvl2_dropRow h' h.zone hi (by omega)]
  split_ifs with hsame
  · obtain ⟨rfl, rfl⟩ := hsame
    rw [entryAddress_cleared]
  · rfl

theorem present_dropRow (h : ZoneRoot root) (h' : ZoneRoot r) (hi : i < 512) (hj : j < 512) :
    present (dropRow w root i) r j = if r = root ∧ j = i then false else present w r j := by
  rw [present, lvl2_dropRow h h' hi hj]
  split_ifs with hsame
  · exact isBlockEntry_cleared _
  · rfl

/-- The pages of a dropped entry lose their leaves. -/
theorem leaf_dropRow (h : ZoneTables w r n) (h' : ZoneRoot root) (hi : i < 512) (hn : n ≤ u / 512)
    (hu : u < 511 * 512) :
    leaf (dropRow w root i) r u = if r = root ∧ u / 512 = i then none else leaf w r u := by
  split_ifs with hsame
  · refine leaf_eq_none_of_absent ?_
    rw [present_dropRow h' h.zone hi (by omega), if_pos hsame]
  · refine h.leaf_congr hn hu ?_ ?_
    · rw [lvl2_dropRow h' h.zone hi (by omega), if_neg hsame]
    · exact Function.update_of_ne (lvl2Place_ne_zonePlace h.zone h' hi hu).symm _ _

/-! ### A new table -/

/-- The level-2 entries of all zones after a new table of a zone. -/
theorem lvl2_newTable (h : ZoneTables w root n) (h' : ZoneRoot r) (hn : n ≤ i) (hi : i < 511)
    (hj : j < 512) : newTable w root i (lvl2Place r j) =
      if r = root ∧ j = i then w (lvl2Place root i) ||| 3 else w (lvl2Place r j) := by
  have haligned := h.zone.aligned
  have haligned' := h'.aligned
  have htable := h.table_eq i hn hi
  rw [newTable, clearTable_of_not_mem (by unfold lvl2Place; omega), Function.update_apply]
  exact if_congr (lvl2Place_inj h.zone h' (by omega) hj) rfl rfl

theorem newTable (h : ZoneTables w root n) (h' : ZoneTables w r m) (hn : n ≤ i) (hi : i < 511) :
    ZoneTables (newTable w root i) r m := by
  refine h'.congr fun j _ hj ↦ ?_
  rw [h.lvl2_newTable h'.zone hn hi (by omega)]
  split_ifs with hsame
  · obtain ⟨rfl, rfl⟩ := hsame
    rw [entryAddress_or_three]
  · rfl

theorem present_newTable (h : ZoneTables w root n) (h' : ZoneRoot r) (hn : n ≤ i) (hi : i < 511)
    (hj : j < 512) : present (Mmu.newTable w root i) r j = if r = root ∧ j = i then true
    else present w r j := by
  rw [present, h.lvl2_newTable h' hn hi hj]
  split_ifs with hsame
  · exact isBlockEntry_or_three _
  · rfl

/-- The new table has no leaf, and all other leaves are kept. -/
theorem leaf_newTable (h : ZoneTables w root n) (h' : ZoneTables w r m) (hn : n ≤ i) (hi : i < 511)
    (habsent : present w root i = false) (hm : m ≤ u / 512) (hu : u < 511 * 512) :
    leaf (Mmu.newTable w root i) r u = leaf w r u := by
  have htable := h.table_eq i hn hi
  by_cases hsame : r = root ∧ u / 512 = i
  · obtain ⟨rfl, rfl⟩ := hsame
    have hcleared : isBlockEntry (Mmu.newTable w r (u / 512) (zonePlace r u)) = false := by
      rw [Mmu.newTable, clearTable, if_pos (by unfold zonePlace; omega), isBlockEntry_cleared]
    rw [leaf_eq_none_of_absent habsent, (h.newTable h' hn hi).leaf_eq hm hu, hcleared,
      if_neg (by simp)]
  · refine h'.leaf_congr hm hu ?_ ?_
    · rw [h.lvl2_newTable h'.zone hn hi (by omega), if_neg hsame]
    · have haligned := h.zone.aligned
      have haligned' := h'.zone.aligned
      rw [← BitVec.toNat_inj] at hsame
      refine newTable_of_not_mem ?_ ?_
      · exact (lvl2Place_ne_zonePlace h'.zone h.zone (by omega) hu).symm
      · unfold zonePlace
        omega

/-! ### Binding a page -/

/-- Binding a page writes its entry, after a new table if there was none. -/
theorem bindWords_eq (h : ZoneTables w root n) (hn : n ≤ v / 512) (hv : v < 511 * 512) :
    bindWords w root v e = zoneWrite
      (if present w root (v / 512) then w else Mmu.newTable w root (v / 512)) root v e := by
  unfold bindWords writeEntry
  split_ifs with hpresent
  · rw [h.lvl3Place_eq hn hv, zoneWrite]
  · rw [(h.newTable h hn (by omega)).lvl3Place_eq hn hv, zoneWrite]

theorem bind (h : ZoneTables w root n) (h' : ZoneTables w r m) (hn : n ≤ v / 512)
    (hv : v < 511 * 512) : ZoneTables (bindWords w root v e) r m := by
  rw [h.bindWords_eq hn hv]
  split_ifs with hpresent
  · exact h'.write h.zone hv
  · exact (h.newTable h' hn (by omega)).write h.zone hv

theorem present_bindWords (h : ZoneTables w root n) (h' : ZoneRoot r) (hn : n ≤ v / 512)
    (hv : v < 511 * 512) (hj : j < 512) :
    present (bindWords w root v e) r j = if r = root ∧ j = v / 512 then true
      else present w r j := by
  rw [h.bindWords_eq hn hv, present_zoneWrite h.zone h' hv hj]
  split_ifs with hpresent hsame hsame
  · rw [hsame.1, hsame.2, hpresent]
  · rfl
  · rw [h.present_newTable h' hn (by omega) hj, if_pos hsame]
  · rw [h.present_newTable h' hn (by omega) hj, if_neg hsame]

/-- The leaves of all zones after a page is bound. -/
theorem leaf_bindWords (h : ZoneTables w root n) (h' : ZoneTables w r m) (hn : n ≤ v / 512)
    (hv : v < 511 * 512) (hm : m ≤ u / 512) (hu : u < 511 * 512) (he : isBlockEntry e = true) :
    leaf (bindWords w root v e) r u = if r = root ∧ u = v then some e else leaf w r u := by
  rw [h.bindWords_eq hn hv]
  split_ifs with hpresent hsame hsame
  · rw [h'.leaf_zoneWrite h.zone hv hm hu, if_pos hsame, if_pos ⟨hpresent, he⟩]
  · rw [h'.leaf_zoneWrite h.zone hv hm hu, if_neg hsame]
  · have hpresent' : present (Mmu.newTable w root (v / 512)) root (v / 512) = true := by
      rw [h.present_newTable h.zone hn (by omega) (by omega), if_pos ⟨rfl, rfl⟩]
    rw [(h.newTable h' hn (by omega)).leaf_zoneWrite h.zone hv hm hu, if_pos hsame,
      if_pos ⟨hpresent', he⟩]
  · rw [(h.newTable h' hn (by omega)).leaf_zoneWrite h.zone hv hm hu, if_neg hsame,
      h.leaf_newTable h' hn (by omega) (Bool.eq_false_iff.mpr hpresent) hm hu]

/-! ### Populating a zone -/

/-- A word outside a zone is kept when the zone is populated. -/
theorem populateWords_apart (h : ZoneRoot root) (h' : ZoneRoot r) (hne : r ≠ root) {a : ℕ}
    (ha : r.toNat ≤ a) (ha' : a < r.toNat + 0x200000) : populateWords w root 511 a = w a := by
  have haligned := h.aligned
  have haligned' := h'.aligned
  have hapart : r.toNat ≠ root.toNat := fun heq ↦ hne (BitVec.eq_of_toNat_eq heq)
  exact populateWords_of_not_mem (by omega)

theorem ofPopulate (h : ZoneRoot root) : ZoneTables (populateWords w root 511) root 0 :=
  ⟨h, fun _ _ hi ↦ table_populateWords h hi⟩

theorem populate (h : ZoneTables w r n) (h' : ZoneRoot root) (hne : r ≠ root) :
    ZoneTables (populateWords w root 511) r n := by
  refine h.congr fun i _ hi ↦ ?_
  rw [populateWords_apart h' h.zone hne (by unfold lvl2Place; omega) (by unfold lvl2Place; omega)]

/-- Populating a zone changes no leaf of another. -/
theorem leaf_populate (h : ZoneTables w r n) (h' : ZoneRoot root) (hne : r ≠ root)
    (hn : n ≤ u / 512) (hu : u < 511 * 512) : leaf (populateWords w root 511) r u = leaf w r u := by
  refine h.leaf_congr hn hu ?_ ?_
  · exact populateWords_apart h' h.zone hne (by unfold lvl2Place; omega)
      (by unfold lvl2Place; omega)
  · exact populateWords_apart h' h.zone hne (by unfold zonePlace; omega)
      (by unfold zonePlace; omega)

end ZoneTables

end SysresOs.Mmu
