import SysresOs.Memory.Zone

/-!
# Translation as an updatable map

`bind_address` on a directory replaces the translation of one page and counts the physical page it
is bound to; a call that returns an error code changes nothing. The counter is a `uint8_t`:
`bindAddress_updates_iff` says that the call does what is said of it exactly when the counter of the
page is not at its last value.
-/

set_option autoImplicit false
set_option relaxedAutoImplicit false

namespace SysresOs.Mmu

open SysresOs.Loop SysresOs.Outcome

variable {s s' : MmuState} {va pa code : Word} {ba : BlockAttributesSg1}

/-! ### Error codes -/

/-- The level-2 stage of the walk gives an aligned address or one of three codes. -/
theorem getLvl2TableEntryPhysAddress_cases (s : MmuState) (va : Word) :
    errorCode (getLvl2TableEntryPhysAddress s va) = 0 ∨
      errorCode (getLvl2TableEntryPhysAddress s va) ≠ 0 ∧
        errorCode (getLvl2TableEntryPhysAddress s va) ≠ 5 := by
  unfold getLvl2TableEntryPhysAddress
  split_ifs with hlow hhigh hroot
  · exact .inr (by decide)
  · exact .inr (by decide)
  · exact .inr (by decide)
  · refine .inl ?_
    rw [not_not, and_mask_eq_zero _ (by omega) (by omega)] at hroot
    rw [errorCode_eq_zero, BitVec.toNat_add, BitVec.toNat_mul, BitVec.toNat_ofNat]
    omega

/-- Past the level-2 stage the walk gives an aligned address or the code for a missing table. -/
theorem getLvl3EntryPhysAddress_cases (h : errorCode (getLvl2TableEntryPhysAddress s va) = 0) :
    errorCode (getLvl3EntryPhysAddress s va) = 0 ∨
      errorCode (getLvl3EntryPhysAddress s va) = 5 := by
  simp only [getLvl3EntryPhysAddress]
  rw [if_neg (not_not.mpr h)]
  split_ifs with htable
  · exact .inr (by decide)
  · refine .inl ?_
    have haligned := entryAddress_aligned (s.word (getLvl2TableEntryPhysAddress s va))
    rw [errorCode_eq_zero, BitVec.toNat_add, BitVec.toNat_mul, BitVec.toNat_ofNat, getAddressSg1_eq]
    omega

theorem getLvl2TableEntryPhysAddress_congr (h : s'.lvl2TableAddress = s.lvl2TableAddress) :
    getLvl2TableEntryPhysAddress s' va = getLvl2TableEntryPhysAddress s va := by
  rw [getLvl2TableEntryPhysAddress, getLvl2TableEntryPhysAddress, h]

theorem initNewLvl3Table_root {entry : Word} (h : initNewLvl3Table s entry = .ok s') :
    s'.lvl2TableAddress = s.lvl2TableAddress := by
  obtain ⟨-, -, hs'⟩ := bind_eq_ok.mp h
  rw [← Except.ok.inj hs']
  exact forUpTo_invariant (I := fun (_ : ℕ) (t : MmuState) ↦
    t.lvl2TableAddress = s.lvl2TableAddress)
    rfl fun _ _ _ ht ↦ ht

/-- Past the level-2 stage `bind_address` returns 0, if it returns. -/
theorem bindAddressWithin_code (hpa : pa &&& mask 11 0 = 0) {calls : ℕ}
    (hwalk : errorCode (getLvl2TableEntryPhysAddress s va) = 0)
    (h : bindAddressWithin va pa ba calls s = .ok (s', code)) : code = 0 := by
  induction calls generalizing s with
  | zero => exact nomatch h
  | succ calls ih =>
    rw [bindAddressWithin, if_neg (not_not.mpr hpa)] at h
    rcases getLvl3EntryPhysAddress_cases hwalk with hcode | hcode
    · simp only [hcode, if_true] at h
      split_ifs at h
      all_goals
        obtain ⟨t, -, ht⟩ := bind_eq_ok.mp h
        exact (Prod.mk.inj (Except.ok.inj ht)).2.symm
    · have hne : ¬ (5 : Word) = 0 := by decide
      simp only [hcode, hne, if_false, if_true] at h
      obtain ⟨t, ht, hretry⟩ := bind_eq_ok.mp h
      refine ih ?_ hretry
      rwa [getLvl2TableEntryPhysAddress_congr (initNewLvl3Table_root ht)]

/-- A call that returns an error code changes nothing. -/
theorem bindAddress_of_error (h : bindAddress s va pa ba = .ok (s', code)) (hcode : code ≠ 0) :
    s' = s := by
  rcases getLvl2TableEntryPhysAddress_cases s va with hwalk | ⟨hzero, hfive⟩
  · by_cases hpa : pa &&& mask 11 0 = 0
    · exact absurd (bindAddressWithin_code hpa hwalk h) hcode
    · rw [bindAddress, bindAddressWithin, if_pos hpa] at h
      exact (Prod.mk.inj (Except.ok.inj h)).1.symm
  · have hlvl3 : getLvl3EntryPhysAddress s va = getLvl2TableEntryPhysAddress s va := by
      simp only [getLvl3EntryPhysAddress]
      rw [if_pos hzero]
    rw [bindAddress, bindAddressWithin] at h
    split_ifs at h with hpa
    · exact (Prod.mk.inj (Except.ok.inj h)).1.symm
    · simp only [hlvl3, hzero, hfive, if_false] at h
      exact (Prod.mk.inj (Except.ok.inj h)).1.symm

/-! ### The map -/

/-- The last level-2 entry, which `populate_lvl2_table` does not write, points to none of the
tables. -/
def LastApart (w : ℕ → Word) (root : Word) : Prop :=
  table w root 511 ≠ root.toNat ∧ ∀ i < 511, table w root 511 ≠ table w root i

theorem leaf_bindWords_last {w : ℕ → Word} {root e : Word} {v u : ℕ} (h : Directory w root)
    (hv : v < 511 * 512) (hu : u / 512 = 511) (hlast : LastApart w root) :
    leaf (bindWords w root v e) root u = leaf w root u := by
  have haligned := table_aligned w root 511
  have haligned' := table_aligned w root (v / 512)
  have hroot := h.rooted.1
  have hne := hlast.1
  have hne' := hlast.2 (v / 512) (by omega)
  refine leaf_congr ?_ ?_
  · have hapart := h.lvl2Place_apart (i := v / 512) (j := 511) (by omega) (by omega)
    rw [hu]
    exact h.bindWords_of_not_mem hv (by unfold lvl2Place; omega) hapart
  · rw [lvl3Place, hu]
    refine h.bindWords_of_not_mem hv ?_ ?_
    · unfold lvl2Place
      omega
    · omega

/-- The effect of binding the page of `va` to `pa`: its addresses are translated to those of the
physical page, every other address keeps its translation, or has none as before, and the counter of
the physical page grows by one where there is one, and no other. -/
def UpdatesMap (s : MmuState) (va pa : Word) (ba : BlockAttributesSg1) : Prop :=
  ∃ s', bindAddress s va pa ba = .ok (s', 0) ∧
    (∀ x, page x = page va →
    getPhysicalAddress s' x = .ok (pa + BitVec.ofNat 64 (x.toNat % 0x1000))) ∧
    (∀ x, page x ≠ page va → (page x / 512 = 511 → LastApart s.words s.lvl2TableAddress) →
      translate s'.words s'.lvl2TableAddress x = translate s.words s.lvl2TableAddress x) ∧
    ∀ q, (getBindCounter s' q).toNat = (getBindCounter s q).toNat +
      if s.idPagingSize ≤ pa ∧ q.toNat / 0x1000 = pa.toNat / 0x1000 then 1 else 0

/-- A counter that grows by one was not at its last value. -/
theorem UpdatesMap.counter_ne (h : UpdatesMap s va pa ba) (hid : s.idPagingSize ≤ pa) :
    getBindCounter s pa ≠ 255 := by
  intro hlast
  obtain ⟨s', -, -, -, hcount⟩ := h
  have hpa := hcount pa
  have hlt := (getBindCounter s' pa).isLt
  have hval : (255 : BitVec 8).toNat = 255 := rfl
  rw [if_pos ⟨hid, rfl⟩, hlast, hval] at hpa
  omega

theorem offset_eq (x : Word) : x &&& mask 11 0 = BitVec.ofNat 64 (x.toNat % 0x1000) := by
  apply BitVec.eq_of_toNat_eq
  rw [toNat_and_mask x (by omega) (by omega), BitVec.toNat_ofNat]
  omega

theorem translate_bound (h : Directory s.words s.lvl2TableAddress) {x : Word}
    (hva : va.toNat < 0x3fe00000) (hx : page x ≠ page va)
    (hlast : page x / 512 = 511 → LastApart s.words s.lvl2TableAddress) :
    translate (bound s (page va) pa (withAttributes pa ba)).words s.lvl2TableAddress x =
      translate s.words s.lvl2TableAddress x := by
  have hpage : page va < 511 * 512 := by
    unfold page
    omega
  unfold translate
  split_ifs with hlt
  · have hleaf : leaf (bindWords s.words s.lvl2TableAddress (page va) (withAttributes pa ba))
        s.lvl2TableAddress (page x) = leaf s.words s.lvl2TableAddress (page x) := by
      rcases Nat.lt_or_ge (page x) (511 * 512) with hsmall | hlarge
      · rw [h.leaf_bindWords hpage hsmall (isBlockEntry_withAttributes pa ba), if_neg hx]
      · have hindex : page x / 512 = 511 := by
          have := page_lt hlt
          omega
        exact leaf_bindWords_last h hpage hindex (hlast hindex)
    rw [← hleaf]
    rfl
  · rfl

theorem getPhysicalAddress_bound (h : Directory s.words s.lvl2TableAddress) {x : Word}
    (hva : va.toNat < 0x3fe00000) (hpa : pa.toNat % 0x1000 = 0) (hpa' : pa.toNat < 2 ^ 36)
    (hx : page x = page va) :
    getPhysicalAddress (bound s (page va) pa (withAttributes pa ba)) x =
      .ok (pa + BitVec.ofNat 64 (x.toNat % 0x1000)) := by
  have hpage : page va < 511 * 512 := by
    unfold page
    omega
  have hx' : x.toNat < 2 ^ 30 := by
    unfold page at hx
    omega
  have hleaf :
      leaf (bound s (page va) pa (withAttributes pa ba)).words s.lvl2TableAddress (page x) =
      some (withAttributes pa ba) := by
    change leaf (bindWords _ _ _ _) _ _ = _
    rw [h.leaf_bindWords hpage (by omega) (isBlockEntry_withAttributes pa ba), if_pos hx]
  rw [getPhysicalAddress_eq (s := bound s (page va) pa (withAttributes pa ba)) h.rooted hx' hleaf,
    entryAddress_withAttributes, entryAddress_of_page hpa (by omega), offset_eq]

/-- On tables whose level-2 entries 0 to 510 point to distinct level-3 tables, `bind_address`
updates the translation and the counters exactly when the counter to be increased is below its last
value; a call that returns an error code never changes anything. -/
theorem bindAddress_updates_iff {L : Layout} (hconf : Configured L s)
    (hdir : Directory s.words s.lvl2TableAddress) (hva : va.toNat < 0x3fe00000)
    (hpa : pa.toNat % 0x1000 = 0) (hram : pa < ramSize) (ba : BlockAttributesSg1) :
    (UpdatesMap s va pa ba ∧ ∀ t va' pa' ba' t' code, bindAddress t va' pa' ba' = .ok (t', code) →
      code ≠ 0 → t' = t) ↔ (s.idPagingSize ≤ pa → getBindCounter s pa ≠ 255) := by
  have hram' : pa.toNat < 0x40000000 := hram
  have hbind := bindAddress_eq ba hdir hva hpa (by omega) fun hid ↦ hconf.counter_lt hid hram'
  constructor
  · exact fun h hid ↦ h.1.counter_ne hid
  · intro hcounter
    refine ⟨⟨_, hbind, ?_, ?_, ?_⟩, fun t va' pa' ba' t' code h hcode ↦
      bindAddress_of_error h hcode⟩
    · exact fun x hx ↦ getPhysicalAddress_bound hdir hva hpa (by omega) hx
    · exact fun x hx hlast ↦ translate_bound hdir hva hx hlast
    · intro q
      rw [getBindCounter_bound]
      split_ifs with hq
      · have hsame : getBindCounter s q = getBindCounter s pa := by
          rw [getBindCounter, getBindCounter, getBindCounterAddress_inj.mpr hq.2]
        have hne := hcounter hq.1
        rw [hsame, BitVec.toNat_add]
        have hlt := (getBindCounter s pa).isLt
        have hone : (1 : BitVec 8).toNat = 1 := rfl
        have hval : (getBindCounter s pa).toNat ≠ 255 := fun h ↦ hne (BitVec.eq_of_toNat_eq h)
        rw [hone]
        omega
      · rfl

/-! ### A full counter -/

theorem bindAddress_updates_iff_sampleTables :
    UpdatesMap (sampleTables 0) 0x8000000 0x5000000 (newBlockAttributesSg1 userPage normalWtNt) :=
  ((bindAddress_updates_iff (sampleTables_configured 0) (sampleTables_directory 0)
    (by decide) (by decide)
    (by decide) (newBlockAttributesSg1 userPage normalWtNt)).mpr fun _ ↦ by decide).1

/-- A counter at 255 becomes 0. -/
theorem not_updatesMap_lastCounter :
    Configured sampleLayout (sampleTables 255) ∧
      Directory (sampleTables 255).words (sampleTables 255).lvl2TableAddress ∧
      ¬ UpdatesMap (sampleTables 255) 0x8000000 0x5000000
      (newBlockAttributesSg1 userPage normalWtNt) := by
  refine ⟨sampleTables_configured 255, sampleTables_directory 255, fun h ↦ ?_⟩
  exact h.counter_ne (by decide) rfl

end SysresOs.Mmu
