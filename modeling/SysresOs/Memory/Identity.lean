import SysresOs.Memory.ZoneTables

/-!
# Identity paging

The loops of `identity_paging` bind three parts of the memory to themselves, one after the other,
and then make the level-2 entries behind them invalid. `IdentityBound` is the invariant of the
loops, with a frame for the zones of the other processes; `identityPaging_eq` puts them together,
and `checkIdentityPaging_eq` says that the check which follows finds nothing.
-/

set_option autoImplicit false
set_option relaxedAutoImplicit false

namespace SysresOs.Mmu

open SysresOs.Loop SysresOs.Outcome

variable {L : Layout} {s t u : MmuState} {root r e : Word} {start stop : Word}
  {n m i j k lo hi v : ℕ}

/-! ### Binding pages to themselves -/

/-- The pages from `lo` up to `hi` of a zone have been bound to themselves, and nothing else has
changed. -/
structure IdentityBound (s t : MmuState) (root : Word) (lo hi : ℕ) : Prop where
  fixed : t = { s with words := t.words }
  tables : ∀ r m, ZoneTables s.words r m → ZoneTables t.words r m
  present_eq : ∀ r, ZoneRoot r → ∀ i < 512, present t.words r i = present s.words r i
  inside : ∀ v, lo ≤ v → v < hi → ∃ e, leaf t.words root v = some e ∧
    (entryAddress e).toNat = 0x1000 * v
  outside : ∀ r m, ZoneTables s.words r m → ∀ v, m ≤ v / 512 → v < 511 * 512 →
    (r = root → v < lo ∨ hi ≤ v) → leaf t.words r v = leaf s.words r v
  frame : ∀ a, a < root.toNat ∨ root.toNat + 0x200000 ≤ a ∨ (∃ i < 512, a = lvl2Place root i) →
    t.words a = s.words a
  kept : ∀ v, v < lo ∨ hi ≤ v → t.words (zonePlace root v) = s.words (zonePlace root v)

namespace IdentityBound

theorem refl (s : MmuState) (root : Word) (lo : ℕ) : IdentityBound s s root lo lo where
  fixed := rfl
  tables _ _ h := h
  present_eq _ _ _ _ := rfl
  inside v hv hlt := absurd hlt (by omega)
  outside _ _ _ _ _ _ _ := rfl
  frame _ _ := rfl
  kept _ _ := rfl

/-- One more page is bound. -/
theorem step (h : IdentityBound s t root lo k) (htables : ZoneTables s.words root n)
    (hpresent : present s.words root (k / 512) = true) (hlo : lo ≤ k) (hn : n ≤ lo / 512)
    (hk : k < 511 * 512) (he : isBlockEntry e = true)
    (haddress : (entryAddress e).toNat = 0x1000 * k) :
    IdentityBound s { t with words := bindWords t.words root k e } root lo (k + 1) := by
  have htables' := h.tables root n htables
  have hrow : n ≤ k / 512 := by omega
  constructor
  case fixed => rw [h.fixed]
  case tables => exact fun r m hr ↦ htables'.bind (h.tables r m hr) hrow hk
  case present_eq =>
    intro r hr i hi
    rw [htables'.present_bindWords hr hrow hk hi, h.present_eq r hr i hi]
    split_ifs with hsame
    · rw [hsame.1, hsame.2, hpresent]
    · rfl
  case inside =>
    intro v hv hlt
    rw [htables'.leaf_bindWords htables' hrow hk (by omega) (by omega) he]
    by_cases hvk : v = k
    · rw [if_pos ⟨rfl, hvk⟩, hvk]
      exact ⟨e, rfl, haddress⟩
    · rw [if_neg fun hsame ↦ hvk hsame.2]
      exact h.inside v hv (by omega)
  case outside =>
    intro r m hr v hm hv hout
    rw [htables'.leaf_bindWords (h.tables r m hr) hrow hk hm hv he, if_neg]
    · exact h.outside r m hr v hm hv fun hsame ↦ (hout hsame).imp_right fun hle ↦ by omega
    · rintro ⟨rfl, rfl⟩
      have := hout rfl
      omega
  case frame =>
    intro a ha
    have hrow' : present t.words root (k / 512) = true := by
      rw [h.present_eq root htables.zone _ (by omega), hpresent]
    rw [← h.frame a ha]
    change bindWords t.words root k e a = t.words a
    rw [htables'.bindWords_eq hrow hk, if_pos hrow']
    refine Function.update_of_ne ?_ _ _
    unfold zonePlace
    unfold lvl2Place at ha
    omega
  case kept =>
    intro v hv
    have hrow' : present t.words root (k / 512) = true := by
      rw [h.present_eq root htables.zone _ (by omega), hpresent]
    rw [← h.kept v (by omega)]
    change bindWords t.words root k e (zonePlace root v) = t.words (zonePlace root v)
    rw [htables'.bindWords_eq hrow hk, if_pos hrow']
    refine Function.update_of_ne ?_ _ _
    unfold zonePlace
    omega

/-- Two parts that follow each other. -/
theorem trans (h : IdentityBound s t root lo k) (h' : IdentityBound t u root k hi)
    (htables : ZoneTables s.words root n) (hlo : lo ≤ k) (hn : n ≤ lo / 512) (hle : k ≤ hi)
    (hhi : hi ≤ 511 * 512) : IdentityBound s u root lo hi where
  fixed := by rw [h'.fixed, h.fixed]
  tables r m hr := h'.tables r m (h.tables r m hr)
  present_eq r hr i hi := (h'.present_eq r hr i hi).trans (h.present_eq r hr i hi)
  inside v hv hlt := by
    rcases Nat.lt_or_ge v k with hvk | hvk
    · rw [h'.outside root n (h.tables root n htables) v (by omega) (by omega) fun _ ↦ .inl hvk]
      exact h.inside v hv hvk
    · exact h'.inside v hvk hlt
  outside r m hr v hm hv hout := by
    rw [h'.outside r m (h.tables r m hr) v hm hv fun hsame ↦
      (hout hsame).imp_left fun hlt ↦ by omega]
    exact h.outside r m hr v hm hv fun hsame ↦ (hout hsame).imp_right fun hge ↦ by omega
  frame a ha := (h'.frame a ha).trans (h.frame a ha)
  kept v hv := (h'.kept v (by omega)).trans (h.kept v (by omega))

end IdentityBound

/-- One round of a loop that binds pages to themselves. -/
theorem bindAddress_identity {pa : Word} (ba : BlockAttributesSg1)
    (ht : IdentityBound s t s.lvl2TableAddress lo k) (h : ZoneTables s.words s.lvl2TableAddress n)
    (hpresent : ∀ i, n ≤ i → i < 511 → present s.words s.lvl2TableAddress i = true) (hlo : lo ≤ k)
    (hn : n ≤ lo / 512) (hpa : pa.toNat = 0x1000 * k) (hend : pa.toNat < s.idPagingSize.toNat)
    (hid : s.idPagingSize.toNat ≤ 0x3f000000) :
    ∃ t', bindAddress t pa pa ba = .ok (t', 0) ∧
      IdentityBound s t' s.lvl2TableAddress lo (k + 1) := by
  have hpage : page pa = k := by
    unfold page
    omega
  have hroot : t.lvl2TableAddress = s.lvl2TableAddress := by rw [ht.fixed]
  have hid' : t.idPagingSize = s.idPagingSize := by rw [ht.fixed]
  have htables := ht.tables _ n h
  have hbelow : ¬ t.idPagingSize ≤ pa := by
    rw [hid', BitVec.le_def]
    omega
  have hbind : bindAddress t pa pa ba = .ok (bound t (page pa) pa (withAttributes pa ba), 0) :=
    bindAddress_apart ba (hroot ▸ htables.zone.rooted) (by omega) (by omega) (by omega)
      (fun habove ↦ absurd habove hbelow) (hroot ▸ htables.rowApart (by omega) (by omega))
  have hbound : bound t (page pa) pa (withAttributes pa ba) =
      { t with words := bindWords t.words s.lvl2TableAddress k (withAttributes pa ba) } := by
    rw [bound, bindCounters, if_neg hbelow, hroot, hpage]
  refine ⟨_, hbind, ?_⟩
  rw [hbound]
  refine ht.step h (hpresent _ (by omega) (by omega)) hlo hn (by omega)
    (isBlockEntry_withAttributes _ _) ?_
  rw [entryAddress_withAttributes, entryAddress_of_page (by omega) (by omega), hpa]

/-- A loop that binds pages of a zone to themselves, below `id_paging_size`. -/
theorem bindIdentity_eq (ba : ℕ → BlockAttributesSg1) (h : ZoneTables s.words s.lvl2TableAddress n)
    (hpresent : ∀ i, n ≤ i → i < 511 → present s.words s.lvl2TableAddress i = true)
    (hlo : start.toNat = 0x1000 * lo) (hhi : stop.toNat = 0x1000 * hi) (hle : lo ≤ hi)
    (hn : n ≤ lo / 512) (hend : 0x1000 * hi ≤ s.idPagingSize.toNat)
    (hid : s.idPagingSize.toNat ≤ 0x3f000000) :
    ∃ t, bindIdentity start stop ba s = .ok t ∧ IdentityBound s t s.lvl2TableAddress lo hi := by
  have hgranule : granule.toNat = 0x1000 := rfl
  obtain ⟨rounds, rfl⟩ : ∃ rounds, hi = lo + rounds := ⟨hi - lo, by omega⟩
  have hrounds : (stop.toNat - start.toNat + 0xfff) / 0x1000 = rounds := by omega
  rw [bindIdentity, hrounds]
  have hrefl : IdentityBound s s s.lvl2TableAddress lo (lo + 0) := .refl s _ lo
  refine forUpToM_total (I := fun i t ↦ IdentityBound s t s.lvl2TableAddress lo (lo + i)) hrefl
    fun i hi' t ht ↦ ?_
  have hnat : (start + BitVec.ofNat 64 i * granule).toNat = 0x1000 * (lo + i) := by
    rw [BitVec.toNat_add, BitVec.toNat_mul, BitVec.toNat_ofNat, hgranule, hlo]
    omega
  obtain ⟨t', hbind, ht'⟩ :=
    bindAddress_identity (ba i) ht h hpresent (by omega) hn hnat (by omega) hid
  refine ⟨t', ?_, ht'⟩
  dsimp only
  rw [hbind]
  rfl

/-! ### `identity_paging` -/

/-- `map_table_zone` on a zone of its own tables. -/
theorem mapTableZone_eq (ba : BlockAttributesSg1) (hid : s.idPagingSize = L.endAddr)
    (h : ZoneTables s.words s.lvl2TableAddress n)
    (hpresent : ∀ i, n ≤ i → i < 511 → present s.words s.lvl2TableAddress i = true)
    (hn : n ≤ L.lowTables) : ∃ t, mapTableZone L ba s = .ok t ∧
      IdentityBound s t s.lvl2TableAddress (512 * L.lowTables) (512 * L.kernelTables) := by
  obtain ⟨hend, hle⟩ := L.toNat_endAddr_tables
  have hstart := L.toNat_mmuTablesStart
  have htables : L.kernelTables = L.lowTables + 33 := rfl
  have hgranule : granule.toNat = 0x1000 := rfl
  have hpages : ((s.idPagingSize - L.mmuTablesStart) / granule).toNat = 0x4200 := by
    rw [BitVec.toNat_udiv, BitVec.toNat_sub, hid, hend, hstart, hgranule]
    omega
  obtain ⟨ba', hba⟩ : ∃ ba' : ℕ → BlockAttributesSg1, ba' = fun i ↦
    { ba with continuousBit := if i > 16 * (0x4200 / 16) then 0 else 1 } := ⟨_, rfl⟩
  rw [mapTableZone, hpages, assert_eq_ok (by decide), ok_bind, ← hba]
  exact bindIdentity_eq ba' h hpresent (by omega) (by rw [hid, hend]; omega) (by omega) (by omega)
    (by rw [hid, hend]; omega) (by rw [hid, hend]; omega)

/-- The pages below the level-2 entry `n` of a zone are bound to themselves, and `k` level-2 entries
from `n` on are invalid; nothing else has changed. -/
structure IdentityPaged (s t : MmuState) (root : Word) (n k : ℕ) : Prop where
  fixed : t = { s with words := t.words }
  tables : ∀ r m, ZoneTables s.words r m → ZoneTables t.words r m
  identity : ∀ v < 512 * n, ∃ e, leaf t.words root v = some e ∧ (entryAddress e).toNat = 0x1000 * v
  absent : ∀ i, n ≤ i → i < n + k → present t.words root i = false
  otherLeaf : ∀ r m, ZoneTables s.words r m → r ≠ root → ∀ v, m ≤ v / 512 → v < 511 * 512 →
    leaf t.words r v = leaf s.words r v
  otherPresent : ∀ r, ZoneRoot r → r ≠ root → ∀ i < 512, present t.words r i = present s.words r i
  frame : ∀ a, a < root.toNat ∨ root.toNat + 0x200000 ≤ a → t.words a = s.words a
  last : entryAddress (t.words (lvl2Place root 511)) = entryAddress (s.words (lvl2Place root 511))

/-- One more level-2 entry is made invalid. -/
theorem IdentityPaged.step (h : IdentityPaged s t root n k) (htables : ZoneTables s.words root 0)
    (hk : n + k < 512) :
    IdentityPaged s { t with words := dropRow t.words root (n + k) } root n (k + 1) := by
  have hzone := htables.zone
  constructor
  case fixed => rw [h.fixed]
  case tables => exact fun r m hr ↦ (h.tables r m hr).drop hzone hk
  case identity =>
    intro v hv
    rw [(h.tables root 0 htables).leaf_dropRow hzone hk (by omega) (by omega),
      if_neg fun hsame ↦ by omega]
    exact h.identity v hv
  case absent =>
    intro i hi hlt
    rw [ZoneTables.present_dropRow hzone hzone hk (by omega)]
    by_cases hik : i = n + k
    · rw [if_pos ⟨rfl, hik⟩]
    · rw [if_neg fun hsame ↦ hik hsame.2]
      exact h.absent i hi (by omega)
  case otherLeaf =>
    intro r m hr hne v hm hv
    rw [(h.tables r m hr).leaf_dropRow hzone hk hm hv, if_neg fun hsame ↦ hne hsame.1]
    exact h.otherLeaf r m hr hne v hm hv
  case otherPresent =>
    intro r hr hne i hi
    rw [ZoneTables.present_dropRow hzone hr hk hi, if_neg fun hsame ↦ hne hsame.1]
    exact h.otherPresent r hr hne i hi
  case frame =>
    intro a ha
    refine (Function.update_of_ne ?_ _ _).trans (h.frame a ha)
    unfold lvl2Place
    omega
  case last =>
    change entryAddress (dropRow t.words root (n + k) (lvl2Place root 511)) = _
    rw [ZoneTables.lvl2_dropRow hzone hzone hk (by omega), ← h.last]
    split_ifs with hsame
    · rw [← hsame.2, entryAddress_cleared]
    · rfl

/-- The three parts that `identity_paging` binds. -/
theorem identityPaging_bound (codeBa dataBa kernelBa : BlockAttributesSg1)
    (hid : s.idPagingSize = L.endAddr) (h : ZoneTables s.words s.lvl2TableAddress 0)
    (hpresent : ∀ i < 511, present s.words s.lvl2TableAddress i = true) :
    ∃ t₁ t₂ t₃, bindIdentity 0 L.dataStart (fun _ ↦ codeBa) s = .ok t₁ ∧
      bindIdentity L.dataStart L.mmuTablesStart (fun _ ↦ dataBa) t₁ = .ok t₂ ∧
      mapTableZone L kernelBa t₂ = .ok t₃ ∧
      IdentityBound s t₃ s.lvl2TableAddress 0 (512 * L.kernelTables) := by
  obtain ⟨hend, hle⟩ := L.toNat_endAddr_tables
  have hstart := L.toNat_mmuTablesStart
  have htables : L.kernelTables = L.lowTables + 33 := rfl
  have hdata := L.dataStart_aligned
  have hdataLe := L.dataStart_le
  have hid' : s.idPagingSize.toNat = 0x200000 * L.kernelTables := by rw [hid, hend]
  obtain ⟨d, hd⟩ : ∃ d, L.dataStart.toNat = 0x1000 * d := ⟨L.dataStart.toNat / 0x1000, by omega⟩
  have hpages (t : MmuState) (lo hi : ℕ) (ht : IdentityBound s t s.lvl2TableAddress lo hi) :
      t.lvl2TableAddress = s.lvl2TableAddress ∧ t.idPagingSize = s.idPagingSize ∧
        ZoneTables t.words s.lvl2TableAddress 0 ∧
        ∀ i, 0 ≤ i → i < 511 → present t.words s.lvl2TableAddress i = true := by
    refine ⟨by rw [ht.fixed], by rw [ht.fixed], ht.tables _ 0 h, fun i _ hi ↦ ?_⟩
    rw [ht.present_eq _ h.zone i (by omega), hpresent i hi]
  have hzero : (0 : Word).toNat = 0x1000 * 0 := rfl
  obtain ⟨t₁, hbind₁, ht₁⟩ := bindIdentity_eq (fun _ ↦ codeBa) h (fun i _ hi ↦ hpresent i hi) hzero
    hd (by omega) (by omega) (by omega) (by omega)
  obtain ⟨hroot₁, hid₁, htables₁, hpresent₁⟩ := hpages t₁ _ _ ht₁
  obtain ⟨t₂, hbind₂, ht₂⟩ := bindIdentity_eq (s := t₁) (fun _ ↦ dataBa) (hroot₁ ▸ htables₁)
    (hroot₁ ▸ hpresent₁)
    hd (show L.mmuTablesStart.toNat = 0x1000 * (512 * L.lowTables) by omega) (by omega) (by omega)
    (by rw [hid₁]; omega) (by rw [hid₁]; omega)
  rw [hroot₁] at ht₂
  have ht₂' := ht₁.trans ht₂ h (by omega) (by omega) (by omega) (by omega)
  obtain ⟨hroot₂, hid₂, htables₂, hpresent₂⟩ := hpages t₂ _ _ ht₂'
  obtain ⟨t₃, hbind₃, ht₃⟩ := mapTableZone_eq (s := t₂) kernelBa (hid₂.trans hid)
    (hroot₂ ▸ htables₂) (hroot₂ ▸ hpresent₂) (by omega)
  rw [hroot₂] at ht₃
  exact ⟨t₁, t₂, t₃, hbind₁, hbind₂, hbind₃,
    ht₂'.trans ht₃ h (by omega) (by omega) (by omega) (by omega)⟩

/-- `identity_paging` on populated tables. -/
theorem identityPaging_eq (hid : s.idPagingSize = L.endAddr)
    (h : ZoneTables s.words s.lvl2TableAddress 0)
    (hpresent : ∀ i < 511, present s.words s.lvl2TableAddress i = true) :
    ∃ t, identityPaging L s = .ok t ∧
      IdentityPaged s t s.lvl2TableAddress L.kernelTables (512 - L.kernelTables) := by
  obtain ⟨hend, hle⟩ := L.toNat_endAddr_tables
  obtain ⟨t₁, t₂, t₃, hbind₁, hbind₂, hbind₃, ht⟩ := identityPaging_bound
    (newBlockAttributesSg1 (codePage ||| accessFlagSet) normalWtNt)
    (newBlockAttributesSg1 (dataPage ||| accessFlagSet) normalWtNt)
    (newBlockAttributesSg1 (kernelPage ||| accessFlagSet) normalWtNt) hid h hpresent
  have hid₃ : t₃.idPagingSize = L.endAddr := by rw [ht.fixed]; exact hid
  have hroot₃ : t₃.lvl2TableAddress = s.lvl2TableAddress := by rw [ht.fixed]
  have hgranule : granule.toNat = 0x1000 := rfl
  have hrow : (granule * 512).toNat = 0x200000 := by decide
  have hindex : (t₃.idPagingSize / granule % 512).toNat = 0 := by
    have hentries : (512 : Word).toNat = 512 := rfl
    rw [BitVec.toNat_umod, BitVec.toNat_udiv, hid₃, hend, hgranule, hentries]
    omega
  have hfirst : (t₃.idPagingSize / (granule * 512)).toNat = L.kernelTables := by
    rw [BitVec.toNat_udiv, hid₃, hend, hrow]
    omega
  have hstart : IdentityPaged s t₃ s.lvl2TableAddress L.kernelTables 0 := by
    refine ⟨ht.fixed, ht.tables, fun v hv ↦ ht.inside v (Nat.zero_le v) hv,
      fun i hi hlt ↦ absurd hlt (by omega),
      fun r m hr hne v hm hv ↦ ht.outside r m hr v hm hv fun hsame ↦ absurd hsame hne,
      fun r hr _ ↦ ht.present_eq r hr, fun a ha ↦ ht.frame a (or_assoc.mp (.inl ha)),
      by rw [ht.frame _ (.inr (.inr ⟨511, by omega, rfl⟩))]⟩
  have hloop : IdentityPaged s (forUpTo (512 - L.kernelTables) (fun i s ↦ setInvalidEntry s
      (s.lvl2TableAddress + BitVec.ofNat 64 (L.kernelTables + i) * 8)) t₃) s.lvl2TableAddress
      L.kernelTables (512 - L.kernelTables) := by
    refine forUpTo_invariant (I := fun k t ↦ IdentityPaged s t s.lvl2TableAddress L.kernelTables k)
      hstart fun k hk t hpaged ↦ ?_
    have hroot : t.lvl2TableAddress = s.lvl2TableAddress := by rw [hpaged.fixed]
    have hinvalid := h.zone.setInvalidEntry_lvl2 t (i := L.kernelTables + k) (by omega)
    rw [hroot, hinvalid]
    exact hpaged.step h (by omega)
  refine ⟨_, ?_, hloop⟩
  rw [identityPaging]
  simp only [hbind₁, hbind₂, hbind₃, ok_bind]
  simp only [hindex, hfirst, if_true, add_zero, ne_eq, not_true_eq_false, if_false]

/-- `check_identity_paging` finds no fault. -/
theorem checkIdentityPaging_eq (hroot : Rooted s.lvl2TableAddress)
    (hid : s.idPagingSize.toNat = 0x200000 * n) (hn : n ≤ 504)
    (h : ∀ v < 512 * n, ∃ e, leaf s.words s.lvl2TableAddress v = some e ∧
      (entryAddress e).toNat = 0x1000 * v) : checkIdentityPaging s = .ok s := by
  have hgranule : granule.toNat = 0x1000 := rfl
  have hrounds : (s.idPagingSize.toNat + 0xfff) / 0x1000 = 512 * n := by omega
  rw [checkIdentityPaging, hrounds]
  refine forUpToM_const fun i hi ↦ ?_
  obtain ⟨pa, hpa⟩ : ∃ pa, pa = BitVec.ofNat 64 i * granule := ⟨_, rfl⟩
  have hnat : pa.toNat = 0x1000 * i := by
    rw [hpa, BitVec.toNat_mul, BitVec.toNat_ofNat, hgranule]
    omega
  have hpage : page pa = i := by
    unfold page
    omega
  obtain ⟨e, hleaf, haddress⟩ := h i hi
  rw [← hpage] at hleaf
  obtain ⟨hpresent, hword, hblock⟩ := leaf_eq_some hleaf
  have hoffset : pa &&& mask 11 0 = 0 := (page_aligned_iff pa).mpr (by omega)
  have hsame : entryAddress e + (pa &&& mask 11 0) = pa := by
    rw [hoffset]
    refine (BitVec.add_zero _).trans (BitVec.eq_of_toNat_eq ?_)
    rw [haddress, hnat]
  have hwalk := getPhysicalAddress_eq hroot (by omega) hleaf
  rw [hsame] at hwalk
  dsimp only
  rw [← hpa]
  simp only [errorCode_lvl3 hroot (show pa.toNat < 2 ^ 30 by omega) hpresent,
    word_lvl3 hroot (show pa.toNat < 2 ^ 30 by omega) hpresent, hword, hblock, hwalk]
  simp

end SysresOs.Mmu
