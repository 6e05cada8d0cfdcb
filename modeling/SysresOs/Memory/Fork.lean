import SysresOs.Memory.Boot
import SysresOs.Memory.ForkedPage

/-!
# The tables of a forked process

`c_init_mmu` for a process that is forked: its level-2 table is populated over whatever the memory
holds, the entries of the kernel's part are copied from the parent, the double loop shares the pages
of the parent, the two stack pages are copied, and the peripherals are bound. `ForkReady` is what
this relies on. `Forked` describes the result by the leaves of all zones and by the bind counters,
and `cInitMmu_forked` puts the parts together.
-/

set_option autoImplicit false
set_option relaxedAutoImplicit false

namespace SysresOs.Mmu

open SysresOs.Loop SysresOs.Outcome

open SysresOs.Proc (Pid SystemState kernelPid initPid)

variable {L : Layout} {sys : SystemState} {pid : Pid} {s t : MmuState}
  {parent child r p p' e : Word} {n m i k v : ℕ}

/-! ### The kernel's part -/

/-- The first `k` level-2 entries of a parent have been copied to those of a root. -/
structure RowsCopied (s t : MmuState) (parent child : Word) (k : ℕ) : Prop where
  fixed : t = { s with words := t.words }
  copied : ∀ i < k, t.words (lvl2Place child i) = s.words (lvl2Place parent i)
  frame : ∀ a, (∀ i < k, a ≠ lvl2Place child i) → t.words a = s.words a

/-- The first loop of `process_init_copy_and_write`. -/
theorem rowsCopied (hparent : ZoneRoot parent) (hzone : ZoneRoot s.lvl2TableAddress)
    (hne : parent ≠ s.lvl2TableAddress) (hk : k ≤ 512) :
    RowsCopied s (forUpTo k (fun i s ↦ s.setWord (s.lvl2TableAddress + BitVec.ofNat 64 i * 8)
      (s.word (parent + BitVec.ofNat 64 i * 8))) s) parent s.lvl2TableAddress k := by
  refine forUpTo_invariant (I := fun k t ↦ RowsCopied s t parent s.lvl2TableAddress k)
    ⟨rfl, fun i hi ↦ absurd hi (by omega), fun _ _ ↦ rfl⟩ fun i hi t ht ↦ ?_
  have hroot : t.lvl2TableAddress = s.lvl2TableAddress := by rw [ht.fixed]
  constructor
  case fixed =>
    rw [MmuState.setWord, ht.fixed]
  case copied =>
    intro j hj
    have hword : t.words (lvl2Place parent i) = s.words (lvl2Place parent i) :=
      ht.frame _ fun m hm heq ↦ hne ((lvl2Place_inj hzone hparent (by omega) (by omega)).mp heq).1
    rw [hroot, words_setWord, MmuState.word, hzone.toNat_lvl2 (by omega),
      hparent.toNat_lvl2 (by omega), hword]
    split_ifs with hsame
    · rw [((lvl2Place_inj hzone hzone (by omega) (by omega)).mp hsame).2]
    · exact ht.copied j (by unfold lvl2Place at hsame; omega)
  case frame =>
    intro a ha
    rw [hroot, MmuState.setWord, hzone.toNat_lvl2 (by omega)]
    refine (Function.update_of_ne (ha i (by omega)) _ _).trans ?_
    exact ht.frame a fun j hj ↦ ha j (by omega)

/-- A level-2 entry of a root is the parent's entry, or points to its own table. -/
def RowShared (w w' : ℕ → Word) (parent child : Word) (i : ℕ) : Prop :=
  w' (lvl2Place child i) = w (lvl2Place parent i) ∨
    table w' child i = child.toNat + 0x1000 * (i + 1)

/-- The memory manager maps the table zone to itself, in the rows of its own zone. -/
def ManagerRow (L : Layout) (pid : Pid) (i : ℕ) : Prop :=
  pid = memManagerPid ∧ L.lowTables ≤ i ∧ i < L.kernelTables

/-- The kernel's part of the child's tables, up to the level-2 entry `n`, is set up, and nothing
else but its populated level-2 table differs from the memory before the fork. -/
structure RowsReady (L : Layout) (s t : MmuState) (pid : Pid) (parent : Word) (n : ℕ) : Prop where
  fixed : t = { populated L pid s with words := t.words }
  kernel : ∀ i < n, RowShared s.words t.words parent (L.zoneRoot pid) i
  kernelWord : pid ≠ memManagerPid → ∀ i < n,
    t.words (lvl2Place (L.zoneRoot pid) i) = s.words (lvl2Place parent i)
  tables : ZoneTables t.words (L.zoneRoot pid) n
  present_eq : ∀ i, n ≤ i → i < 511 → present t.words (L.zoneRoot pid) i = true
  stale : ∀ v, n ≤ v / 512 → v < 511 * 512 → leaf t.words (L.zoneRoot pid) v =
    leaf (populateWords s.words (L.zoneRoot pid) 511) (L.zoneRoot pid) v
  frame : ∀ a, a < (L.zoneRoot pid).toNat ∨ (L.zoneRoot pid).toNat + 0x200000 ≤ a ∨
    a = lvl2Place (L.zoneRoot pid) 511 → t.words a = s.words a
  stalePlace : ∀ v < 511 * 512, ¬ ManagerRow L pid (v / 512) →
    t.words (zonePlace (L.zoneRoot pid) v) = s.words (zonePlace (L.zoneRoot pid) v)
  managerPlace : ∀ v, ManagerRow L pid (v / 512) → v / 512 < n →
    isBlockEntry (t.words (zonePlace (L.zoneRoot pid) v)) = true

theorem RowsCopied.rowsReady (h : RowsCopied (populated L pid s) t parent (L.zoneRoot pid) n)
    (hparent : ZoneRoot parent) (hne : parent ≠ L.zoneRoot pid) (hn : n ≤ 504)
    (hmanager : pid = memManagerPid → n ≤ L.lowTables) : RowsReady L s t pid parent n := by
  have hzone := L.zoneRoot_zone pid
  have htables := (ZoneTables.ofPopulate (w := s.words) hzone).mono (Nat.zero_le n)
  have hframe := h.frame
  rw [populated_words] at hframe
  have hlvl2 (i : ℕ) (hi : n ≤ i) : t.words (lvl2Place (L.zoneRoot pid) i) =
      populateWords s.words (L.zoneRoot pid) 511 (lvl2Place (L.zoneRoot pid) i) :=
    hframe _ fun j hj ↦ by unfold lvl2Place; omega
  have hcopied (i : ℕ) (hi : i < n) :
      t.words (lvl2Place (L.zoneRoot pid) i) = s.words (lvl2Place parent i) := by
    rw [h.copied i hi, populated_words, ZoneTables.populateWords_apart hzone hparent hne
      (by unfold lvl2Place; omega) (by unfold lvl2Place; omega)]
  constructor
  case fixed => exact h.fixed
  case kernel =>
    exact fun i hi ↦ .inl (hcopied i hi)
  case kernelWord => exact fun _ ↦ hcopied
  case tables => exact htables.congr fun i hi _ ↦ by rw [hlvl2 i hi]
  case present_eq =>
    intro i hi hlt
    rw [present, hlvl2 i hi]
    exact present_populateWords hlt
  case stale =>
    intro v hv hlt
    refine htables.leaf_congr hv hlt (hlvl2 _ hv) (hframe _ fun j hj ↦ ?_)
    unfold lvl2Place zonePlace
    omega
  case frame =>
    intro a ha
    unfold lvl2Place at ha
    rw [hframe a fun j hj ↦ by unfold lvl2Place; omega, populateWords_of_not_mem (by omega)]
  case stalePlace =>
    intro v hv _
    rw [hframe _ fun j hj ↦ by unfold lvl2Place zonePlace; omega,
      populateWords_of_not_mem (by unfold zonePlace; omega)]
  case managerPlace =>
    rintro v ⟨hpid, hlow, -⟩ hv
    exact absurd (hmanager hpid) (by omega)

/-- The memory manager maps the table zone after the rows below it. -/
theorem RowsReady.identityBound {u : MmuState} (h : RowsReady L s t pid parent L.lowTables)
    (h' : IdentityBound t u (L.zoneRoot pid) (512 * L.lowTables) (512 * L.kernelTables))
    (hmanager : pid = memManagerPid) (hle : L.kernelTables ≤ 504) :
    RowsReady L s u pid parent L.kernelTables := by
  have hzone := L.zoneRoot_zone pid
  have hlow : L.kernelTables = L.lowTables + 33 := rfl
  constructor
  case fixed => rw [h'.fixed, h.fixed]
  case kernel =>
    intro i hi
    have hword : u.words (lvl2Place (L.zoneRoot pid) i) = t.words (lvl2Place (L.zoneRoot pid) i) :=
      h'.frame _ (.inr (.inr ⟨i, by omega, rfl⟩))
    rw [RowShared, table, hword, ← table]
    rcases Nat.lt_or_ge i L.lowTables with hlt | hge
    · exact h.kernel i hlt
    · exact .inr (h.tables.table_eq i hge (by omega))
  case kernelWord => exact fun hother ↦ absurd hmanager hother
  case tables => exact (h'.tables _ _ h.tables).mono (by omega)
  case present_eq =>
    intro i hi hlt
    rw [h'.present_eq _ hzone i (by omega)]
    exact h.present_eq i (by omega) hlt
  case stale =>
    intro v hv hlt
    rw [h'.outside _ _ h.tables v (by omega) hlt fun _ ↦ .inr (by omega)]
    exact h.stale v (by omega) hlt
  case frame =>
    exact fun a ha ↦ (h'.frame a (ha.imp_right (Or.imp_right fun heq ↦ ⟨511, by omega, heq⟩))).trans
      (h.frame a ha)
  case stalePlace =>
    intro v hv hrow
    rw [← h.stalePlace v hv hrow]
    refine h'.kept v ?_
    by_contra hin
    exact hrow ⟨hmanager, by omega, by omega⟩
  case managerPlace =>
    rintro v ⟨-, hlow', hlt⟩ -
    obtain ⟨e, hleaf, -⟩ := h'.inside v (by omega) (by omega)
    obtain ⟨-, hword, hblock⟩ := leaf_eq_some hleaf
    rw [(h'.tables _ _ h.tables).lvl3Place_eq hlow' (by omega)] at hword
    rwa [hword]

/-- The first half of `process_init_copy_and_write`. -/
def copyKernelPart (L : Layout) (parent : Word) (pid : Pid) (s : MmuState) : Except Stop MmuState :=
  let t := forUpTo (if pid = memManagerPid then L.lowTables else L.kernelTables) (fun i s ↦
    s.setWord (s.lvl2TableAddress + BitVec.ofNat 64 i * 8)
    (s.word (parent + BitVec.ofNat 64 i * 8))) s
  if pid = memManagerPid then
    mapTableZone L (newBlockAttributesSg1 (dataPage ||| accessFlagSet) normalWtNt) t
  else .ok t

theorem copyKernelPart_eq (s : MmuState) (hparent : ZoneRoot parent)
    (hne : parent ≠ L.zoneRoot pid) :
    ∃ t, copyKernelPart L parent pid (populated L pid s) = .ok t ∧
      RowsReady L s t pid parent L.kernelTables := by
  obtain ⟨-, hle⟩ := L.toNat_endAddr_tables
  have hlow : L.kernelTables = L.lowTables + 33 := rfl
  have hzone := L.zoneRoot_zone pid
  have hroot := populated_lvl2TableAddress L pid s
  rw [copyKernelPart]
  split_ifs with hmanager
  · have hrows := rowsCopied (s := populated L pid s) (k := L.lowTables) hparent
      (hroot ▸ hzone) (hroot ▸ hne) (by omega)
    rw [hroot] at hrows
    have hready := hrows.rowsReady hparent hne (by omega) fun _ ↦ le_rfl
    obtain ⟨t, ht⟩ :
        ∃ t, t = forUpTo L.lowTables
      (fun i s ↦ s.setWord (s.lvl2TableAddress + BitVec.ofNat 64 i * 8)
      (s.word (parent + BitVec.ofNat 64 i * 8))) (populated L pid s) := ⟨_, rfl⟩
    rw [← ht] at hready ⊢
    have hroot' : t.lvl2TableAddress = L.zoneRoot pid := by rw [hready.fixed]; rfl
    have hid : t.idPagingSize = L.endAddr := by rw [hready.fixed]; rfl
    obtain ⟨u, hmap, hu⟩ := mapTableZone_eq (s := t)
      (newBlockAttributesSg1 (dataPage ||| accessFlagSet) normalWtNt) hid (hroot' ▸ hready.tables)
      (hroot' ▸ hready.present_eq) le_rfl
    rw [hroot'] at hu
    exact ⟨u, hmap, hready.identityBound hu hmanager hle⟩
  · have hrows := rowsCopied (s := populated L pid s) (k := L.kernelTables) hparent
      (hroot ▸ hzone) (hroot ▸ hne) (by omega)
    rw [hroot] at hrows
    exact ⟨_, rfl, hrows.rowsReady hparent hne (by omega) fun heq ↦ absurd heq hmanager⟩

/-- `process_init_copy_and_write` on populated tables. -/
theorem processInitCopyAndWrite_eq (s : MmuState)
    (hparent : ZoneRoot (getLvl2AddressFromSysState sys (getParentPid sys pid)))
    (hne : getLvl2AddressFromSysState sys (getParentPid sys pid) ≠ L.zoneRoot pid) :
    processInitCopyAndWrite L sys pid (populated L pid s) = (do
      let s ← copyKernelPart L (getLvl2AddressFromSysState sys (getParentPid sys pid)) pid
        (populated L pid s)
      let s ← forUpToM (nAvailableTables - L.kernelTables) (fun i s ↦ copyLvl2Entry
        (getLvl2AddressFromSysState sys (getParentPid sys pid)) (L.kernelTables + i) s) s
      let s ← copyForkedPage L sys stackPage1 s
      copyForkedPage L sys stackPage2 s) := by
  obtain ⟨hend, hle⟩ := L.toNat_endAddr_tables
  have hstart := L.toNat_mmuTablesStart
  have hrow : (granule * 512).toNat = 0x200000 := by decide
  have hdivides (x : Word) (k : ℕ) (hx : x.toNat = 0x200000 * k) :
      x % (granule * 512) = 0 ∧ (x / (granule * 512)).toNat = k := by
    have hzero : (0 : Word).toNat = 0 := rfl
    refine ⟨BitVec.eq_of_toNat_eq ?_, ?_⟩
    · rw [BitVec.toNat_umod, hx, hrow, hzero]
      omega
    · rw [BitVec.toNat_udiv, hx, hrow]
      omega
  have hid : (populated L pid s).idPagingSize = L.endAddr := rfl
  obtain ⟨hidZero, hidRows⟩ := hdivides L.endAddr _ hend
  obtain ⟨hstartZero, hstartRows⟩ := hdivides L.mmuTablesStart _ hstart
  obtain ⟨t, hpart, hready⟩ := copyKernelPart_eq s hparent hne
  have hid' : t.idPagingSize = L.endAddr := by rw [hready.fixed]; rfl
  have hrows :
      ((if pid = memManagerPid then L.mmuTablesStart else L.endAddr) / (granule * 512)).toNat =
      if pid = memManagerPid then L.lowTables else L.kernelTables := by
    split_ifs
    · exact hstartRows
    · exact hidRows
  rw [hpart, ok_bind]
  rw [copyKernelPart] at hpart
  rw [processInitCopyAndWrite, hid, assert_pos hidZero, ok_bind,
    assert_pos hstartZero, ok_bind, hrows]
  dsimp only at hpart ⊢
  by_cases hmanager : pid = memManagerPid
  · simp only [if_pos hmanager] at hpart ⊢
    rw [hpart, ok_bind, hid', hidRows]
  · simp only [if_neg hmanager] at hpart ⊢
    rw [hpart, ok_bind, hid', hidRows]

/-! ### The pages of the parent -/

/-- The pages from `id_paging_size` up to `GPIO_BASE`, without the one of the timer. -/
def IsUserPage (L : Layout) (v : ℕ) : Prop :=
  L.kernelTables ≤ v / 512 ∧ v < 512 * 505 ∧ v ≠ timerPage

instance (L : Layout) (v : ℕ) : Decidable (IsUserPage L v) :=
  inferInstanceAs (Decidable (_ ∧ _ ∧ _))

/-- The memory after the double loop of the fork of a process, with that before the fork. -/
structure PagesShared (L : Layout) (s t : MmuState) (pid : Pid) (parent : Word) : Prop where
  fixed : t = { populated L pid s with words := t.words, counters := t.counters }
  tables : ZoneTables t.words (L.zoneRoot pid) L.kernelTables
  kernel : ∀ i < L.kernelTables, RowShared s.words t.words parent (L.zoneRoot pid) i
  kernelWord : pid ≠ memManagerPid → ∀ i < L.kernelTables,
    t.words (lvl2Place (L.zoneRoot pid) i) = s.words (lvl2Place parent i)
  present_eq : ∀ i, L.kernelTables ≤ i → i < 511 →
    present t.words (L.zoneRoot pid) i = decide (present s.words parent i = true ∨ 505 ≤ i)
  otherTables : ∀ r m, r ≠ L.zoneRoot pid → ZoneTables s.words r m → ZoneTables t.words r m
  otherLeaf : ∀ r m, r ≠ L.zoneRoot pid → ZoneTables s.words r m →
    ∀ v, m ≤ v / 512 → v < 511 * 512 →
    leaf t.words r v = if r = parent ∧ IsUserPage L v then (leaf s.words r v).map (forkedEntry v)
      else leaf s.words r v
  leaf_eq : ∀ v, IsUserPage L v →
    leaf t.words (L.zoneRoot pid) v = (leaf s.words parent v).map (forkedEntry v)
  stale : ∀ v, 505 ≤ v / 512 → v < 511 * 512 → leaf t.words (L.zoneRoot pid) v =
    leaf (populateWords s.words (L.zoneRoot pid) 511) (L.zoneRoot pid) v
  frame : ∀ a, a < (L.zoneRoot pid).toNat ∨ (L.zoneRoot pid).toNat + 0x200000 ≤ a ∨
    a = lvl2Place (L.zoneRoot pid) 511 → a < parent.toNat ∨ parent.toNat + 0x200000 ≤ a →
    t.words a = s.words a
  stalePlace : ∀ v < 511 * 512, ¬ ManagerRow L pid (v / 512) →
    v / 512 < L.kernelTables ∨ 505 ≤ v / 512 ∨ present s.words parent (v / 512) = false →
    t.words (zonePlace (L.zoneRoot pid) v) = s.words (zonePlace (L.zoneRoot pid) v)
  managerPlace : ∀ v, ManagerRow L pid (v / 512) →
    isBlockEntry (t.words (zonePlace (L.zoneRoot pid) v)) = true
  pointers : ∀ a, a < (L.zoneRoot pid).toNat ∨ (L.zoneRoot pid).toNat + 0x200000 ≤ a →
    pointer (t.words a) = pointer (s.words a)
  counter : ∀ q, getBindCounter t q = getBindCounter s q +
    BitVec.ofNat 8 (copiedTo s.words parent L.kernelTables (q.toNat / 0x1000) (512 * 505)).card

/-- The words of another zone are those before the fork when the double loop begins. -/
theorem RowsReady.word_apart (h : RowsReady L s t pid parent n) (hr : ZoneRoot r)
    (hne : r ≠ L.zoneRoot pid) {a : ℕ} (ha : r.toNat ≤ a) (ha' : a < r.toNat + 0x200000) :
    t.words a = s.words a := by
  have haligned := hr.aligned
  have haligned' := (L.zoneRoot_zone pid).aligned
  have hapart : r.toNat ≠ (L.zoneRoot pid).toNat := fun heq ↦ hne (BitVec.eq_of_toNat_eq heq)
  exact h.frame a (by omega)

theorem RowsReady.otherTables (h : RowsReady L s t pid parent n) (hne : r ≠ L.zoneRoot pid)
    (hr : ZoneTables s.words r m) : ZoneTables t.words r m := by
  refine hr.congr fun i _ hi ↦ ?_
  rw [h.word_apart hr.zone hne (by unfold lvl2Place; omega) (by unfold lvl2Place; omega)]

theorem RowsReady.otherLeaf (h : RowsReady L s t pid parent n) (hne : r ≠ L.zoneRoot pid)
    (hr : ZoneTables s.words r m) (hm : m ≤ v / 512) (hv : v < 511 * 512) :
    leaf t.words r v = leaf s.words r v := by
  refine hr.leaf_congr hm hv ?_ ?_
  · exact h.word_apart hr.zone hne (by unfold lvl2Place; omega) (by unfold lvl2Place; omega)
  · exact h.word_apart hr.zone hne (by unfold zonePlace; omega) (by unfold zonePlace; omega)

/-- The level-2 entries of the other zones are kept by the double loop. -/
theorem Copied.lvl2_apart (h : Copied s t parent child n k) (hr : ZoneRoot r)
    (hne : r ≠ child) {i : ℕ} (hi : i < 512) :
    t.words (lvl2Place r i) = s.words (lvl2Place r i) := by
  refine h.frame _ (fun v hv hlt ↦ ⟨fun _ ↦ ?_, ?_⟩) fun j hj hlt heq ↦ ?_
  · exact lvl2Place_ne_zonePlace h.parentTables.zone hr hi (by omega)
  · exact lvl2Place_ne_zonePlace h.childTables.zone hr hi (by omega)
  · exact hne ((lvl2Place_inj h.childTables.zone hr (by omega) hi).mp heq).1

/-- The leaves of the other zones after the double loop. -/
theorem Copied.otherLeaf (h : Copied s t parent child n (512 * 505)) (hr : ZoneTables s.words r m)
    (hne : r ≠ child) (hm : m ≤ v / 512) (hv : v < 511 * 512) : leaf t.words r v =
      if r = parent ∧ n ≤ v / 512 ∧ v < 512 * 505 ∧ v ≠ timerPage
        then (leaf s.words r v).map (forkedEntry v)
      else leaf s.words r v := by
  split_ifs with hcopied
  · obtain ⟨rfl, hn, hlt, htimer⟩ := hcopied
    rw [h.parentLeaf v hn hlt, if_pos ⟨hlt, htimer⟩]
  · refine hr.leaf_congr hm hv (h.lvl2_apart hr.zone hne (by omega))
      (h.frame _ (fun u hu hlt ↦ ⟨?_, ?_⟩) ?_)
    · rintro htimer heq
      obtain ⟨hsame, rfl⟩ := (zonePlace_inj h.parentTables.zone hr.zone hv (by omega)).mp heq
      exact hcopied ⟨hsame, hu, hlt, htimer⟩
    · exact fun heq ↦ hne ((zonePlace_inj h.childTables.zone hr.zone hv (by omega)).mp heq).1
    · exact fun i _ hi heq ↦ lvl2Place_ne_zonePlace hr.zone h.childTables.zone
        (by omega) hv heq.symm

/-- The child's level-2 entries that the double loop does not reach. -/
theorem Copied.lvl2_unreached (h : Copied s t parent child n k) {i : ℕ} (hi : i < 512)
    (hout : i < n ∨ 505 ≤ i) : t.words (lvl2Place child i) = s.words (lvl2Place child i) := by
  have hparent := h.parentTables.zone
  have hchild := h.childTables.zone
  refine h.frame _ (fun v hv hlt ↦ ⟨fun _ ↦ ?_, ?_⟩) fun j hj hlt heq ↦ ?_
  · exact lvl2Place_ne_zonePlace hparent hchild hi (by omega)
  · exact lvl2Place_ne_zonePlace hchild hchild hi (by omega)
  · have hsame := ((lvl2Place_inj hchild hchild (by omega) hi).mp heq).2
    omega

/-- The child's level-3 entries that the double loop does not reach. -/
theorem Copied.place_unreached (h : Copied s t parent child n k) (hne : parent ≠ child)
    (hv : v < 511 * 512) (hout : v / 512 < n ∨ 505 ≤ v / 512) :
    t.words (zonePlace child v) = s.words (zonePlace child v) := by
  have hparent := h.parentTables.zone
  have hchild := h.childTables.zone
  refine h.frame _ (fun u hu hlt ↦ ⟨fun _ heq ↦ ?_, fun heq ↦ ?_⟩) fun i hi hlt heq ↦ ?_
  · exact hne ((zonePlace_inj hparent hchild hv (by omega)).mp heq).1.symm
  · have hsame := ((zonePlace_inj hchild hchild hv (by omega)).mp heq).2
    omega
  · exact lvl2Place_ne_zonePlace hchild hchild (by omega) hv heq.symm

/-- The words outside both zones. -/
theorem Copied.words_outside (h : Copied s t parent child n k) {a : ℕ}
    (ha : a < child.toNat ∨ child.toNat + 0x200000 ≤ a ∨ a = lvl2Place child 511)
    (ha' : a < parent.toNat ∨ parent.toNat + 0x200000 ≤ a) : t.words a = s.words a := by
  unfold lvl2Place at ha
  refine h.frame a (fun v hv hlt ↦ ?_) fun i hi hlt ↦ ?_
  · unfold zonePlace
    omega
  · unfold lvl2Place
    omega

theorem copiedTo_congr {w w' : ℕ → Word} {f : ℕ}
    (h : ∀ v, n ≤ v / 512 → v < k → leaf w parent v = leaf w' parent v) :
    copiedTo w parent n f k = copiedTo w' parent n f k := by
  ext v
  simp only [copiedTo, Finset.mem_filter, Finset.mem_range]
  refine and_congr_right fun hlt ↦ and_congr_right fun hv ↦ ?_
  rw [frameOf, h v hv hlt, frameOf]

theorem RowsReady.present_parent (h : RowsReady L s t pid parent n) (hparent : ZoneRoot parent)
    (hne : parent ≠ L.zoneRoot pid) {i : ℕ} (hi : i < 512) :
    present t.words parent i = present s.words parent i := by
  rw [present, h.word_apart hparent hne (by unfold lvl2Place; omega) (by unfold lvl2Place; omega),
    present]

/-- The double loop after the set-up of the kernel's part. -/
theorem RowsReady.pagesShared {u : MmuState} (h : RowsReady L s t pid parent L.kernelTables)
    (h' : Copied t u parent (L.zoneRoot pid) L.kernelTables (512 * 505))
    (hne : parent ≠ L.zoneRoot pid) (hparent : ZoneTables s.words parent L.kernelTables) :
    PagesShared L s u pid parent := by
  obtain ⟨-, hle⟩ := L.toNat_endAddr_tables
  have hleaf (v : ℕ) (hv : L.kernelTables ≤ v / 512) (hlt : v < 511 * 512) :
      leaf t.words parent v = leaf s.words parent v := h.otherLeaf hne hparent hv hlt
  have hpresent (i : ℕ) (hi : i < 512) : present t.words parent i = present s.words parent i :=
    h.present_parent hparent.zone hne hi
  constructor
  case fixed => rw [h'.fixed, h.fixed]
  case tables => exact h'.childTables
  case kernel =>
    intro i hi
    rw [RowShared, table, h'.lvl2_unreached (by omega) (.inl hi), ← table]
    exact h.kernel i hi
  case kernelWord =>
    intro hother i hi
    rw [h'.lvl2_unreached (by omega) (.inl hi), h.kernelWord hother i hi]
  case present_eq =>
    intro i hi hlt
    rcases Nat.lt_or_ge i 505 with hbelow | hlast
    · cases habsent : present s.words parent i with
      | true =>
        rw [h'.childPresent i hi hbelow (.inr ((hpresent i (by omega)).trans habsent))]
        exact (decide_eq_true (.inl rfl)).symm
      | false =>
        rw [h'.childAbsent i hi (by omega) ((hpresent i (by omega)).trans habsent)]
        exact (decide_eq_false (by simpa using hbelow)).symm
    · rw [present, h'.lvl2_unreached (by omega) (.inr hlast), ← present, h.present_eq i hi hlt]
      exact (decide_eq_true (.inr hlast)).symm
  case otherTables =>
    intro r m hr htables
    refine (h.otherTables hr htables).congr fun i _ hi ↦ ?_
    rw [h'.lvl2_apart htables.zone hr (by omega)]
  case otherLeaf =>
    intro r m hr htables v hm hv
    rw [h'.otherLeaf (h.otherTables hr htables) hr hm hv, h.otherLeaf hr htables hm hv]
    rfl
  case leaf_eq =>
    rintro v ⟨hv, hlt, htimer⟩
    rw [h'.childLeaf v hv hlt htimer, hleaf v hv (by omega)]
  case stale =>
    intro v hlast hv
    rw [← h.stale v (by omega) hv]
    exact h.tables.leaf_congr (by omega) hv (h'.lvl2_unreached (by omega) (.inr hlast))
      (h'.place_unreached hne hv (.inr hlast))
  case frame =>
    intro a ha ha'
    rw [h'.words_outside ha ha', h.frame a ha]
  case stalePlace =>
    intro v hv hmanager hkept
    rw [← h.stalePlace v hv hmanager]
    by_cases hout : v / 512 < L.kernelTables ∨ 505 ≤ v / 512
    · exact h'.place_unreached hne hv hout
    · have habsent : present s.words parent (v / 512) = false :=
        hkept.elim (fun hlt ↦ absurd (.inl hlt) hout) fun hor ↦ hor.resolve_left fun hge ↦
          hout (.inr hge)
      exact h'.childStale v (by omega) (by omega) ((hpresent _ (by omega)).trans habsent)
  case managerPlace =>
    rintro v ⟨hpid, hlow, hlt⟩
    rw [h'.place_unreached hne (by omega) (.inl hlt)]
    exact h.managerPlace v ⟨hpid, hlow, hlt⟩ hlt
  case pointers =>
    intro a ha
    rw [h'.pointers a ha, h.frame a (or_assoc.mp (.inl ha))]
  case counter =>
    intro q
    have hcount : getBindCounter t q = getBindCounter s q := by
      rw [h.fixed]
      rfl
    rw [h'.counter q, copiedTo_congr fun v hv hlt ↦ hleaf v hv (by omega), hcount]

/-! ### What a fork relies on -/

/-- What `c_init_mmu` relies on for a forked process: the tables of the parent with its two stack
pages, which nothing else is bound to, the tables of the kernel, which map nothing at the two
reserved pages, and two pages of the pool that nothing is bound to. -/
structure ForkReady (L : Layout) (sys : SystemState) (pid : Pid) (s : MmuState)
    (parent p p' : Word) : Prop where
  process : pid ≠ kernelPid ∧ pid ≠ initPid
  configured : Configured L s
  kernelRoot : getLvl2AddressFromSysState sys kernelPid = L.mmuTablesStart
  hardwareRoot : s.ttbr0El1 &&& mask 47 1 = L.mmuTablesStart
  parentRoot : getLvl2AddressFromSysState sys (getParentPid sys pid) = parent
  apart : parent ≠ L.zoneRoot pid
  kernelTables : ZoneTables s.words L.mmuTablesStart 0
  parentTables : ZoneTables s.words parent L.kernelTables
  reserved : leaf s.words L.mmuTablesStart (page pageRes1) = none
  reserved' : leaf s.words L.mmuTablesStart (page pageRes2) = none
  range : ∀ v, IsUserPage L v → ∀ e, leaf s.words parent v = some e →
    s.idPagingSize ≤ entryAddress e ∧ (entryAddress e).toNat < 0x40000000
  stack : ∃ e, leaf s.words parent 0x3f1ff = some e ∧ entryAddress e = p
  stack' : ∃ e, leaf s.words parent 0x3f1fe = some e ∧ entryAddress e = p'
  once : ∀ v, IsUserPage L v → frameOf s.words parent v = some (p.toNat / 0x1000) → v = 0x3f1ff
  once' : ∀ v, IsUserPage L v → frameOf s.words parent v = some (p'.toNat / 0x1000) → v = 0x3f1fe
  count : getBindCounter s p = 1
  count' : getBindCounter s p' = 1
  free : FreePair s
  freeDistinct : nextFreePage s ≠ nextFreePage (pageTaken s)
  freeCount : getBindCounter s (nextFreePage s) = 0
  freeCount' : getBindCounter s (nextFreePage (pageTaken s)) = 0
  freeUnbound : ∀ v, IsUserPage L v →
    frameOf s.words parent v ≠ some ((nextFreePage s).toNat / 0x1000)
  freeUnbound' : ∀ v, IsUserPage L v →
    frameOf s.words parent v ≠ some ((nextFreePage (pageTaken s)).toNat / 0x1000)

theorem isUserPage_stack (L : Layout) : IsUserPage L 0x3f1ff ∧ IsUserPage L 0x3f1fe := by
  obtain ⟨-, hle⟩ := L.toNat_endAddr_tables
  have htimer : timerPage = 0x3f00b := rfl
  unfold IsUserPage
  omega

theorem mem_copiedTo {w : ℕ → Word} {f : ℕ} :
    v ∈ copiedTo w parent L.kernelTables f (512 * 505) ↔
      IsUserPage L v ∧ frameOf w parent v = some f := by
  simp only [copiedTo, Finset.mem_filter, Finset.mem_range, IsUserPage]
  tauto

/-- The number of user pages of a parent that are mapped to a physical page. -/
theorem card_copiedTo_of_once {w : ℕ → Word} {f u : ℕ} (huser : IsUserPage L u)
    (hframe : frameOf w parent u = some f)
    (honce : ∀ v, IsUserPage L v → frameOf w parent v = some f → v = u) :
    (copiedTo w parent L.kernelTables f (512 * 505)).card = 1 := by
  refine Finset.card_eq_one.mpr ⟨u, Finset.ext fun v ↦ ?_⟩
  rw [mem_copiedTo, Finset.mem_singleton]
  exact ⟨fun h ↦ honce v h.1 h.2, fun h ↦ h ▸ ⟨huser, hframe⟩⟩

theorem card_copiedTo_of_unbound {w : ℕ → Word} {f : ℕ}
    (hunbound : ∀ v, IsUserPage L v → frameOf w parent v ≠ some f) :
    (copiedTo w parent L.kernelTables f (512 * 505)).card = 0 := by
  refine Finset.card_eq_zero.mpr (Finset.eq_empty_of_forall_notMem fun v hv ↦ ?_)
  obtain ⟨huser, hframe⟩ := mem_copiedTo.mp hv
  exact hunbound v huser hframe

namespace ForkReady

theorem childApart (h : ForkReady L sys pid s parent p p') : L.zoneRoot pid ≠ L.mmuTablesStart := by
  rw [← L.zoneRoot_kernel]
  exact fun heq ↦ h.process.1 (L.zoneRoot_inj.mp heq)

theorem frameOf_stack (h : ForkReady L sys pid s parent p p') :
    frameOf s.words parent 0x3f1ff = some (p.toNat / 0x1000) := by
  obtain ⟨e, hleaf, rfl⟩ := h.stack
  rw [frameOf, hleaf]
  rfl

theorem frameOf_stack' (h : ForkReady L sys pid s parent p p') :
    frameOf s.words parent 0x3f1fe = some (p'.toNat / 0x1000) := by
  obtain ⟨e, hleaf, rfl⟩ := h.stack'
  rw [frameOf, hleaf]
  rfl

/-- The four pages that the fork copies from and to have different numbers. -/
theorem distinct (h : ForkReady L sys pid s parent p p') :
    p.toNat / 0x1000 ≠ p'.toNat / 0x1000 ∧
      (∀ q, q = p ∨ q = p' → q.toNat / 0x1000 ≠ (nextFreePage s).toNat / 0x1000 ∧
        q.toNat / 0x1000 ≠ (nextFreePage (pageTaken s)).toNat / 0x1000) ∧
      (nextFreePage s).toNat / 0x1000 ≠ (nextFreePage (pageTaken s)).toNat / 0x1000 := by
  obtain ⟨huser, huser'⟩ := isUserPage_stack L
  refine ⟨fun heq ↦ ?_, ?_, fun heq ↦ h.freeDistinct (BitVec.eq_of_toNat_eq ?_)⟩
  · have hsame := h.once' _ huser (h.frameOf_stack.trans (congrArg _ heq))
    exact absurd hsame (by decide)
  · rintro q (rfl | rfl)
    · exact ⟨fun heq ↦ h.freeUnbound _ huser (h.frameOf_stack.trans (congrArg _ heq)),
        fun heq ↦ h.freeUnbound' _ huser (h.frameOf_stack.trans (congrArg _ heq))⟩
    · exact ⟨fun heq ↦ h.freeUnbound _ huser' (h.frameOf_stack'.trans (congrArg _ heq)),
        fun heq ↦ h.freeUnbound' _ huser' (h.frameOf_stack'.trans (congrArg _ heq))⟩
  · have haligned := h.free.aligned
    have haligned' := h.free.aligned'
    omega

/-- The two halves of `process_init_copy_and_write` up to the copies of the stack. -/
theorem pagesShared (h : ForkReady L sys pid s parent p p') :
    ∃ t, (do
      let s ← copyKernelPart L parent pid (populated L pid s)
      forUpToM (nAvailableTables - L.kernelTables)
        (fun i s ↦ copyLvl2Entry parent (L.kernelTables + i) s) s) =
        .ok t ∧ PagesShared L s t pid parent := by
  obtain ⟨-, hle⟩ := L.toNat_endAddr_tables
  obtain ⟨t, hpart, ht⟩ := copyKernelPart_eq s h.parentTables.zone h.apart
  have hroot : t.lvl2TableAddress = L.zoneRoot pid := by rw [ht.fixed]; rfl
  have hconf : Configured L t := by
    rw [ht.fixed]
    have hconf : Configured L (populated L pid s) := populated_configured h.configured
    exact ⟨hconf.idPagingSize, hconf.bindCounter, hconf.bindCounterOffset⟩
  have hcount : Copied.Countable t parent L.kernelTables := by
    intro v hv hlt htimer e hleaf
    rw [ht.otherLeaf h.apart h.parentTables hv (by omega)] at hleaf
    obtain ⟨habove, hram⟩ := h.range v ⟨hv, hlt, htimer⟩ e hleaf
    refine hconf.counter_lt ?_ hram
    rwa [hconf.idPagingSize, ← h.configured.idPagingSize]
  obtain ⟨u, hloop, hu⟩ := Copied.run h.apart hroot (by omega)
    (ht.otherTables h.apart h.parentTables) ht.tables
    (fun i hi hlt ↦ ht.present_eq i hi (by omega)) hcount
  refine ⟨u, ?_, ht.pagesShared hu h.apart h.parentTables⟩
  rw [hpart, ok_bind, hloop]

/-- The configuration of the memory before the stack is copied. -/
theorem fixed_shared (h : ForkReady L sys pid s parent p p') (ht : PagesShared L s t pid parent) :
    Configured L t ∧ t.lvl2TableAddress = L.zoneRoot pid ∧ t.idPagingSize = s.idPagingSize ∧
      t.physicalMemoryMap = s.physicalMemoryMap ∧ t.ttbr0El1 = s.ttbr0El1 := by
  have hconf : Configured L (populated L pid s) := populated_configured h.configured
  rw [ht.fixed]
  exact ⟨⟨hconf.idPagingSize, hconf.bindCounter, hconf.bindCounterOffset⟩, rfl,
    h.configured.idPagingSize.symm, rfl, rfl⟩

/-- The counters of the two pages of the stack and of the two free pages before the stack is
copied. -/
theorem counter_shared (h : ForkReady L sys pid s parent p p') (ht : PagesShared L s t pid parent) :
    getBindCounter t p = 2 ∧ getBindCounter t p' = 2 ∧ getBindCounter t (nextFreePage s) = 0 ∧
      getBindCounter t (nextFreePage (pageTaken s)) = 0 := by
  obtain ⟨huser, huser'⟩ := isUserPage_stack L
  refine ⟨?_, ?_, ?_, ?_⟩
  · rw [ht.counter, h.count, card_copiedTo_of_once huser h.frameOf_stack h.once]
    rfl
  · rw [ht.counter, h.count', card_copiedTo_of_once huser' h.frameOf_stack' h.once']
    rfl
  · rw [ht.counter, h.freeCount, card_copiedTo_of_unbound h.freeUnbound]
    rfl
  · rw [ht.counter, h.freeCount', card_copiedTo_of_unbound h.freeUnbound']
    rfl

/-- A page that the kernel does not map is not mapped by the kernel after the double loop. -/
theorem kernel_none (h : ForkReady L sys pid s parent p p') (ht : PagesShared L s t pid parent)
    (hv : v < 511 * 512) (hnone : leaf s.words L.mmuTablesStart v = none) :
    leaf t.words L.mmuTablesStart v = none := by
  rw [ht.otherLeaf _ 0 h.childApart.symm h.kernelTables v (by omega) hv, hnone,
    Option.map_none, ite_self]

theorem shared (h : ForkReady L sys pid s parent p p') (ht : PagesShared L s t pid parent) :
    Shared L sys t L.kernelTables 0x3f1ff p := by
  obtain ⟨hconf, hroot, hid, hmap, hhardware⟩ := h.fixed_shared ht
  obtain ⟨hcount, -, hfree, -⟩ := h.counter_shared ht
  have hnext : nextFreePage t = nextFreePage s := by rw [nextFreePage, nextFreePage, hmap]
  obtain ⟨e, hleaf, he⟩ := h.stack
  obtain ⟨habove, hram⟩ := h.range _ (isUserPage_stack L).1 e hleaf
  rw [he] at habove hram
  constructor
  case configured => exact hconf
  case kernelRoot => exact h.kernelRoot
  case hardwareRoot => rw [hhardware, h.hardwareRoot]
  case kernelTables => exact ht.otherTables _ 0 h.childApart.symm h.kernelTables
  case childTables => exact hroot ▸ ht.tables
  case apart => exact hroot ▸ h.childApart
  case reserved => exact h.kernel_none ht (by decide) h.reserved
  case reserved' => exact h.kernel_none ht (by decide) h.reserved'
  case mapped =>
    refine ⟨e, ?_, he⟩
    rw [hroot, ht.leaf_eq _ (isUserPage_stack L).1, hleaf, Option.map_some, forkedEntry,
      if_pos (.inl rfl)]
  case above => rwa [hid]
  case ram => exact hram
  case count => exact hcount
  case free => rw [hmap]; exact h.free.head
  case freeAligned => rw [hnext]; exact h.free.aligned
  case freeAbove => rw [hnext, hid]; exact h.free.above
  case freeRam => rw [hnext]; exact h.free.ram
  case freeCount => rw [hnext]; exact hfree

theorem shared' {u : MmuState} (h : ForkReady L sys pid s parent p p')
    (ht : PagesShared L s t pid parent) (hu : Unshared L t u L.kernelTables 0x3f1ff p) :
    Shared L sys u L.kernelTables 0x3f1fe p' := by
  obtain ⟨hconf, hroot, hid, hmap, hhardware⟩ := h.fixed_shared ht
  obtain ⟨-, hcount, -, hfree⟩ := h.counter_shared ht
  obtain ⟨hstack, hdistinct, hnew⟩ := h.distinct
  have hshared := h.shared ht
  have hroot' : u.lvl2TableAddress = L.zoneRoot pid := by rw [hu.fixed]; exact hroot
  have hid' : u.idPagingSize = s.idPagingSize := by rw [hu.fixed]; exact hid
  have hmap' : u.physicalMemoryMap = (pageTaken s).physicalMemoryMap := by
    rw [hu.fixed, pageTaken, pageTaken, hmap]
  have hnext : nextFreePage t = nextFreePage s := by rw [nextFreePage, nextFreePage, hmap]
  have hnext' : nextFreePage u = nextFreePage (pageTaken s) := by
    rw [nextFreePage, nextFreePage, hmap']
  obtain ⟨e, hleaf, he⟩ := h.stack'
  obtain ⟨habove, hram⟩ := h.range _ (isUserPage_stack L).2 e hleaf
  rw [he] at habove hram
  constructor
  case configured =>
    rw [hu.fixed]
    exact ⟨hconf.idPagingSize, hconf.bindCounter, hconf.bindCounterOffset⟩
  case kernelRoot => exact h.kernelRoot
  case hardwareRoot =>
    rw [hu.fixed]
    exact hshared.hardwareRoot
  case kernelTables => exact hu.zoneTables hshared (by decide) hshared.kernelTables
  case childTables => exact hroot' ▸ hu.zoneTables hshared (by decide) ht.tables
  case apart => exact hroot' ▸ h.childApart
  case reserved =>
    rw [hu.leaf_eq hshared (by decide) hshared.kernelTables (by omega) (by decide),
      if_neg fun hsame ↦ h.childApart.symm (hsame.1.trans hroot)]
    exact hshared.reserved
  case reserved' =>
    rw [hu.leaf_eq hshared (by decide) hshared.kernelTables (by omega) (by decide),
      if_neg fun hsame ↦ h.childApart.symm (hsame.1.trans hroot)]
    exact hshared.reserved'
  case mapped =>
    refine ⟨e, ?_, he⟩
    rw [hroot', hu.leaf_eq hshared (by decide) ht.tables (isUserPage_stack L).2.1 (by decide),
      if_neg fun hsame ↦ absurd hsame.2 (by decide), ht.leaf_eq _ (isUserPage_stack L).2, hleaf,
      Option.map_some, forkedEntry, if_pos (.inr rfl)]
  case above => rwa [hid']
  case ram => exact hram
  case count =>
    obtain ⟨hne, -⟩ := hdistinct p' (.inr rfl)
    rw [hu.counter, hnext, if_neg, hcount]
    exact fun hor ↦ hor.elim (fun heq ↦ hstack heq.symm) hne
  case free => rw [hmap']; exact h.free.head'
  case freeAligned => rw [hnext']; exact h.free.aligned'
  case freeAbove => rw [hnext', hid']; exact h.free.above'
  case freeRam => rw [hnext']; exact h.free.ram'
  case freeCount =>
    obtain ⟨-, hne⟩ := hdistinct p (.inl rfl)
    rw [hnext', hu.counter, hnext, if_neg, hfree]
    exact fun hor ↦ hor.elim (fun heq ↦ hne heq.symm) fun heq ↦ hnew heq.symm

end ForkReady

/-! ### The result -/

/-- The memory after `process_init_copy_and_write`, with that before the fork. -/
structure CopyAndWrite (L : Layout) (s t : MmuState) (pid : Pid) (parent p p' : Word) : Prop where
  fixed : t = { pageTaken (pageTaken (populated L pid s)) with
    words := t.words
    counters := t.counters
    pages := t.pages }
  contents : t.pages = copyPage (copyPage s.pages (nextFreePage s) p) (nextFreePage (pageTaken s))
    p'
  tables : ZoneTables t.words (L.zoneRoot pid) L.kernelTables
  kernel : ∀ i < L.kernelTables, RowShared s.words t.words parent (L.zoneRoot pid) i
  kernelWord : pid ≠ memManagerPid → ∀ i < L.kernelTables,
    t.words (lvl2Place (L.zoneRoot pid) i) = s.words (lvl2Place parent i)
  present_eq : ∀ i, L.kernelTables ≤ i → i < 511 →
    present t.words (L.zoneRoot pid) i = decide (present s.words parent i = true ∨ 505 ≤ i)
  otherTables : ∀ r m, r ≠ L.zoneRoot pid → ZoneTables s.words r m → ZoneTables t.words r m
  otherLeaf : ∀ r m, r ≠ L.zoneRoot pid → ZoneTables s.words r m →
    ∀ v, m ≤ v / 512 → v < 511 * 512 →
    leaf t.words r v = if r = parent ∧ IsUserPage L v then (leaf s.words r v).map (forkedEntry v)
      else leaf s.words r v
  leaf_eq : ∀ v, IsUserPage L v → ¬ IsStackPage v →
    leaf t.words (L.zoneRoot pid) v = (leaf s.words parent v).map (forkedEntry v)
  stack : leaf t.words (L.zoneRoot pid) 0x3f1ff =
    some (withAttributes (nextFreePage s) userAttributes)
  stack' : leaf t.words (L.zoneRoot pid) 0x3f1fe =
    some (withAttributes (nextFreePage (pageTaken s)) userAttributes)
  stale : ∀ v, 505 ≤ v / 512 → v < 511 * 512 → leaf t.words (L.zoneRoot pid) v =
    leaf (populateWords s.words (L.zoneRoot pid) 511) (L.zoneRoot pid) v
  frame : ∀ a, a < (L.zoneRoot pid).toNat ∨ (L.zoneRoot pid).toNat + 0x200000 ≤ a ∨
    a = lvl2Place (L.zoneRoot pid) 511 → a < parent.toNat ∨ parent.toNat + 0x200000 ≤ a →
    a < L.mmuTablesStart.toNat ∨ L.mmuTablesStart.toNat + 0x200000 ≤ a → t.words a = s.words a
  stalePlace : ∀ v < 511 * 512, ¬ ManagerRow L pid (v / 512) →
      v / 512 < L.kernelTables ∨ 505 ≤ v / 512 ∨
      v / 512 < 504 ∧ present s.words parent (v / 512) = false →
    t.words (zonePlace (L.zoneRoot pid) v) = s.words (zonePlace (L.zoneRoot pid) v)
  managerPlace : ∀ v, ManagerRow L pid (v / 512) →
    isBlockEntry (t.words (zonePlace (L.zoneRoot pid) v)) = true
  valid_eq : ∀ a, a % 8 = 0 → a < (L.zoneRoot pid).toNat ∨ (L.zoneRoot pid).toNat + 0x200000 ≤ a →
    isBlockEntry (t.words a) = validOutside L s.words a
  pointers : present s.words L.mmuTablesStart 504 = true → ∀ a, a < (L.zoneRoot pid).toNat ∨
    (L.zoneRoot pid).toNat + 0x200000 ≤ a → pointer (t.words a) = pointer (s.words a)
  counter : ∀ q, getBindCounter t q =
    if q.toNat / 0x1000 = p.toNat / 0x1000 ∨ q.toNat / 0x1000 = p'.toNat / 0x1000 ∨
        q.toNat / 0x1000 = (nextFreePage s).toNat / 0x1000 ∨
        q.toNat / 0x1000 = (nextFreePage (pageTaken s)).toNat / 0x1000 then 1
    else getBindCounter s q +
      BitVec.ofNat 8 (copiedTo s.words parent L.kernelTables (q.toNat / 0x1000) (512 * 505)).card

/-- The two copies of the stack after the double loop. -/
structure StackCopied (L : Layout) (sys : SystemState) (pid : Pid) (s t t₁ t₂ : MmuState)
    (parent p p' : Word) : Prop where
  ready : ForkReady L sys pid s parent p p'
  shared : PagesShared L s t pid parent
  first : Unshared L t t₁ L.kernelTables 0x3f1ff p
  second : Unshared L t₁ t₂ L.kernelTables 0x3f1fe p'

namespace StackCopied

variable {t₁ t₂ : MmuState} {a i : ℕ}

/-- What the two copies rely on. -/
theorem ready_first (h : StackCopied L sys pid s t t₁ t₂ parent p p') :
    Shared L sys t L.kernelTables 0x3f1ff p :=
  h.ready.shared h.shared

theorem ready_second (h : StackCopied L sys pid s t t₁ t₂ parent p p') :
    Shared L sys t₁ L.kernelTables 0x3f1fe p' :=
  h.ready.shared' h.shared h.first

/-- The tables of the child are at `lvl2_table_address`, and the two pages are the next free
ones. -/
theorem fixed (h : StackCopied L sys pid s t t₁ t₂ parent p p') :
    t.lvl2TableAddress = L.zoneRoot pid ∧ t₁.lvl2TableAddress = L.zoneRoot pid ∧
      nextFreePage t = nextFreePage s ∧
      nextFreePage t₁ = nextFreePage (pageTaken s) := by
  obtain ⟨-, hroot, -, hmap, -⟩ := h.ready.fixed_shared h.shared
  have hmap₁ : t₁.physicalMemoryMap = (pageTaken s).physicalMemoryMap := by
    rw [h.first.fixed, pageTaken, pageTaken, hmap]
  refine ⟨hroot, ?_, by rw [nextFreePage, nextFreePage, hmap],
    by rw [nextFreePage, nextFreePage, hmap₁]⟩
  rw [h.first.fixed]
  exact hroot

theorem zoneTables (h : StackCopied L sys pid s t t₁ t₂ parent p p') (hr : ZoneTables t.words r m) :
    ZoneTables t₂.words r m :=
  h.second.zoneTables h.ready_second (by decide) (h.first.zoneTables h.ready_first (by decide) hr)

/-- The leaves of all zones after the copies. -/
theorem leaf_eq (h : StackCopied L sys pid s t t₁ t₂ parent p p') (hr : ZoneTables t.words r m)
    (hm : m ≤ v / 512) (hv : v < 511 * 512) :
    leaf t₂.words r v = if r = L.zoneRoot pid ∧ v = 0x3f1fe then
        some (withAttributes (nextFreePage (pageTaken s)) userAttributes)
      else if r = L.zoneRoot pid ∧
        v = 0x3f1ff then some (withAttributes (nextFreePage s) userAttributes)
      else leaf t.words r v := by
  obtain ⟨hroot, hroot₁, hnext, hnext₁⟩ := h.fixed
  rw [h.second.leaf_eq h.ready_second (by decide) (h.first.zoneTables h.ready_first (by decide) hr)
    hm hv, h.first.leaf_eq h.ready_first (by decide) hr hm hv, hroot, hroot₁, hnext, hnext₁]

/-- Outside of the zone of the kernel, only the entries of the two pages are written. -/
theorem frame (h : StackCopied L sys pid s t t₁ t₂ parent p p')
    (hplace : ∀ v, IsStackPage v → a ≠ zonePlace (L.zoneRoot pid) v)
    (ha : a < L.mmuTablesStart.toNat ∨ L.mmuTablesStart.toNat + 0x200000 ≤ a) :
    t₂.words a = t.words a := by
  obtain ⟨hroot, hroot₁, -⟩ := h.fixed
  obtain ⟨e, e', -, -, hwords⟩ := h.first.words
  obtain ⟨e₂, e₂', -, -, hwords₂⟩ := h.second.words
  rw [hwords₂, hroot₁, zoneWrite, Function.update_of_ne (hplace _ (.inr rfl)),
    scratch_of_not_mem h.ready_second.kernelTables (by decide) (by decide) ha, hwords,
    hroot, zoneWrite, Function.update_of_ne (hplace _ (.inl rfl)),
    scratch_of_not_mem h.ready_first.kernelTables (by decide) (by decide) ha]

/-- The zone of the kernel is apart from that of the child. -/
theorem apart (h : StackCopied L sys pid s t t₁ t₂ parent p p') :
    (L.zoneRoot pid).toNat + 0x200000 ≤ L.mmuTablesStart.toNat ∨
      L.mmuTablesStart.toNat + 0x200000 ≤ (L.zoneRoot pid).toNat := by
  have haligned := (L.zoneRoot_zone pid).aligned
  have haligned' := h.ready.kernelTables.zone.aligned
  have hapart : (L.zoneRoot pid).toNat ≠ L.mmuTablesStart.toNat := fun heq ↦
    h.ready.childApart (BitVec.eq_of_toNat_eq heq)
  omega

theorem lvl2_eq (h : StackCopied L sys pid s t t₁ t₂ parent p p') (hi : i < 512) :
    t₂.words (lvl2Place (L.zoneRoot pid) i) = t.words (lvl2Place (L.zoneRoot pid) i) := by
  have hapart := h.apart
  refine h.frame (fun v hv ↦ ?_) (by unfold lvl2Place; omega)
  exact lvl2Place_ne_zonePlace (L.zoneRoot_zone pid) (L.zoneRoot_zone pid) hi (by omega)

/-- The other level-3 entries of the child are kept. -/
theorem lvl3_eq (h : StackCopied L sys pid s t t₁ t₂ parent p p') (hv : v < 511 * 512)
    (hstack : ¬ IsStackPage v) :
    t₂.words (zonePlace (L.zoneRoot pid) v) = t.words (zonePlace (L.zoneRoot pid) v) := by
  have hapart := h.apart
  refine h.frame (fun x hx heq ↦ ?_) (by unfold zonePlace; omega)
  obtain ⟨-, rfl⟩ :=
    (zonePlace_inj (L.zoneRoot_zone pid) (L.zoneRoot_zone pid) hv (by omega)).mp heq
  exact hstack hx

/-- The table of the kernel for the two reserved pages is there after the first copy. -/
theorem present_kernel (h : StackCopied L sys pid s t t₁ t₂ parent p p') :
    present t₁.words L.mmuTablesStart 504 = true := by
  have hapart := h.apart
  have haligned := h.ready.kernelTables.zone.aligned
  have hplace : lvl2Place L.mmuTablesStart 504 < t.lvl2TableAddress.toNat ∨
      t.lvl2TableAddress.toNat + 0x200000 ≤ lvl2Place L.mmuTablesStart 504 := by
    rw [h.fixed.1]
    unfold lvl2Place
    omega
  change isBlockEntry (t₁.words (lvl2Place L.mmuTablesStart 504)) = true
  rw [h.first.valid_eq h.ready_first (by decide) (by unfold lvl2Place; omega) hplace,
    validOutside, if_pos rfl]
  split_ifs with hpresent
  · exact hpresent
  · rfl

theorem valid_eq (h : StackCopied L sys pid s t t₁ t₂ parent p p') (haligned : a % 8 = 0)
    (ha : a < (L.zoneRoot pid).toNat ∨ (L.zoneRoot pid).toNat + 0x200000 ≤ a) :
    isBlockEntry (t₂.words a) = validOutside L s.words a := by
  obtain ⟨hroot, hroot₁, -⟩ := h.fixed
  have hapart := h.apart
  have hkernel : pointer (t.words (lvl2Place L.mmuTablesStart 504)) =
      pointer (s.words (lvl2Place L.mmuTablesStart 504)) :=
    h.shared.pointers _ (by unfold lvl2Place; omega)
  have hpresent : present t.words L.mmuTablesStart 504 = present s.words L.mmuTablesStart 504 :=
    isBlockEntry_congr hkernel
  rw [h.second.valid_eq h.ready_second (by decide) haligned (by rwa [hroot₁]), validOutside,
    if_pos h.present_kernel, h.first.valid_eq h.ready_first (by decide) haligned (by rwa [hroot]),
    validOutside, validOutside, hpresent, isBlockEntry_congr (h.shared.pointers a ha)]

theorem pointers (h : StackCopied L sys pid s t t₁ t₂ parent p p')
    (hpresent : present s.words L.mmuTablesStart 504 = true)
    (ha : a < (L.zoneRoot pid).toNat ∨ (L.zoneRoot pid).toNat + 0x200000 ≤ a) :
    pointer (t₂.words a) = pointer (s.words a) := by
  obtain ⟨hroot, hroot₁, -⟩ := h.fixed
  have hapart := h.apart
  have hkernel : pointer (t.words (lvl2Place L.mmuTablesStart 504)) =
      pointer (s.words (lvl2Place L.mmuTablesStart 504)) :=
    h.shared.pointers _ (by unfold lvl2Place; omega)
  have hpresent' : present t.words L.mmuTablesStart 504 = true :=
    (isBlockEntry_congr hkernel).trans hpresent
  rw [h.second.pointers h.ready_second (by decide) h.present_kernel (by rwa [hroot₁]),
    h.first.pointers h.ready_first (by decide) hpresent' (by rwa [hroot]), h.shared.pointers a ha]

end StackCopied

/-- The result of the two copies. -/
theorem StackCopied.copyAndWrite {t₁ t₂ : MmuState}
    (h : StackCopied L sys pid s t t₁ t₂ parent p p') : CopyAndWrite L s t₂ pid parent p p' := by
  obtain ⟨-, hle⟩ := L.toNat_endAddr_tables
  obtain ⟨-, -, hnext, hnext₁⟩ := h.fixed
  have ht := h.shared
  constructor
  case fixed =>
    rw [h.second.fixed, h.first.fixed, ht.fixed]
    rfl
  case contents =>
    have hpages : t.pages = s.pages := by rw [ht.fixed]; rfl
    rw [h.second.contents, h.first.contents, hnext, hnext₁, hpages]
  case tables => exact h.zoneTables ht.tables
  case kernel =>
    intro i hi
    rw [RowShared, table, h.lvl2_eq (by omega), ← table]
    exact ht.kernel i hi
  case kernelWord =>
    intro hother i hi
    rw [h.lvl2_eq (by omega), ht.kernelWord hother i hi]
  case present_eq =>
    intro i hi hlt
    rw [present, h.lvl2_eq (by omega), ← present, ht.present_eq i hi hlt]
  case otherTables => exact fun r m hr hzone ↦ h.zoneTables (ht.otherTables r m hr hzone)
  case otherLeaf =>
    intro r m hr hzone v hm hv
    rw [h.leaf_eq (ht.otherTables r m hr hzone) hm hv, if_neg fun hsame ↦ hr hsame.1,
      if_neg fun hsame ↦ hr hsame.1]
    exact ht.otherLeaf r m hr hzone v hm hv
  case leaf_eq =>
    intro v huser hstack
    rw [h.leaf_eq ht.tables huser.1 (by have := huser.2.1; omega),
      if_neg fun hsame ↦ hstack (.inr hsame.2), if_neg fun hsame ↦ hstack (.inl hsame.2)]
    exact ht.leaf_eq v huser
  case stack =>
    rw [h.leaf_eq ht.tables (by omega) (by decide), if_neg fun hsame ↦ absurd hsame.2 (by decide),
      if_pos ⟨rfl, rfl⟩]
  case stack' => rw [h.leaf_eq ht.tables (by omega) (by decide), if_pos ⟨rfl, rfl⟩]
  case stale =>
    intro v hrow hv
    rw [h.leaf_eq ht.tables (by omega) hv, if_neg (by omega), if_neg (by omega)]
    exact ht.stale v hrow hv
  case frame =>
    intro a ha ha' ha''
    rw [← ht.frame a ha ha']
    refine h.frame (fun v hv ↦ ?_) ha''
    unfold lvl2Place at ha
    unfold zonePlace
    omega
  case stalePlace =>
    intro v hv hmanager hkept
    rw [← ht.stalePlace v hv hmanager (hkept.imp_right (Or.imp_right And.right))]
    exact h.lvl3_eq hv (by omega)
  case managerPlace =>
    rintro v ⟨hpid, hlow, hlt⟩
    rw [h.lvl3_eq (by omega) (by omega)]
    exact ht.managerPlace v ⟨hpid, hlow, hlt⟩
  case valid_eq => exact fun a haligned ha ↦ h.valid_eq haligned ha
  case pointers => exact fun hpresent a ha ↦ h.pointers hpresent ha
  case counter =>
    intro q
    rw [h.second.counter q, h.first.counter q, ht.counter q, hnext, hnext₁]
    split_ifs <;> simp_all

/-- `process_init_copy_and_write` on populated tables. -/
theorem processInitCopyAndWrite_ok (h : ForkReady L sys pid s parent p p') :
    ∃ t, processInitCopyAndWrite L sys pid (populated L pid s) = .ok t ∧ Configured L t ∧
      t.lvl2TableAddress = L.zoneRoot pid ∧ CopyAndWrite L s t pid parent p p' := by
  obtain ⟨-, hle⟩ := L.toNat_endAddr_tables
  obtain ⟨t, hshare, ht⟩ := h.pagesShared
  obtain ⟨-, hroot, -⟩ := h.fixed_shared ht
  obtain ⟨t₁, hcopy, h₁⟩ := copyForkedPage_eq (h.shared ht)
    (show stackPage1.toNat % 0x1000 = 0 by decide) (hle.trans (by decide)) (by decide)
  obtain ⟨t₂, hcopy', h₂⟩ := copyForkedPage_eq (h.shared' ht h₁)
    (show stackPage2.toNat % 0x1000 = 0 by decide) (hle.trans (by decide)) (by decide)
  have hroot₂ : t₂.lvl2TableAddress = L.zoneRoot pid := by rw [h₂.fixed, h₁.fixed]; exact hroot
  have hconf₂ : Configured L t₂ := by
    have hconf := (h.shared' ht h₁).configured
    rw [h₂.fixed]
    exact ⟨hconf.idPagingSize, hconf.bindCounter, hconf.bindCounterOffset⟩
  refine ⟨t₂, ?_, hconf₂, hroot₂, StackCopied.copyAndWrite ⟨h, ht, h₁, h₂⟩⟩
  rw [processInitCopyAndWrite_eq s (h.parentRoot ▸ h.parentTables.zone) (h.parentRoot ▸ h.apart),
    h.parentRoot]
  obtain ⟨u, hpart, hloop⟩ := bind_eq_ok.mp hshare
  rw [hpart, ok_bind, hloop, ok_bind, hcopy, ok_bind, hcopy']

/-- The memory after `c_init_mmu` for a forked process, with that before. -/
structure Forked (L : Layout) (s t : MmuState) (pid : Pid) (parent p p' : Word) : Prop where
  fixed : t = { pageTaken (pageTaken (populated L pid s)) with
    words := t.words
    counters := t.counters
    pages := t.pages }
  tables : ZoneTables t.words (L.zoneRoot pid) L.kernelTables
  kernel : ∀ i < L.kernelTables, RowShared s.words t.words parent (L.zoneRoot pid) i
  kernelWord : pid ≠ memManagerPid → ∀ i < L.kernelTables,
    t.words (lvl2Place (L.zoneRoot pid) i) = s.words (lvl2Place parent i)
  present_eq : ∀ i, L.kernelTables ≤ i → i < 511 →
    present t.words (L.zoneRoot pid) i = decide (present s.words parent i = true ∨ 504 ≤ i)
  otherTables : ∀ r m, r ≠ L.zoneRoot pid → ZoneTables s.words r m → ZoneTables t.words r m
  otherLeaf : ∀ r m, r ≠ L.zoneRoot pid → ZoneTables s.words r m →
    ∀ v, m ≤ v / 512 → v < 511 * 512 →
    leaf t.words r v = if r = parent ∧ IsUserPage L v then (leaf s.words r v).map (forkedEntry v)
      else leaf s.words r v
  leaf_eq : ∀ v, IsUserPage L v → ¬ IsStackPage v →
    leaf t.words (L.zoneRoot pid) v = (leaf s.words parent v).map (forkedEntry v)
  stack : leaf t.words (L.zoneRoot pid) 0x3f1ff =
    some (withAttributes (nextFreePage s) userAttributes)
  stack' : leaf t.words (L.zoneRoot pid) 0x3f1fe =
    some (withAttributes (nextFreePage (pageTaken s)) userAttributes)
  peripheral : ∀ v ∈ peripheralPages, leaf t.words (L.zoneRoot pid) v = some (peripheralEntry v)
  stale : ∀ v, 505 ≤ v / 512 → v < 511 * 512 → v ∉ peripheralPages →
    leaf t.words (L.zoneRoot pid) v =
    leaf (populateWords s.words (L.zoneRoot pid) 511) (L.zoneRoot pid) v
  frame : ∀ a, a < (L.zoneRoot pid).toNat ∨ (L.zoneRoot pid).toNat + 0x200000 ≤ a ∨
    a = lvl2Place (L.zoneRoot pid) 511 → a < parent.toNat ∨ parent.toNat + 0x200000 ≤ a →
    a < L.mmuTablesStart.toNat ∨ L.mmuTablesStart.toNat + 0x200000 ≤ a → t.words a = s.words a
  stalePlace : ∀ v < 511 * 512, ¬ ManagerRow L pid (v / 512) →
      v / 512 < L.kernelTables ∨ 506 ≤ v / 512 ∨
      v / 512 < 504 ∧ present s.words parent (v / 512) = false →
    t.words (zonePlace (L.zoneRoot pid) v) = s.words (zonePlace (L.zoneRoot pid) v)
  managerPlace : ∀ v, ManagerRow L pid (v / 512) →
    isBlockEntry (t.words (zonePlace (L.zoneRoot pid) v)) = true
  valid_eq : ∀ a, a % 8 = 0 → a < (L.zoneRoot pid).toNat ∨ (L.zoneRoot pid).toNat + 0x200000 ≤ a →
    isBlockEntry (t.words a) = validOutside L s.words a
  pointers : present s.words L.mmuTablesStart 504 = true → ∀ a, a < (L.zoneRoot pid).toNat ∨
    (L.zoneRoot pid).toNat + 0x200000 ≤ a → pointer (t.words a) = pointer (s.words a)
  counter : ∀ q, getBindCounter t q =
    (if q.toNat / 0x1000 = p.toNat / 0x1000 ∨ q.toNat / 0x1000 = p'.toNat / 0x1000 ∨
        q.toNat / 0x1000 = (nextFreePage s).toNat / 0x1000 ∨
        q.toNat / 0x1000 = (nextFreePage (pageTaken s)).toNat / 0x1000 then 1
      else getBindCounter s q +
        BitVec.ofNat 8 (copiedTo s.words parent L.kernelTables (q.toNat / 0x1000)
        (512 * 505)).card) +
    if q.toNat / 0x1000 ∈ peripheralPages then 1 else 0

/-- The peripherals are bound after the copies. -/
theorem CopyAndWrite.forked {u : MmuState} (h : CopyAndWrite L s t pid parent p p')
    (h' : PeripheralsBound t u (L.zoneRoot pid) peripheralPages) :
    Forked L s u pid parent p p' := by
  obtain ⟨-, hle⟩ := L.toNat_endAddr_tables
  have htimerPage : timerPage = 0x3f00b := rfl
  have hrows (i : ℕ) (hi : i < L.kernelTables) : ∀ v ∈ peripheralPages,
      OffRow (L.zoneRoot pid) (v / 512) (lvl2Place (L.zoneRoot pid) i) := by
    intro v hv
    rw [mem_peripheralPages] at hv
    exact offRow_lvl2Place (by omega) (by omega) (by omega)
  have hentry (v : ℕ) (hv : v / 512 < 504 ∨ 506 ≤ v / 512) :
      u.words (zonePlace (L.zoneRoot pid) v) = t.words (zonePlace (L.zoneRoot pid) v) := by
    refine h'.frame _ fun x hx ↦ ?_
    rw [mem_peripheralPages] at hx
    exact offRow_zonePlace (by omega) (by omega)
  constructor
  case fixed =>
    rw [h'.fixed, h.fixed]
  case tables => exact h'.tables _ _ h.tables
  case kernel =>
    intro i hi
    rw [RowShared, table, h'.frame _ (hrows i hi), ← table]
    exact h.kernel i hi
  case kernelWord =>
    intro hother i hi
    rw [h'.frame _ (hrows i hi), h.kernelWord hother i hi]
  case present_eq =>
    intro i hi hlt
    have hbound : (∃ v ∈ peripheralPages, i = v / 512) ↔ i = 504 ∨ i = 505 := by
      simp [peripheralPages]
    rw [h'.present_eq _ (L.zoneRoot_zone pid) i (by omega), h.present_eq i hi hlt]
    by_cases hrow : i = 504 ∨ i = 505
    · rw [if_pos ⟨rfl, hbound.mpr hrow⟩]
      exact (decide_eq_true (.inr (by omega))).symm
    · rw [if_neg fun hand ↦ hrow (hbound.mp hand.2)]
      exact decide_eq_decide.mpr (or_congr_right (by omega))
  case otherTables => exact fun r m hr hzone ↦ h'.tables _ _ (h.otherTables r m hr hzone)
  case otherLeaf =>
    intro r m hr hzone v hm hv
    rw [h'.leaf_eq r m (h.otherTables r m hr hzone) v hm hv, if_neg fun hsame ↦ hr hsame.1]
    exact h.otherLeaf r m hr hzone v hm hv
  case leaf_eq =>
    rintro v ⟨hrow, hlt, htimer⟩ hstack
    rw [h'.leaf_eq _ _ h.tables v hrow (by omega), if_neg (by rw [mem_peripheralPages]; omega)]
    exact h.leaf_eq v ⟨hrow, hlt, htimer⟩ hstack
  case stack =>
    rw [h'.leaf_eq _ _ h.tables _ (by omega) (by decide),
      if_neg (by rw [mem_peripheralPages]; omega)]
    exact h.stack
  case stack' =>
    rw [h'.leaf_eq _ _ h.tables _ (by omega) (by decide),
      if_neg (by rw [mem_peripheralPages]; omega)]
    exact h.stack'
  case peripheral =>
    intro v hv
    have hv' := mem_peripheralPages.mp hv
    rw [h'.leaf_eq _ _ h.tables _ (by omega) (by omega), if_pos ⟨rfl, hv⟩]
  case stale =>
    intro v hrow hv hperipheral
    rw [h'.leaf_eq _ _ h.tables _ (by omega) hv, if_neg fun hsame ↦ hperipheral hsame.2]
    exact h.stale v hrow hv
  case frame =>
    intro a ha ha' ha''
    rw [← h.frame a ha ha' ha'']
    refine h'.frame a fun v hv ↦ ?_
    rw [mem_peripheralPages] at hv
    rcases or_assoc.mpr ha with houtside | rfl
    · exact offRow_of_outside (by omega) houtside
    · exact offRow_lvl2Place (by omega) (by omega) (by omega)
  case stalePlace =>
    intro v hv hmanager hrow
    rw [← h.stalePlace v hv hmanager (hrow.imp_right (Or.imp_left fun hge ↦ by omega))]
    exact hentry v (by omega)
  case managerPlace =>
    rintro v ⟨hpid, hlow, hlt⟩
    rw [hentry v (by omega)]
    exact h.managerPlace v ⟨hpid, hlow, hlt⟩
  case valid_eq =>
    intro a haligned ha
    rw [← h.valid_eq a haligned ha,
      h'.frame a fun v hv ↦ offRow_of_outside (by rw [mem_peripheralPages] at hv; omega) ha]
  case pointers =>
    intro hpresent a ha
    rw [← h.pointers hpresent a ha,
      h'.frame a fun v hv ↦ offRow_of_outside (by rw [mem_peripheralPages] at hv; omega) ha]
  case counter =>
    intro q
    rw [h'.counter q, h.counter q]
    split_ifs <;> simp

/-- `c_init_mmu` for a forked process. -/
theorem cInitMmu_forked (h : ForkReady L sys pid s parent p p') :
    ∃ t, cInitMmu L sys pid s = .ok t ∧ Forked L s t pid parent p p' := by
  obtain ⟨-, hle⟩ := L.toNat_endAddr_tables
  obtain ⟨t, hcopy, hconf, hroot, ht⟩ := processInitCopyAndWrite_ok h
  obtain ⟨u, hperipheral, hu⟩ := mapPeripheralPages_eq hconf (hroot ▸ ht.tables) hle
  rw [hroot] at hu
  refine ⟨u, ?_, ht.forked hu⟩
  rw [cInitMmu_eq, if_neg fun hor ↦ hor.elim h.process.1 h.process.2, hcopy, ok_bind]
  exact hperipheral

end SysresOs.Mmu
