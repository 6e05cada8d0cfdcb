import SysresOs.Memory.Forkable

/-!
# Stray mappings of a forked process

`populate_lvl2_table` makes 511 level-2 entries of a process table entries, and for a forked process
only the level-3 tables below `GPIO_BASE` are written afterwards, with the three pages of the
peripherals behind it. What the memory held in the other entries of the last tables is then mapped,
and so is what the last level-2 entry, which nothing writes, happens to lead to. `noStray_iff` says
that these are the only ways: the process maps nothing else behind `GPIO_BASE` exactly when its zone
held no valid entry there, and its last level-2 entry leads to no page of memory in which the fork
leaves one.
-/

set_option autoImplicit false
set_option relaxedAutoImplicit false

namespace SysresOs.Mmu

open SysresOs.Outcome

open SysresOs.Proc (Pid SystemState kernelPid initPid)

variable {L : Layout} {sys : SystemState} {pid : Pid} {s t : MmuState} {parent p p' : Word} {v : ℕ}

/-- The three pages of the peripherals from `GPIO_BASE` on. -/
def gpioPages : List ℕ := [page gpioBase, page (gpioBase + 0x1000), page (gpioBase + 0x15000)]

/-- In the tables at `lvl2_table_address` the only pages from `GPIO_BASE` on with a valid
translation are those of the peripherals. -/
def NoStray (s : MmuState) : Prop :=
  ∀ va : Word, gpioBase ≤ va → va < ramSize → (¬ Unmapped s va ↔ page va ∈ gpioPages)

/-- The level-3 entries of a child that a fork does not write. -/
def KeptEntry (L : Layout) (w : ℕ → Word) (pid : Pid) (parent : Word) (v : ℕ) : Prop :=
  v < 511 * 512 ∧ ¬ ManagerRow L pid (v / 512) ∧ (v / 512 < L.kernelTables ∨ 505 ≤ v / 512 ∨
    v / 512 < 504 ∧ present w parent (v / 512) = false)

/-- The words that hold a valid entry when a process has been forked, as the memory `w` before the
fork tells: those outside of the zone of the child, its populated level-2 entries, the pages it
shares with its parent, the peripherals, the table zone of the memory manager, and valid entries
that were there and are not written. -/
inductive ValidAfter (L : Layout) (w : ℕ → Word) (pid : Pid) (parent : Word) : ℕ → Prop
  | outside {a : ℕ} (ha : a < (L.zoneRoot pid).toNat ∨ (L.zoneRoot pid).toNat + 0x200000 ≤ a)
    (hvalid : validOutside L w a = true) : ValidAfter L w pid parent a
  | populated {i : ℕ} (hlow : 505 ≤ i) (hi : i < 511) :
      ValidAfter L w pid parent (lvl2Place (L.zoneRoot pid) i)
  | shared {v : ℕ} (huser : IsUserPage L v) (hmapped : leaf w parent v ≠ none) :
    ValidAfter L w pid parent (zonePlace (L.zoneRoot pid) v)
  | peripheral {v : ℕ} (hv : v ∈ gpioPages) :
      ValidAfter L w pid parent (zonePlace (L.zoneRoot pid) v)
  | manager {v : ℕ} (hrow : ManagerRow L pid (v / 512)) :
      ValidAfter L w pid parent (zonePlace (L.zoneRoot pid) v)
  | kept {v : ℕ} (hv : KeptEntry L w pid parent v)
    (hvalid : isBlockEntry (w (zonePlace (L.zoneRoot pid) v)) = true) :
    ValidAfter L w pid parent (zonePlace (L.zoneRoot pid) v)

/-- The memory before a fork has no valid entry for the pages of the child behind `GPIO_BASE`: none
in the last level-3 tables of its zone, and none in the table that its last level-2 entry points to,
whatever the fork writes there. -/
structure StaleFree (L : Layout) (s : MmuState) (pid : Pid) (parent : Word) : Prop where
  rows : ∀ v, 505 ≤ v / 512 → v < 511 * 512 → v ∉ gpioPages →
    isBlockEntry (s.words (zonePlace (L.zoneRoot pid) v)) = false
  last : present s.words (L.zoneRoot pid) 511 = true →
    ∀ j < 512, ¬ ValidAfter L s.words pid parent (table s.words (L.zoneRoot pid) 511 + 8 * j)

theorem mem_gpioPages : v ∈ gpioPages ↔ v = 0x3f200 ∨ v = 0x3f201 ∨ v = 0x3f215 := by
  have hfirst : page gpioBase = 0x3f200 := rfl
  have hsecond : page (gpioBase + 0x1000) = 0x3f201 := rfl
  have hthird : page (gpioBase + 0x15000) = 0x3f215 := rfl
  rw [gpioPages, hfirst, hsecond, hthird]
  simp

/-! ### The leaves behind `GPIO_BASE` -/

/-- What a forked process maps in the tables of its zone behind `GPIO_BASE`. -/
theorem Forked.leaf_rows (h : Forked L s t pid parent p p') (hrow : 505 ≤ v / 512)
    (hv : v < 511 * 512) (hgpio : v ∉ gpioPages) :
    leaf t.words (L.zoneRoot pid) v = none ↔
      isBlockEntry (s.words (zonePlace (L.zoneRoot pid) v)) = false := by
  have hzone := L.zoneRoot_zone pid
  have hperipheral : v ∉ peripheralPages := by
    rw [mem_gpioPages] at hgpio
    rw [mem_peripheralPages]
    omega
  have hword : populateWords s.words (L.zoneRoot pid) 511 (zonePlace (L.zoneRoot pid) v) =
      s.words (zonePlace (L.zoneRoot pid) v) :=
    populateWords_of_not_mem (by unfold zonePlace; omega)
  rw [h.stale v hrow hv hperipheral, (ZoneTables.ofPopulate hzone).leaf_eq (by omega) hv, hword,
    present_populateWords (by omega)]
  simp

/-- The last level-2 entry is what the memory held. -/
theorem Forked.lvl2_last (h : Forked L s t pid parent p p')
    (hready : ForkReady L sys pid s parent p p') :
    t.words (lvl2Place (L.zoneRoot pid) 511) = s.words (lvl2Place (L.zoneRoot pid) 511) := by
  have haligned := (L.zoneRoot_zone pid).aligned
  have haligned' := hready.parentTables.zone.aligned
  have haligned'' := hready.kernelTables.zone.aligned
  have hne : parent.toNat ≠ (L.zoneRoot pid).toNat :=
    fun heq ↦ hready.apart (BitVec.eq_of_toNat_eq heq)
  have hne' : (L.zoneRoot pid).toNat ≠ L.mmuTablesStart.toNat := fun heq ↦
    hready.childApart (BitVec.eq_of_toNat_eq heq)
  refine h.frame _ (.inr (.inr rfl)) ?_ ?_
  · unfold lvl2Place
    omega
  · unfold lvl2Place
    omega

/-- What a forked process maps through its last level-2 entry. -/
theorem Forked.leaf_last (h : Forked L s t pid parent p p')
    (hready : ForkReady L sys pid s parent p p') (hrow : v / 512 = 511) :
    leaf t.words (L.zoneRoot pid) v = none ↔ (present s.words (L.zoneRoot pid) 511 = true →
      isBlockEntry (t.words (table s.words (L.zoneRoot pid) 511 + 8 * (v % 512))) = false) := by
  have hlvl2 := h.lvl2_last hready
  have hpresent : present t.words (L.zoneRoot pid) 511 = present s.words (L.zoneRoot pid) 511 := by
    rw [present, hlvl2, present]
  have htable : table t.words (L.zoneRoot pid) 511 = table s.words (L.zoneRoot pid) 511 := by
    rw [table, hlvl2, table]
  rw [leaf, hrow, hpresent, lvl3Place, hrow, htable]
  by_cases hvalid : present s.words (L.zoneRoot pid) 511 = true
  · rw [hvalid]
    simp
  · rw [if_neg fun hand ↦ hvalid hand.1]
    exact iff_of_true rfl fun hpresent ↦ absurd hpresent hvalid

/-! ### Valid entries after the fork -/

/-- The entry of a page that the child has mapped is valid. -/
theorem Forked.valid_of_leaf {e : Word} (h : Forked L s t pid parent p p')
    (hrow : L.kernelTables ≤ v / 512) (hv : v < 511 * 512)
    (hleaf : leaf t.words (L.zoneRoot pid) v = some e) :
    isBlockEntry (t.words (zonePlace (L.zoneRoot pid) v)) = true := by
  obtain ⟨-, hword, hblock⟩ := leaf_eq_some hleaf
  rw [h.tables.lvl3Place_eq hrow hv] at hword
  rwa [hword]

/-- A page of the parent is mapped by the child. -/
theorem Forked.valid_shared (h : Forked L s t pid parent p p') (huser : IsUserPage L v)
    (hmapped : leaf s.words parent v ≠ none) :
    isBlockEntry (t.words (zonePlace (L.zoneRoot pid) v)) = true := by
  have hlt := huser.2.1
  by_cases hstack : IsStackPage v
  · rcases hstack with rfl | rfl
    · exact h.valid_of_leaf huser.1 (by omega) h.stack
    · exact h.valid_of_leaf huser.1 (by omega) h.stack'
  · obtain ⟨e, he⟩ := Option.ne_none_iff_exists'.mp hmapped
    have hleaf := h.leaf_eq v huser hstack
    rw [he, Option.map_some] at hleaf
    exact h.valid_of_leaf huser.1 (by omega) hleaf

/-- The words that `ValidAfter` lists hold valid entries. -/
theorem Forked.valid_of_validAfter {a : ℕ} (h : Forked L s t pid parent p p') (haligned : a % 8 = 0)
    (ha : ValidAfter L s.words pid parent a) : isBlockEntry (t.words a) = true := by
  obtain ⟨-, hle⟩ := L.toNat_endAddr_tables
  cases ha with
  | outside hout hvalid => rw [h.valid_eq a haligned hout, hvalid]
  | @populated i hlow hi =>
    change present t.words (L.zoneRoot pid) i = true
    rw [h.present_eq i (by omega) hi]
    exact decide_eq_true (.inr (by omega))
  | shared huser hmapped => exact h.valid_shared huser hmapped
  | @peripheral v hv =>
    have hperipheral : v ∈ peripheralPages := by
      rw [mem_gpioPages] at hv
      rw [mem_peripheralPages]
      omega
    rw [mem_gpioPages] at hv
    exact h.valid_of_leaf (by omega) (by omega) (h.peripheral v hperipheral)
  | manager hrow => exact h.managerPlace _ hrow
  | @kept v hv hvalid =>
    obtain ⟨hlt, hmanager, hrow⟩ := hv
    by_cases hlast : v / 512 = 505
    · by_contra hinvalid
      rw [Bool.not_eq_true] at hinvalid
      have hnone : leaf t.words (L.zoneRoot pid) v = none := by
        rw [h.tables.leaf_eq (by omega) hlt, hinvalid, if_neg (by simp)]
      by_cases hperipheral : v ∈ peripheralPages
      · exact nomatch hnone.symm.trans (h.peripheral v hperipheral)
      · have hgpio : v ∉ gpioPages := by
          rw [mem_peripheralPages] at hperipheral
          rw [mem_gpioPages]
          omega
        exact nomatch hvalid.symm.trans ((h.leaf_rows (by omega) hlt hgpio).mp hnone)
    · rw [h.stalePlace v hlt hmanager (hrow.imp_right (Or.imp_left fun hge ↦ by omega)), hvalid]

/-- A page of memory with a valid entry after the fork has a word that `ValidAfter` lists. -/
theorem Forked.exists_validAfter {n j : ℕ} (h : Forked L s t pid parent p p')
    (hready : ForkReady L sys pid s parent p p') (haligned : n % 0x1000 = 0) (hj : j < 512)
    (hvalid : isBlockEntry (t.words (n + 8 * j)) = true) :
    ∃ j < 512, ValidAfter L s.words pid parent (n + 8 * j) := by
  obtain ⟨-, hle⟩ := L.toNat_endAddr_tables
  have hzone := (L.zoneRoot_zone pid).aligned
  by_cases hout : n < (L.zoneRoot pid).toNat ∨ (L.zoneRoot pid).toNat + 0x200000 ≤ n
  · exact ⟨j, hj, .outside (by omega) (h.valid_eq (n + 8 * j) (by omega) (by omega) ▸ hvalid)⟩
  obtain ⟨m, rfl⟩ : ∃ m, n = (L.zoneRoot pid).toNat + 0x1000 * m :=
    ⟨(n - (L.zoneRoot pid).toNat) / 0x1000, by omega⟩
  cases m with
  | zero => exact ⟨505, by omega, ValidAfter.populated le_rfl (by omega)⟩
  | succ i =>
    have hplace (j : ℕ) : (L.zoneRoot pid).toNat + 0x1000 * (i + 1) + 8 * j =
        zonePlace (L.zoneRoot pid) (512 * i + j) := by
      rw [zonePlace]
      omega
    have hdiv : (512 * i + j) / 512 = i := by omega
    simp only [hplace] at hvalid ⊢
    by_cases hmanager : ManagerRow L pid i
    · exact ⟨j, hj, .manager (hdiv.symm ▸ hmanager)⟩
    by_cases hkept : i < L.kernelTables ∨ 506 ≤ i ∨ i < 504 ∧ present s.words parent i = false
    · have hword := h.stalePlace (512 * i + j) (by omega) (hdiv.symm ▸ hmanager) (hdiv.symm ▸ hkept)
      refine ⟨j, hj, .kept ⟨by omega, hdiv.symm ▸ hmanager, ?_⟩ (hword ▸ hvalid)⟩
      rw [hdiv]
      exact hkept.imp_right (Or.imp_left fun hge ↦ by omega)
    -- the rows that the fork writes: those of the peripherals, of the stack, and of the parent's
    -- pages
    rcases (show i = 505 ∨ i = 504 ∨ i < 504 by omega) with rfl | rfl | hlow
    · exact ⟨0, by omega, .peripheral (List.mem_cons_self)⟩
    · obtain ⟨e, hleaf, -⟩ := hready.stack
      exact ⟨511, by omega, .shared (isUserPage_stack L).1
        (ne_of_eq_of_ne hleaf (Option.some_ne_none e))⟩
    · have hpresent : present s.words parent i = true := by
        by_contra habsent
        exact hkept (.inr (.inr ⟨hlow, Bool.not_eq_true _ ▸ habsent⟩))
      have htimer : timerPage = 0x3f00b := rfl
      have huser : IsUserPage L (512 * i + j) := ⟨by omega, by omega, by omega⟩
      have hchild : leaf t.words (L.zoneRoot pid) (512 * i + j) ≠ none := by
        rw [h.tables.leaf_eq (by omega) (by omega), hdiv, h.present_eq i (by omega) (by omega),
          hpresent, hvalid, if_pos ⟨by simp, rfl⟩]
        exact Option.some_ne_none _
      rw [h.leaf_eq _ huser (by omega), Ne, Option.map_eq_none_iff] at hchild
      exact ⟨j, hj, .shared huser hchild⟩

/-! ### The condition -/

/-- The tables of a forked process at `lvl2_table_address`. -/
theorem Forked.unmapped_iff (h : Forked L s t pid parent p p') {va : Word}
    (hva : va.toNat < 2 ^ 30) : Unmapped t va ↔ leaf t.words (L.zoneRoot pid) (page va) = none := by
  have hzone := L.zoneRoot_zone pid
  have hroot : t.lvl2TableAddress = L.zoneRoot pid := by rw [h.fixed]; rfl
  rw [Mmu.unmapped_iff (hroot ▸ hzone.rooted) hva, hroot]

/-- A process that is forked into a clean zone has no stray mapping. -/
theorem Forked.noStray (h : Forked L s t pid parent p p')
    (hready : ForkReady L sys pid s parent p p') (hfree : StaleFree L s pid parent) :
    NoStray t := by
  have hbase : gpioBase.toNat = 0x3f200000 := rfl
  have hram : ramSize.toNat = 0x40000000 := rfl
  intro va hlow hhigh
  rw [BitVec.le_def, hbase] at hlow
  rw [BitVec.lt_def, hram] at hhigh
  have hpage : 505 ≤ page va / 512 ∧ page va < 512 * 512 := by
    unfold page
    omega
  rw [h.unmapped_iff (by omega)]
  constructor
  · intro hsome
    by_contra hgpio
    refine hsome ?_
    rcases Nat.lt_or_ge (page va) (511 * 512) with hlt | hge
    · exact (h.leaf_rows hpage.1 hlt hgpio).mpr (hfree.rows _ hpage.1 hlt hgpio)
    · refine (h.leaf_last hready (by omega)).mpr fun hpresent ↦ ?_
      by_contra hvalid
      obtain ⟨j, hj, hafter⟩ := h.exists_validAfter hready (table_aligned _ _ _)
        (Nat.mod_lt _ (by decide)) (Bool.not_eq_false _ ▸ hvalid)
      exact hfree.last hpresent j hj hafter
  · intro hgpio hnone
    have hperipheral : page va ∈ peripheralPages := by
      rw [mem_gpioPages] at hgpio
      rw [mem_peripheralPages]
      omega
    rw [h.peripheral _ hperipheral] at hnone
    cases hnone

/-- A process without a stray mapping has been forked into a clean zone. -/
theorem Forked.staleFree (h : Forked L s t pid parent p p')
    (hready : ForkReady L sys pid s parent p p') (hstray : NoStray t) :
    StaleFree L s pid parent := by
  have hbase : gpioBase.toNat = 0x3f200000 := rfl
  have hram : ramSize.toNat = 0x40000000 := rfl
  have hnone (v : ℕ) (hrow : 505 ≤ v / 512) (hv : v < 512 * 512) (hgpio : v ∉ gpioPages) :
      leaf t.words (L.zoneRoot pid) v = none := by
    have hnat : (BitVec.ofNat 64 (0x1000 * v)).toNat = 0x1000 * v := by
      rw [BitVec.toNat_ofNat]
      omega
    have hpage : page (BitVec.ofNat 64 (0x1000 * v)) = v := by
      rw [page, hnat]
      omega
    have hva := hstray (BitVec.ofNat 64 (0x1000 * v)) (by rw [BitVec.le_def, hnat, hbase]; omega)
      (by rw [BitVec.lt_def, hnat, hram]; omega)
    rw [h.unmapped_iff (by omega), hpage] at hva
    exact not_not.mp fun hsome ↦ hgpio (hva.mp hsome)
  constructor
  case rows =>
    intro v hrow hv hgpio
    exact (h.leaf_rows hrow hv hgpio).mp (hnone v hrow (by omega) hgpio)
  case last =>
    intro hpresent j hj hafter
    have haligned := table_aligned s.words (L.zoneRoot pid) 511
    have hinvalid := (h.leaf_last hready (v := 511 * 512 + j) (by omega)).mp
      (hnone _ (by omega) (by omega) (by rw [mem_gpioPages]; omega)) hpresent
    have hindex : (511 * 512 + j) % 512 = j := by omega
    rw [hindex, h.valid_of_validAfter (by omega) hafter] at hinvalid
    exact absurd hinvalid.symm Bool.false_ne_true

/-- `c_init_mmu` leaves a forked process without stray mappings exactly if the memory held no valid
entry for its pages behind `GPIO_BASE`. -/
theorem noStray_iff (h : ForkReady L sys pid s parent p p') :
    ∃ t, cInitMmu L sys pid s = .ok t ∧ (NoStray t ↔ StaleFree L s pid parent) := by
  obtain ⟨t, hinit, ht⟩ := cInitMmu_forked h
  exact ⟨t, hinit, ht.staleFree h, ht.noStray h⟩

/-- After a boot over the words `w`, the zone of a process holds these words. -/
theorem staleFree_of_words {w : ℕ → Word} (parent : Word)
    (hwords : ∀ a, (L.zoneRoot pid).toNat ≤ a → a < (L.zoneRoot pid).toNat + 0x200000 →
    s.words a = w a) (hlast : w (lvl2Place (L.zoneRoot pid) 511) = 0) : StaleFree L s pid parent ↔
      ∀ v, 505 ≤ v / 512 → v < 511 * 512 → v ∉ gpioPages →
      isBlockEntry (w (zonePlace (L.zoneRoot pid) v)) = false := by
  have habsent : present s.words (L.zoneRoot pid) 511 ≠ true := by
    rw [present, hwords _ (by unfold lvl2Place; omega) (by unfold lvl2Place; omega), hlast]
    decide
  have hzone (v : ℕ) (hv : v < 511 * 512) :
      s.words (zonePlace (L.zoneRoot pid) v) = w (zonePlace (L.zoneRoot pid) v) :=
    hwords _ (by unfold zonePlace; omega) (by unfold zonePlace; omega)
  constructor
  · intro hfree v hrow hv hgpio
    rw [← hzone v hv]
    exact hfree.rows v hrow hv hgpio
  · intro hrows
    exact ⟨fun v hrow hv hgpio ↦ (hzone v hv).symm ▸ hrows v hrow hv hgpio,
      fun hpresent ↦ absurd hpresent habsent⟩

/-- In zeroed memory a forked process has no stray mapping. -/
theorem noStray_zeroed :
    ∃ s t, cInitMmu sampleLayout (forkSystem sampleLayout) 3 s = .ok t ∧ NoStray t := by
  obtain ⟨s, p, p', hready, hwords⟩ := exists_forkable sampleLayout
    (by decide : (3 : Pid) ≠ kernelPid ∧ (3 : Pid) ≠ initPid) fun _ ↦ 0
  obtain ⟨t, hinit, hiff⟩ := noStray_iff hready.forkReady
  exact ⟨s, t, hinit, hiff.mpr ((staleFree_of_words _ hwords rfl).mpr fun _ _ _ _ ↦ rfl)⟩

/-- The memory holds the word 3 where the entry of the page `0x3f202000` of the process 3 will
be. -/
theorem not_noStray_sample : ∃ s p p' t,
    Forkable sampleLayout (forkSystem sampleLayout) {kernelPid, initPid} 3 s p p' ∧
      s.words (zonePlace (sampleLayout.zoneRoot 3) 0x3f202) = 3 ∧
      cInitMmu sampleLayout (forkSystem sampleLayout) 3 s = .ok t ∧ ¬ NoStray t := by
  obtain ⟨s, p, p', hready, hwords⟩ := exists_forkable sampleLayout
    (by decide : (3 : Pid) ≠ kernelPid ∧ (3 : Pid) ≠ initPid)
    (Function.update (fun _ ↦ 0) (zonePlace (sampleLayout.zoneRoot 3) 0x3f202) 3)
  obtain ⟨t, hinit, ht⟩ := cInitMmu_forked hready.forkReady
  have hword : s.words (zonePlace (sampleLayout.zoneRoot 3) 0x3f202) = 3 := by
    rw [hwords _ (by unfold zonePlace; omega) (by unfold zonePlace; omega), Function.update_self]
  refine ⟨s, p, p', t, hready, hword, hinit, fun hstray ↦ ?_⟩
  have hfree :=
    (ht.staleFree hready.forkReady hstray).rows 0x3f202 (by decide) (by decide) (by decide)
  rw [hword] at hfree
  exact absurd hfree (by decide)

end SysresOs.Mmu
