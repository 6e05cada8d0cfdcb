import SysresOs.Memory.Undo

/-!
# What an exit does not undo

Outside of the zone of the child, a fork and the exit after it keep what every word tells the walk
(`Forkable.pointer_exited`). `Rewritten` lists the words of this zone that they write. So the
translations of another process change only if one of its tables is in the zone, and the one level-2
entry that can lead there is the last one, which nothing writes. `undoes_iff` is the result.
-/

set_option autoImplicit false
set_option relaxedAutoImplicit false

namespace SysresOs.Mmu

open SysresOs.Outcome

open SysresOs.Proc (Pid SystemState kernelPid initPid)

variable {L : Layout} {sys : SystemState} {live : Finset Pid} {pid q : Pid} {s t u : MmuState}
  {p p' parent asid root va : Word} {w w' : ℕ → Word} {x : Option Word} {a i j v : ℕ}

/-! ### Translations and pointers -/

theorem map_entryAddress_leaf (w : ℕ → Word) (root : Word) (v : ℕ) :
    (leaf w root v).map entryAddress = if present w root (v / 512)
      then pointer (w (lvl3Place w root v)) else none := by
  rw [leaf, pointer]
  cases present w root (v / 512) <;> cases isBlockEntry (w (lvl3Place w root v)) <;> simp

theorem translate_eq (w : ℕ → Word) (root va : Word) : translate w root va =
    if va.toNat < 2 ^ 30 then ((leaf w root (page va)).map entryAddress).map
    (· + (va &&& mask 11 0)) else none := by
  rw [translate, Option.map_map]
  rfl

theorem table_congr (h : pointer (w' (lvl2Place root i)) = pointer (w (lvl2Place root i)))
    (hpresent : present w root i = true) :
    present w' root i = true ∧ table w' root i = table w root i := by
  have hpresent' : present w' root i = true := (isBlockEntry_congr h).trans hpresent
  have hblock : isBlockEntry (w (lvl2Place root i)) = true := hpresent
  have hblock' : isBlockEntry (w' (lvl2Place root i)) = true := hpresent'
  rw [pointer, pointer, if_pos hblock, if_pos hblock'] at h
  exact ⟨hpresent', by rw [table, table, Option.some.inj h]⟩

/-- The address of the page `j` of a row whose table is at the word `table w root i`. -/
def rowAddress (i j : ℕ) : Word := BitVec.ofNat 64 (0x1000 * (512 * i + j))

theorem page_rowAddress (hi : i < 512) (hj : j < 512) :
    (rowAddress i j).toNat < 2 ^ 30 ∧ page (rowAddress i j) = 512 * i + j := by
  rw [rowAddress, page, BitVec.toNat_ofNat]
  omega

/-- What a translation tells of a word of a table. -/
theorem translate_rowAddress (hi : i < 512) (hj : j < 512) (hpresent : present w root i = true) :
    translate w root (rowAddress i j) =
      (pointer (w (table w root i + 8 * j))).map (· + (rowAddress i j &&& mask 11 0)) := by
  obtain ⟨hlt, hpage⟩ := page_rowAddress hi hj
  rw [translate_eq, if_pos hlt, map_entryAddress_leaf, hpage, show (512 * i + j) / 512 = i by omega,
    hpresent, if_pos rfl, lvl3Place, show (512 * i + j) / 512 = i by
  omega, show (512 * i + j) % 512 = j by omega]

/-- A translation depends on what the words of the walk tell it. -/
theorem translate_congr (hrow : pointer (w' (lvl2Place root (page va / 512))) =
      pointer (w (lvl2Place root (page va / 512))))
    (hentry : present w root (page va / 512) = true →
      pointer (w' (lvl3Place w root (page va))) = pointer (w (lvl3Place w root (page va)))) :
    translate w' root va = translate w root va := by
  have hpresent : present w' root (page va / 512) = present w root (page va / 512) :=
    isBlockEntry_congr hrow
  rw [translate_eq, translate_eq, map_entryAddress_leaf, map_entryAddress_leaf, hpresent]
  cases hvalid : present w root (page va / 512) with
  | false => rfl
  | true =>
    have hplace : lvl3Place w' root (page va) = lvl3Place w root (page va) := by
      rw [lvl3Place, lvl3Place, (table_congr hrow hvalid).2]
    rw [hplace, hentry hvalid]

/-! ### The words after the exit -/

/-- The words of the zone of a process that a fork and an exit write, each with what it tells the
walk in the end: the level-2 entries of the kernel's part, which are the parent's, the invalid ones
up to `GPIO_BASE`, those that `populate_lvl2_table` leaves, the entries of the pages that the exit
releases and those of the peripherals. -/
inductive Rewritten (L : Layout) (s : MmuState) (pid : Pid) (parent : Word) : ℕ → Option Word → Prop
  | kernel {i : ℕ} (hi : i < L.kernelTables) :
    Rewritten L s pid parent (lvl2Place (L.zoneRoot pid) i) (pointer (s.words (lvl2Place parent i)))
  | dropped {i : ℕ} (hlow : L.kernelTables ≤ i) (hi : i < 505) :
    Rewritten L s pid parent (lvl2Place (L.zoneRoot pid) i) none
  | populated {i : ℕ} (hlow : 505 ≤ i) (hi : i < 511) :
    Rewritten L s pid parent (lvl2Place (L.zoneRoot pid) i)
      (some (BitVec.ofNat 64 ((L.zoneRoot pid).toNat + 0x1000 * (i + 1))))
  | released {v : ℕ} (hrow : L.kernelTables ≤ v / 512) (hlt : v < 512 * 505)
    (hpresent : present s.words parent (v / 512) = true) :
    Rewritten L s pid parent (zonePlace (L.zoneRoot pid) v) none
  | peripheral {v : ℕ} (hv : v ∈ gpioPages) :
    Rewritten L s pid parent (zonePlace (L.zoneRoot pid) v) (some (BitVec.ofNat 64 (0x1000 * v)))

/-- The child's tables after the fork and the exit. -/
structure ExitedFork (L : Layout) (sys : SystemState) (live : Finset Pid) (pid : Pid)
    (s t u : MmuState) (p p' asid : Word) : Prop where
  ready : Forkable L sys live pid s p p'
  notManager : pid ≠ memManagerPid
  kernelLive : kernelPid ∈ live
  forked : Forked L s t pid (L.zoneRoot (getParentPid sys pid)) p p'
  exited : Exited { t with ttbr0El1 := asid } u (L.zoneRoot pid) L.kernelTables 505 (512 * 505)

namespace ExitedFork

/-- Outside of the zone of the child, the fork and the exit keep what the words tell the walk. -/
theorem pointer_outside (h : ExitedFork L sys live pid s t u p p' asid)
    (ha : a < (L.zoneRoot pid).toNat ∨ (L.zoneRoot pid).toNat + 0x200000 ≤ a) :
    pointer (u.words a) = pointer (s.words a) := by
  rw [← h.forked.pointers (h.ready.exact.kernelRow h.kernelLive) a ha]
  refine congrArg pointer (h.exited.frame a (fun v hv hlt ↦ ?_) fun x hx hlt ↦ ?_)
  · unfold zonePlace
    omega
  · unfold lvl2Place
    omega

/-- The exit keeps the level-2 entries below `id_paging_size` and from `GPIO_BASE` on. -/
theorem lvl2_eq (h : ExitedFork L sys live pid s t u p p' asid) (hi : i < 512)
    (hout : i < L.kernelTables ∨ 505 ≤ i) :
    u.words (lvl2Place (L.zoneRoot pid) i) = t.words (lvl2Place (L.zoneRoot pid) i) := by
  have hzone := L.zoneRoot_zone pid
  refine h.exited.frame _ (fun v hv hlt ↦ ?_) fun x hx hlt heq ↦ ?_
  · exact lvl2Place_ne_zonePlace hzone hzone hi (by omega)
  · have := ((lvl2Place_inj hzone hzone (by omega) (by omega)).mp heq).2
    omega

/-- The exit keeps the tables below `id_paging_size` and from `GPIO_BASE` on. -/
theorem lvl3_eq (h : ExitedFork L sys live pid s t u p p' asid) (hv : v < 511 * 512)
    (hout : v / 512 < L.kernelTables ∨ 505 ≤ v / 512) :
    u.words (zonePlace (L.zoneRoot pid) v) = t.words (zonePlace (L.zoneRoot pid) v) := by
  have hzone := L.zoneRoot_zone pid
  refine h.exited.frame _ (fun x hx hlt heq ↦ ?_) fun x hx hlt heq ↦ ?_
  · have := ((zonePlace_inj hzone hzone hv (by omega)).mp heq).2
    omega
  · exact lvl2Place_ne_zonePlace hzone hzone (by omega) hv heq.symm

/-- The entries of the pages from `GPIO_BASE` on tell the walk what the leaves are. -/
theorem pointer_leaf (h : ExitedFork L sys live pid s t u p p' asid) (hrow : 505 ≤ v / 512)
    (hv : v < 511 * 512) :
    pointer (u.words (zonePlace (L.zoneRoot pid) v)) = (leaf t.words (L.zoneRoot pid) v).map
      entryAddress := by
  obtain ⟨-, hle⟩ := L.toNat_endAddr_tables
  have hpresent : present t.words (L.zoneRoot pid) (v / 512) = true := by
    rw [h.forked.present_eq _ (by omega) (by omega)]
    exact decide_eq_true (.inr (by omega))
  rw [h.lvl3_eq hv (.inr hrow), map_entryAddress_leaf, if_pos hpresent,
    h.forked.tables.lvl3Place_eq (by omega) hv]

/-- The words that are written tell the walk what `Rewritten` says. -/
theorem pointer_rewritten (h : ExitedFork L sys live pid s t u p p' asid)
    (ha : Rewritten L s pid (L.zoneRoot (getParentPid sys pid)) a x) : pointer (u.words a) = x := by
  obtain ⟨-, hle⟩ := L.toNat_endAddr_tables
  have hzone := L.zoneRoot_zone pid
  cases ha with
  | kernel hi => rw [h.lvl2_eq (by omega) (.inl hi), h.forked.kernelWord h.notManager _ hi]
  | @dropped i hlow hi =>
    refine pointer_eq_none.mpr ?_
    have hpresent := h.exited.present_eq i hlow hi
    rwa [if_pos hi] at hpresent
  | @populated i hlow hi =>
    have hpresent : isBlockEntry (t.words (lvl2Place (L.zoneRoot pid) i)) = true := by
      change present t.words _ i = true
      rw [h.forked.present_eq i (by omega) hi]
      exact decide_eq_true (.inr (by omega))
    have htable := h.forked.tables.table_eq i (by omega) hi
    rw [table] at htable
    rw [h.lvl2_eq (by omega) (.inr hlow), pointer, if_pos hpresent, ← htable, BitVec.ofNat_toNat,
      BitVec.setWidth_eq]
  | @released v hrow hlt hpresent =>
    refine pointer_eq_none.mpr (h.exited.cleared v hrow hlt ?_)
    change present t.words _ _ = true
    rw [h.forked.present_eq _ hrow (by omega)]
    exact decide_eq_true (.inl hpresent)
  | @peripheral v hv =>
    have hperipheral : v ∈ peripheralPages := by
      rw [mem_gpioPages] at hv
      rw [mem_peripheralPages]
      omega
    rw [mem_gpioPages] at hv
    rw [h.pointer_leaf (by omega) (by omega), h.forked.peripheral v hperipheral, Option.map_some]
    refine congrArg some (BitVec.eq_of_toNat_eq ?_)
    rw [entryAddress_peripheralEntry (by omega), BitVec.toNat_ofNat]
    omega

/-- The other level-2 entries of the child keep what they tell the walk. -/
theorem pointer_lvl2 (h : ExitedFork L sys live pid s t u p p' asid) (hi : i < 512)
    (ha : ∀ x, ¬ Rewritten L s pid (L.zoneRoot (getParentPid sys pid))
    (lvl2Place (L.zoneRoot pid) i) x) : pointer (u.words (lvl2Place (L.zoneRoot pid) i)) = pointer
    (s.words (lvl2Place (L.zoneRoot pid) i)) := by
  have hlast : i = 511 := by
    by_contra hne
    rcases Nat.lt_or_ge i L.kernelTables with hlt | hge
    · exact ha _ (.kernel hlt)
    rcases Nat.lt_or_ge i 505 with hlt' | hge'
    · exact ha _ (.dropped hge hlt')
    · exact ha _ (.populated hge' (by omega))
  rw [h.lvl2_eq hi (.inr (by omega)), hlast, h.forked.lvl2_last h.ready.forkReady]

/-- The other entries of the child's tables keep what they tell the walk. -/
theorem pointer_lvl3 (h : ExitedFork L sys live pid s t u p p' asid) (hv : v < 511 * 512)
    (ha : ∀ x, ¬ Rewritten L s pid (L.zoneRoot (getParentPid sys pid))
    (zonePlace (L.zoneRoot pid) v) x) : pointer (u.words (zonePlace (L.zoneRoot pid) v)) = pointer
    (s.words (zonePlace (L.zoneRoot pid) v)) := by
  obtain ⟨-, hle⟩ := L.toNat_endAddr_tables
  by_cases hlow : L.kernelTables ≤ v / 512 ∧ v / 512 < 505
  · -- the level-3 table of a row that the parent does not have
    have habsent : present s.words (L.zoneRoot (getParentPid sys pid)) (v / 512) = false := by
      rw [← Bool.not_eq_true]
      exact fun hpresent ↦ ha _ (.released hlow.1 (by omega) hpresent)
    have hstack : v / 512 ≠ 504 := by
      intro hrow
      obtain ⟨e, hleaf, -⟩ := h.ready.stack
      rw [hrow, (leaf_eq_some hleaf).1] at habsent
      exact nomatch habsent
    have habsent' : present t.words (L.zoneRoot pid) (v / 512) = false := by
      rw [h.forked.present_eq _ hlow.1 (by omega), habsent]
      exact decide_eq_false (by simp; omega)
    have hkept := h.exited.kept v hlow.1 (by omega) (.inr habsent')
    rw [hkept, ← h.forked.stalePlace v hv (fun hmanager ↦ h.notManager hmanager.1)
      (.inr (.inr ⟨by omega, habsent⟩))]
  · by_cases hgpio : v / 512 = 505
    · have hmem : v ∉ peripheralPages := by
        intro hmem
        refine ha _ (.peripheral ?_)
        rw [mem_peripheralPages] at hmem
        rw [mem_gpioPages]
        omega
      rw [h.pointer_leaf (by omega) hv, h.forked.stale v (by omega) hv hmem, map_entryAddress_leaf,
        if_pos (present_populateWords (by omega)),
        (ZoneTables.ofPopulate (L.zoneRoot_zone pid)).lvl3Place_eq
        (Nat.zero_le _) hv, populateWords_of_not_mem (by unfold zonePlace; omega)]
    · rw [h.lvl3_eq hv (by omega),
        h.forked.stalePlace v hv (fun hmanager ↦ h.notManager hmanager.1) (by omega)]

/-- The other words of the zone keep what they tell the walk. -/
theorem pointer_kept (h : ExitedFork L sys live pid s t u p p' asid) {n : ℕ}
    (haligned : n % 0x1000 = 0) (hj : j < 512)
    (ha : ∀ x, ¬ Rewritten L s pid (L.zoneRoot (getParentPid sys pid)) (n + 8 * j) x) :
    pointer (u.words (n + 8 * j)) = pointer (s.words (n + 8 * j)) := by
  have hzone := (L.zoneRoot_zone pid).aligned
  by_cases hout : n < (L.zoneRoot pid).toNat ∨ (L.zoneRoot pid).toNat + 0x200000 ≤ n
  · exact h.pointer_outside (by omega)
  obtain ⟨m, hm⟩ : ∃ m, n = (L.zoneRoot pid).toNat + 0x1000 * m :=
    ⟨(n - (L.zoneRoot pid).toNat) / 0x1000, by omega⟩
  cases m with
  | zero =>
    have hplace : n + 8 * j = lvl2Place (L.zoneRoot pid) j := by
      rw [lvl2Place]
      omega
    rw [hplace] at ha ⊢
    exact h.pointer_lvl2 hj ha
  | succ i =>
    have hplace : n + 8 * j = zonePlace (L.zoneRoot pid) (512 * i + j) := by
      rw [zonePlace]
      omega
    rw [hplace] at ha ⊢
    exact h.pointer_lvl3 (by omega) ha

end ExitedFork

/-! ### The other processes -/

/-- Whatever a fork and an exit write to the tables that a process has, they leave there what the
walk found before. -/
def TablesKept (L : Layout) (s : MmuState) (pid : Pid) (parent : Word) (q : Pid) : Prop :=
  ∀ i < 512, present s.words (L.zoneRoot q) i = true → ∀ j < 512, ∀ x,
    Rewritten L s pid parent (table s.words (L.zoneRoot q) i + 8 * j) x →
      pointer (s.words (table s.words (L.zoneRoot q) i + 8 * j)) = x

/-- The fork and the exit change no translation of a live process exactly when they keep its
tables. -/
theorem ExitedFork.translate_iff (h : ExitedFork L sys live pid s t u p p' asid) (hq : q ∈ live) :
    (∀ va, translate u.words (L.zoneRoot q) va = translate s.words (L.zoneRoot q) va) ↔
      TablesKept L s pid (L.zoneRoot (getParentPid sys pid)) q := by
  have hrow (i : ℕ) (hi : i < 512) : pointer (u.words (lvl2Place (L.zoneRoot q) i)) =
      pointer (s.words (lvl2Place (L.zoneRoot q) i)) := by
    have hzone := (L.zoneRoot_zone q).aligned
    have hzone' := (L.zoneRoot_zone pid).aligned
    have hne : (L.zoneRoot q).toNat ≠ (L.zoneRoot pid).toNat := fun heq ↦
      h.ready.fresh (L.zoneRoot_inj.mp (BitVec.eq_of_toNat_eq heq) ▸ hq)
    refine h.pointer_outside ?_
    unfold lvl2Place
    omega
  constructor
  · intro htranslate i hi hpresent j hj x hx
    obtain ⟨hpresent', htable⟩ := table_congr (hrow i hi) hpresent
    have hsame := htranslate (rowAddress i j)
    rw [translate_rowAddress hi hj hpresent, translate_rowAddress hi hj hpresent', htable] at hsame
    rw [← h.pointer_rewritten hx]
    exact (Option.map_injective (add_left_injective _) hsame).symm
  · intro hkept va
    by_cases hva : va.toNat < 2 ^ 30
    · have hpage := page_lt hva
      refine translate_congr (hrow _ (by omega)) fun hpresent ↦ ?_
      rw [lvl3Place]
      by_cases hwritten : ∃ x, Rewritten L s pid (L.zoneRoot (getParentPid sys pid))
          (table s.words (L.zoneRoot q) (page va / 512) + 8 * (page va % 512)) x
      · obtain ⟨x, hx⟩ := hwritten
        rw [h.pointer_rewritten hx, hkept _ (by omega) hpresent _ (by omega) x hx]
      · exact h.pointer_kept (table_aligned s.words _ _) (by omega) (not_exists.mp hwritten)
    · rw [translate, translate, if_neg hva, if_neg hva]

/-- A page of memory outside of the zone of a root. -/
def PageOutside (root : Word) (n : ℕ) : Prop := n + 0x1000 ≤ root.toNat ∨ root.toNat + 0x200000 ≤ n

/-- The tables that the live processes have for the kernel's part are outside of the zone of a
process. -/
def KernelOutside (L : Layout) (w : ℕ → Word) (live : Finset Pid) (pid : Pid) : Prop :=
  ∀ q ∈ live, ∀ i < L.kernelTables, present w (L.zoneRoot q) i = true →
    PageOutside (L.zoneRoot pid) (table w (L.zoneRoot q) i)

theorem Rewritten.mem_zone (h : Rewritten L s pid parent a x) :
    (L.zoneRoot pid).toNat ≤ a ∧ a < (L.zoneRoot pid).toNat + 0x200000 := by
  obtain ⟨-, hle⟩ := L.toNat_endAddr_tables
  cases h with
  | kernel hi => unfold lvl2Place; omega
  | dropped hlow hi => unfold lvl2Place; omega
  | populated hlow hi => unfold lvl2Place; omega
  | released hrow hlt => unfold zonePlace; omega
  | peripheral hv =>
    rw [mem_gpioPages] at hv
    unfold zonePlace
    omega

/-- Only the last level-2 entry of a live process can lead to a word that the fork and the exit
change. -/
theorem Forkable.tablesKept_iff (h : Forkable L sys live pid s p p')
    (houtside : KernelOutside L s.words live pid) (hq : q ∈ live) :
    TablesKept L s pid parent q ↔ (present s.words (L.zoneRoot q) 511 = true → ∀ j < 512, ∀ x,
      Rewritten L s pid parent (table s.words (L.zoneRoot q) 511 + 8 * j) x →
        pointer (s.words (table s.words (L.zoneRoot q) 511 + 8 * j)) = x) := by
  refine ⟨fun hkept ↦ hkept 511 (by omega), fun hlast i hi hpresent j hj x hx ↦ ?_⟩
  obtain ⟨hlow, hhigh⟩ := hx.mem_zone
  have hzone := (L.zoneRoot_zone q).aligned
  have hzone' := (L.zoneRoot_zone pid).aligned
  have hne : (L.zoneRoot q).toNat ≠ (L.zoneRoot pid).toNat := fun heq ↦
    h.fresh (L.zoneRoot_inj.mp (BitVec.eq_of_toNat_eq heq) ▸ hq)
  rcases Nat.lt_or_ge i L.kernelTables with hlt | hge
  · have hout := houtside q hq i hlt hpresent
    unfold PageOutside at hout
    omega
  · rcases Nat.lt_or_ge i 511 with hrow | hrow
    · rw [(h.exact.tables q hq).table_eq i hge hrow] at hlow hhigh
      omega
    · obtain rfl : i = 511 := by omega
      exact hlast hpresent j hj x hx

/-- A fork keeps the kernel's part of all live processes outside of the zones of the others. -/
theorem KernelOutside.forked (h : KernelOutside L s.words live q)
    (hready : Forkable L sys live pid s p p')
    (ht : Forked L s t pid (L.zoneRoot (getParentPid sys pid)) p p')
    (hkernel : present s.words L.mmuTablesStart 504 = true) (hq : q ∉ insert pid live) :
    KernelOutside L t.words (insert pid live) q := by
  have hzone := (L.zoneRoot_zone pid).aligned
  have happart (r : Pid) (hr : r ≠ pid) : (L.zoneRoot r).toNat ≠ (L.zoneRoot pid).toNat := fun heq ↦
    hr (L.zoneRoot_inj.mp (BitVec.eq_of_toNat_eq heq))
  intro r hr i hi hpresent
  rcases Finset.mem_insert.mp hr with rfl | hr
  · rcases ht.kernel i hi with hword | htable
    · have hpresent' : present s.words (L.zoneRoot (getParentPid sys r)) i = true := by
        rw [present, ← hword]
        exact hpresent
      rw [table, hword, ← table]
      exact h _ hready.parent i hi hpresent'
    · have hzone' := (L.zoneRoot_zone q).aligned
      have hne := happart q fun heq ↦ hq (heq ▸ Finset.mem_insert_self _ _)
      obtain ⟨-, hle⟩ := L.toNat_endAddr_tables
      rw [htable, PageOutside]
      omega
  · have hzone' := (L.zoneRoot_zone r).aligned
    have hne := happart r fun heq ↦ hready.fresh (heq ▸ hr)
    have hpointer : pointer (s.words (lvl2Place (L.zoneRoot r) i)) =
        pointer (t.words (lvl2Place (L.zoneRoot r) i)) := by
      obtain ⟨-, hle⟩ := L.toNat_endAddr_tables
      refine (ht.pointers hkernel _ ?_).symm
      unfold lvl2Place
      omega
    obtain ⟨hpresent', htable⟩ := table_congr hpointer hpresent
    rw [← htable]
    exact h r hr i hi hpresent'

/-- After the boot and any number of forks the kernel's part of every live process is outside of all
other zones. -/
theorem ForkRun.kernelOutside {n : ℕ} (h : ForkRun L live s n) (hq : q ∉ live) :
    KernelOutside L s.words live q := by
  induction h with
  | boot hkernel hinit hhardware =>
    obtain ⟨s₀, hbooted⟩ := booted_of_boot hkernel hinit
    intro r hr i hi _
    obtain ⟨-, hle⟩ := L.toNat_endAddr_tables
    have hne : (L.zoneRoot r).toNat ≠ (L.zoneRoot q).toNat := fun heq ↦
      hq (L.zoneRoot_inj.mp (BitVec.eq_of_toNat_eq heq) ▸ hr)
    have hzone := (L.zoneRoot_zone r).aligned
    have hzone' := (L.zoneRoot_zone q).aligned
    rw [(hbooted.present_eq hr (show i < 512 by omega)).2.table_eq i (Nat.zero_le _) (by omega),
      PageOutside]
    omega
  | fork run hchild hroom hinit ih =>
    obtain ⟨p, p', hready⟩ := run.settled.forkable hchild hroom
    obtain ⟨t, hinit', ht⟩ := cInitMmu_forked hready.forkReady
    obtain rfl := Except.ok.inj (hinit.symm.trans hinit')
    have hkernel := run.settled.exact.kernelRow run.settled.kernelLive
    exact (ih fun hmem ↦ hq (Finset.mem_insert_of_mem hmem)).forked hready ht hkernel hq

end SysresOs.Mmu
