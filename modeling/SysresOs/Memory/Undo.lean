import SysresOs.Memory.Exit
import SysresOs.Memory.Lineage

/-!
# The exit of a process after its fork

`process_exit` walks the tables that `c_init_mmu` made for a forked process, when the process has
touched none of its pages. Every counter that the fork increased is decreased once, with the
exception of those of the three pages behind `GPIO_BASE`, and the two pages of the stack come back
in the reverse order.
-/

set_option autoImplicit false
set_option relaxedAutoImplicit false

namespace SysresOs.Mmu

open SysresOs.Outcome

open SysresOs.Proc (Pid SystemState kernelPid initPid)

variable {L : Layout} {sys : SystemState} {live : Finset Pid} {pid q : Pid} {s t u : MmuState}
  {p p' pa e : Word} {f v : ℕ}

namespace Forkable

/-! ### The exit of the child -/

/-- The pages of the child are bound more than once, except for those of its stack. -/
theorem counter_child_ne (h : Forkable L sys live pid s p p')
    (ht : Forked L s t pid (L.zoneRoot (getParentPid sys pid)) p p')
    (htimer : getBindCounter s timerIrqPage ≠ 0) (hrow : L.kernelTables ≤ v / 512)
    (hlt : v < 512 * 505) (hstack : ¬ IsStackPage v)
    (hleaf : leaf t.words (L.zoneRoot pid) v = some e) : getBindCounter t (entryAddress e) ≠ 1 := by
  have hframe : frameOf t.words (L.zoneRoot pid) v = some ((entryAddress e).toNat / 0x1000) := by
    rw [frameOf, hleaf, Option.map_some]
  have hpositive : getBindCounter s (entryAddress e) ≠ 0 := by
    rw [h.frameOf_child ht (isBoundPage hrow hlt) hstack] at hframe
    by_cases htimerPage : v = timerPage
    · rw [htimerPage, h.exact.peripheral _ h.parent _ (by decide)] at hframe
      rwa [getBindCounter_congr (q := timerIrqPage) (Option.some.inj hframe).symm]
    · obtain ⟨e', hleaf', he'⟩ := Option.map_eq_some_iff.mp hframe
      rw [getBindCounter_congr he'.symm]
      intro hzero
      have hpos := (h.exact.counter_pos h.parent ⟨hrow, hlt, htimerPage⟩ hleaf').1
      rw [hzero] at hpos
      exact absurd hpos (by decide)
  rw [h.counter_child ht (isBoundPage hrow hlt) hstack hframe]
  exact fun hone ↦ hpositive (by simpa using hone)

/-- The pages that the child's exit puts back. -/
theorem ownPages_child (h : Forkable L sys live pid s p p')
    (ht : Forked L s t pid (L.zoneRoot (getParentPid sys pid)) p p')
    (htimer : getBindCounter s timerIrqPage ≠ 0) :
    ownPages t (L.zoneRoot pid) L.kernelTables (512 * 505) =
      [nextFreePage (pageTaken s), nextFreePage s] := by
  obtain ⟨⟨e, hleaf, he⟩, e', hleaf', he'⟩ := h.leaf_stack ht
  obtain ⟨huser, huser'⟩ := isUserPage_stack L
  have hfirst : ownPages t (L.zoneRoot pid) L.kernelTables 0x3f1fe = [] :=
    ownPages_of_shared (Nat.zero_le _) fun v _ hlt e hleaf hrow ↦
      h.counter_child_ne ht htimer hrow (by omega) (by omega) hleaf
  have hone : getBindCounter t (nextFreePage s) = 1 := (h.counter_taken ht (.inl rfl)).1
  have hone' : getBindCounter t (nextFreePage (pageTaken s)) = 1 :=
    (h.counter_taken ht (.inr rfl)).1
  rw [ownPages_succ hleaf, ownPages_succ hleaf', hfirst, he, he', if_pos ⟨huser.1, hone⟩,
    if_pos ⟨huser'.1, hone'⟩]
  rfl

/-- The fork has taken two pages from the map. -/
theorem physicalMemoryMap_forked (h : Forkable L sys live pid s p p')
    (ht : Forked L s t pid (L.zoneRoot (getParentPid sys pid)) p p') :
    t.physicalMemoryMap = { s.physicalMemoryMap with head := s.physicalMemoryMap.head + 1 + 1 } ∧
      t.physicalMemoryMap.head.toNat = s.physicalMemoryMap.head.toNat + 2 := by
  have hmap : t.physicalMemoryMap = { s.physicalMemoryMap with
      head := s.physicalMemoryMap.head + 1 + 1 } := by
    rw [ht.fixed]
    rfl
  have hhead : s.physicalMemoryMap.head.toNat < s.physicalMemoryMap.size.toNat := h.free.head
  have hhead' : (s.physicalMemoryMap.head + 1).toNat < s.physicalMemoryMap.size.toNat :=
    h.free.head'
  have hsize := s.physicalMemoryMap.size.isLt
  have hone : (1 : BitVec 32).toNat = 1 := rfl
  rw [BitVec.toNat_add, hone] at hhead'
  refine ⟨hmap, ?_⟩
  rw [hmap, BitVec.toNat_add, BitVec.toNat_add, hone]
  omega

/-- The exit puts the two pages back where the fork took them from. -/
theorem foldl_pushPage_forked (h : Forkable L sys live pid s p p')
    (ht : Forked L s t pid (L.zoneRoot (getParentPid sys pid)) p p') :
    [nextFreePage (pageTaken s), nextFreePage s].foldl pushPage t.physicalMemoryMap =
      s.physicalMemoryMap := by
  have hback (x : BitVec 32) : (x.setWidth 64).setWidth 32 = x := by
    rw [BitVec.setWidth_setWidth_of_le x (by omega), BitVec.setWidth_eq]
  have hlast (m : PhysicalMemoryMap) :
      pushPage { m with head := m.head + 1 } ((m.map m.head.toNat).setWidth 64) = m := by
    rw [pushPage]
    dsimp only
    rw [BitVec.add_sub_cancel, hback, Function.update_eq_self]
  rw [(h.physicalMemoryMap_forked ht).1, List.foldl_cons, List.foldl_cons, List.foldl_nil]
  refine (congrArg (pushPage · (nextFreePage s)) ?_).trans (hlast s.physicalMemoryMap)
  exact hlast { s.physicalMemoryMap with head := s.physicalMemoryMap.head + 1 }

theorem exitReady (h : Forkable L sys live pid s p p')
    (ht : Forked L s t pid (L.zoneRoot (getParentPid sys pid)) p p')
    (htimer : getBindCounter s timerIrqPage ≠ 0) (asid : Word) :
    ExitReady { t with ttbr0El1 := asid } (L.zoneRoot pid) L.kernelTables where
  tables := ht.tables
  once _ _ hu hultu hv hvlt _ hframe hframe' :=
    h.once_child ht (isBoundPage hu hultu) (isBoundPage hv hvlt) hframe hframe'
  room := by
    have hhead := (h.physicalMemoryMap_forked ht).2
    rw [ownPages_setTtbr0El1, h.ownPages_child ht htimer]
    change 2 ≤ t.physicalMemoryMap.head.toNat
    omega

/-- `process_exit` after `c_init_mmu`, once `TTBR0_EL1` has the number of the process. -/
theorem processExit_forked (h : Forkable L sys live pid s p p')
    (ht : Forked L s t pid (L.zoneRoot (getParentPid sys pid)) p p')
    (htimer : getBindCounter s timerIrqPage ≠ 0) (hmanager : pid ≠ memManagerPid) {asid : Word}
    (hasid : BitVec.ofNat 64 pid.val = (asid &&& mask 63 48) >>> 48) :
    ∃ u, processExit pid { t with ttbr0El1 := asid } = .ok u ∧
      Exited { t with ttbr0El1 := asid } u (L.zoneRoot pid) L.kernelTables 505 (512 * 505) ∧
      u.physicalMemoryMap = s.physicalMemoryMap := by
  obtain ⟨hend, hle⟩ := L.toNat_endAddr_tables
  have hroot : t.lvl2TableAddress = L.zoneRoot pid := by rw [ht.fixed]; rfl
  have hid : t.idPagingSize = L.endAddr := by rw [ht.fixed]; rfl
  have hrow : (granule * 512).toNat = 0x200000 := by decide
  have hrows : (t.idPagingSize / (granule * 512)).toNat = L.kernelTables := by
    rw [hid, BitVec.toNat_udiv, hend, hrow]
    omega
  have hready := h.exitReady ht htimer asid
  rw [← hroot] at hready
  obtain ⟨u, hexit, hu⟩ :=
    processExit_eq hready hrows (by omega) ⟨h.process.1, h.process.2, hmanager⟩ hasid
  have hu' : Exited { t with ttbr0El1 := asid } u (L.zoneRoot pid) L.kernelTables 505 (512 * 505) :=
    hroot ▸ hu
  have hback := h.foldl_pushPage_forked ht
  refine ⟨u, hexit, hu', ?_⟩
  rw [hu'.map, ownPages_setTtbr0El1, h.ownPages_child ht htimer]
  exact hback

/-- The counters after the exit are those before the fork. -/
theorem counter_exited (h : Forkable L sys live pid s p p')
    (ht : Forked L s t pid (L.zoneRoot (getParentPid sys pid)) p p') {asid : Word}
    (hu : Exited { t with ttbr0El1 := asid } u (L.zoneRoot pid) L.kernelTables 505 (512 * 505))
    (hgpio : pa.toNat / 0x1000 ∉ gpioPages) : getBindCounter u pa = getBindCounter s pa := by
  have hcount := hu.counter pa
  have hsame : getBindCounter { t with ttbr0El1 := asid } pa = getBindCounter t pa := rfl
  rw [hsame] at hcount
  by_cases hmapped : ∃ v, L.kernelTables ≤ v / 512 ∧ v < 512 * 505 ∧
      frameOf t.words (L.zoneRoot pid) v = some (pa.toNat / 0x1000)
  · obtain ⟨v, hrow, hlt, hframe⟩ := hmapped
    have hcard :
        (mappedTo t.words (L.zoneRoot pid) L.kernelTables (pa.toNat / 0x1000) (512 * 505)).card =
        1 := by
      refine Finset.card_eq_one.mpr ⟨v, Finset.ext fun x ↦ ?_⟩
      simp only [mappedTo, Finset.mem_filter, Finset.mem_range, Finset.mem_singleton]
      exact ⟨fun hx ↦ h.once_child ht (isBoundPage hx.2.1 hx.1) (isBoundPage hrow hlt) hx.2.2
        hframe, fun hx ↦ hx ▸ ⟨hlt, hrow, hframe⟩⟩
    rw [hcount, hcard, h.counter_held ht (isBoundPage hrow hlt) hframe]
    exact BitVec.add_sub_cancel _ _
  · have hnone (v : ℕ) (hrow : L.kernelTables ≤ v / 512) (hlt : v < 512 * 505) :
        frameOf t.words (L.zoneRoot pid) v ≠ some (pa.toNat / 0x1000) := fun hframe ↦
      hmapped ⟨v, hrow, hlt, hframe⟩
    have hempty : mappedTo t.words (L.zoneRoot pid) L.kernelTables (pa.toNat / 0x1000) (512 * 505) =
        ∅ := by
      refine Finset.eq_empty_of_forall_notMem fun v hv ↦ ?_
      simp only [mappedTo, Finset.mem_filter, Finset.mem_range] at hv
      exact hnone v hv.2.1 hv.1 hv.2.2
    rw [hcount, hempty, Finset.card_empty, h.counter_other ht hgpio hnone]
    exact BitVec.sub_zero _

end Forkable

end SysresOs.Mmu
