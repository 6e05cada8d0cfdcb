import SysresOs.Memory.Stray

/-!
# The exit of a process

The double loop of `process_exit` over the tables of a process. `Exited` is its invariant, indexed
by the level-2 entry and the page reached: the pages below it are not mapped any more, each is
counted once less, and the physical pages that were bound nowhere else are back in the free map, the
last one first.
-/

set_option autoImplicit false
set_option relaxedAutoImplicit false

namespace SysresOs.Mmu

open SysresOs.Loop SysresOs.Outcome

open SysresOs.Proc (Pid SystemState kernelPid initPid)

/-- The pages from the level-2 entry `n` up to `k` that are mapped to the physical page number
`f`. -/
def mappedTo (w : ℕ → Word) (root : Word) (n f k : ℕ) : Finset ℕ :=
  (Finset.range k).filter fun v ↦ n ≤ v / 512 ∧ frameOf w root v = some f

/-- The free map after a physical page is put back. -/
def pushPage (m : PhysicalMemoryMap) (pa : Word) : PhysicalMemoryMap :=
  { m with
    head := m.head - 1
    map := Function.update m.map (m.head - 1).toNat (pa.setWidth 32) }

/-- The physical pages of the pages from the level-2 entry `n` up to `k` that are bound once. -/
def ownPages (s : MmuState) (root : Word) (n : ℕ) : ℕ → List Word
  | 0 => []
  | k + 1 =>
    match leaf s.words root k with
    | some e =>
      if n ≤ k / 512 ∧ getBindCounter s (entryAddress e) = 1
        then ownPages s root n k ++ [entryAddress e]
      else ownPages s root n k
    | none => ownPages s root n k

variable {s t : MmuState} {root r pa e : Word} {n m i j k v f : ℕ}

/-! ### The free map -/

theorem head_foldl_pushPage (l : List Word) (m : PhysicalMemoryMap) (h : l.length ≤ m.head.toNat) :
    (l.foldl pushPage m).head.toNat = m.head.toNat - l.length := by
  induction l generalizing m with
  | nil => rfl
  | cons pa l ih =>
    have hone : (1 : BitVec 32).toNat = 1 := rfl
    have hlt := m.head.isLt
    rw [List.length_cons] at h
    have hhead : (pushPage m pa).head.toNat = m.head.toNat - 1 := by
      rw [pushPage, BitVec.toNat_sub, hone]
      omega
    rw [List.foldl_cons, ih _ (by omega), hhead, List.length_cons]
    omega

theorem ownPages_succ (h : leaf s.words root k = some e) : ownPages s root n (k + 1) =
    if n ≤ k / 512 ∧ getBindCounter s (entryAddress e) = 1
    then ownPages s root n k ++ [entryAddress e] else ownPages s root n k := by
  rw [ownPages, h]

theorem ownPages_succ_of_none (h : leaf s.words root k = none) :
    ownPages s root n (k + 1) = ownPages s root n k := by
  rw [ownPages, h]

theorem length_ownPages_le (s : MmuState) (root : Word) (n : ℕ) (h : k ≤ m) :
    (ownPages s root n k).length ≤ (ownPages s root n m).length := by
  induction m, h using Nat.le_induction with
  | base => exact le_rfl
  | succ m _ ih =>
    refine ih.trans ?_
    cases hleaf : leaf s.words root m with
    | none => rw [ownPages_succ_of_none hleaf]
    | some e =>
      rw [ownPages_succ hleaf]
      split_ifs
      · rw [List.length_append]
        omega
      · exact le_rfl

theorem ownPages_setTtbr0El1 (s : MmuState) (asid root : Word) (n k : ℕ) :
    ownPages { s with ttbr0El1 := asid } root n k = ownPages s root n k := by
  induction k with
  | zero => rfl
  | succ k ih =>
    rw [ownPages, ownPages, ih]
    rfl

/-- Pages that are not bound once add nothing. -/
theorem ownPages_of_shared (hle : k ≤ m)
    (h : ∀ v, k ≤ v → v < m → ∀ e, leaf s.words root v = some e →
    n ≤ v / 512 → getBindCounter s (entryAddress e) ≠ 1) : ownPages s root n m =
    ownPages s root n k := by
  induction m, hle using Nat.le_induction with
  | base => rfl
  | succ m hle ih =>
    rw [← ih fun v hv hlt ↦ h v hv (by omega)]
    cases hleaf : leaf s.words root m with
    | none => rw [ownPages_succ_of_none hleaf]
    | some e => rw [ownPages_succ hleaf, if_neg fun hand ↦ h m hle (by omega) e hleaf hand.1 hand.2]

/-- `decr_and_free_physical_page` puts a page back that is bound once. -/
theorem decrAndFreePhysicalPage_pushPage (s : MmuState) (haligned : pa.toNat % 0x1000 = 0)
    (hhead : getBindCounter s pa = 1 → 0 < s.physicalMemoryMap.head) :
    decrAndFreePhysicalPage s pa = .ok { setBindCounter s pa (getBindCounter s pa - 1) with
      physicalMemoryMap :=
        if getBindCounter s pa = 1 then pushPage s.physicalMemoryMap pa
          else s.physicalMemoryMap } := by
  by_cases hone : getBindCounter s pa = 1
  · rw [decrAndFreePhysicalPage_eq s pa hone (hhead hone) haligned, if_pos hone, hone]
    rfl
  · have hne : getBindCounter (decrementBindCounter s pa) pa ≠ 0 := by
      rw [decrementBindCounter, getBindCounter_setBindCounter, if_pos rfl]
      exact fun hzero ↦ hone (by rw [← sub_eq_zero]; exact hzero)
    rw [decrAndFreePhysicalPage, if_neg hone]
    dsimp only
    rw [if_neg hne]
    rfl

/-- The state after `free_virtual_page` on a mapped page. -/
def pageDropped (s : MmuState) (v : ℕ) (pa : Word) : MmuState :=
  { setBindCounter s pa (getBindCounter s pa - 1) with
    words := invalidate s.words s.lvl2TableAddress v
    physicalMemoryMap :=
      if getBindCounter s pa = 1 then pushPage s.physicalMemoryMap pa else s.physicalMemoryMap }

theorem freeVirtualPage_pageDropped {va : Word} (hroot : Rooted s.lvl2TableAddress)
    (hva : va.toNat < 2 ^ 30) (hleaf : leaf s.words s.lvl2TableAddress (page va) = some e)
    (hid : s.idPagingSize ≤ entryAddress e)
    (hhead : getBindCounter s (entryAddress e) = 1 → 0 < s.physicalMemoryMap.head) :
    freeVirtualPage s va = .ok (pageDropped s (page va) (entryAddress e), 0) := by
  have hpresent := (leaf_eq_some hleaf).1
  have hfree := decrAndFreePhysicalPage_pushPage
    { s with words := invalidate s.words s.lvl2TableAddress (page va) } (entryAddress_aligned e)
    hhead
  rw [freeVirtualPage, getAddressSg1_lvl3 hroot hva hleaf, setInvalidEntry_lvl3 hroot hva hpresent]
  dsimp only
  rw [assert_pos hid, ok_bind, hfree, errorCode_lvl3 hroot hva hpresent]
  rfl

theorem Configured.pageDropped {L : Layout} (h : Configured L s) :
    Configured L (pageDropped s v pa) := by
  refine ⟨h.idPagingSize, ?_, ?_⟩
  · rw [Mmu.pageDropped]
    split_ifs
    · exact h.bindCounter
    · exact h.bindCounter
  · rw [Mmu.pageDropped]
    split_ifs
    · exact h.bindCounterOffset
    · exact h.bindCounterOffset

theorem getBindCounter_pageDropped (s : MmuState) (v : ℕ) (pa q : Word) :
    getBindCounter (pageDropped s v pa) q =
      if q.toNat / 0x1000 = pa.toNat / 0x1000 then getBindCounter s pa - 1
        else getBindCounter s q := by
  rw [← getBindCounter_setBindCounter, pageDropped]
  split_ifs
  · rfl
  · rfl

/-! ### The invariant -/

/-- The pages from the level-2 entry `n` up to `GPIO_BASE` are mapped to different physical pages,
and there is room in the free map for those that are bound once. -/
structure ExitReady (s : MmuState) (root : Word) (n : ℕ) : Prop where
  tables : ZoneTables s.words root n
  once : ∀ u v, n ≤ u / 512 → u < 512 * 505 → n ≤ v / 512 → v < 512 * 505 → ∀ f,
    frameOf s.words root u = some f → frameOf s.words root v = some f → u = v
  room : (ownPages s root n (512 * 505)).length ≤ s.physicalMemoryMap.head.toNat

/-- The state `t` of the loop of `process_exit` that has been started in `s`, has left the level-2
entries from `n` up to `i` behind and has reached the page `k`. -/
structure Exited (s t : MmuState) (root : Word) (n i k : ℕ) : Prop where
  fixed : t = { s with
    words := t.words, counters := t.counters, physicalMemoryMap := t.physicalMemoryMap }
  tables : ZoneTables t.words root n
  present_eq : ∀ x, n ≤ x → x < 505 → present t.words root x = if x < i then false
    else present s.words root x
  kept : ∀ v, n ≤ v / 512 → v < 512 * 505 → k ≤ v ∨ present s.words root (v / 512) = false →
    t.words (zonePlace root v) = s.words (zonePlace root v)
  cleared : ∀ v, n ≤ v / 512 → v < k → present s.words root (v / 512) = true →
    isBlockEntry (t.words (zonePlace root v)) = false
  frame : ∀ a, (∀ v, n ≤ v / 512 → v < 512 * 505 → a ≠ zonePlace root v) →
    (∀ x, n ≤ x → x < 505 → a ≠ lvl2Place root x) → t.words a = s.words a
  counter : ∀ pa, getBindCounter t pa =
    getBindCounter s pa - BitVec.ofNat 8 (mappedTo s.words root n (pa.toNat / 0x1000) k).card
  map : t.physicalMemoryMap = (ownPages s root n k).foldl pushPage s.physicalMemoryMap

theorem card_mappedTo_succ (w : ℕ → Word) (root : Word) (n f k : ℕ) :
    (mappedTo w root n f (k + 1)).card =
      (mappedTo w root n f k).card + if n ≤ k / 512 ∧ frameOf w root k = some f then 1 else 0 := by
  rw [mappedTo, mappedTo, Finset.range_add_one, Finset.filter_insert]
  split_ifs with hk
  · exact Finset.card_insert_of_notMem (by simp)
  · rfl

namespace Exited

/-- The counter of the page that is next is what it was. -/
theorem next_counter (h : Exited s t root n i k) (hready : ExitReady s root n) (hn : n ≤ k / 512)
    (hk : k < 512 * 505) (hleaf : leaf s.words root k = some e) :
    getBindCounter t (entryAddress e) = getBindCounter s (entryAddress e) := by
  have hframe : frameOf s.words root k = some ((entryAddress e).toNat / 0x1000) := by
    rw [frameOf, hleaf]
    rfl
  have hnone : mappedTo s.words root n ((entryAddress e).toNat / 0x1000) k = ∅ := by
    refine Finset.eq_empty_of_forall_notMem fun v hv ↦ ?_
    obtain ⟨hlt, hrow, hsame⟩ : v < k ∧ n ≤ v / 512 ∧ _ := by simpa [mappedTo] using hv
    have := hready.once v k hrow (by omega) hn hk _ hsame hframe
    omega
  rw [h.counter, hnone, Finset.card_empty]
  exact BitVec.sub_zero _

/-- A page that is not mapped. -/
theorem leave (h : Exited s t root n i k) (hn : n ≤ k / 512) (hk : k < 512 * 505)
    (hnone : leaf s.words root k = none) (hready : ExitReady s root n) :
    Exited s t root n i (k + 1) where
  fixed := h.fixed
  tables := h.tables
  present_eq := h.present_eq
  kept v hv hlt hkept := h.kept v hv hlt (hkept.imp_left fun hle ↦ by omega)
  cleared v hv hlt hpresent := by
    rcases Nat.lt_succ_iff_lt_or_eq.mp hlt with hlt | rfl
    · exact h.cleared v hv hlt hpresent
    · rw [h.kept v hv hk (.inl le_rfl)]
      rw [hready.tables.leaf_eq hn (by omega), hpresent] at hnone
      simpa using hnone
  frame := h.frame
  counter pa := by
    have hnot : ¬ (n ≤ k / 512 ∧ frameOf s.words root k = some (pa.toNat / 0x1000)) := by
      rintro ⟨-, hframe⟩
      rw [frameOf, hnone] at hframe
      cases hframe
    rw [card_mappedTo_succ, if_neg hnot]
    exact h.counter pa
  map := by
    rw [ownPages_succ_of_none hnone]
    exact h.map

/-- A page that is released. -/
theorem release (h : Exited s t root n i k) (hn : n ≤ k / 512) (hk : k < 512 * 505)
    (hleaf : leaf s.words root k = some e) (hready : ExitReady s root n) {x : Word}
    (hx : isBlockEntry x = false) :
    Exited s { setBindCounter t (entryAddress e) (getBindCounter t (entryAddress e) - 1) with
      words := zoneWrite t.words root k x
      physicalMemoryMap := if getBindCounter t (entryAddress e) = 1 then
          pushPage t.physicalMemoryMap (entryAddress e) else t.physicalMemoryMap } root n i
          (k + 1) := by
  have hzone := h.tables.zone
  have hk' : k < 511 * 512 := by omega
  have hcount := h.next_counter hready hn hk hleaf
  constructor
  case fixed => rw [h.fixed]; rfl
  case tables => exact h.tables.write hzone hk'
  case present_eq =>
    intro x hx hlt
    rw [ZoneTables.present_zoneWrite hzone hzone hk' (by omega), h.present_eq x hx hlt]
  case kept =>
    intro v hv hlt hkept
    have hvk : v ≠ k := by
      rintro rfl
      rcases hkept with hle | habsent
      · omega
      · rw [leaf_eq_none_of_absent habsent] at hleaf
        exact nomatch hleaf
    refine (Function.update_of_ne ?_ _ _).trans
      (h.kept v hv hlt (hkept.imp_left fun hle ↦ by omega))
    unfold zonePlace
    omega
  case cleared =>
    intro v hv hlt hpresent
    change isBlockEntry (zoneWrite t.words root k x (zonePlace root v)) = false
    rw [zoneWrite, Function.update_apply]
    split_ifs with hsame
    · exact hx
    · refine h.cleared v hv ?_ hpresent
      unfold zonePlace at hsame
      omega
  case frame =>
    intro a hplace hlvl2
    exact (Function.update_of_ne (hplace k hn hk) _ _).trans (h.frame a hplace hlvl2)
  case counter =>
    intro pa
    have hset :=
      getBindCounter_setBindCounter t (entryAddress e) pa (getBindCounter t (entryAddress e) - 1)
    have hframe : frameOf s.words root k = some ((entryAddress e).toNat / 0x1000) := by
      rw [frameOf, hleaf]
      rfl
    -- the counters are where they were
    refine Eq.trans ?_ (hset.trans ?_)
    · split_ifs <;> rfl
    rw [card_mappedTo_succ, hframe]
    by_cases hpage : pa.toNat / 0x1000 = (entryAddress e).toNat / 0x1000
    · rw [if_pos hpage, if_pos ⟨hn, by rw [hpage]⟩, ← getBindCounter_congr hpage, h.counter pa,
        BitVec.ofNat_add, sub_add_eq_sub_sub]
      rfl
    · rw [if_neg hpage, if_neg fun hand ↦ hpage (Option.some.inj hand.2).symm]
      exact h.counter pa
  case map =>
    rw [ownPages_succ hleaf, hcount, h.map]
    by_cases hone : getBindCounter s (entryAddress e) = 1
    · rw [if_pos hone, if_pos ⟨hn, hone⟩, List.foldl_append]
      rfl
    · rw [if_neg hone, if_neg fun hand ↦ hone hand.2]

/-- A level-2 entry whose table has been left behind. -/
theorem drop (h : Exited s t root n i (512 * (i + 1))) (hn : n ≤ i) (hi : i < 505) :
    Exited s { t with words := dropRow t.words root i } root n (i + 1) (512 * (i + 1)) := by
  have hzone := h.tables.zone
  constructor
  case fixed => rw [h.fixed]
  case tables => exact h.tables.drop hzone (by omega)
  case present_eq =>
    intro x hx hlt
    rw [ZoneTables.present_dropRow hzone hzone (by omega) (by omega), h.present_eq x hx hlt]
    by_cases hxi : x = i
    · rw [if_pos ⟨rfl, hxi⟩, if_pos (by omega)]
    · rw [if_neg fun hand ↦ hxi hand.2]
      exact if_congr (by omega) rfl rfl
  case kept =>
    intro v hv hlt hkept
    refine (Function.update_of_ne ?_ _ _).trans (h.kept v hv hlt hkept)
    exact (lvl2Place_ne_zonePlace hzone hzone (by omega) (by omega)).symm
  case cleared =>
    intro v hv hlt hpresent
    rw [← h.cleared v hv hlt hpresent]
    exact congrArg isBlockEntry (Function.update_of_ne
      (lvl2Place_ne_zonePlace hzone hzone (by omega) (by omega)).symm _ _)
  case frame =>
    intro a hplace hlvl2
    exact (Function.update_of_ne (hlvl2 i hn hi) _ _).trans (h.frame a hplace hlvl2)
  case counter => exact h.counter
  case map => exact h.map

/-- A level-2 entry that is not a table entry. -/
theorem pass (h : Exited s t root n i (512 * i)) (hn : n ≤ i) (hi : i < 505)
    (hready : ExitReady s root n) (habsent : present s.words root i = false) :
    Exited s t root n (i + 1) (512 * (i + 1)) := by
  have hpages : ∀ j ≤ 512, Exited s t root n i (512 * i + j) := by
    intro j hj
    induction j with
    | zero => exact h
    | succ j ih =>
      refine (ih (by omega)).leave (by omega) (by omega) (leaf_eq_none_of_absent ?_) hready
      rw [show (512 * i + j) / 512 = i by omega, habsent]
  have hlast := hpages 512 le_rfl
  exact {
    fixed := hlast.fixed
    tables := hlast.tables
    present_eq := fun x hx hlt ↦ by
      rw [hlast.present_eq x hx hlt]
      split_ifs with hbefore hnow hnow
      · rfl
      · omega
      · rw [show x = i by omega, habsent]
      · rfl
    kept := hlast.kept
    cleared := hlast.cleared
    frame := hlast.frame
    counter := hlast.counter
    map := hlast.map }

/-- One round of the inner loop of `process_exit`. -/
theorem entry (h : Exited s t root n i (512 * i + j)) (hn : n ≤ i) (hi : i < 505) (hj : j < 512)
    (hready : ExitReady s root n) (hpresent : present s.words root i = true) :
    ∃ t', (let lvl3Entry := getAddressSg1 t (root + BitVec.ofNat 64 i * 8) + BitVec.ofNat 64 j * 8
      if !isBlockEntry (t.word lvl3Entry) then .ok t
      else do
        let t ← decrAndFreePhysicalPage t (getAddressSg1 t lvl3Entry)
        .ok (setInvalidEntry t lvl3Entry)) = .ok t' ∧ Exited s t' root n i (512 * i + (j + 1)) := by
  obtain ⟨k, hk⟩ : ∃ k, k = 512 * i + j := ⟨_, rfl⟩
  obtain ⟨place, hplaceDef⟩ : ∃ place, place = getAddressSg1 t (root + BitVec.ofNat 64 i * 8) +
    BitVec.ofNat 64 j * 8 := ⟨_, rfl⟩
  have hplace := h.tables.toNat_lvl3 hn (show i < 511 by omega) hj
  have hleaf := hready.tables.leaf_eq (v := k) (by omega) (by omega)
  rw [← hplaceDef, ← hk] at hplace
  rw [← hk] at h
  rw [show k / 512 = i by omega, hpresent, ← h.kept k (by omega) (by omega) (.inl le_rfl)] at hleaf
  have hword : t.word place = t.words (zonePlace root k) := by rw [MmuState.word, hplace]
  have haddress : getAddressSg1 t place = entryAddress (t.words (zonePlace root k)) := by
    rw [getAddressSg1_eq, hword]
  rw [← hplaceDef, show 512 * i + (j + 1) = k + 1 by omega]
  dsimp only
  rw [hword, haddress]
  cases hblock : isBlockEntry (t.words (zonePlace root k)) with
  | false =>
    rw [hblock] at hleaf
    exact ⟨t, rfl, h.leave (by omega) (by omega) (by simpa using hleaf) hready⟩
  | true =>
    obtain ⟨e, he⟩ : ∃ e, e = t.words (zonePlace root k) := ⟨_, rfl⟩
    rw [hblock, ← he] at hleaf
    have hsome : leaf s.words root k = some e := by simpa using hleaf
    have hcount := h.next_counter hready (by omega) (by omega) hsome
    have hhead : getBindCounter t (entryAddress e) = 1 → 0 < t.physicalMemoryMap.head := by
      intro hone
      have hroom := hready.room
      have hle := length_ownPages_le s root n (show k + 1 ≤ 512 * 505 by omega)
      rw [ownPages_succ hsome, if_pos ⟨by omega, hcount ▸ hone⟩, List.length_append,
        List.length_singleton] at hle
      have hnat := head_foldl_pushPage (ownPages s root n k) s.physicalMemoryMap (by omega)
      rw [← h.map] at hnat
      have hzero : (0 : BitVec 32).toNat = 0 := rfl
      rw [BitVec.lt_def, hnat, hzero]
      omega
    have hfree := decrAndFreePhysicalPage_pushPage t (entryAddress_aligned e) hhead
    have hnext := h.release (by omega) (by omega) hsome hready (isBlockEntry_cleared e)
    obtain ⟨u, hu⟩ : ∃ u :
        MmuState, u =
      { setBindCounter t (entryAddress e) (getBindCounter t (entryAddress e) - 1) with
      physicalMemoryMap := if getBindCounter t (entryAddress e) = 1 then
          pushPage t.physicalMemoryMap (entryAddress e) else t.physicalMemoryMap } := ⟨_, rfl⟩
    have hwords : u.words = t.words := by rw [hu]; rfl
    have hinvalid : setInvalidEntry u place = { u with
        words := zoneWrite t.words root k (e &&& mask 63 1) } := by
      rw [setInvalidEntry, MmuState.setWord, MmuState.word, hplace, hwords, ← he, zoneWrite]
    rw [← he, if_neg (by simp), hfree, ← hu, ok_bind]
    refine ⟨_, rfl, ?_⟩
    rw [hinvalid, hu]
    exact hnext

/-- One round of the outer loop of `process_exit`. -/
theorem row (h : Exited s t root n i (512 * i)) (hroot : s.lvl2TableAddress = root)
    (hn : n ≤ i) (hi : i < 505) (hready : ExitReady s root n) :
    ∃ t', (let lvl2Entry := t.lvl2TableAddress + BitVec.ofNat 64 i * 8
      if !isTableEntry (t.word lvl2Entry) then .ok t
      else do
        let t ← forUpToM nTableEntries (fun j s ↦
          let lvl3Entry := getAddressSg1 s lvl2Entry + BitVec.ofNat 64 j * 8
          if !isBlockEntry (s.word lvl3Entry) then .ok s
          else do
            let s ← decrAndFreePhysicalPage s (getAddressSg1 s lvl3Entry)
            .ok (setInvalidEntry s lvl3Entry)) t
        .ok (setInvalidEntry t lvl2Entry)) = .ok t' ∧
        Exited s t' root n (i + 1) (512 * (i + 1)) := by
  have hroot' : t.lvl2TableAddress = root := by rw [h.fixed]; exact hroot
  have hpresent : isTableEntry (t.word (root + BitVec.ofNat 64 i * 8)) =
      present s.words root i := by
    rw [MmuState.word, h.tables.zone.toNat_lvl2 (by omega), ← present, h.present_eq i hn hi,
      if_neg (by omega)]
  dsimp only
  rw [hroot', hpresent]
  cases hrow : present s.words root i with
  | false => exact ⟨t, rfl, h.pass hn hi hready hrow⟩
  | true =>
    obtain ⟨u, hloop, hu⟩ := forUpToM_total (n := nTableEntries) (I := fun j t ↦
      Exited s t root n i (512 * i + j)) h fun j hj t ht ↦ ht.entry hn hi hj hready hrow
    refine ⟨{ u with words := Mmu.dropRow u.words root i }, ?_, hu.drop hn hi⟩
    rw [if_neg (by simp), hloop, ok_bind, hu.tables.zone.setInvalidEntry_lvl2 u (by omega)]

/-- The loop has not begun. -/
theorem start (hready : ExitReady s root n) : Exited s s root n n (512 * n) where
  fixed := rfl
  tables := hready.tables
  present_eq x hx _ := (if_neg (by omega)).symm
  kept _ _ _ _ := rfl
  cleared v hv hlt := absurd hlt (by omega)
  frame _ _ _ := rfl
  counter pa := by
    have hnone : mappedTo s.words root n (pa.toNat / 0x1000) (512 * n) = ∅ := by
      refine Finset.eq_empty_of_forall_notMem fun v hv ↦ ?_
      obtain ⟨hlt, hrow, -⟩ : v < 512 * n ∧ n ≤ v / 512 ∧ _ := by simpa [mappedTo] using hv
      omega
    rw [hnone, Finset.card_empty]
    exact (BitVec.sub_zero _).symm
  map := by
    have hnone (k : ℕ) (hk : k ≤ 512 * n) : ownPages s root n k = [] := by
      induction k with
      | zero => rfl
      | succ k ih =>
        rw [ownPages]
        split
        · rw [if_neg (by omega)]
          exact ih (by omega)
        · exact ih (by omega)
    rw [hnone _ le_rfl, List.foldl_nil]

end Exited

/-- `process_exit` of a process whose tables are at `lvl2_table_address`. -/
theorem processExit_eq {pid : Pid} (hready : ExitReady s s.lvl2TableAddress n)
    (hid : (s.idPagingSize / (granule * 512)).toNat = n) (hn : n ≤ 505)
    (hpid : pid ≠ kernelPid ∧ pid ≠ initPid ∧ pid ≠ memManagerPid)
    (hasid : BitVec.ofNat 64 pid.val = (s.ttbr0El1 &&& mask 63 48) >>> 48) :
    ∃ t, processExit pid s = .ok t ∧ Exited s t s.lvl2TableAddress n 505 (512 * 505) := by
  obtain ⟨t, hloop, ht⟩ := forUpToM_total (n := nAvailableTables - n) (s := s)
    (I := fun i t ↦ Exited s t s.lvl2TableAddress n (n + i) (512 * (n + i))) (Exited.start hready)
    fun i hi t ht ↦ ht.row rfl (by omega) (by unfold nAvailableTables at hi; omega) hready
  rw [show n + (nAvailableTables - n) = 505 by unfold nAvailableTables; omega] at ht
  have hasid' : BitVec.ofNat 64 pid.val = (t.ttbr0El1 &&& mask 63 48) >>> 48 := by
    rw [ht.fixed]
    exact hasid
  refine ⟨t, ?_, ht⟩
  rw [processExit, assert_eq_ok (by simpa using hpid), ok_bind, hid]
  dsimp only
  rw [hloop, ok_bind, assert_pos hasid']
  rfl

end SysresOs.Mmu
