import SysresOs.Memory.ZoneTables
import Mathlib.Data.Finset.Card

/-!
# Copying the tables of a parent

The double loop of `process_init_copy_and_write`. `Copied` is its invariant, indexed by the number
of the page reached: below it the child has the leaves of the parent, which are read-only on both
sides except for the two stack pages, and every copied entry is counted once.
-/

set_option autoImplicit false
set_option relaxedAutoImplicit false

namespace SysresOs.Mmu

open SysresOs.Loop SysresOs.Outcome

/-! ### What the loop does to one page -/

/-- The attributes that a fork gives the entries of parent and child. -/
def forkedAttributes : BlockAttributesSg1 :=
  newBlockAttributesSg1 (forkedPage ||| accessFlagSet) normalWtNt

/-- The number of `TIMER_IRQ_PAGE`, which the loop skips. -/
abbrev timerPage : ℕ := 0x3f00b

/-- The numbers of the stack pages, whose permissions the loop keeps. -/
abbrev IsStackPage (v : ℕ) : Prop := v = 0x3f1ff ∨ v = 0x3f1fe

/-- The entry of a page after a fork, for parent and child. -/
def forkedEntry (v : ℕ) (e : Word) : Word :=
  if IsStackPage v then e else withAttributes e forkedAttributes

/-- The number of the physical page of a virtual page. -/
def frameOf (w : ℕ → Word) (root : Word) (v : ℕ) : Option ℕ :=
  (leaf w root v).map fun e ↦ (entryAddress e).toNat / 0x1000

/-- The pages from the level-2 entry `n` up to `k` that the loop copies and that are mapped to the
physical page number `f`. -/
def copiedTo (w : ℕ → Word) (root : Word) (n f k : ℕ) : Finset ℕ :=
  (Finset.range k).filter fun v ↦ n ≤ v / 512 ∧ v ≠ timerPage ∧ frameOf w root v = some f

/-- The state `t` of the loop of `process_init_copy_and_write` that has been started in `s` and has
reached the page `k`, for the tables from the level-2 entry `n` on of a parent and a child. -/
structure Copied (s t : MmuState) (parent child : Word) (n k : ℕ) : Prop where
  fixed : t = { s with words := t.words, counters := t.counters }
  parentTables : ZoneTables t.words parent n
  childTables : ZoneTables t.words child n
  parentPresent : ∀ i < 512, present t.words parent i = present s.words parent i
  childPresent : ∀ i, n ≤ i → i < 505 → (k ≤ 512 * i ∨ present s.words parent i = true) →
    present t.words child i = true
  childAbsent : ∀ i, n ≤ i → 512 * (i + 1) ≤ k → present s.words parent i = false →
    present t.words child i = false
  childStale : ∀ v, n ≤ v / 512 → v < 512 * 505 → present s.words parent (v / 512) = false →
    t.words (zonePlace child v) = s.words (zonePlace child v)
  parentLeaf : ∀ v, n ≤ v / 512 → v < 512 * 505 → leaf t.words parent v =
    if v < k ∧ v ≠ timerPage then (leaf s.words parent v).map (forkedEntry v)
      else leaf s.words parent v
  childLeaf : ∀ v, n ≤ v / 512 → v < k → v ≠ timerPage → leaf t.words child v =
    (leaf s.words parent v).map (forkedEntry v)
  childTimer : n ≤ timerPage / 512 → leaf t.words child timerPage = none ∨
    leaf t.words child timerPage = leaf s.words child timerPage
  frame : ∀ a, (∀ v, n ≤ v / 512 → v < 512 * 505 → (v ≠ timerPage → a ≠ zonePlace parent v) ∧
    a ≠ zonePlace child v) → (∀ i, n ≤ i → i < 505 → a ≠ lvl2Place child i) → t.words a = s.words a
  pointers : ∀ a, a < child.toNat ∨ child.toNat + 0x200000 ≤ a →
    pointer (t.words a) = pointer (s.words a)
  counter : ∀ pa, getBindCounter t pa =
    getBindCounter s pa + BitVec.ofNat 8 (copiedTo s.words parent n (pa.toNat / 0x1000) k).card

variable {s t : MmuState} {parent child : Word} {n i j k v : ℕ} {e : Word}

theorem isBlockEntry_forkedEntry (h : isBlockEntry e = true) :
    isBlockEntry (forkedEntry v e) = true := by
  unfold forkedEntry
  split_ifs
  · exact h
  · exact isBlockEntry_withAttributes _ _

theorem entryAddress_forkedEntry (v : ℕ) (e : Word) :
    entryAddress (forkedEntry v e) = entryAddress e := by
  unfold forkedEntry
  split_ifs
  · rfl
  · exact entryAddress_withAttributes e forkedAttributes

theorem pointer_forkedEntry (h : isBlockEntry e = true) :
    pointer (forkedEntry v e) = pointer e := by
  rw [pointer, pointer, if_pos (isBlockEntry_forkedEntry h), if_pos h, entryAddress_forkedEntry]

theorem card_copiedTo_succ (w : ℕ → Word) (root : Word) (n f k : ℕ) :
    (copiedTo w root n f (k + 1)).card = (copiedTo w root n f k).card +
      if n ≤ k / 512 ∧ k ≠ timerPage ∧ frameOf w root k = some f then 1 else 0 := by
  rw [copiedTo, copiedTo, Finset.range_add_one, Finset.filter_insert]
  split_ifs with hk
  · exact Finset.card_insert_of_notMem (by simp)
  · rfl

/-- The address of a level-3 entry of a zone. -/
theorem ZoneTables.toNat_lvl3 {root : Word} (h : ZoneTables t.words root n)
    (hn : n ≤ i) (hi : i < 511) (hj : j < 512) :
    (getAddressSg1 t (root + BitVec.ofNat 64 i * 8) + BitVec.ofNat 64 j * 8).toNat =
      zonePlace root (512 * i + j) := by
  have hbounded := h.zone.bounded
  have height : (8 : Word).toNat = 8 := rfl
  have htable := h.table_eq i hn hi
  rw [table] at htable
  rw [BitVec.toNat_add, BitVec.toNat_mul, BitVec.toNat_ofNat, height,
    getAddressSg1_eq, MmuState.word, h.zone.toNat_lvl2 (by omega), htable, zonePlace]
  omega

theorem setWord_zone {root a e : Word} (h : a.toNat = zonePlace root v) :
    t.setWord a e = { t with words := zoneWrite t.words root v e } := by
  rw [MmuState.setWord, h, zoneWrite]

theorem word_zoneWrite {root a e : Word} {w : ℕ → Word} (h : a.toNat = zonePlace root v) :
    ({ t with words := zoneWrite w root v e } : MmuState).word a = e := by
  rw [MmuState.word, h]
  exact Function.update_self ..

namespace Copied

/-- The parent's entry of the next page. -/
theorem next_leaf (h : Copied s t parent child n k) (hn : n ≤ k / 512) (hk : k < 512 * 505) :
    leaf t.words parent k = leaf s.words parent k := by
  rw [h.parentLeaf k hn hk, if_neg (by omega)]

/-- The level-2 entries stay those of the invariant whatever is written to the entries of a page
that the parent has a table for. -/
theorem next_absent (h : Copied s t parent child n k)
    (hpresent : present s.words parent (k / 512) = true)
    (hi : n ≤ i) (hle : 512 * (i + 1) ≤ k + 1) (habsent : present s.words parent i = false) :
    present t.words child i = false := by
  have hik : i ≠ k / 512 := fun heq ↦ by
    rw [heq, hpresent] at habsent
    exact nomatch habsent
  exact h.childAbsent i hi (by omega) habsent

theorem next_stale (h : Copied s t parent child n k) (hk : k < 511 * 512)
    (hpresent : present s.words parent (k / 512) = true) {w : ℕ → Word}
    (hw : ∀ v, n ≤ v / 512 → v < 512 * 505 → w (zonePlace child v) = t.words (zonePlace child v))
    (hv : n ≤ v / 512) (hlt : v < 512 * 505) (habsent : present s.words parent (v / 512) = false) :
    zoneWrite w child k e (zonePlace child v) = s.words (zonePlace child v) := by
  have hchild := h.childTables.zone
  have hplace : zonePlace child v ≠ zonePlace child k := fun heq ↦ by
    rw [((zonePlace_inj hchild hchild (by omega) (by omega)).mp heq).2, hpresent] at habsent
    exact nomatch habsent
  rw [zoneWrite, Function.update_of_ne hplace, hw v hv hlt]
  exact h.childStale v hv hlt habsent

/-- A page that the parent does not map, or that is skipped. -/
theorem leave (h : Copied s t parent child n k) (hne : parent ≠ child) (hn : n ≤ k / 512)
    (hk : k < 512 * 505) (hpresent : present s.words parent (k / 512) = true)
    (hnone : leaf s.words parent k = none) (hblock : isBlockEntry e = false) :
    Copied s { t with words := zoneWrite t.words child k e } parent child n (k + 1) := by
  have hparent := h.parentTables.zone
  have hchild := h.childTables.zone
  have hk' : k < 511 * 512 := by omega
  constructor
  case fixed => rw [h.fixed]
  case parentTables => exact h.parentTables.write hchild hk'
  case childTables => exact h.childTables.write hchild hk'
  case parentPresent =>
    intro i hi
    rw [ZoneTables.present_zoneWrite hchild hparent hk' hi, h.parentPresent i hi]
  case childPresent =>
    intro i hi hlt hrow
    rw [ZoneTables.present_zoneWrite hchild hchild hk' (by omega)]
    exact h.childPresent i hi hlt (hrow.imp_left fun hle ↦ by omega)
  case childAbsent =>
    intro i hi hle habsent
    rw [ZoneTables.present_zoneWrite hchild hchild hk' (by omega)]
    exact h.next_absent hpresent hi hle habsent
  case childStale =>
    intro v hv hlt habsent
    exact h.next_stale hk' hpresent (fun _ _ _ ↦ rfl) hv hlt habsent
  case parentLeaf =>
    intro v hv hlt
    rw [h.parentTables.leaf_zoneWrite hchild hk' hv (by omega), if_neg fun hsame ↦ hne hsame.1,
      h.parentLeaf v hv hlt]
    by_cases hvk : v = k
    · rw [hvk, hnone, Option.map_none, ite_self, ite_self]
    · exact if_congr (by omega) rfl rfl
  case childLeaf =>
    intro v hv hlt hne'
    rw [h.childTables.leaf_zoneWrite hchild hk' hv (by omega)]
    split_ifs with hsame hvalid
    · rw [hblock] at hvalid
      exact nomatch hvalid.2
    · rw [hsame.2, hnone]
      rfl
    · have hvk : v ≠ k := fun heq ↦ hsame ⟨rfl, heq⟩
      exact h.childLeaf v hv (by omega) hne'
  case childTimer =>
    intro hrow
    rw [h.childTables.leaf_zoneWrite hchild hk' hrow (by decide)]
    split_ifs with hsame hvalid
    · rw [hblock] at hvalid
      exact nomatch hvalid.2
    · exact .inl rfl
    · exact h.childTimer hrow
  case frame =>
    intro a hzone hlvl2
    exact (Function.update_of_ne (hzone k hn hk).2 _ _).trans (h.frame a hzone hlvl2)
  case pointers =>
    intro a ha
    rw [← h.pointers a ha]
    exact congrArg pointer (Function.update_of_ne (by unfold zonePlace; omega) _ _)
  case counter =>
    intro pa
    have hnot :
        ¬ (n ≤ k / 512 ∧ k ≠ timerPage ∧ frameOf s.words parent k = some (pa.toNat / 0x1000)) := by
      rintro ⟨-, -, hframe⟩
      rw [frameOf, hnone] at hframe
      exact nomatch hframe
    rw [card_copiedTo_succ, if_neg hnot]
    exact h.counter pa

/-- The page of the timer, which the loop skips. -/
theorem skip (h : Copied s t parent child n k) (hk : k = timerPage) :
    Copied s t parent child n (k + 1) where
  fixed := h.fixed
  parentTables := h.parentTables
  childTables := h.childTables
  parentPresent := h.parentPresent
  childPresent i hi hlt hrow := h.childPresent i hi hlt (hrow.imp_left fun hle ↦ by omega)
  childAbsent i hi hle habsent := by
    have htimer : timerPage = 0x3f00b := rfl
    exact h.childAbsent i hi (by omega) habsent
  childStale := h.childStale
  parentLeaf v hv hlt := by
    rw [h.parentLeaf v hv hlt]
    exact if_congr (by omega) rfl rfl
  childLeaf v hv hlt hne := h.childLeaf v hv (by omega) hne
  childTimer := h.childTimer
  frame := h.frame
  pointers := h.pointers
  counter pa := by
    rw [card_copiedTo_succ, if_neg fun hcopied ↦ hcopied.2.1 hk]
    exact h.counter pa

/-- The words after a page is copied: its entry is written for the parent and for the child. -/
def copiedWords (w : ℕ → Word) (parent child : Word) (k : ℕ) (e : Word) : ℕ → Word :=
  zoneWrite (zoneWrite w parent k (forkedEntry k e)) child k (forkedEntry k e)

theorem present_copiedWords {w : ℕ → Word} {root : Word} (hparent : ZoneRoot parent)
    (hchild : ZoneRoot child) (hroot : ZoneRoot root) (hk : k < 511 * 512) (hi : i < 512) :
    present (copiedWords w parent child k e) root i = present w root i := by
  rw [copiedWords, ZoneTables.present_zoneWrite hchild hroot hk hi,
    ZoneTables.present_zoneWrite hparent hroot hk hi]

/-- The leaves of both after a page is copied. -/
theorem leaf_copiedWords (h : Copied s t parent child n k) (hn : n ≤ k / 512) (hk : k < 512 * 505)
    (hsome : leaf s.words parent k = some e) {root : Word} (hroot : ZoneTables t.words root n)
    (hv : n ≤ v / 512) (hlt : v < 511 * 512) :
    leaf (copiedWords t.words parent child k e) root v =
      if (root = child ∨ root = parent) ∧ v = k then some (forkedEntry k e)
        else leaf t.words root v := by
  have hparent := h.parentTables.zone
  have hchild := h.childTables.zone
  have hk' : k < 511 * 512 := by omega
  obtain ⟨hpresent, -, hblock⟩ := leaf_eq_some hsome
  have hblock' := isBlockEntry_forkedEntry (v := k) hblock
  have hpresent' : present t.words parent (k / 512) = true := by
    rw [h.parentPresent _ (by omega), hpresent]
  have hpresent'' :
      present (zoneWrite t.words parent k (forkedEntry k e)) child (k / 512) = true := by
    rw [ZoneTables.present_zoneWrite hparent hchild hk' (by omega)]
    exact h.childPresent _ hn (by omega) (.inr hpresent)
  rw [copiedWords, (hroot.write hparent hk').leaf_zoneWrite hchild hk' hv hlt,
    hroot.leaf_zoneWrite hparent hk' hv hlt]
  by_cases hvk : v = k
  · by_cases hrootChild : root = child
    · rw [if_pos ⟨hrootChild, hvk⟩, if_pos ⟨hpresent'', hblock'⟩, if_pos ⟨.inl hrootChild, hvk⟩]
    · rw [if_neg fun hsame ↦ hrootChild hsame.1]
      by_cases hrootParent : root = parent
      · rw [if_pos ⟨hrootParent, hvk⟩, if_pos ⟨hpresent', hblock'⟩, if_pos ⟨.inr hrootParent, hvk⟩]
      · rw [if_neg fun hsame ↦ hrootParent hsame.1,
          if_neg fun hsame ↦ hsame.1.elim hrootChild hrootParent]
  · rw [if_neg fun hsame ↦ hvk hsame.2, if_neg fun hsame ↦ hvk hsame.2,
      if_neg fun hsame ↦ hvk hsame.2]

/-- The parent's word of a page that is copied. -/
theorem word_next (h : Copied s t parent child n k) (hn : n ≤ k / 512) (hk : k < 512 * 505)
    (hsome : leaf s.words parent k = some e) : t.words (zonePlace parent k) = e := by
  obtain ⟨-, hword, -⟩ := leaf_eq_some ((h.next_leaf hn hk).trans hsome)
  rwa [h.parentTables.lvl3Place_eq hn (by omega)] at hword

theorem pointer_copiedWords (h : Copied s t parent child n k) (hn : n ≤ k / 512)
    (hk : k < 512 * 505) (hsome : leaf s.words parent k = some e) {a : ℕ}
    (ha : a < child.toNat ∨ child.toNat + 0x200000 ≤ a) :
    pointer (copiedWords t.words parent child k e a) = pointer (t.words a) := by
  have hchildPlace : a ≠ zonePlace child k := by
    unfold zonePlace
    omega
  rw [copiedWords, zoneWrite, Function.update_of_ne hchildPlace, zoneWrite, Function.update_apply]
  split_ifs with hparentPlace
  · rw [hparentPlace, h.word_next hn hk hsome, pointer_forkedEntry (leaf_eq_some hsome).2.2]
  · rfl

/-- The count of a page that is copied. -/
theorem counter_copied (h : Copied s t parent child n k) (hn : n ≤ k / 512)
    (hsome : leaf s.words parent k = some e) (htimer : k ≠ timerPage) (pa : Word) :
    getBindCounter (setBindCounter t (entryAddress e) (getBindCounter t (entryAddress e) + 1)) pa =
      getBindCounter s pa +
        BitVec.ofNat 8 (copiedTo s.words parent n (pa.toNat / 0x1000) (k + 1)).card := by
  have hframe : frameOf s.words parent k = some ((entryAddress e).toNat / 0x1000) := by
    rw [frameOf, hsome]
    rfl
  rw [getBindCounter_setBindCounter, card_copiedTo_succ, hframe]
  by_cases hpage : pa.toNat / 0x1000 = (entryAddress e).toNat / 0x1000
  · have hsame : getBindCounter t (entryAddress e) = getBindCounter t pa := by
      rw [getBindCounter, getBindCounter, getBindCounterAddress_inj.mpr hpage]
    rw [if_pos hpage, hsame, h.counter pa, if_pos ⟨hn, htimer, by rw [hpage]⟩, BitVec.ofNat_add,
      BitVec.add_assoc]
    rfl
  · rw [if_neg hpage, if_neg fun hcopied ↦ hpage (Option.some.inj hcopied.2.2).symm]
    exact h.counter pa

/-- A page that is copied. -/
theorem copy (h : Copied s t parent child n k) (hne : parent ≠ child) (hn : n ≤ k / 512)
    (hk : k < 512 * 505) (hsome : leaf s.words parent k = some e) (htimer : k ≠ timerPage) :
    Copied s
      { setBindCounter t (entryAddress e) (getBindCounter t (entryAddress e) + 1) with
        words := copiedWords t.words parent child k e }
      parent child n (k + 1) := by
  have hparent := h.parentTables.zone
  have hchild := h.childTables.zone
  have hk' : k < 511 * 512 := by omega
  have hpresent : present s.words parent (k / 512) = true := (leaf_eq_some hsome).1
  constructor
  case fixed => rw [h.fixed]; rfl
  case parentTables => exact (h.parentTables.write hparent hk').write hchild hk'
  case childTables => exact (h.childTables.write hparent hk').write hchild hk'
  case parentPresent =>
    intro i hi
    rw [present_copiedWords hparent hchild hparent hk' hi, h.parentPresent i hi]
  case childPresent =>
    intro i hi hlt hrow
    rw [present_copiedWords hparent hchild hchild hk' (by omega)]
    exact h.childPresent i hi hlt (hrow.imp_left fun hle ↦ by omega)
  case childAbsent =>
    intro i hi hle habsent
    rw [present_copiedWords hparent hchild hchild hk' (by omega)]
    exact h.next_absent hpresent hi hle habsent
  case childStale =>
    intro v hv hlt habsent
    refine h.next_stale hk' hpresent (fun u hu hlt' ↦ ?_) hv hlt habsent
    exact Function.update_of_ne
      (fun heq ↦ hne ((zonePlace_inj hparent hchild (by omega) (by omega)).mp heq).1.symm) ..
  case parentLeaf =>
    intro v hv hlt
    rw [h.leaf_copiedWords hn hk hsome h.parentTables hv (by omega)]
    by_cases hvk : v = k
    · rw [if_pos ⟨.inr rfl, hvk⟩, if_pos ⟨by omega, by omega⟩, hvk, hsome]
      rfl
    · rw [if_neg fun hsame ↦ hvk hsame.2, h.parentLeaf v hv hlt]
      exact if_congr (by omega) rfl rfl
  case childLeaf =>
    intro v hv hlt hne'
    rw [h.leaf_copiedWords hn hk hsome h.childTables hv (by omega)]
    by_cases hvk : v = k
    · rw [if_pos ⟨.inl rfl, hvk⟩, hvk, hsome]
      rfl
    · rw [if_neg fun hsame ↦ hvk hsame.2]
      exact h.childLeaf v hv (by omega) hne'
  case childTimer =>
    intro hrow
    rw [h.leaf_copiedWords hn hk hsome h.childTables hrow (by decide),
      if_neg fun hsame ↦ htimer hsame.2.symm]
    exact h.childTimer hrow
  case frame =>
    intro a hzone hlvl2
    obtain ⟨hparentPlace, hchildPlace⟩ := hzone k hn hk
    refine (Function.update_of_ne hchildPlace _ _).trans ?_
    exact (Function.update_of_ne (hparentPlace htimer) _ _).trans (h.frame a hzone hlvl2)
  case pointers =>
    intro a ha
    rw [← h.pointers a ha]
    exact h.pointer_copiedWords hn hk hsome ha
  case counter => exact h.counter_copied hn hsome htimer

/-- A level-2 entry that is not a table entry for the parent. -/
theorem dropRow (h : Copied s t parent child n (512 * i)) (hne : parent ≠ child)
    (hn : n ≤ i) (hi : i < 505) (habsent : present s.words parent i = false) :
    Copied s { t with words := dropRow t.words child i } parent child n (512 * (i + 1)) := by
  have hparent := h.parentTables.zone
  have hchild := h.childTables.zone
  have hnone (v : ℕ) (hv : v / 512 = i) : leaf s.words parent v = none :=
    leaf_eq_none_of_absent (by rw [hv, habsent])
  constructor
  case fixed => rw [h.fixed]
  case parentTables => exact h.parentTables.drop hchild (by omega)
  case childTables => exact h.childTables.drop hchild (by omega)
  case parentPresent =>
    intro j hj
    rw [ZoneTables.present_dropRow hchild hparent (by omega) hj, if_neg fun hsame ↦ hne hsame.1,
      h.parentPresent j hj]
  case childPresent =>
    intro j hj hlt hrow
    have hji : j ≠ i := by
      rintro rfl
      rcases hrow with hle | hpresent
      · omega
      · rw [habsent] at hpresent
        exact nomatch hpresent
    rw [ZoneTables.present_dropRow hchild hchild (by omega) (by omega),
      if_neg fun hsame ↦ hji hsame.2]
    exact h.childPresent j hj hlt (hrow.imp_left fun hle ↦ by omega)
  case childAbsent =>
    intro j hj hle habsent'
    rw [ZoneTables.present_dropRow hchild hchild (by omega) (by omega)]
    split_ifs with hsame
    · rfl
    · have hji : j ≠ i := fun heq ↦ hsame ⟨rfl, heq⟩
      exact h.childAbsent j hj (by omega) habsent'
  case childStale =>
    intro v hv hlt habsent'
    refine (Function.update_of_ne ?_ _ _).trans (h.childStale v hv hlt habsent')
    exact (lvl2Place_ne_zonePlace hchild hchild (by omega) (by omega)).symm
  case parentLeaf =>
    intro v hv hlt
    rw [h.parentTables.leaf_dropRow hchild (by omega) hv (by omega), if_neg fun hsame ↦ hne hsame.1,
      h.parentLeaf v hv hlt]
    by_cases hrow : v / 512 = i
    · rw [hnone v hrow, Option.map_none, ite_self, ite_self]
    · exact if_congr (by omega) rfl rfl
  case childLeaf =>
    intro v hv hlt hne'
    rw [h.childTables.leaf_dropRow hchild (by omega) hv (by omega)]
    by_cases hrow : v / 512 = i
    · rw [if_pos ⟨rfl, hrow⟩, hnone v hrow]
      rfl
    · rw [if_neg fun hsame ↦ hrow hsame.2]
      exact h.childLeaf v hv (by omega) hne'
  case childTimer =>
    intro hrow
    rw [h.childTables.leaf_dropRow hchild (by omega) hrow (by decide)]
    split_ifs
    · exact .inl rfl
    · exact h.childTimer hrow
  case frame =>
    intro a hzone hlvl2
    exact (Function.update_of_ne (hlvl2 i hn hi) _ _).trans (h.frame a hzone hlvl2)
  case pointers =>
    intro a ha
    rw [← h.pointers a ha]
    exact congrArg pointer (Function.update_of_ne (by unfold lvl2Place; omega) _ _)
  case counter =>
    intro pa
    have hsame : copiedTo s.words parent n (pa.toNat / 0x1000) (512 * (i + 1)) =
        copiedTo s.words parent n (pa.toNat / 0x1000) (512 * i) := by
      ext v
      simp only [copiedTo, Finset.mem_filter, Finset.mem_range]
      refine and_congr_left fun hcopied ↦ ?_
      have hrow : v / 512 ≠ i := by
        intro hrow
        rw [frameOf, hnone v hrow] at hcopied
        exact nomatch hcopied.2.2
      have hle := hcopied.1
      omega
    rw [hsame]
    exact h.counter pa

/-! ### The loop -/

/-- What the loop needs of the entries that it copies: their pages have counters. -/
def Countable (s : MmuState) (parent : Word) (n : ℕ) : Prop :=
  ∀ v, n ≤ v / 512 → v < 512 * 505 → v ≠ timerPage → ∀ e, leaf s.words parent v = some e →
    getBindCounterAddress s (entryAddress e) < s.idPagingSize

theorem toNat_virtualAddr (hi : i < 505) (hj : j < 512) :
    (granule * BitVec.ofNat 64 (i * nTableEntries + j)).toNat = 0x1000 * (512 * i + j) := by
  have hgranule : granule.toNat = 0x1000 := rfl
  rw [BitVec.toNat_mul, hgranule, BitVec.toNat_ofNat, nTableEntries]
  omega

/-- The parent's entry is written back as it is for a stack page. -/
theorem parentEntry_eq {place va : Word} {k : ℕ} (hplace : place.toNat = zonePlace parent k)
    (hva : va.toNat = 0x1000 * k) :
    (if va ≠ stackPage1 ∧ va ≠ stackPage2 then setBlockAndPageAttributesSg1 t place
        (newBlockAttributesSg1 (forkedPage ||| accessFlagSet) normalWtNt)
      else t) =
      { t with words :=
          zoneWrite t.words parent k (forkedEntry k (t.words (zonePlace parent k))) } := by
  have hpage {c : Word} {u : ℕ} (hc : c.toNat = 0x1000 * u) : va = c ↔ k = u := by
    rw [← BitVec.toNat_inj, hva, hc]
    exact Nat.mul_right_inj (by decide)
  have hstack : (va ≠ stackPage1 ∧ va ≠ stackPage2) ↔ ¬ IsStackPage k := by
    rw [← not_or, hpage (u := 0x3f1ff) rfl, hpage (u := 0x3f1fe) rfl, IsStackPage]
  rw [if_congr hstack rfl rfl, forkedEntry]
  by_cases hstackPage : IsStackPage k
  · rw [if_neg (not_not.mpr hstackPage), if_pos hstackPage, zoneWrite, Function.update_eq_self]
  · rw [if_pos hstackPage, if_neg hstackPage, setBlockAndPageAttributesSg1, setWord_zone hplace,
      MmuState.word, hplace]
    rfl

/-- One round of the inner loop. -/
theorem copyLvl3Entry (h : Copied s t parent child n (512 * i + j)) (hne : parent ≠ child)
    (hn : n ≤ i) (hi : i < 505) (hj : j < 512) (hcount : Countable s parent n)
    (hpresent : present s.words parent i = true) :
    ∃ t', Mmu.copyLvl3Entry (parent + BitVec.ofNat 64 i * 8) (child + BitVec.ofNat 64 i * 8) i j t =
      .ok t' ∧
      Copied s t' parent child n (512 * i + j + 1) := by
  obtain ⟨k, hk⟩ : ∃ k, k = 512 * i + j := ⟨_, rfl⟩
  have hrow : k / 512 = i := by omega
  have hplace := h.parentTables.toNat_lvl3 hn (show i < 511 by omega) hj
  have hplace' := h.childTables.toNat_lvl3 hn (show i < 511 by omega) hj
  have hleaf := h.parentTables.leaf_eq (v := k) (by omega) (by omega)
  have hvirtual := toNat_virtualAddr hi hj
  rw [← hk] at h hplace hplace' hvirtual ⊢
  rw [h.next_leaf (by omega) (by omega), hrow, h.parentPresent i (by omega), hpresent] at hleaf
  have hword : t.word (getAddressSg1 t (parent + BitVec.ofNat 64 i * 8) + BitVec.ofNat 64 j * 8) =
      t.words (zonePlace parent k) := by rw [MmuState.word, hplace]
  have heq (c : Word) : granule * BitVec.ofNat 64 (i * nTableEntries + j) = c ↔
      0x1000 * k = c.toNat := by
    rw [← BitVec.toNat_inj, hvirtual]
  have htimer : timerIrqPage.toNat = 0x1000 * timerPage := rfl
  obtain ⟨place, hplaceDef⟩ : ∃ place, place = getAddressSg1 t (parent + BitVec.ofNat 64 i * 8) +
    BitVec.ofNat 64 j * 8 := ⟨_, rfl⟩
  obtain ⟨place', hplaceDef'⟩ : ∃ place', place' = getAddressSg1 t (child + BitVec.ofNat 64 i * 8) +
    BitVec.ofNat 64 j * 8 := ⟨_, rfl⟩
  simp only [Mmu.copyLvl3Entry, ← hplaceDef, ← hplaceDef'] at hplace hplace' hword ⊢
  rw [hword]
  cases hblock : isBlockEntry (t.words (zonePlace parent k)) with
  | false =>
    have hnone : leaf s.words parent k = none := by
      rw [hleaf, hblock]
      simp
    rw [if_pos (by simp)]
    refine ⟨_, rfl, ?_⟩
    have hinvalid : setInvalidEntry t place' = { t with
        words := zoneWrite t.words child k (t.words (zonePlace child k) &&& mask 63 1) } := by
      rw [setInvalidEntry, MmuState.setWord, MmuState.word, hplace', zoneWrite]
    rw [hinvalid]
    exact h.leave hne (by omega) (by omega) (by rwa [hrow]) hnone (isBlockEntry_cleared _)
  | true =>
    have hsome : leaf s.words parent k = some (t.words (zonePlace parent k)) := by
      rw [hleaf, hblock]
      simp
    rw [if_neg (by simp)]
    by_cases hk' : k = timerPage
    · rw [if_pos ((heq _).mpr (by rw [hk', htimer]))]
      exact ⟨t, rfl, h.skip hk'⟩
    · rw [if_neg fun hv ↦ hk' (by have := (heq _).mp hv; omega)]
      obtain ⟨e, he⟩ : ∃ e, e = t.words (zonePlace parent k) := ⟨_, rfl⟩
      have hwrite := parentEntry_eq (t := t) hplace hvirtual
      rw [← he] at hsome hwrite
      rw [hwrite, word_zoneWrite hplace, setWord_zone hplace', getAddressSg1_eq,
        word_zoneWrite hplace', entryAddress_forkedEntry, incrementBindCounter_eq]
      · exact ⟨_, rfl, h.copy hne (by omega) (by omega) hsome hk'⟩
      · change getBindCounterAddress t _ < t.idPagingSize
        rw [h.fixed]
        exact hcount k (by omega) (by omega) hk' e hsome

/-- One round of the outer loop. -/
theorem copyLvl2Entry (h : Copied s t parent child n (512 * i)) (hne : parent ≠ child)
    (hroot : s.lvl2TableAddress = child) (hn : n ≤ i) (hi : i < 505)
    (hcount : Countable s parent n) :
    ∃ t', Mmu.copyLvl2Entry parent i t = .ok t' ∧ Copied s t' parent child n (512 * (i + 1)) := by
  have hroot' : t.lvl2TableAddress = child := by rw [h.fixed]; exact hroot
  have hword : isTableEntry (t.word (parent + BitVec.ofNat 64 i * 8)) =
      present s.words parent i := by
    rw [MmuState.word, h.parentTables.zone.toNat_lvl2 (by omega), ← h.parentPresent i (by omega),
      present]
  simp only [Mmu.copyLvl2Entry, hroot', hword]
  cases hpresent : present s.words parent i with
  | false =>
    rw [if_pos (by simp), h.childTables.zone.setInvalidEntry_lvl2 t (by omega)]
    exact ⟨_, rfl, h.dropRow hne hn hi hpresent⟩
  | true =>
    rw [if_neg (by simp)]
    refine forUpToM_total (I := fun j t ↦ Copied s t parent child n (512 * i + j)) h
      fun j hj t ht ↦ ?_
    exact ht.copyLvl3Entry hne hn hi hj hcount hpresent

/-- The loop has not begun. -/
theorem start (hparent : ZoneTables s.words parent n) (hchild : ZoneTables s.words child n)
    (hpresent : ∀ i, n ≤ i → i < 505 → present s.words child i = true) :
    Copied s s parent child n (512 * n) where
  fixed := rfl
  parentTables := hparent
  childTables := hchild
  parentPresent _ _ := rfl
  childPresent i hi hlt _ := hpresent i hi hlt
  childAbsent i hi hle := absurd hle (by omega)
  childStale _ _ _ _ := rfl
  parentLeaf v hv _ := (if_neg (by omega)).symm
  childLeaf v hv hlt _ := absurd hlt (by omega)
  childTimer _ := .inr rfl
  frame _ _ _ := rfl
  pointers _ _ := rfl
  counter pa := by
    have hnone : copiedTo s.words parent n (pa.toNat / 0x1000) (512 * n) = ∅ := by
      ext v
      simp only [copiedTo, Finset.mem_filter, Finset.mem_range, Finset.notMem_empty, iff_false]
      omega
    rw [hnone, Finset.card_empty]
    exact (BitVec.add_zero _).symm

/-- The double loop. -/
theorem run (hne : parent ≠ child) (hroot : s.lvl2TableAddress = child) (hn : n ≤ 505)
    (hparent : ZoneTables s.words parent n) (hchild : ZoneTables s.words child n)
    (hpresent : ∀ i, n ≤ i → i < 505 → present s.words child i = true)
    (hcount : Countable s parent n) :
    ∃ t, forUpToM (nAvailableTables - n) (fun i s ↦ Mmu.copyLvl2Entry parent (n + i) s) s = .ok t ∧
      Copied s t parent child n (512 * 505) := by
  obtain ⟨t, hloop, ht⟩ := forUpToM_total (n := nAvailableTables - n) (s := s)
    (I := fun i t ↦ Copied s t parent child n (512 * (n + i))) (start hparent hchild hpresent)
    fun i hi t ht ↦ ht.copyLvl2Entry hne hroot (by omega) (by unfold nAvailableTables at hi; omega)
    hcount
  refine ⟨t, hloop, ?_⟩
  rwa [show n + (nAvailableTables - n) = 505 by unfold nAvailableTables; omega] at ht

end Copied

end SysresOs.Mmu
