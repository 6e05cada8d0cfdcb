import SysresOs.Memory.Descriptor

/-!
# Translation tables

The tables of one root as a map from page numbers to entries, over the words of the memory alone.
`leaf` is the valid entry of a page, if there is one. In a `Directory`, whose level-2 entries point
to distinct tables, a write to one entry changes one leaf (`Directory.leaf_writeEntry`), a new
level-3 table changes none (`Directory.leaf_newTable`), and a page is bound without an effect on the
others (`Directory.leaf_bindWords`).
-/

set_option autoImplicit false
set_option relaxedAutoImplicit false

namespace SysresOs.Mmu

section Walk

variable (w : ℕ → Word) (root : Word)

/-- The place of a level-2 entry. -/
def lvl2Place (i : ℕ) : ℕ := root.toNat + 8 * i

/-- The level-3 table that a level-2 entry points to. -/
def table (i : ℕ) : ℕ := (entryAddress (w (lvl2Place root i))).toNat

/-- Whether a level-2 entry is a table entry. -/
def present (i : ℕ) : Bool := isTableEntry (w (lvl2Place root i))

/-- The place of the level-3 entry of a page. -/
def lvl3Place (v : ℕ) : ℕ := table w root (v / 512) + 8 * (v % 512)

/-- The valid level-3 entry of a page. -/
def leaf (v : ℕ) : Option Word :=
  if present w root (v / 512) ∧ isBlockEntry (w (lvl3Place w root v)) then
    some (w (lvl3Place w root v))
  else none

/-- A root that the walk accepts. -/
def Rooted : Prop := root.toNat % 0x20000 = 0 ∧ root.toNat < 2 ^ 48

/-- A level-2 table whose entries below the last one point to distinct level-3 tables. -/
structure Directory : Prop where
  rooted : Rooted root
  distinct : ∀ i < 511, ∀ j < 511, table w root i = table w root j → i = j
  apart : ∀ i < 511, table w root i ≠ root.toNat

/-- The words after the level-3 entry of a page is written. -/
def writeEntry (v : ℕ) (e : Word) : ℕ → Word := Function.update w (lvl3Place w root v) e

/-- The words after the level-3 entry of a page is made invalid. -/
def invalidate (v : ℕ) : ℕ → Word := writeEntry w root v (w (lvl3Place w root v) &&& mask 63 1)

/-- The words after the entries below `k` of the table at `t` are made invalid. -/
def clearTable (t k : ℕ) : ℕ → Word := fun n ↦
  if t ≤ n ∧ n < t + 8 * k ∧ (n - t) % 8 = 0 then w n &&& mask 63 1 else w n

/-- The words after the level-2 entry `i` is made a table entry and its table is cleared. -/
def newTable (i : ℕ) : ℕ → Word :=
  clearTable (Function.update w (lvl2Place root i) (w (lvl2Place root i) ||| 3))
    (table w root i) 512

/-- The words after a page is bound by an entry. -/
def bindWords (v : ℕ) (e : Word) : ℕ → Word :=
  if present w root (v / 512) then writeEntry w root v e
  else writeEntry (newTable w root (v / 512)) root v e

end Walk

variable {w w' : ℕ → Word} {root : Word} {e : Word} {i j k n t v u : ℕ}

theorem table_aligned (w : ℕ → Word) (root : Word) (i : ℕ) : table w root i % 0x1000 = 0 :=
  entryAddress_aligned _

theorem table_lt (w : ℕ → Word) (root : Word) (i : ℕ) : table w root i < 2 ^ 48 := entryAddress_lt _

theorem leaf_eq_none_of_absent (h : present w root (v / 512) = false) : leaf w root v = none := by
  rw [leaf, if_neg]
  simp [h]

/-- A leaf depends on two words. -/
theorem leaf_congr (hlvl2 : w' (lvl2Place root (v / 512)) = w (lvl2Place root (v / 512)))
    (hlvl3 : w' (lvl3Place w root v) = w (lvl3Place w root v)) :
    leaf w' root v = leaf w root v := by
  have htable : table w' root (v / 512) = table w root (v / 512) := by rw [table, hlvl2, table]
  have hpresent : present w' root (v / 512) = present w root (v / 512) := by
    rw [present, hlvl2, present]
  rw [lvl3Place] at hlvl3
  rw [leaf, leaf, lvl3Place, lvl3Place, htable, hpresent, hlvl3]

/-- What the leaves say of a level-3 entry. -/
theorem leaf_eq_some (h : leaf w root v = some e) :
    present w root (v / 512) = true ∧ w (lvl3Place w root v) = e ∧ isBlockEntry e = true := by
  rw [leaf] at h
  split_ifs at h with hvalid
  obtain rfl := Option.some.inj h
  exact ⟨hvalid.1, rfl, hvalid.2⟩

/-! ### Clearing -/

theorem clearTable_zero (w : ℕ → Word) (t : ℕ) : clearTable w t 0 = w := by
  funext n
  exact if_neg (by omega)

theorem clearTable_succ (w : ℕ → Word) (t k : ℕ) :
    Function.update (clearTable w t k) (t + 8 * k) (clearTable w t k (t + 8 * k) &&& mask 63 1) =
      clearTable w t (k + 1) := by
  funext n
  rw [Function.update_apply]
  split_ifs with hn
  · subst hn
    rw [clearTable, clearTable, if_neg (by omega), if_pos (by omega)]
  · unfold clearTable
    by_cases h : t ≤ n ∧ n < t + 8 * k ∧ (n - t) % 8 = 0
    · rw [if_pos h, if_pos (by omega)]
    · rw [if_neg h, if_neg (by omega)]

theorem clearTable_of_not_mem (h : n < t ∨ t + 8 * k ≤ n) : clearTable w t k n = w n :=
  if_neg (by omega)

/-- A word that is neither the entry nor in the table is kept. -/
theorem newTable_of_not_mem (hentry : n ≠ lvl2Place root i)
    (htable : n < table w root i ∨ table w root i + 0x1000 ≤ n) : newTable w root i n = w n := by
  rw [newTable, clearTable_of_not_mem (by omega), Function.update_of_ne hentry]

/-! ### One entry -/

/-- A level-2 entry that is not in the table it points to. -/
def RowApart (w : ℕ → Word) (root : Word) (i : ℕ) : Prop :=
  lvl2Place root i < table w root i ∨ table w root i + 0x1000 ≤ lvl2Place root i

namespace RowApart

theorem lvl2_newTable (h : RowApart w root i) :
    newTable w root i (lvl2Place root i) = w (lvl2Place root i) ||| 3 := by
  rw [newTable, clearTable_of_not_mem (h.imp_right fun hle ↦ by omega), Function.update_self]

theorem table_newTable (h : RowApart w root i) :
    table (newTable w root i) root i = table w root i := by
  rw [table, h.lvl2_newTable, entryAddress_or_three, table]

theorem present_newTable (h : RowApart w root i) : present (newTable w root i) root i = true := by
  rw [present, h.lvl2_newTable]
  exact isBlockEntry_or_three _

/-- An entry that is written to a present table. -/
theorem leaf_writeEntry (h : RowApart w root (v / 512)) (hpresent : present w root (v / 512) = true)
    (he : isBlockEntry e = true) : leaf (writeEntry w root v e) root v = some e := by
  have hplace : lvl2Place root (v / 512) ≠ lvl3Place w root v := by
    unfold RowApart at h
    unfold lvl3Place
    omega
  have hlvl2 : writeEntry w root v e (lvl2Place root (v / 512)) = w (lvl2Place root (v / 512)) :=
    Function.update_of_ne hplace _ _
  have htable : table (writeEntry w root v e) root (v / 512) = table w root (v / 512) := by
    rw [table, hlvl2, table]
  have hpresent' : present (writeEntry w root v e) root (v / 512) = true := by
    rw [present, hlvl2]
    exact hpresent
  have hword : writeEntry w root v e (lvl3Place (writeEntry w root v e) root v) = e := by
    rw [lvl3Place, htable, ← lvl3Place, writeEntry, Function.update_self]
  rw [leaf, hword, if_pos ⟨hpresent', he⟩]

/-- A page that is bound has the entry it is bound by. -/
theorem leaf_bindWords (h : RowApart w root (v / 512)) (he : isBlockEntry e = true) :
    leaf (bindWords w root v e) root v = some e := by
  unfold bindWords
  split_ifs with hpresent
  · exact h.leaf_writeEntry hpresent he
  · refine leaf_writeEntry ?_ h.present_newTable he
    rwa [RowApart, h.table_newTable]

/-- A word that is neither the level-2 entry nor in its table is kept. -/
theorem bindWords_of_not_mem (h : RowApart w root (v / 512)) (hentry : n ≠ lvl2Place root (v / 512))
    (htable : n < table w root (v / 512) ∨ table w root (v / 512) + 0x1000 ≤ n) :
    bindWords w root v e n = w n := by
  unfold bindWords writeEntry
  split_ifs with hpresent
  · exact Function.update_of_ne (by unfold lvl3Place; omega) _ _
  · have hsame := h.table_newTable
    rw [Function.update_of_ne (by unfold lvl3Place; omega)]
    exact newTable_of_not_mem hentry htable

end RowApart

/-! ### Directories -/

namespace Directory

/-- The level-2 entries are in no level-3 table. -/
theorem lvl2Place_apart (h : Directory w root) (hi : i < 511) (hj : j < 512) :
    lvl2Place root j < table w root i ∨ table w root i + 0x1000 ≤ lvl2Place root j := by
  have hne := h.apart i hi
  have haligned := table_aligned w root i
  have hroot := h.rooted.1
  unfold lvl2Place
  omega

theorem rowApart (h : Directory w root) (hi : i < 511) :
    RowApart w root i := h.lvl2Place_apart hi (by omega)

/-- The level-3 tables share no place. -/
theorem table_apart (h : Directory w root) (hi : i < 511) (hj : j < 511) (hij : i ≠ j) :
    table w root i + 0x1000 ≤ table w root j ∨ table w root j + 0x1000 ≤ table w root i := by
  have hne : table w root i ≠ table w root j := fun heq ↦ hij (h.distinct i hi j hj heq)
  have haligned := table_aligned w root i
  have haligned' := table_aligned w root j
  omega

/-- The level-3 entries of two pages are at two places. -/
theorem lvl3Place_ne (h : Directory w root) (hv : v < 511 * 512) (hu : u < 511 * 512)
    (hne : u ≠ v) : lvl3Place w root u ≠ lvl3Place w root v := by
  unfold lvl3Place
  by_cases hindex : u / 512 = v / 512
  · rw [hindex]
    omega
  · have := h.table_apart (i := u / 512) (j := v / 512) (by omega) (by omega) hindex
    omega

/-- A directory whose level-2 addresses are kept remains one. -/
theorem congr (h : Directory w root) (htable : ∀ i < 511, table w' root i = table w root i) :
    Directory w' root where
  rooted := h.rooted
  distinct i hi j hj heq := h.distinct i hi j hj (by rwa [htable i hi, htable j hj] at heq)
  apart i hi := by
    rw [htable i hi]
    exact h.apart i hi

/-! ### Writing an entry -/

theorem lvl2_writeEntry (h : Directory w root) (hv : v < 511 * 512) (hj : j < 512) :
    writeEntry w root v e (lvl2Place root j) = w (lvl2Place root j) := by
  have hapart := h.lvl2Place_apart (i := v / 512) (by omega) hj
  exact Function.update_of_ne (by unfold lvl3Place; omega) _ _

theorem table_writeEntry (h : Directory w root) (hv : v < 511 * 512) (hj : j < 512) :
    table (writeEntry w root v e) root j = table w root j := by
  rw [table, h.lvl2_writeEntry hv hj, table]

theorem present_writeEntry (h : Directory w root) (hv : v < 511 * 512) (hj : j < 512) :
    present (writeEntry w root v e) root j = present w root j := by
  rw [present, h.lvl2_writeEntry hv hj, present]

theorem lvl3Place_writeEntry (h : Directory w root) (hv : v < 511 * 512) (hu : u < 512 * 512) :
    lvl3Place (writeEntry w root v e) root u = lvl3Place w root u := by
  rw [lvl3Place, h.table_writeEntry hv (by omega), lvl3Place]

theorem writeEntry_directory (h : Directory w root) (hv : v < 511 * 512) :
    Directory (writeEntry w root v e) root :=
  h.congr fun _ hi ↦ h.table_writeEntry hv (by omega)

/-- The leaves after a write to an entry. -/
theorem leaf_writeEntry (h : Directory w root) (hv : v < 511 * 512) (hu : u < 511 * 512) :
    leaf (writeEntry w root v e) root u =
      if u = v then if present w root (v / 512) ∧ isBlockEntry e then some e else none
      else leaf w root u := by
  split_ifs with huv hvalid
  · subst huv
    rw [leaf, h.present_writeEntry hu (by omega), h.lvl3Place_writeEntry hu (by omega), writeEntry,
      Function.update_self, if_pos hvalid]
  · subst huv
    rw [leaf, h.present_writeEntry hu (by omega), h.lvl3Place_writeEntry hu (by omega), writeEntry,
      Function.update_self, if_neg hvalid]
  · exact leaf_congr (h.lvl2_writeEntry hv (by omega))
      (Function.update_of_ne (h.lvl3Place_ne hv hu huv) _ _)

theorem leaf_invalidate (h : Directory w root) (hv : v < 511 * 512) (hu : u < 511 * 512) :
    leaf (invalidate w root v) root u = if u = v then none else leaf w root u := by
  rw [invalidate, h.leaf_writeEntry hv hu, isBlockEntry_cleared]
  simp

/-! ### A new table -/

theorem lvl2_newTable (h : Directory w root) (hi : i < 511) (hj : j < 512) :
    newTable w root i (lvl2Place root j) =
      if j = i then w (lvl2Place root i) ||| 3 else w (lvl2Place root j) := by
  have hapart := h.lvl2Place_apart hi hj
  rw [newTable, clearTable_of_not_mem (by omega), Function.update_apply]
  refine if_congr ?_ rfl rfl
  unfold lvl2Place
  omega

/-- A new table leaves all addresses in the level-2 entries as they are. -/
theorem table_newTable (h : Directory w root) (hi : i < 511) (hj : j < 512) :
    table (newTable w root i) root j = table w root j := by
  unfold table
  rw [h.lvl2_newTable hi hj]
  split_ifs with hji
  · rw [hji, entryAddress_or_three]
  · rfl

theorem present_newTable (h : Directory w root) (hi : i < 511) (hj : j < 512) :
    present (newTable w root i) root j = if j = i then true else present w root j := by
  unfold present
  rw [h.lvl2_newTable hi hj]
  split_ifs with hji
  · exact isBlockEntry_or_three _
  · rfl

theorem newTable_directory (h : Directory w root) (hi : i < 511) :
    Directory (newTable w root i) root :=
  h.congr fun _ hj ↦ h.table_newTable hi (by omega)

/-- No page of the new table has a leaf, and the other pages keep theirs. -/
theorem leaf_newTable (h : Directory w root) (hi : i < 511) (habsent : present w root i = false)
    (hu : u < 511 * 512) : leaf (newTable w root i) root u = leaf w root u := by
  by_cases hindex : u / 512 = i
  · have hplace : lvl3Place (newTable w root i) root u = table w root i + 8 * (u % 512) := by
      rw [lvl3Place, h.table_newTable hi (by omega), hindex]
    have hcleared : isBlockEntry (newTable w root i (lvl3Place (newTable w root i) root u)) =
        false := by
      rw [hplace, newTable, clearTable, if_pos (by omega), isBlockEntry_cleared]
    rw [leaf_eq_none_of_absent (w := w) (by rw [hindex, habsent]), leaf,
      if_neg (by simp [hcleared])]
  · refine leaf_congr ?_ ?_
    · rw [h.lvl2_newTable hi (by omega), if_neg hindex]
    · have htable := h.table_apart (i := i) (j := u / 512) hi (by omega) (Ne.symm hindex)
      have hentry := h.lvl2Place_apart (i := u / 512) (j := i) (by omega) (by omega)
      exact newTable_of_not_mem (by unfold lvl3Place; omega) (by unfold lvl3Place; omega)

/-! ### Binding a page -/

theorem table_bindWords (h : Directory w root) (hv : v < 511 * 512) (hj : j < 512) :
    table (bindWords w root v e) root j = table w root j := by
  unfold bindWords
  split_ifs with hpresent
  · exact h.table_writeEntry hv hj
  · rw [(h.newTable_directory (by omega)).table_writeEntry hv hj, h.table_newTable (by omega) hj]

theorem bindWords_directory (h : Directory w root) (hv : v < 511 * 512) :
    Directory (bindWords w root v e) root :=
  h.congr fun _ hi ↦ h.table_bindWords hv (by omega)

theorem present_bindWords (h : Directory w root) (hv : v < 511 * 512) (hj : j < 512) :
    present (bindWords w root v e) root j = if j = v / 512 then true else present w root j := by
  unfold bindWords
  split_ifs with hpresent hindex hindex
  · rw [h.present_writeEntry hv hj, hindex, hpresent]
  · exact h.present_writeEntry hv hj
  · rw [(h.newTable_directory (by omega)).present_writeEntry hv hj,
      h.present_newTable (by omega) hj, if_pos hindex]
  · rw [(h.newTable_directory (by omega)).present_writeEntry hv hj,
      h.present_newTable (by omega) hj, if_neg hindex]

/-- The leaves after a page is bound. -/
theorem leaf_bindWords (h : Directory w root) (hv : v < 511 * 512) (hu : u < 511 * 512)
    (he : isBlockEntry e = true) :
    leaf (bindWords w root v e) root u = if u = v then some e else leaf w root u := by
  unfold bindWords
  split_ifs with hpresent huv huv
  · rw [h.leaf_writeEntry hv hu, if_pos huv, if_pos ⟨hpresent, he⟩]
  · rw [h.leaf_writeEntry hv hu, if_neg huv]
  · have hnew := h.newTable_directory (i := v / 512) (by omega)
    have htable : present (newTable w root (v / 512)) root (v / 512) = true := by
      rw [h.present_newTable (by omega) (by omega), if_pos rfl]
    rw [hnew.leaf_writeEntry hv hu, if_pos huv, if_pos ⟨htable, he⟩]
  · have hnew := h.newTable_directory (i := v / 512) (by omega)
    rw [hnew.leaf_writeEntry hv hu, if_neg huv,
      h.leaf_newTable (by omega) (Bool.eq_false_iff.mpr hpresent) hu]

/-- A word that is neither the level-2 entry nor in its table is kept. -/
theorem bindWords_of_not_mem (h : Directory w root) (hv : v < 511 * 512)
    (hentry : n ≠ lvl2Place root (v / 512))
    (htable : n < table w root (v / 512) ∨ table w root (v / 512) + 0x1000 ≤ n) :
    bindWords w root v e n = w n :=
  (h.rowApart (by omega)).bindWords_of_not_mem hentry htable

end Directory

end SysresOs.Mmu
