import SysresOs.Memory.Conservation

/-!
# Freeing an address that is not mapped

`free_virtual_page` writes before it checks: it clears bit 0 of the word at the address that the
walk returned, also when this address is an error code, and takes the physical address from that
word. `harmless_iff` says when this leaves the memory as it was. `not_harmless_freed` is the second
call for one page: the invalid entry keeps the physical address, and the bind counter goes down once
more.
-/

set_option autoImplicit false
set_option relaxedAutoImplicit false

namespace SysresOs.Mmu

open SysresOs.Outcome

variable {L : Layout} {s s' : MmuState} {va pa e : Word}

/-- An address without a valid entry: the walk fails, or it ends at an invalid entry. -/
def Unmapped (s : MmuState) (va : Word) : Prop :=
  errorCode (getLvl3EntryPhysAddress s va) ≠ 0 ∨
    isBlockEntry (s.word (getLvl3EntryPhysAddress s va)) = false

theorem unmapped_iff (hroot : Rooted s.lvl2TableAddress) (hva : va.toNat < 2 ^ 30) :
    Unmapped s va ↔ leaf s.words s.lvl2TableAddress (page va) = none := by
  cases hpresent : present s.words s.lvl2TableAddress (page va / 512) with
  | false =>
    have hcode : errorCode (getLvl3EntryPhysAddress s va) ≠ 0 := by
      rw [getLvl3EntryPhysAddress_absent hroot hva hpresent]
      decide
    exact iff_of_true (.inl hcode) (leaf_eq_none_of_absent hpresent)
  | true =>
    rw [Unmapped, errorCode_lvl3 hroot hva hpresent, word_lvl3 hroot hva hpresent, leaf, hpresent]
    simp

/-- The memory when `free_virtual_page` returns or stops. The assertions of `free_physical_page`
come before its only assignment. -/
def memoryAfterFree (s : MmuState) (va : Word) : MmuState :=
  let lvl3Entry := getLvl3EntryPhysAddress s va
  let physicalAddress := getAddressSg1 s lvl3Entry
  let s := setInvalidEntry s lvl3Entry
  if s.idPagingSize ≤ physicalAddress then
    match decrAndFreePhysicalPage s physicalAddress with
    | .ok s' => s'
    | .error _ => decrementBindCounter s physicalAddress
  else s

/-- A call of `free_virtual_page` that changes no memory, and returns the error code when the walk
fails. -/
structure Harmless (s : MmuState) (va : Word) : Prop where
  unchanged : memoryAfterFree s va = s
  status : errorCode (getLvl3EntryPhysAddress s va) ≠ 0 →
    ∃ s', freeVirtualPage s va = .ok (s', errorCode (getLvl3EntryPhysAddress s va))

/-! ### What a call writes -/

/-- When the call returns, the memory is the one it returns with. -/
theorem memoryAfterFree_eq {status : Word} (h : freeVirtualPage s va = .ok (s', status)) :
    memoryAfterFree s va = s' := by
  obtain ⟨⟨⟩, hbelow, h⟩ := bind_eq_ok.mp h
  obtain ⟨t, hfree, h⟩ := bind_eq_ok.mp h
  obtain ⟨rfl, -⟩ := Prod.mk.inj (Except.ok.inj h)
  rw [memoryAfterFree]
  rw [if_pos (of_decide_eq_true (of_assert_ok hbelow)), hfree]

theorem freePhysicalPage_counters (h : freePhysicalPage s pa = .ok s') :
    s'.counters = s.counters := by
  obtain ⟨⟨⟩, -, h⟩ := bind_eq_ok.mp h
  obtain ⟨⟨⟩, -, h⟩ := bind_eq_ok.mp h
  obtain ⟨⟨⟩, -, h⟩ := bind_eq_ok.mp h
  rw [← Except.ok.inj h]

theorem decrAndFreePhysicalPage_counters (h : decrAndFreePhysicalPage s pa = .ok s') :
    s'.counters = (decrementBindCounter s pa).counters := by
  rw [decrAndFreePhysicalPage] at h
  split_ifs at h with hzero
  · exact freePhysicalPage_counters h
  · rw [← Except.ok.inj h]

/-- A counter that goes down is not what it was. -/
theorem decrementBindCounter_counters_ne (s : MmuState) (pa : Word) :
    (decrementBindCounter s pa).counters ≠ s.counters := by
  intro heq
  have hat : getBindCounter (decrementBindCounter s pa) pa = getBindCounter s pa :=
    congrFun heq (getBindCounterAddress s pa)
  rw [decrementBindCounter, getBindCounter_setBindCounter, if_pos rfl] at hat
  have hone : (1 : BitVec 8).toNat = 1 := rfl
  have hnat := congrArg BitVec.toNat hat
  rw [BitVec.toNat_sub, hone] at hnat
  omega

/-- Above `id_paging_size` the call lowers a counter, whether it returns or stops. -/
theorem memoryAfterFree_ne
    (hid : s.idPagingSize ≤ getAddressSg1 s (getLvl3EntryPhysAddress s va)) :
    memoryAfterFree s va ≠ s := by
  intro heq
  rw [memoryAfterFree] at heq
  rw [if_pos (show (setInvalidEntry s _).idPagingSize ≤ _ from hid)] at heq
  refine decrementBindCounter_counters_ne (setInvalidEntry s (getLvl3EntryPhysAddress s va))
    (getAddressSg1 s (getLvl3EntryPhysAddress s va)) ?_
  split at heq
  case h_1 t hfree => rw [← decrAndFreePhysicalPage_counters hfree, heq]; rfl
  case h_2 => rw [heq]; rfl

theorem and_mask_eq_self {w : Word} : w &&& mask 63 1 = w ↔ w &&& 1 = 0 := by
  constructor
  · intro h
    rw [← h, BitVec.and_assoc, show mask 63 1 &&& 1 = 0#64 by decide, BitVec.and_zero]
    rfl
  · intro h
    have hall : mask 63 1 ||| 1 = BitVec.allOnes 64 := by decide
    have hor : w &&& mask 63 1 ||| w &&& 1 = w := by
      rw [← BitVec.and_or_distrib_left, hall, BitVec.and_allOnes]
    rw [h] at hor
    exact BitVec.or_zero.symm.trans hor

theorem setInvalidEntry_eq_self {a : Word} : setInvalidEntry s a = s ↔ s.word a &&& 1 = 0 := by
  rw [← and_mask_eq_self]
  constructor
  · intro h
    have hword := congrFun (congrArg MmuState.words h) a.toNat
    rwa [setInvalidEntry, words_setWord, if_pos rfl] at hword
  · intro h
    rw [setInvalidEntry, MmuState.setWord, h, MmuState.word, Function.update_eq_self]

/-- A call leaves the memory as it was in one case only: the walk ends at an entry whose bit 0 is
clear and whose physical address is below `id_paging_size`, so that the assertion stops the call
before it has an effect. -/
theorem harmless_iff (s : MmuState) (va : Word) : Harmless s va ↔
    errorCode (getLvl3EntryPhysAddress s va) = 0 ∧ s.word (getLvl3EntryPhysAddress s va) &&& 1 = 0 ∧
      getAddressSg1 s (getLvl3EntryPhysAddress s va) < s.idPagingSize := by
  constructor
  · rintro ⟨hunchanged, hstatus⟩
    have hbelow : ¬ s.idPagingSize ≤ getAddressSg1 s (getLvl3EntryPhysAddress s va) :=
      fun hid ↦ memoryAfterFree_ne hid hunchanged
    have hcode : errorCode (getLvl3EntryPhysAddress s va) = 0 := by
      by_contra hfails
      obtain ⟨s', hok⟩ := hstatus hfails
      obtain ⟨⟨⟩, hassert, -⟩ := bind_eq_ok.mp hok
      exact hbelow (of_decide_eq_true (of_assert_ok hassert))
    rw [memoryAfterFree] at hunchanged
    rw [if_neg (show ¬ (setInvalidEntry s _).idPagingSize ≤ _ from hbelow)] at hunchanged
    exact ⟨hcode, setInvalidEntry_eq_self.mp hunchanged, BitVec.not_le.mp hbelow⟩
  · rintro ⟨hcode, hclear, hbelow⟩
    refine ⟨?_, fun hfails ↦ absurd hcode hfails⟩
    rw [memoryAfterFree]
    rw [setInvalidEntry_eq_self.mpr hclear, if_neg (BitVec.not_le.mpr hbelow)]

/-! ### Freeing twice -/

/-- After a page is freed, its address is not mapped, and freeing it again lowers the counter once
more. -/
theorem not_harmless_freed (hdir : Directory s.words s.lvl2TableAddress)
    (hva : va.toNat < 0x3fe00000) (hleaf : leaf s.words s.lvl2TableAddress (page va) = some e)
    (hid : s.idPagingSize ≤ entryAddress e) : Unmapped (pageFreed s (page va) (entryAddress e)) va ∧
      ¬ Harmless (pageFreed s (page va) (entryAddress e)) va := by
  have hpage : page va < 511 * 512 := by
    unfold page
    omega
  obtain ⟨hpresent, hword, -⟩ := leaf_eq_some hleaf
  obtain ⟨t, ht⟩ : ∃ t, pageFreed s (page va) (entryAddress e) = t := ⟨_, rfl⟩
  have hwords : t.words = invalidate s.words s.lvl2TableAddress (page va) := ht ▸ rfl
  have hroot : t.lvl2TableAddress = s.lvl2TableAddress := ht ▸ rfl
  have hpresent' : present t.words t.lvl2TableAddress (page va / 512) = true := by
    rw [hwords, hroot, invalidate, hdir.present_writeEntry hpage (by omega), hpresent]
  have hentry : t.word (getLvl3EntryPhysAddress t va) = e &&& mask 63 1 := by
    rw [word_lvl3 (hroot ▸ hdir.rooted) (by omega) hpresent', hwords, hroot, invalidate,
      hdir.lvl3Place_writeEntry hpage (by omega), writeEntry, Function.update_self, hword]
  rw [ht]
  refine ⟨.inr ?_, fun hharmless ↦ ?_⟩
  · rw [hentry, isBlockEntry_cleared]
  · refine memoryAfterFree_ne ?_ hharmless.unchanged
    rw [getAddressSg1_eq, hentry, entryAddress_cleared, ← ht]
    exact hid

/-- A page that is handed out is bound once. -/
theorem PoolInvariant.held_leaf {pool : List Word} {p : PoolState} (h : PoolInvariant L pool p)
    (hpool : IsPool L pool) (hva : va ∈ p.held) :
    ∃ e, leaf p.mmu.words p.mmu.lvl2TableAddress (page va) = some e ∧
      p.mmu.idPagingSize ≤ entryAddress e ∧
      getBindCounter p.mmu (entryAddress e) = 1 ∧ 0 < p.mmu.physicalMemoryMap.head := by
  obtain ⟨e, hleaf⟩ := Option.ne_none_iff_exists'.mp (h.mapped va hva)
  have hmap : some (entryAddress e) ∈ p.held.map (physicalPage p.mmu) :=
    List.mem_map.mpr ⟨va, hva, by rw [physicalPage, hleaf, Option.map_some]⟩
  have hmem := h.mem_pool (List.mem_append_right _ hmap)
  refine ⟨e, hleaf, ?_, ?_, ?_⟩
  · rw [h.configured.idPagingSize]
    exact hpool.low _ hmem
  · rw [h.counted _ hmem, if_pos hmap]
  · rw [BitVec.lt_def, h.head]
    exact List.length_pos_of_mem hva

/-- A page is taken for an address of the heap and freed twice: the second call changes memory. -/
theorem not_harmless_sampleTables : ∃ p p' : PoolState,
    poolStep ⟨initPhysicalMemoryMap sampleLayout (sampleTables 0), []⟩
    (.take 0x8000000 userPage normalWtNt) =
      .ok p ∧ poolStep p (.release 0x8000000) = .ok p' ∧ Unmapped p'.mmu 0x8000000 ∧
      ¬ Harmless p'.mmu 0x8000000 := by
  have hfresh := sampleTables_fresh
  have hallowed := sampleTables_allowed
  obtain ⟨s₀, hs₀⟩ : ∃ s₀, initPhysicalMemoryMap sampleLayout (sampleTables 0) = s₀ := ⟨_, rfl⟩
  rw [hs₀] at hfresh hallowed ⊢
  obtain ⟨hpool, hinv⟩ := hfresh.isPool
  obtain ⟨p, htake, hinv'⟩ := hinv.step hpool (by rwa [length_initialPool hfresh])
  have hheld : (0x8000000 : Word) ∈ p.held := by
    obtain ⟨⟨s', status⟩, -, hok⟩ := bind_eq_ok.mp htake
    rw [← Except.ok.inj hok]
    exact List.mem_cons_self
  obtain ⟨e, hleaf, hid, hcounter, hhead⟩ := hinv'.held_leaf hpool hheld
  have hfree := freeVirtualPage_eq hinv'.directory.rooted (by decide) hleaf hid hcounter hhead
  have hrelease :
      poolStep p (.release 0x8000000) = .ok ⟨pageFreed p.mmu (page 0x8000000) (entryAddress e),
      p.held.eraseP fun x ↦ page x = page 0x8000000⟩ := by
    rw [poolStep, hfree]
    rfl
  exact ⟨p, _, htake, hrelease, not_harmless_freed hinv'.directory (by decide) hleaf hid⟩

end SysresOs.Mmu
