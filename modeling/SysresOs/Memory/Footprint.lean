import SysresOs.Memory.Binding
import SysresOs.Memory.Stray

/-!
# The words that `bind_address` writes

`populate_lvl2_table` gives 511 of the 512 level-2 entries a table of the zone of the process, and
the walk accepts the addresses of all 512. Below `0x3fe00000` a call of `bind_address` writes to
tables of the process only; from there on it writes where the last level-2 entry happens to point.
`bindStores` lists the words as the source writes them, `bindAddress_frame` says that no other word
changes, and `confined_iff` gives the condition under which all of them are in the tables of the
process.
-/

set_option autoImplicit false
set_option relaxedAutoImplicit false

namespace SysresOs.Mmu

open SysresOs.Loop SysresOs.Outcome

open SysresOs.Proc (Pid SystemState kernelPid initPid)

/-! ### The stores -/

/-- The addresses that `init_new_lvl3_table` stores to, each computed when the store is made. -/
def newTableStores (s : MmuState) (lvl2Entry : Word) : List Word :=
  let s := setIdentifierTableEntry s lvl2Entry
  lvl2Entry :: (List.range 512).map fun i ↦
    getAddressSg1 (forUpTo i (fun i s ↦
      setInvalidEntry s (getAddressSg1 s lvl2Entry + BitVec.ofNat 64 i * 8)) s) lvl2Entry +
      BitVec.ofNat 64 i * 8

/-- The addresses of the table entries that `bind_address` stores to. -/
def bindStoresWithin (virtualAddr physicalAddr : Word) : ℕ → MmuState → List Word
  | 0, _ => []
  | calls + 1, s =>
    if physicalAddr &&& mask 11 0 ≠ 0 then []
    else
      let lvl3Entry := getLvl3EntryPhysAddress s virtualAddr
      if errorCode lvl3Entry = 0 then [lvl3Entry]
      else if errorCode lvl3Entry = 5 then
        let lvl2Entry := getLvl2TableEntryPhysAddress s virtualAddr
        newTableStores s lvl2Entry ++
          match initNewLvl3Table s lvl2Entry with
          | .ok s => bindStoresWithin virtualAddr physicalAddr calls s
          | .error _ => []
      else []

/-- The addresses of the table entries that `bind_address` stores to, with the bound of
`bindAddress`. -/
def bindStores (s : MmuState) (virtualAddr physicalAddr : Word) : List Word :=
  bindStoresWithin virtualAddr physicalAddr 2 s

variable {L : Layout} {sys : SystemState} {pid : Pid} {s t u : MmuState}
  {va pa a code lvl2Entry : Word} {ba : BlockAttributesSg1} {calls n k : ℕ}

/-- Entries have been made valid or invalid, and all of them point where they did. -/
structure PointersKept (s t : MmuState) : Prop where
  fixed : t = { s with words := t.words }
  address : ∀ n, entryAddress (t.words n) = entryAddress (s.words n)

namespace PointersKept

theorem setIdentifierTableEntry (s : MmuState) (a : Word) :
    PointersKept s (setIdentifierTableEntry s a) where
  fixed := rfl
  address n := by
    rw [Mmu.setIdentifierTableEntry, words_setWord]
    split_ifs with hsame
    · rw [hsame, entryAddress_or_three, MmuState.word]
    · rfl

theorem setInvalidEntry (h : PointersKept s t) (a : Word) :
    PointersKept s (setInvalidEntry t a) where
  fixed := by
    rw [Mmu.setInvalidEntry, MmuState.setWord, h.fixed]
  address n := by
    rw [Mmu.setInvalidEntry, words_setWord]
    split_ifs with hsame
    · rw [hsame, entryAddress_cleared, MmuState.word, h.address]
    · exact h.address n

/-- The loop of `init_new_lvl3_table`. -/
theorem clearing (s : MmuState) (lvl2Entry : Word) (k : ℕ) : PointersKept s (forUpTo k (fun i s ↦
    Mmu.setInvalidEntry s (getAddressSg1 s lvl2Entry + BitVec.ofNat 64 i * 8))
    (Mmu.setIdentifierTableEntry s lvl2Entry)) :=
  forUpTo_invariant (I := fun _ t ↦ PointersKept s t) (setIdentifierTableEntry s lvl2Entry)
    fun _ _ _ ht ↦ ht.setInvalidEntry _

theorem of_initNewLvl3Table (h : initNewLvl3Table s lvl2Entry = .ok t) : PointersKept s t := by
  obtain ⟨-, -, hloop⟩ := bind_eq_ok.mp h
  rw [← Except.ok.inj hloop]
  exact clearing s lvl2Entry 512

theorem table_eq (h : PointersKept s t) (root : Word) (i : ℕ) :
    table t.words root i = table s.words root i := by
  rw [table, h.address, table]

end PointersKept

theorem mem_newTableStores :
    a ∈ newTableStores s lvl2Entry ↔
      a = lvl2Entry ∨ ∃ i < 512, a = getAddressSg1 s lvl2Entry + BitVec.ofNat 64 i * 8 := by
  have haddress (i : ℕ) := (PointersKept.clearing s lvl2Entry i).address lvl2Entry.toNat
  simp only [newTableStores, getAddressSg1_eq, MmuState.word, List.mem_cons, List.mem_map,
    List.mem_range] at haddress ⊢
  refine or_congr_right (exists_congr fun i ↦ and_congr_right fun _ ↦ ?_)
  rw [haddress i, eq_comm]

/-- The place of an entry of a level-3 table. -/
theorem toNat_tableEntry (s : MmuState) (lvl2Entry : Word) (hk : k < 512) :
    (getAddressSg1 s lvl2Entry + BitVec.ofNat 64 k * 8).toNat =
      (getAddressSg1 s lvl2Entry).toNat + 8 * k := by
  have hlt := entryAddress_lt (s.word lvl2Entry)
  have height : (8 : Word).toNat = 8 := rfl
  rw [getAddressSg1_eq, BitVec.toNat_add, BitVec.toNat_mul, BitVec.toNat_ofNat, height]
  omega

/-! ### Where the stores go -/

/-- A byte of the level-3 table that a level-2 entry points to. -/
def InTable (w : ℕ → Word) (root : Word) (i n : ℕ) : Prop :=
  table w root i ≤ n ∧ n < table w root i + 0x1000

/-- `bind_address` stores to the level-2 entry of the page and to the table behind it. -/
theorem bindStoresWithin_subset (hroot : Rooted s.lvl2TableAddress) (hva : va.toNat < 2 ^ 30)
    (ha : a ∈ bindStoresWithin va pa calls s) :
    a.toNat = lvl2Place s.lvl2TableAddress (page va / 512) ∨
      InTable s.words s.lvl2TableAddress (page va / 512) a.toNat := by
  induction calls generalizing s with
  | zero => exact absurd ha List.not_mem_nil
  | succ calls ih =>
    have hplace := getLvl2TableEntryPhysAddress_eq hroot hva
    simp only [bindStoresWithin] at ha
    split_ifs at ha with hpa hzero hfive
    · exact absurd ha List.not_mem_nil
    · obtain rfl := List.mem_singleton.mp ha
      right
      have hpresent : present s.words s.lvl2TableAddress (page va / 512) = true := by
        by_contra habsent
        rw [getLvl3EntryPhysAddress_absent hroot hva (Bool.eq_false_iff.mpr habsent)] at hzero
        exact absurd hzero (by decide)
      rw [InTable, getLvl3EntryPhysAddress_eq hroot hva hpresent, lvl3Place]
      omega
    · rcases List.mem_append.mp ha with hnew | hretry
      · rcases mem_newTableStores.mp hnew with rfl | ⟨i, hi, rfl⟩
        · exact .inl hplace
        · right
          rw [InTable, toNat_tableEntry s _ hi, getAddressSg1_eq, word_lvl2 hroot hva, ← table]
          omega
      · cases hinit : initNewLvl3Table s (getLvl2TableEntryPhysAddress s va) with
        | error e =>
          rw [hinit] at hretry
          exact absurd hretry List.not_mem_nil
        | ok t =>
          rw [hinit] at hretry
          have hkept := PointersKept.of_initNewLvl3Table hinit
          have hsame : t.lvl2TableAddress = s.lvl2TableAddress := by rw [hkept.fixed]
          have ht := ih (s := t) (hsame.symm ▸ hroot) hretry
          rwa [InTable, hsame, hkept.table_eq] at ht
    · exact absurd ha List.not_mem_nil

/-- Where the walk gives an address, or finds no table, its level-2 stage has given an address. -/
theorem errorCode_lvl2_of_lvl3
    (h : errorCode (getLvl3EntryPhysAddress s va) = 0 ∨ errorCode
    (getLvl3EntryPhysAddress s va) = 5) : errorCode (getLvl2TableEntryPhysAddress s va) = 0 := by
  rcases getLvl2TableEntryPhysAddress_cases s va with hzero | ⟨hzero, hfive⟩
  · exact hzero
  · simp only [getLvl3EntryPhysAddress] at h
    rw [if_pos hzero] at h
    exact absurd h (not_or_intro hzero hfive)

/-- The walk gives an address for the lowest `2 ^ 30` addresses only. -/
theorem va_lt_of_walk (h : errorCode (getLvl2TableEntryPhysAddress s va) = 0) :
    va.toNat < 2 ^ 30 := by
  unfold getLvl2TableEntryPhysAddress at h
  split_ifs at h with hlow hhigh
  · exact absurd h (by decide)
  · exact absurd h (by decide)
  · exact absurd h (by decide)
  · rw [not_not, and_mask_eq_zero va (by omega) (by omega)] at hlow hhigh
    have := va.isLt
    omega

/-- What a call that returns 0 says of its addresses. -/
structure Accepted (s : MmuState) (va pa : Word) : Prop where
  aligned : pa &&& mask 11 0 = 0
  walk : errorCode (getLvl2TableEntryPhysAddress s va) = 0
  counter : s.idPagingSize ≤ pa → getBindCounterAddress s pa < s.idPagingSize

theorem Accepted.of_bindAddressWithin (h : bindAddressWithin va pa ba calls s = .ok (u, 0)) :
    Accepted s va pa := by
  induction calls generalizing s with
  | zero => exact nomatch h
  | succ calls ih =>
    by_cases hpa : pa &&& mask 11 0 = 0
    · rw [bindAddressWithin, if_neg (not_not.mpr hpa)] at h
      by_cases hzero : errorCode (getLvl3EntryPhysAddress s va) = 0
      · refine ⟨hpa, errorCode_lvl2_of_lvl3 (.inl hzero), fun habove ↦ ?_⟩
        simp only [hzero, if_true] at h
        have habove' :
            (initBlockAndPageEntrySg1 s (getLvl3EntryPhysAddress s va) pa ba).idPagingSize ≤ pa :=
          habove
        rw [if_pos habove'] at h
        obtain ⟨t, hcount, -⟩ := bind_eq_ok.mp h
        obtain ⟨_, hassert, -⟩ := bind_eq_ok.mp hcount
        exact of_decide_eq_true (of_assert_ok hassert)
      · by_cases hfive : errorCode (getLvl3EntryPhysAddress s va) = 5
        · simp only [if_neg hzero, if_pos hfive] at h
          obtain ⟨t, hinit, hretry⟩ := bind_eq_ok.mp h
          have hkept := PointersKept.of_initNewLvl3Table hinit
          obtain ⟨-, -, hcounter⟩ := ih hretry
          rw [hkept.fixed] at hcounter
          exact ⟨hpa, errorCode_lvl2_of_lvl3 (.inr hfive), hcounter⟩
        · simp only [if_neg hzero, if_neg hfive] at h
          have hcode := (Prod.mk.inj (Except.ok.inj h)).2
          rw [hcode] at hzero
          exact absurd rfl hzero
    · rw [bindAddressWithin, if_pos hpa] at h
      have hcode := (Prod.mk.inj (Except.ok.inj h)).2
      exact absurd hcode (by decide)

/-- A call of `bind_address` that returns 0 stores to the table behind the level-2 entry of the
page. -/
theorem exists_mem_bindStoresWithin (hroot : Rooted s.lvl2TableAddress) (hva : va.toNat < 2 ^ 30)
    (h : bindAddressWithin va pa ba calls s = .ok (u, 0)) :
    ∃ a ∈ bindStoresWithin va pa calls s, InTable s.words s.lvl2TableAddress
      (page va / 512) a.toNat := by
  have hpa := (Accepted.of_bindAddressWithin h).aligned
  cases calls with
  | zero => exact nomatch h
  | succ calls =>
    simp only [bindStoresWithin]
    rw [if_neg (not_not.mpr hpa)]
    by_cases hpresent : present s.words s.lvl2TableAddress (page va / 512) = true
    · rw [if_pos (errorCode_lvl3 hroot hva hpresent)]
      refine ⟨_, List.mem_singleton_self _, ?_⟩
      rw [InTable, getLvl3EntryPhysAddress_eq hroot hva hpresent, lvl3Place]
      omega
    · rw [getLvl3EntryPhysAddress_absent hroot hva (Bool.eq_false_iff.mpr hpresent),
        if_neg (by decide), if_pos (by decide)]
      refine ⟨_, List.mem_append_left _ (mem_newTableStores.mpr (.inr ⟨0, by omega, rfl⟩)), ?_⟩
      rw [InTable, toNat_tableEntry s _ (by omega), getAddressSg1_eq, word_lvl2 hroot hva, ← table]
      omega

theorem initNewLvl3Table_frame (h : initNewLvl3Table s lvl2Entry = .ok t)
    (hn : ∀ a ∈ newTableStores s lvl2Entry, n ≠ a.toNat) : t.words n = s.words n := by
  obtain ⟨-, -, hloop⟩ := bind_eq_ok.mp h
  rw [← Except.ok.inj hloop]
  have hstart : (setIdentifierTableEntry s lvl2Entry).words n = s.words n := by
    rw [setIdentifierTableEntry, words_setWord, if_neg (hn _ (mem_newTableStores.mpr (.inl rfl)))]
  have hround (i : ℕ) (hi : i < 512) (t : MmuState) (ht : PointersKept s t ∧
      t.words n = s.words n) :
      PointersKept s (setInvalidEntry t (getAddressSg1 t lvl2Entry + BitVec.ofNat 64 i * 8)) ∧
        (setInvalidEntry t (getAddressSg1 t lvl2Entry + BitVec.ofNat 64 i * 8)).words n =
        s.words n := by
    refine ⟨ht.1.setInvalidEntry _, ?_⟩
    have hsame : getAddressSg1 t lvl2Entry = getAddressSg1 s lvl2Entry := ht.1.address _
    rw [hsame, setInvalidEntry, words_setWord,
      if_neg (hn _ (mem_newTableStores.mpr (.inr ⟨i, hi, rfl⟩))), ht.2]
  exact (forUpTo_invariant (I := fun _ t ↦ PointersKept s t ∧ t.words n = s.words n)
    ⟨.setIdentifierTableEntry s lvl2Entry, hstart⟩ hround).2

/-- The words of the tables that the stores do not name are kept, and so are all counters but that
of the page. -/
theorem bindAddressWithin_frame (h : bindAddressWithin va pa ba calls s = .ok (u, code)) :
    (∀ n, (∀ a ∈ bindStoresWithin va pa calls s, n ≠ a.toNat) → u.words n = s.words n) ∧
      ∀ q, (s.idPagingSize ≤ pa → q ≠ getBindCounterAddress s pa) →
      u.counters q = s.counters q := by
  induction calls generalizing s with
  | zero => exact nomatch h
  | succ calls ih =>
    simp only [bindStoresWithin]
    by_cases hpa : pa &&& mask 11 0 = 0
    · rw [bindAddressWithin, if_neg (not_not.mpr hpa)] at h
      rw [if_neg (not_not.mpr hpa)]
      by_cases hzero : errorCode (getLvl3EntryPhysAddress s va) = 0
      · simp only [hzero, if_true] at h ⊢
        have hwords (n : ℕ) (hn : ∀ a ∈ [getLvl3EntryPhysAddress s va], n ≠ a.toNat) :
            (initBlockAndPageEntrySg1 s (getLvl3EntryPhysAddress s va) pa ba).words n =
            s.words n := by
          have hne := hn _ (List.mem_singleton_self _)
          simp only [initBlockAndPageEntrySg1, setBlockAndPageAttributesSg1, words_setWord,
            if_neg hne]
        split_ifs at h with habove
        · obtain ⟨t, hcount, ht⟩ := bind_eq_ok.mp h
          obtain ⟨-, -, hset⟩ := bind_eq_ok.mp hcount
          rw [← (Prod.mk.inj (Except.ok.inj ht)).1, ← Except.ok.inj hset]
          exact ⟨hwords, fun q hq ↦ Function.update_of_ne (hq habove) _ _⟩
        · rw [← (Prod.mk.inj (Except.ok.inj h)).1]
          exact ⟨hwords, fun _ _ ↦ rfl⟩
      · by_cases hfive : errorCode (getLvl3EntryPhysAddress s va) = 5
        · simp only [if_neg hzero, if_pos hfive] at h ⊢
          obtain ⟨t, hinit, hretry⟩ := bind_eq_ok.mp h
          obtain ⟨hwords, hcounters⟩ := ih hretry
          have hkept := PointersKept.of_initNewLvl3Table hinit
          rw [hkept.fixed] at hcounters
          rw [hinit]
          refine ⟨fun n hn ↦ ?_, hcounters⟩
          rw [hwords n fun a ha ↦ hn a (List.mem_append_right _ ha)]
          exact initNewLvl3Table_frame hinit fun a ha ↦ hn a (List.mem_append_left _ ha)
        · simp only [if_neg hzero, if_neg hfive] at h
          rw [(Prod.mk.inj (Except.ok.inj h)).1]
          exact ⟨fun _ _ ↦ rfl, fun _ _ ↦ rfl⟩
    · rw [bindAddressWithin, if_pos hpa] at h
      rw [(Prod.mk.inj (Except.ok.inj h)).1]
      exact ⟨fun _ _ ↦ rfl, fun _ _ ↦ rfl⟩

/-! ### The tables of a process -/

/-- The bytes of the tables of a process: those of its zone, and for a process that is forked from
the memory `s` also those of the tables that the parent has for the kernel's part. -/
def InTables (L : Layout) (sys : SystemState) (pid : Pid) (s : MmuState) (n : ℕ) : Prop :=
  ((L.zoneRoot pid).toNat ≤ n ∧ n < (L.zoneRoot pid).toNat + 0x200000) ∨
    (pid ≠ kernelPid ∧ pid ≠ initPid ∧
      ∃ i < L.kernelTables,
        InTable s.words (getLvl2AddressFromSysState sys (getParentPid sys pid)) i n)

/-- The bytes of the array of bind counters. -/
def InCounters (L : Layout) (a : Word) : Prop := L.physicalMemoryMap + 0x100000 ≤ a ∧ a < L.endAddr

/-- `bind_address` writes to the tables of the process, as `c_init_mmu` made them from the memory
`s`, and to the bind counters. -/
def Confined (L : Layout) (sys : SystemState) (pid : Pid) (s t : MmuState) (va pa : Word) : Prop :=
  (∀ a ∈ bindStores t va pa, InTables L sys pid s a.toNat) ∧
    (t.idPagingSize ≤ pa → InCounters L (getBindCounterAddress t pa))

/-- A memory in which `c_init_mmu` sets up the tables of a process: any memory for the kernel, then
one with two free pages for `init`, and one that is ready for the fork for the others. -/
inductive InitReady (L : Layout) (sys : SystemState) : Pid → MmuState → Prop
  | kernel (s : MmuState) : InitReady L sys kernelPid s
  | init {s : MmuState} (configured : Configured L s) (free : FreePair (populated L initPid s)) :
    InitReady L sys initPid s
  | fork {pid : Pid} {s : MmuState} {parent p p' : Word}
    (ready : ForkReady L sys pid s parent p p') : InitReady L sys pid s

/-- What `c_init_mmu` leaves in the level-2 table of a process: the entries below the last one point
to tables of the process, and the last one where it pointed before. -/
structure ProcessTables (L : Layout) (sys : SystemState) (pid : Pid) (s t : MmuState) : Prop where
  configured : Configured L t
  root : t.lvl2TableAddress = L.zoneRoot pid
  rows : ∀ i < 511, InTables L sys pid s (table t.words (L.zoneRoot pid) i)
  last : table t.words (L.zoneRoot pid) 511 = table s.words (L.zoneRoot pid) 511

/-- A page that begins in the tables of a process is in them. -/
theorem InTables.page (h : InTables L sys pid s n) (haligned : n % 0x1000 = 0) (hk : k < 0x1000) :
    InTables L sys pid s (n + k) := by
  have hzone := (L.zoneRoot_zone pid).aligned
  refine h.imp (fun hown ↦ by omega) ?_
  rintro ⟨hkernel, hinit, i, hi, htable⟩
  have htable' := table_aligned s.words (getLvl2AddressFromSysState sys (getParentPid sys pid)) i
  refine ⟨hkernel, hinit, i, hi, ?_⟩
  unfold InTable at htable ⊢
  omega

/-- A page of which one byte is in the tables of a process begins in them. -/
theorem InTables.of_page (h : InTables L sys pid s (n + k)) (haligned : n % 0x1000 = 0)
    (hk : k < 0x1000) : InTables L sys pid s n := by
  have hzone := (L.zoneRoot_zone pid).aligned
  refine h.imp (fun hown ↦ by omega) ?_
  rintro ⟨hkernel, hinit, i, hi, htable⟩
  have htable' := table_aligned s.words (getLvl2AddressFromSysState sys (getParentPid sys pid)) i
  refine ⟨hkernel, hinit, i, hi, ?_⟩
  unfold InTable at htable ⊢
  omega

theorem InTables.of_zoneTables (sys : SystemState) (s : MmuState) {w : ℕ → Word} {m i : ℕ}
    (h : ZoneTables w (L.zoneRoot pid) m) (hm : m ≤ i) (hi : i < 511) :
    InTables L sys pid s (table w (L.zoneRoot pid) i) := by
  left
  rw [h.table_eq i hm hi]
  omega

theorem BootTables.processTables {s₀ : MmuState} (sys : SystemState)
    (h : BootTables L s₀ t (L.zoneRoot pid)) (hconf : Configured L s₀)
    (hroot : s₀.lvl2TableAddress = L.zoneRoot pid)
    (hwords : s₀.words = populateWords s.words (L.zoneRoot pid) 511) :
    ProcessTables L sys pid s t where
  configured := by
    rw [h.fixed]
    exact ⟨hconf.idPagingSize, hconf.bindCounter, hconf.bindCounterOffset⟩
  root := by
    rw [h.fixed]
    exact hroot
  rows i hi := .of_zoneTables sys s h.leaves.tables (Nat.zero_le i) hi
  last := by
    have hlast : populateWords s.words (L.zoneRoot pid) 511 (lvl2Place (L.zoneRoot pid) 511) =
        s.words (lvl2Place (L.zoneRoot pid) 511) := populateWords_of_not_mem (.inr le_rfl)
    rw [table, h.last, hwords, hlast, table]

theorem Forked.processTables {parent p p' : Word} (h : Forked L s t pid parent p p')
    (hready : ForkReady L sys pid s parent p p') : ProcessTables L sys pid s t where
  configured := by
    have hconf : Configured L (populated L pid s) := populated_configured hready.configured
    rw [h.fixed]
    exact ⟨hconf.idPagingSize, hconf.bindCounter, hconf.bindCounterOffset⟩
  root := by
    rw [h.fixed]
    rfl
  rows i hi := by
    rcases Nat.lt_or_ge i L.kernelTables with hlt | hge
    · rcases h.kernel i hlt with hword | htable
      · right
        refine ⟨hready.process.1, hready.process.2, i, hlt, ?_⟩
        rw [table, hword, ← table, hready.parentRoot, InTable]
        omega
      · left
        rw [htable]
        omega
    · exact .of_zoneTables sys s h.tables hge hi
  last := by rw [table, h.lvl2_last hready, table]

theorem InitReady.processTables (h : InitReady L sys pid s) :
    ∃ t, cInitMmu L sys pid s = .ok t ∧ ProcessTables L sys pid s t := by
  cases h with
  | kernel =>
    obtain ⟨t, hinit, ht⟩ := cInitMmu_kernel L sys s
    obtain ⟨hwords, hroot, -⟩ := initPhysicalMemoryMap_tables (populated_idPagingSize L kernelPid s)
    have hpool : PoolAt L (initPhysicalMemoryMap L (populated L kernelPid s)) 0 :=
      .start (populated_idPagingSize L kernelPid s)
    refine ⟨t, hinit, ht.processTables sys hpool.configured ?_ ?_⟩
    · rw [hroot, populated_lvl2TableAddress]
    · rw [hwords, populated_words]
  | init configured free =>
    obtain ⟨t, hinit, ht⟩ := cInitMmu_init sys configured free
    exact ⟨t, hinit, ht.processTables sys (populated_configured configured)
      (populated_lvl2TableAddress L initPid s) (populated_words L initPid s)⟩
  | fork ready =>
    obtain ⟨t, hinit, ht⟩ := cInitMmu_forked ready
    exact ⟨t, hinit, ht.processTables ready⟩

/-- The counter of a page that `bind_address` counts is one of the array. -/
theorem Configured.inCounters (h : Configured L s) (habove : s.idPagingSize ≤ pa)
    (hlt : getBindCounterAddress s pa < s.idPagingSize) :
    InCounters L (getBindCounterAddress s pa) := by
  have hbelow := L.below_peripherals
  have hend := L.toNat_endAddr
  have hgranule : granule.toNat = 0x1000 := rfl
  have hmap : (0x4000000 : Word).toNat = 0x4000000 := rfl
  have hcounters : (0x100000 : Word).toNat = 0x100000 := rfl
  have hbase : (L.physicalMemoryMap + 0x100000).toNat = L.mmuTablesStart.toNat + 0x4100000 := by
    rw [Layout.physicalMemoryMap, BitVec.toNat_add, BitVec.toNat_add, hmap, hcounters]
    omega
  refine ⟨?_, h.idPagingSize ▸ hlt⟩
  rw [BitVec.le_def, h.idPagingSize, hend] at habove
  rw [getBindCounterAddress, h.bindCounter, h.bindCounterOffset]
  generalize L.physicalMemoryMap + 0x100000 = base at *
  rw [BitVec.le_def, BitVec.toNat_sub, BitVec.toNat_add, BitVec.toNat_udiv, BitVec.toNat_udiv,
    hbase, hgranule, h.idPagingSize, hend]
  have hpa := pa.isLt
  have hdiv : (L.mmuTablesStart.toNat + 0x4200000) / 0x1000 ≤ pa.toNat / 0x1000 := by omega
  omega

/-- Below `0x3fe00000` the stores of `bind_address` are in the tables of the process, and from there
on exactly when the last level-2 entry points to one of them. -/
theorem ProcessTables.confined (h : ProcessTables L sys pid s t)
    (hbind : bindAddress t va pa ba = .ok (u, 0)) : Confined L sys pid s t va pa ↔
      va.toNat < 0x3fe00000 ∨ InTables L sys pid s (table s.words (L.zoneRoot pid) 511) := by
  have haccepted := Accepted.of_bindAddressWithin hbind
  have hva := va_lt_of_walk haccepted.walk
  have hrooted : Rooted t.lvl2TableAddress := h.root ▸ (L.zoneRoot_zone pid).rooted
  have hpage := page_lt hva
  have haligned := table_aligned t.words (L.zoneRoot pid) (page va / 512)
  constructor
  · rintro ⟨hstores, -⟩
    refine or_iff_not_imp_left.mpr fun hlow ↦ ?_
    have hlast : page va / 512 = 511 := by
      unfold page at hpage ⊢
      omega
    obtain ⟨a, ha, htable⟩ := exists_mem_bindStoresWithin hrooted hva hbind
    have hin := hstores a ha
    rw [h.root, hlast, InTable] at htable
    rw [hlast] at haligned
    obtain ⟨k, hk⟩ : ∃ k, a.toNat = table t.words (L.zoneRoot pid) 511 + k :=
      ⟨_, (Nat.add_sub_of_le htable.1).symm⟩
    rw [← h.last]
    exact (hk ▸ hin).of_page haligned (by omega)
  · intro hcond
    refine ⟨fun a ha ↦ ?_, fun habove ↦ h.configured.inCounters habove (haccepted.counter habove)⟩
    have hrow : InTables L sys pid s (table t.words (L.zoneRoot pid) (page va / 512)) := by
      by_cases hlast : page va / 512 = 511
      · rw [hlast, h.last]
        refine hcond.resolve_left fun hlow ↦ ?_
        unfold page at hlast
        omega
      · exact h.rows _ (by omega)
    rcases bindStoresWithin_subset hrooted hva ha with hentry | htable
    · rw [hentry, h.root, lvl2Place]
      left
      omega
    · rw [h.root, InTable] at htable
      obtain ⟨k, hk⟩ : ∃ k, a.toNat = table t.words (L.zoneRoot pid) (page va / 512) + k :=
        ⟨_, (Nat.add_sub_of_le htable.1).symm⟩
      rw [hk]
      exact hrow.page haligned (by omega)

/-- On the tables that `c_init_mmu` makes of any memory, a call of `bind_address` that returns 0
writes to tables of the process and to the bind counters exactly when the address is below
`0x3fe00000`, or when the memory held a pointer to one of these tables in the place of the last
level-2 entry. -/
theorem confined_iff (h : InitReady L sys pid s) :
    ∃ t, cInitMmu L sys pid s = .ok t ∧ ∀ va pa ba u, bindAddress t va pa ba = .ok (u, 0) →
      (Confined L sys pid s t va pa ↔
        va.toNat < 0x3fe00000 ∨ InTables L sys pid s (table s.words (L.zoneRoot pid) 511)) := by
  obtain ⟨t, hinit, ht⟩ := h.processTables
  exact ⟨t, hinit, fun _ _ _ _ hbind ↦ ht.confined hbind⟩

/-! ### The last level-2 entry -/

/-- A memory of zeroes. -/
def zeroMemory : MmuState where
  words _ := 0
  counters _ := 0
  pages _ := 0
  physicalMemoryMap := ⟨fun _ ↦ 0, 0, 0, 0, 0⟩
  lvl2TableAddress := 0
  idPagingSize := 0
  ttbr0El1 := 0

theorem confined_zeroMemory : ∃ t u,
    cInitMmu sampleLayout (forkSystem sampleLayout) kernelPid zeroMemory = .ok t ∧
      bindAddress t 0x8000000 0x5000000 (newBlockAttributesSg1 userPage normalWtNt) = .ok (u, 0) ∧
      Confined sampleLayout (forkSystem sampleLayout) kernelPid zeroMemory t 0x8000000
      0x5000000 := by
  have hready : InitReady sampleLayout (forkSystem sampleLayout) kernelPid zeroMemory :=
    .kernel zeroMemory
  obtain ⟨t, hinit, hboot⟩ := cInitMmu_kernel sampleLayout (forkSystem sampleLayout) zeroMemory
  obtain ⟨t', hinit', ht⟩ := hready.processTables
  obtain rfl := Except.ok.inj (hinit.symm.trans hinit')
  have hbind : bindAddress t 0x8000000 0x5000000 (newBlockAttributesSg1 userPage normalWtNt) =
      .ok (_, 0) :=
    bindAddress_eq _ (ht.root ▸ hboot.leaves.tables.directory) (by decide) (by decide) (by decide)
      fun habove ↦ ht.configured.counter_lt habove (by decide)
  refine ⟨t, _, hinit, hbind, ?_⟩
  obtain ⟨t', hinit', hconfined⟩ := confined_iff hready
  obtain rfl := Except.ok.inj (hinit.symm.trans hinit')
  exact (hconfined _ _ _ _ hbind).mpr (.inl (by decide))

theorem not_inTables_zero :
    ¬ InTables sampleLayout (forkSystem sampleLayout) kernelPid zeroMemory 0 := by
  rintro (⟨hle, -⟩ | ⟨hkernel, -⟩)
  · exact absurd hle (by decide)
  · exact hkernel rfl

/-- In the tables of the kernel, made of a memory of zeroes, binding the page `0x3fe00000`
overwrites the word 0. -/
theorem not_confined_zeroMemory : ∃ t u,
    cInitMmu sampleLayout (forkSystem sampleLayout) kernelPid zeroMemory = .ok t ∧
      bindAddress t 0x3fe00000 0x5000000 (newBlockAttributesSg1 userPage normalWtNt) = .ok (u, 0) ∧
      u.words 0 ≠ t.words 0 ∧ ¬ InTables sampleLayout (forkSystem sampleLayout) kernelPid
      zeroMemory 0 ∧
      ¬ Confined sampleLayout (forkSystem sampleLayout) kernelPid zeroMemory t 0x3fe00000
      0x5000000 := by
  obtain ⟨t, hinit, hboot⟩ := cInitMmu_kernel sampleLayout (forkSystem sampleLayout) zeroMemory
  obtain ⟨hwords, hroot, -⟩ :=
    initPhysicalMemoryMap_tables (populated_idPagingSize sampleLayout kernelPid zeroMemory)
  have hpool :
      PoolAt sampleLayout (initPhysicalMemoryMap sampleLayout
    (populated sampleLayout kernelPid zeroMemory))
      0 := .start (populated_idPagingSize sampleLayout kernelPid zeroMemory)
  rw [populated_words] at hwords
  rw [populated_lvl2TableAddress] at hroot
  have ht :=
      hboot.processTables (s := zeroMemory) (forkSystem sampleLayout) hpool.configured hroot hwords
  have htable : table zeroMemory.words (sampleLayout.zoneRoot kernelPid) 511 = 0 := by decide
  have hlast : table t.words t.lvl2TableAddress (page 0x3fe00000 / 512) = 0 := by
    rw [ht.root]
    exact ht.last.trans htable
  have hapart : RowApart t.words t.lvl2TableAddress (page 0x3fe00000 / 512) := by
    right
    rw [hlast, ht.root]
    decide
  have hbind : bindAddress t 0x3fe00000 0x5000000 (newBlockAttributesSg1 userPage normalWtNt) =
      .ok (_, 0) :=
    bindAddress_apart _ (ht.root ▸ (sampleLayout.zoneRoot_zone kernelPid).rooted) (by decide)
      (by decide) (by decide) (fun habove ↦ ht.configured.counter_lt habove (by decide)) hapart
  refine ⟨t, _, hinit, hbind, ?_, not_inTables_zero, fun hconfined ↦ ?_⟩
  · have hbefore : t.words 0 = 0 := by
      rw [hboot.frame 0 (.inl (by decide)), hwords]
      exact populateWords_of_not_mem (.inl (by decide))
    have hplace : lvl3Place t.words t.lvl2TableAddress (page 0x3fe00000) = 0 := by
      rw [lvl3Place, hlast]; rfl
    have hplace' :
        lvl3Place (newTable t.words t.lvl2TableAddress (page 0x3fe00000 / 512)) t.lvl2TableAddress
        (page 0x3fe00000) = 0 := by rw [lvl3Place, hapart.table_newTable, hlast]; rfl
    have hafter (e : Word) : bindWords t.words t.lvl2TableAddress (page 0x3fe00000) e 0 = e := by
      unfold bindWords writeEntry
      rw [hplace, hplace']
      split_ifs <;> exact Function.update_self _ _ _
    rw [hbefore]
    exact (hafter _).trans_ne (by decide)
  · rcases (ht.confined hbind).mp hconfined with hlow | hin
    · exact absurd hlow (by decide)
    · rw [htable] at hin
      exact not_inTables_zero hin

end SysresOs.Mmu
