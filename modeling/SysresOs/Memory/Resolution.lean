import SysresOs.Memory.Running

/-!
# The entries that a fault is resolved in

A handler of faults should work in the tables of the process that has faulted. `Fault.accesses`
lists the entries of tables that the handlers read and write, as the functions of `mmu.c` come to
them, also when the handler then stops at an assertion, and `Fault.handle_frame` says that no other
word changes. The handlers of translation faults and access flag faults set `lvl2_table_address`
first. `permission_fault_handler` does not, and past its two checks it works in the tables of the
process if and only if this process was the last that was forked or had a fault of the other kinds
(`accesses_in_iff`).
-/

set_option autoImplicit false
set_option relaxedAutoImplicit false

namespace SysresOs.Mmu

open SysresOs.Loop SysresOs.Outcome

open SysresOs.Proc (Pid SystemState initPid)

/-! ### Accesses -/

/-- An access to an entry of tables. That to a level-3 entry keeps the memory of the time at which
the walk found the entry. -/
inductive Access
  | lvl2 (addr : Word)
  | lvl3 (words : ℕ → Word) (addr : Word)

namespace Access

/-- The address of the entry. -/
def addr : Access → Word
  | .lvl2 addr => addr
  | .lvl3 _ addr => addr

/-- The entry is one of the level-2 table of a root, or one of a level-3 table that this table
points to. -/
def In (root : Word) : Access → Prop
  | .lvl2 addr => ∃ i < 512, addr.toNat = lvl2Place root i
  | .lvl3 words addr => ∃ v < 512 * 512, addr.toNat = lvl3Place words root v

end Access

/-- The accesses of `get_lvl3_entry_phys_address`. -/
def walkAccesses (s : MmuState) (virtualAddr : Word) : List Access :=
  let lvl2Entry := getLvl2TableEntryPhysAddress s virtualAddr
  if errorCode lvl2Entry ≠ 0 then [] else [.lvl2 lvl2Entry]

/-- The accesses of a walk and of what is then done with the entry: those of `get_physical_address`,
of `set_invalid_page` and of `set_page_access_flag`. -/
def entryAccesses (s : MmuState) (virtualAddr : Word) : List Access :=
  let lvl3Entry := getLvl3EntryPhysAddress s virtualAddr
  walkAccesses s virtualAddr ++ if errorCode lvl3Entry = 0 then [.lvl3 s.words lvl3Entry] else []

/-- The accesses of `init_new_lvl3_table`. -/
def newTableAccesses (s : MmuState) (lvl2Entry : Word) : List Access :=
  .lvl2 lvl2Entry :: (List.range 512).flatMap fun i ↦
    let s := forUpTo i (fun i s ↦
      setInvalidEntry s (getAddressSg1 s lvl2Entry + BitVec.ofNat 64 i * 8))
      (setIdentifierTableEntry s lvl2Entry)
    [.lvl2 lvl2Entry, .lvl3 s.words (getAddressSg1 s lvl2Entry + BitVec.ofNat 64 i * 8)]

/-- The accesses of `bind_address`, with a bound on the number of its calls to itself. -/
def bindAccessesWithin (virtualAddr physicalAddr : Word) : ℕ → MmuState → List Access
  | 0, _ => []
  | calls + 1, s =>
    if physicalAddr &&& mask 11 0 ≠ 0 then []
    else
      let lvl3Entry := getLvl3EntryPhysAddress s virtualAddr
      walkAccesses s virtualAddr ++
        if errorCode lvl3Entry = 0 then [.lvl3 s.words lvl3Entry]
        else if errorCode lvl3Entry = 5 then
          let lvl2Entry := getLvl2TableEntryPhysAddress s virtualAddr
          newTableAccesses s lvl2Entry ++
            after (initNewLvl3Table s lvl2Entry) (bindAccessesWithin virtualAddr physicalAddr calls)
        else []

/-- The accesses of `bind_address`, with the bound of `bindAddress`. -/
def bindAccesses (s : MmuState) (virtualAddr physicalAddr : Word) : List Access :=
  bindAccessesWithin virtualAddr physicalAddr 2 s

/-- The accesses of `get_new_page`. -/
def newPageAccesses (s : MmuState) (virtualAddress : Word) : List Access :=
  after (getUnboundPhysicalPage s) fun (s, physicalAddress) ↦
    bindAccesses s virtualAddress physicalAddress

/-- The accesses of `handle_shared_page_write`. -/
def sharedWriteAccesses (faultAddress : Word) (s : MmuState) : List Access :=
  entryAccesses s faultAddress ++ after (getPhysicalAddress s faultAddress) fun physAddress ↦
    let cnt := getBindCounter s physAddress
    after (assert (Stop.assertion .sharedPageCount) (0 < cnt)) fun _ ↦
      if 1 < cnt then
        let s := decrementBindCounter s physAddress
        newPageAccesses s pageRes1 ++
          after (getNewPage s pageRes1 (kernelPage ||| accessFlagSet) normalWtNt) fun (s, status) ↦
            after (assert (Stop.assertion .sharedPageBound) (status = 0)) fun _ ↦
              entryAccesses s pageRes1 ++ after (getPhysicalAddress s pageRes1)
              fun tempPhysAddress ↦
                let alignedFaultAddr := faultAddress &&& mask 63 12
                after (memmovePage s pageRes1 alignedFaultAddr) fun s ↦
                  entryAccesses s pageRes1 ++ after (setInvalidPage s pageRes1) fun s ↦
                    bindAccesses s alignedFaultAddr tempPhysAddress
      else
        let lvl3Entry := getLvl3EntryPhysAddress s faultAddress
        walkAccesses s faultAddress ++
        after (assert (Stop.assertion .sharedPageWalk) (lvl3Entry &&& mask 5 0 = 0)) fun _ ↦
          [.lvl3 s.words lvl3Entry]

/-- The accesses of the handler of a fault. -/
def Fault.accesses (sys : SystemState) (pid : Pid) (s : MmuState) : Fault → List Access
  | .translation alloc va _ =>
    let s := s.setRoot (getLvl2AddressFromSysState sys pid)
    after (assert (Stop.assertion .segFault) (alloc.heapBegin ≤ va ∧
    va < alloc.heapBegin + alloc.endOffset.signExtend 64)) fun _ ↦
      newPageAccesses s va
  | .accessFlag va => entryAccesses (s.setRoot (getLvl2AddressFromSysState sys pid)) va
  | .permission va lowerEl =>
    after (assert (Stop.assertion .faultLevel) lowerEl) fun _ ↦
      after (assert (Stop.assertion .segFault) (!(va < s.idPagingSize ∨ gpioBase < va))) fun _ ↦
      sharedWriteAccesses va s

variable {sys : SystemState} {pid : Pid} {s t : MmuState} {root va pa lvl2Entry : Word}
  {m : PhysicalMemoryMap}

/-! ### Accesses and stores -/

/-- Only words that are accessed change. -/
def Covers (l : List Access) (s t : MmuState) : Prop :=
  ∀ n, (∀ a ∈ l, n ≠ a.addr.toNat) → t.words n = s.words n

theorem Covers.append {l l' : List Access} {u : MmuState} (h : Covers l s t) (h' : Covers l' t u) :
    Covers (l ++ l') s u := fun n hn ↦
  (h' n fun a ha ↦ hn a (List.mem_append_right _ ha)).trans (h n fun a ha ↦
  hn a (List.mem_append_left _ ha))

/-- A step that changes no word. -/
theorem Covers.same {l : List Access} (h : t.words = s.words) :
    Covers l s t := fun _ _ ↦ congrFun h _

theorem entryAccesses_of_code (hcode : errorCode (getLvl3EntryPhysAddress s va) = 0) :
    entryAccesses s va =
      [.lvl2 (getLvl2TableEntryPhysAddress s va),
      .lvl3 s.words (getLvl3EntryPhysAddress s va)] := by
  have hlvl2 := errorCode_lvl2_of_lvl3 (.inl hcode)
  simp [entryAccesses, walkAccesses, hcode, hlvl2]

/-- A store to the entry that a walk has found. -/
theorem Covers.entry {value : Word} (hcode : errorCode (getLvl3EntryPhysAddress s va) = 0) :
    Covers (entryAccesses s va) s (s.setWord (getLvl3EntryPhysAddress s va) value) := by
  intro n hn
  rw [entryAccesses_of_code hcode] at hn
  have hne : n ≠ (getLvl3EntryPhysAddress s va).toNat :=
    hn _ (List.mem_cons_of_mem _ (List.mem_singleton_self _))
  rw [words_setWord, if_neg hne]

/-- The words that `bind_address` stores to are among those it accesses. -/
theorem exists_access_of_store {calls : ℕ} {a : Word} (ha : a ∈ bindStoresWithin va pa calls s) :
    ∃ b ∈ bindAccessesWithin va pa calls s, b.addr = a := by
  induction calls generalizing s with
  | zero => exact absurd ha List.not_mem_nil
  | succ calls ih =>
    simp only [bindStoresWithin] at ha
    simp only [bindAccessesWithin]
    split_ifs at ha ⊢ with hpa hzero hfive
    · exact absurd ha List.not_mem_nil
    · exact ⟨_, List.mem_append_right _ (List.mem_singleton_self _),
        (List.mem_singleton.mp ha).symm⟩
    · rcases List.mem_append.mp ha with hnew | hretry
      · obtain ⟨b, hb, haddr⟩ :
            ∃ b ∈ newTableAccesses s (getLvl2TableEntryPhysAddress s va), b.addr = a := by
          rcases List.mem_cons.mp hnew with rfl | hround
          · exact ⟨_, List.mem_cons_self, rfl⟩
          · obtain ⟨i, hi, rfl⟩ := List.mem_map.mp hround
            exact ⟨_, List.mem_cons_of_mem _ (List.mem_flatMap.mpr ⟨i, hi,
              List.mem_cons_of_mem _ List.mem_cons_self⟩), rfl⟩
        exact ⟨b, List.mem_append_right _ (List.mem_append_left _ hb), haddr⟩
      · cases hinit : initNewLvl3Table s (getLvl2TableEntryPhysAddress s va) with
        | error stop =>
          rw [hinit] at hretry
          exact absurd hretry List.not_mem_nil
        | ok t =>
          rw [hinit] at hretry
          obtain ⟨b, hb, haddr⟩ := ih hretry
          exact ⟨b, List.mem_append_right _ (List.mem_append_right _ hb), haddr⟩
    · exact absurd ha List.not_mem_nil

theorem bindAddress_covers {ba : BlockAttributesSg1} {r : MmuState × Word}
    (h : bindAddress s va pa ba = .ok r) : Covers (bindAccesses s va pa) s r.1 := by
  intro n hn
  refine (bindAddressWithin_frame h).1 n fun a ha ↦ ?_
  obtain ⟨b, hb, rfl⟩ := exists_access_of_store ha
  exact hn b hb

theorem getNewPage_covers {perm cache : Word} {r : MmuState × Word}
    (h : getNewPage s va perm cache = .ok r) : Covers (newPageAccesses s va) s r.1 := by
  obtain ⟨⟨t, pa⟩, htake, hbind⟩ := bind_eq_ok.mp h
  have hwords : t.words = s.words := by
    obtain ⟨_, -, htake⟩ := bind_eq_ok.mp htake
    rw [← (Prod.mk.inj (Except.ok.inj htake)).1]
  rw [newPageAccesses, htake]
  intro n hn
  rw [bindAddress_covers hbind n hn, hwords]

theorem setInvalidPage_covers (h : setInvalidPage s va = .ok t) :
    Covers (entryAccesses s va) s t := by
  obtain ⟨_, hassert, ht⟩ := bind_eq_ok.mp h
  rw [← Except.ok.inj ht]
  exact Covers.entry (of_decide_eq_true (of_assert_ok hassert))

theorem memmovePage_words {dst src : Word} (h : memmovePage s dst src = .ok t) :
    t.words = s.words := by
  unfold memmovePage at h
  split at h
  · cases h
  · cases h
  · rw [← Except.ok.inj h]

theorem handleSharedPageWrite_covers {lowerLvl : Bool}
    (h : handleSharedPageWrite va lowerLvl s = .ok t) : Covers (sharedWriteAccesses va s) s t := by
  obtain ⟨physAddress, hphys, h⟩ := bind_eq_ok.mp h
  obtain ⟨⟨⟩, hcount, h⟩ := bind_eq_ok.mp h
  have hcode : errorCode (getLvl3EntryPhysAddress s va) = 0 := by
    obtain ⟨_, hassert, -⟩ := bind_eq_ok.mp hphys
    exact of_decide_eq_true (of_assert_ok hassert)
  rw [sharedWriteAccesses, hphys, after_ok]
  refine Covers.append (t := s) (.same rfl) ?_
  dsimp only at h ⊢
  rw [hcount, after_ok]
  by_cases hshared : 1 < getBindCounter s physAddress
  · rw [if_pos hshared] at h ⊢
    obtain ⟨⟨u, status⟩, hnew, h⟩ := bind_eq_ok.mp h
    obtain ⟨⟨⟩, hstatus, h⟩ := bind_eq_ok.mp h
    obtain ⟨tempPhysAddress, htemp, h⟩ := bind_eq_ok.mp h
    obtain ⟨v, hmove, h⟩ := bind_eq_ok.mp h
    obtain ⟨w, hinvalid, h⟩ := bind_eq_ok.mp h
    obtain ⟨⟨t', status'⟩, hbind, h⟩ := bind_eq_ok.mp h
    obtain ⟨⟨⟩, -, h⟩ := bind_eq_ok.mp h
    simp only [hnew, hstatus, htemp, hmove, hinvalid, after_ok]
    rw [← Except.ok.inj h]
    refine Covers.append (t := u) (getNewPage_covers hnew) <|
      Covers.append (t := v) (.same (memmovePage_words hmove)) ?_
    exact (setInvalidPage_covers hinvalid).append (bindAddress_covers hbind)
  · rw [if_neg hshared] at h ⊢
    obtain ⟨⟨⟩, hwalk, h⟩ := bind_eq_ok.mp h
    have hlist :
        entryAccesses s va = walkAccesses s va ++
        [.lvl3 s.words (getLvl3EntryPhysAddress s va)] := by
      rw [entryAccesses, if_pos hcode]
    rw [← Except.ok.inj h, hwalk, after_ok, ← hlist]
    exact Covers.entry hcode

/-- The words of the tables that a handler changes are among the accesses. -/
theorem Fault.handle_frame {f : Fault} (h : f.handle sys pid s = .ok t) :
    Covers (f.accesses sys pid s) s t := by
  cases f with
  | translation alloc va lowerEl =>
    obtain ⟨⟨⟩, hassert, h⟩ := bind_eq_ok.mp h
    obtain ⟨⟨u, status⟩, hnew, h⟩ := bind_eq_ok.mp h
    rw [← Except.ok.inj h, accesses, hassert, after_ok]
    exact getNewPage_covers (s := s.setRoot (getLvl2AddressFromSysState sys pid)) hnew
  | accessFlag va =>
    obtain ⟨⟨⟩, hassert, h⟩ := bind_eq_ok.mp h
    rw [← Except.ok.inj h]
    exact Covers.entry (s := s.setRoot (getLvl2AddressFromSysState sys pid))
      (of_decide_eq_true (of_assert_ok hassert))
  | permission va lowerEl =>
    obtain ⟨⟨⟩, hlevel, h⟩ := bind_eq_ok.mp h
    obtain ⟨⟨⟩, hrange, h⟩ := bind_eq_ok.mp h
    rw [accesses, hlevel, after_ok, hrange, after_ok]
    exact handleSharedPageWrite_covers h

/-! ### Accesses to the tables of a root -/

/-- All entries belong to the tables of a root. -/
def AllIn (root : Word) (l : List Access) : Prop := ∀ a ∈ l, a.In root

theorem AllIn.nil : AllIn root [] := List.forall_mem_nil _

theorem AllIn.append {l l' : List Access} (h : AllIn root l) (h' : AllIn root l') :
    AllIn root (l ++ l') :=
  List.forall_mem_append.mpr ⟨h, h'⟩

theorem AllIn.ite {c : Prop} [Decidable c] {l l' : List Access} (h : c → AllIn root l)
    (h' : ¬ c → AllIn root l') : AllIn root (if c then l else l') := by
  split_ifs with hc
  · exact h hc
  · exact h' hc

theorem AllIn.after {α : Type} {x : Except Stop α} {f : α → List Access} {P : α → Prop}
    (hx : Yields x P) (hf : ∀ a, P a → AllIn root (f a)) : AllIn root (after x f) :=
  Yields.after hx hf

theorem AllIn.after_any {α : Type} {x : Except Stop α} {f : α → List Access}
    (hf : ∀ a, AllIn root (f a)) : AllIn root (Outcome.after x f) :=
  AllIn.after (P := fun _ ↦ True) (fun _ _ ↦ trivial) fun a _ ↦ hf a

section Walk

variable (hroot : Rooted s.lvl2TableAddress)
include hroot

theorem lvl2_in (h : errorCode (getLvl2TableEntryPhysAddress s va) = 0) :
    (Access.lvl2 (getLvl2TableEntryPhysAddress s va)).In s.lvl2TableAddress := by
  have hva := va_lt_of_walk h
  refine ⟨page va / 512, ?_, getLvl2TableEntryPhysAddress_eq hroot hva⟩
  rw [page]
  omega

theorem lvl3_in (h : errorCode (getLvl3EntryPhysAddress s va) = 0) :
    (Access.lvl3 s.words (getLvl3EntryPhysAddress s va)).In s.lvl2TableAddress := by
  have hva := va_lt_of_walk (errorCode_lvl2_of_lvl3 (.inl h))
  have hpresent : present s.words s.lvl2TableAddress (page va / 512) = true := by
    by_contra habsent
    rw [getLvl3EntryPhysAddress_absent hroot hva (Bool.eq_false_iff.mpr habsent)] at h
    exact absurd h (by decide)
  refine ⟨page va, ?_, getLvl3EntryPhysAddress_eq hroot hva hpresent⟩
  rw [page]
  omega

theorem walkAccesses_in (va : Word) : AllIn s.lvl2TableAddress (walkAccesses s va) := by
  refine AllIn.ite (fun _ ↦ .nil) fun hcode ↦ ?_
  exact List.forall_mem_singleton.mpr (lvl2_in hroot (not_not.mp hcode))

theorem entryAccesses_in (va : Word) : AllIn s.lvl2TableAddress (entryAccesses s va) := by
  refine (walkAccesses_in hroot va).append (AllIn.ite (fun hcode ↦ ?_) fun _ ↦ .nil)
  exact List.forall_mem_singleton.mpr (lvl3_in hroot hcode)

theorem newTableAccesses_in (h : errorCode (getLvl2TableEntryPhysAddress s va) = 0) :
    AllIn s.lvl2TableAddress (newTableAccesses s (getLvl2TableEntryPhysAddress s va)) := by
  have hva := va_lt_of_walk h
  have hplace := getLvl2TableEntryPhysAddress_eq hroot hva
  have hpage : page va / 512 < 512 := by
    rw [page]
    omega
  refine List.forall_mem_cons.mpr ⟨lvl2_in hroot h, fun a ha ↦ ?_⟩
  obtain ⟨i, hi, ha⟩ := List.mem_flatMap.mp ha
  have hi : i < 512 := List.mem_range.mp hi
  rcases List.mem_pair.mp ha with rfl | rfl
  · exact lvl2_in hroot h
  · refine ⟨page va / 512 * 512 + i, by omega, ?_⟩
    have hrow : (page va / 512 * 512 + i) / 512 = page va / 512 := by omega
    have hcolumn : (page va / 512 * 512 + i) % 512 = i := by omega
    rw [toNat_tableEntry _ _ hi, lvl3Place, hrow, hcolumn, table, getAddressSg1_eq,
      MmuState.word, hplace]

theorem bindAccessesWithin_in (calls : ℕ) :
    AllIn s.lvl2TableAddress (bindAccessesWithin va pa calls s) := by
  induction calls generalizing s with
  | zero => exact .nil
  | succ calls ih =>
    refine AllIn.ite (fun _ ↦ .nil) fun _ ↦ (walkAccesses_in hroot va).append ?_
    refine AllIn.ite (fun hzero ↦ List.forall_mem_singleton.mpr (lvl3_in hroot hzero)) fun _ ↦ ?_
    refine AllIn.ite (fun hfive ↦ ?_) fun _ ↦ .nil
    refine (newTableAccesses_in hroot (errorCode_lvl2_of_lvl3 (.inr hfive))).append ?_
    refine AllIn.after (initNewLvl3Table_globals _ (Globals.refl s)) fun t ht ↦ ?_
    exact ht.root ▸ ih (ht.root.symm ▸ hroot)

end Walk

/-! ### The accesses of the handlers -/

section Handlers

variable (hroot : Rooted root)
include hroot

theorem newPageAccesses_in (va : Word) (h : Globals s root m) :
    AllIn root (newPageAccesses s va) := by
  refine AllIn.after (P := fun r ↦ r.1.lvl2TableAddress = root) (.bind_any fun _ ↦ .ok h.root) ?_
  rintro ⟨t, pa⟩ rfl
  exact bindAccessesWithin_in hroot 2

theorem sharedWriteAccesses_in (va : Word) (h : Globals s root m) :
    AllIn root (sharedWriteAccesses va s) := by
  have hentry {t : MmuState} (ht : t.lvl2TableAddress = root) (va : Word) :
      AllIn root (entryAccesses t va) :=
    ht ▸ entryAccesses_in (ht.symm ▸ hroot) va
  refine (hentry h.root va).append <| .after_any fun physAddress ↦ .after_any fun _ ↦
    AllIn.ite (fun _ ↦ ?_) fun _ ↦ ?_
  · -- the page is shared
    have hcount : Globals (decrementBindCounter s physAddress) root m := ⟨h.root, h.map⟩
    refine (newPageAccesses_in hroot _ hcount).append ?_
    refine AllIn.after (getNewPage_globals _ _ _ hcount) ?_
    rintro ⟨t, status⟩ ⟨ht, -⟩
    refine .after_any fun _ ↦ (hentry ht.root _).append <| .after_any fun tempPhysAddress ↦ ?_
    refine AllIn.after (memmovePage_globals _ _ ht) fun t ht ↦ (hentry ht.root _).append ?_
    refine AllIn.after (setInvalidPage_globals _ ht) fun u hu ↦ ?_
    exact hu.root ▸ bindAccessesWithin_in (hu.root.symm ▸ hroot) 2
  · -- the process is alone on the page
    refine AllIn.append (h.root ▸ walkAccesses_in (h.root.symm ▸ hroot) va) ?_
    refine AllIn.after (P := fun _ ↦ errorCode (getLvl3EntryPhysAddress s va) = 0)
      (fun _ hassert ↦ ?_) fun _ hcode ↦ ?_
    · have hlow := of_decide_eq_true (of_assert_ok hassert)
      have hmask : mask 2 0 = mask 5 0 &&& mask 2 0 := by decide
      change getLvl3EntryPhysAddress s va &&& mask 2 0 = 0
      rw [hmask, ← BitVec.and_assoc, hlow]
      rfl
    · exact List.forall_mem_singleton.mpr (h.root ▸ lvl3_in (h.root.symm ▸ hroot) hcode)

end Handlers

/-- The handlers of translation faults and of access flag faults work in the tables of the process,
and that of permission faults in those of `lvl2_table_address`. -/
theorem Fault.accesses_in (hprocess : Rooted (getLvl2AddressFromSysState sys pid)) (f : Fault)
    (hpermission : ∀ va lowerEl, f = .permission va lowerEl →
      s.lvl2TableAddress = getLvl2AddressFromSysState sys pid) :
    AllIn (getLvl2AddressFromSysState sys pid) (f.accesses sys pid s) := by
  cases f with
  | translation alloc va lowerEl =>
    exact .after_any fun _ ↦ newPageAccesses_in hprocess va ⟨rfl, rfl⟩
  | accessFlag va =>
    exact entryAccesses_in (s := s.setRoot (getLvl2AddressFromSysState sys pid)) hprocess va
  | permission va lowerEl =>
    exact .after_any fun _ ↦ .after_any fun _ ↦
      sharedWriteAccesses_in hprocess va ⟨hpermission va lowerEl rfl, rfl⟩

/-- The handler of permission faults gets to the tables: the fault is one of a process, in the part
of the memory that is not mapped one to one. -/
def Fault.Writes (s : MmuState) : Fault → Prop
  | .permission va lowerEl => lowerEl ∧ ¬ (va < s.idPagingSize ∨ gpioBase < va)
  | _ => False

/-- Without these checks it comes to no entry. -/
theorem Fault.accesses_of_not_writes {va : Word} {lowerEl : Bool}
    (h : ¬ (Fault.permission va lowerEl).Writes s) :
    (Fault.permission va lowerEl).accesses sys pid s = [] := by
  refine List.eq_nil_iff_forall_not_mem.mpr fun a ha ↦ h ?_
  obtain ⟨_, hlevel, ha⟩ := mem_after.mp ha
  obtain ⟨_, hrange, -⟩ := mem_after.mp ha
  have hrange := of_assert_ok hrange
  rw [Bool.not_eq_true', decide_eq_false_iff_not] at hrange
  exact ⟨of_assert_ok hlevel, hrange⟩

theorem Fault.va_lt_of_writes {va : Word} {lowerEl : Bool}
    (h : (Fault.permission va lowerEl).Writes s) : va.toNat < 2 ^ 30 := by
  have hgpio : gpioBase.toNat = 0x3f200000 := rfl
  have hhigh := (not_or.mp h.2).2
  rw [BitVec.lt_def] at hhigh
  omega

/-- With them it reads the level-2 entry of the address first. -/
theorem Fault.lvl2_mem_accesses (hroot : Rooted s.lvl2TableAddress) {va : Word} {lowerEl : Bool}
    (h : (Fault.permission va lowerEl).Writes s) :
    .lvl2 (getLvl2TableEntryPhysAddress s va) ∈ (Fault.permission va lowerEl).accesses
      sys pid s := by
  have hva := va_lt_of_writes h
  obtain ⟨hlevel, hrange⟩ := h
  refine mem_after.mpr ⟨(), assert_eq_ok hlevel, mem_after.mpr ⟨(), ?_, ?_⟩⟩
  · exact assert_eq_ok (by rw [decide_eq_false hrange, Bool.not_false])
  · refine List.mem_append_left _ (List.mem_append_left _ ?_)
    rw [walkAccesses, if_neg (not_not.mpr (errorCode_lvl2 hroot hva))]
    exact List.mem_singleton_self _

/-! ### Runs -/

section Runs

variable {L : Layout} {history : OsHistory} {σ : OsState}

theorem OsRun.rooted (hrun : OsRun L history σ) : Rooted σ.mmu.lvl2TableAddress :=
  OsRun.lvl2TableAddress_eq hrun ▸ (L.zoneRoot_zone _).rooted

/-- The level-2 entry that the handler of permission faults reads first is one of the last process
that was forked or had a fault of another kind. -/
theorem lastRooted_of_lvl2_in (hrun : OsRun L history σ) {va : Word} (hva : va.toNat < 2 ^ 30)
    {pid : Pid} (h : (Access.lvl2 (getLvl2TableEntryPhysAddress σ.mmu va)).In (L.zoneRoot pid)) :
    lastRooted history = pid := by
  obtain ⟨i, hi, hplace⟩ := h
  rw [getLvl2TableEntryPhysAddress_eq (OsRun.rooted hrun) hva, OsRun.lvl2TableAddress_eq hrun,
    lvl2Place, lvl2Place] at hplace
  -- two zones are further apart than the entries of a table
  have hlast := (L.zoneRoot_zone (lastRooted history)).aligned
  have hpid := (L.zoneRoot_zone pid).aligned
  have hpage : page va < 512 * 512 := by
    rw [page]
    omega
  exact L.zoneRoot_inj.mp (BitVec.eq_of_toNat_eq (by omega))

/-- In a run every entry that the handler of a fault of the running process comes to belongs to the
tables of the process, if and only if the fault is not a permission fault that gets past the checks
of its handler, or the process was the last that was forked or had a fault of another kind. -/
theorem accesses_in_iff (hrun : OsRun L history σ) (f : Fault) :
    AllIn (getLvl2AddressFromSysState σ.kernel.sys σ.kernel.sys.currPid)
        (f.accesses σ.kernel.sys σ.kernel.sys.currPid σ.mmu) ↔
      (f.Writes σ.mmu → lastRooted history = σ.kernel.sys.currPid) := by
  have hprocess := OsRun.root_eq hrun (OsRun.current_live hrun)
  have hrooted : Rooted (getLvl2AddressFromSysState σ.kernel.sys σ.kernel.sys.currPid) :=
    hprocess ▸ (L.zoneRoot_zone _).rooted
  constructor
  · intro hall hwrites
    cases f with
    | translation => exact absurd hwrites id
    | accessFlag => exact absurd hwrites id
    | permission va lowerEl =>
      have hin := hall _ (Fault.lvl2_mem_accesses (OsRun.rooted hrun) hwrites)
      exact lastRooted_of_lvl2_in hrun (Fault.va_lt_of_writes hwrites) (hprocess ▸ hin)
  · intro hlast
    by_cases hwrites : f.Writes σ.mmu
    · refine f.accesses_in hrooted fun va lowerEl _ ↦ ?_
      rw [OsRun.lvl2TableAddress_eq hrun, hprocess, hlast hwrites]
    · cases f with
      | permission va lowerEl => exact Fault.accesses_of_not_writes hwrites ▸ .nil
      | translation alloc va lowerEl => exact Fault.accesses_in hrooted _ (by rintro va lowerEl ⟨⟩)
      | accessFlag va => exact Fault.accesses_in hrooted _ (by rintro va lowerEl ⟨⟩)

end Runs

/-- The first process that `init` forks writes to a page. -/
theorem accesses_in_iff_first :
    ∃ history σ, OsRun sampleLayout history σ ∧ σ.kernel.sys.currPid = 2 ∧
    ∀ va, AllIn (getLvl2AddressFromSysState σ.kernel.sys 2)
    ((Fault.permission va true).accesses σ.kernel.sys 2 σ.mmu) := by
  obtain ⟨past, k, history, mmu, -, hos, hmirrors, -, hP⟩ := exists_sampleRun
    [.start, .svc 0 (Proc.sampleFrame [15]), .schedule 0]
    (fun past k ↦ decide (k.sys.currPid = 2 ∧ lastTaken past = 2)) (by decide +kernel)
  obtain ⟨hcurr, hlast⟩ := of_decide_eq_true hP
  refine ⟨history, _, hos, hcurr, fun va ↦ ?_⟩
  have hall := (accesses_in_iff hos (.permission va true)).mpr fun _ ↦
    (lastRooted_eq hmirrors).trans (hlast.trans hcurr.symm)
  rwa [hcurr] at hall

/-- `init` has forked a process, runs again and touches its second stack page, which is the
kernel's. The handler reads the tables of the new process. -/
theorem not_accesses_in_forked :
    ∃ history σ, OsRun sampleLayout history σ ∧ σ.kernel.sys.currPid = initPid ∧
    ¬ AllIn (getLvl2AddressFromSysState σ.kernel.sys initPid)
      ((Fault.permission stackPage2 true).accesses σ.kernel.sys initPid σ.mmu) := by
  obtain ⟨past, k, history, mmu, -, hos, hmirrors, hconfigured, hP⟩ := exists_sampleRun
    [.start, .svc 0 (Proc.sampleFrame [15]), .schedule 0, .timer (Proc.sampleFrame []), .schedule 0]
    (fun past k ↦ decide (k.sys.currPid = initPid ∧ lastTaken past = 2)) (by decide +kernel)
  obtain ⟨hcurr, hlast⟩ := of_decide_eq_true hP
  refine ⟨history, _, hos, hcurr, fun hall ↦ ?_⟩
  have hroot := OsRun.root_eq hos (OsRun.current_live hos)
  have hwrites : (Fault.permission stackPage2 true).Writes mmu := by
    refine ⟨rfl, ?_⟩
    rw [hconfigured.idPagingSize]
    decide
  have hin := hall _ (Fault.lvl2_mem_accesses (OsRun.rooted hos) hwrites)
  rw [hcurr] at hroot
  have hinit := lastRooted_of_lvl2_in hos (by decide) (hroot ▸ hin)
  rw [lastRooted_eq hmirrors, hlast] at hinit
  exact absurd hinit (by decide)

end SysresOs.Mmu
