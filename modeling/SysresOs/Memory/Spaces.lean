import SysresOs.Lib.Sharing
import SysresOs.Memory.Exit
import SysresOs.Memory.Lineage

/-!
# The pages of the processes as a shared memory

The tables, the bind counters and the map of free pages are a shared memory in the sense of
`Lib.Sharing`, whose frames are the physical pages below the peripherals. A slot of the process
table may be used again after its process has ended, and the pages that the tables of that process
mapped stay bound. So a process is a slot with a number, and `Implements` says that the counters
count the processes of all numbers, while the tables are those of the slots in use. Each handler of
`mmu.c` is one of the operations of the library on this memory.
-/

set_option autoImplicit false
set_option relaxedAutoImplicit false

namespace SysresOs.Mmu

open SysresOs.Outcome SysresOs.Sharing

open SysresOs.Proc (Pid kernelPid initPid)

/-! ### Frames -/

/-- The contents of a page. -/
abbrev PageBytes := Fin 0x1000 → BitVec 8

/-- A process: a slot of the process table, and which of its processes. -/
abbrev Tenant := Pid × ℕ

/-- The pages as a shared memory. -/
abbrev SharedPages := SharedMemory Tenant ℕ ℕ PageBytes

/-- The pages that every process has for itself. -/
def stackPages : List ℕ := [0x3f1ff, 0x3f1fe]

/-- The number of a physical page from `id_paging_size` up to the peripherals. -/
def IsFrame (L : Layout) (f : ℕ) : Prop := 512 * L.kernelTables ≤ f ∧ f < 0x3f000

/-- The address of a physical page. -/
def frameAddress (f : ℕ) : Word := BitVec.ofNat 64 (0x1000 * f)

/-- The contents of a physical page. -/
def pageBytes (pages : Word → BitVec 8) (f : ℕ) : PageBytes :=
  fun k ↦ pages (BitVec.ofNat 64 (0x1000 * f + k))

/-- What a level-3 entry maps its page to, and whether `AP[2]` leaves it writable. -/
def mappingOf (e : Word) : Mapping ℕ := ⟨(entryAddress e).toNat / 0x1000, e &&& 1#64 <<< 7 = 0⟩

/-- The mapping of a page of a process that is its own. -/
def userMapping (L : Layout) (w : ℕ → Word) (q : Pid) (v : ℕ) : Option (Mapping ℕ) :=
  if IsUserPage L v then (leaf w (L.zoneRoot q) v).map mappingOf else none

/-- The number of entries of the map whose pages are below the peripherals. -/
def freeLimit (L : Layout) : ℕ := 0x3f000 - 512 * L.kernelTables

/-- The free part of the map as a list of frames. -/
structure FreeMap (L : Layout) (m : PhysicalMemoryMap) (free : List ℕ) : Prop where
  size : m.size = 0x100000
  head : m.head.toNat + free.length = freeLimit L
  entry : ∀ i (h : i < free.length), (m.map (m.head.toNat + i)).toNat = 0x1000 * free[i]
  frame : ∀ f ∈ free, IsFrame L f

/-- The memory of the MMU is a shared memory, where the tables are those of the slots in use, and
the number of the process in a slot is given by `gen`. -/
structure Implements (L : Layout) (live : Pid → Prop) (gen : Pid → ℕ) (s : MmuState)
    (m : SharedPages) : Prop where
  configured : Configured L s
  hardwareRoot : s.ttbr0El1 &&& mask 47 1 = L.mmuTablesStart
  kernelTables : ZoneTables s.words L.mmuTablesStart 0
  reserved : leaf s.words L.mmuTablesStart (page pageRes1) = none
  reserved' : leaf s.words L.mmuTablesStart (page pageRes2) = none
  tables : ∀ q, live q → ZoneTables s.words (L.zoneRoot q) L.kernelTables
  procs : ∀ q, live q → (q, gen q) ∈ m.procs
  map : ∀ q, live q → ∀ v, m.map (q, gen q) v = userMapping L s.words q v
  frame : ∀ p v f, m.frameOf p v = some f → IsFrame L f
  counter : ∀ f, IsFrame L f → getBindCounter s (frameAddress f) = BitVec.ofNat 8 (m.holders f).card
  contents : ∀ f, IsFrame L f → m.contents f = pageBytes s.pages f
  free : FreeMap L s.physicalMemoryMap m.free

variable {L : Layout} {live : Pid → Prop} {gen : Pid → ℕ} {s t : MmuState} {m m' : SharedPages}
  {q r : Pid} {va pa e : Word} {f g u v : ℕ} {rest : List ℕ} {x : Option Word}

theorem toNat_frameAddress (hf : IsFrame L f) : (frameAddress f).toNat = 0x1000 * f := by
  obtain ⟨-, hlt⟩ := hf
  rw [frameAddress, BitVec.toNat_ofNat]
  omega

/-- A page of the memory is the address of its frame. -/
theorem eq_frameAddress (hpa : pa.toNat = 0x1000 * f) : pa = frameAddress f := by
  apply BitVec.eq_of_toNat_eq
  rw [frameAddress, BitVec.toNat_ofNat]
  omega

theorem le_frameAddress (hf : IsFrame L f) : L.endAddr ≤ frameAddress f := by
  obtain ⟨hend, -⟩ := L.toNat_endAddr_tables
  rw [BitVec.le_def, hend, toNat_frameAddress hf]
  have := hf.1
  omega

/-- The address in an entry is that of its frame. -/
theorem entryAddress_eq (e : Word) : entryAddress e = frameAddress (mappingOf e).frame := by
  have haligned := entryAddress_aligned e
  refine eq_frameAddress ?_
  change _ = 0x1000 * ((entryAddress e).toNat / 0x1000)
  omega

/-- The address that the hardware finds is in the frame. -/
theorem entryAddress_add (e va : Word) : entryAddress e + (va &&& mask 11 0) =
    BitVec.ofNat 64 (0x1000 * (mappingOf e).frame + va.toNat % 0x1000) := by
  have hlt := entryAddress_lt e
  have haligned := entryAddress_aligned e
  apply BitVec.eq_of_toNat_eq
  rw [BitVec.toNat_add, toNat_and_mask va (by omega) (by omega), BitVec.toNat_ofNat]
  change _ = (0x1000 * ((entryAddress e).toNat / 0x1000) + va.toNat % 0x1000) % 2 ^ 64
  omega

/-- The first frames of the memory are none of the peripherals. -/
theorem IsFrame.notMem (hf : IsFrame L f) : f ∉ peripheralPages := by
  obtain ⟨-, hlt⟩ := hf
  rw [mem_peripheralPages]
  omega

theorem userMapping_of_user (hv : IsUserPage L v) {w : ℕ → Word} :
    userMapping L w q v = (leaf w (L.zoneRoot q) v).map mappingOf := if_pos hv

/-! ### The map of free pages -/

namespace FreeMap

variable {M : PhysicalMemoryMap} {free : List ℕ}

/-- There is a free page as long as `head` has not reached the peripherals. -/
theorem exists_cons (h : FreeMap L M free) (hroom : M.head.toNat < freeLimit L) :
    ∃ f rest, free = f :: rest := by
  have hhead := h.head
  cases free with
  | nil =>
    rw [List.length_nil] at hhead
    omega
  | cons f rest => exact ⟨f, rest, rfl⟩

theorem next (h : FreeMap L s.physicalMemoryMap (f :: rest)) :
    s.physicalMemoryMap.head < s.physicalMemoryMap.size ∧ nextFreePage s = frameAddress f ∧
      FreeMap L (pageTaken s).physicalMemoryMap rest := by
  have hhead := h.head
  rw [List.length_cons] at hhead
  have hlimit : freeLimit L ≤ 0x3f000 := Nat.sub_le _ _
  have hsize : (0x100000 : BitVec 32).toNat = 0x100000 := rfl
  have hone : (1 : BitVec 32).toNat = 1 := rfl
  have hsucc : (s.physicalMemoryMap.head + 1).toNat = s.physicalMemoryMap.head.toNat + 1 := by
    rw [BitVec.toNat_add, hone]
    omega
  refine ⟨?_, ?_, ?_⟩
  · rw [BitVec.lt_def, h.size, hsize]
    omega
  · refine eq_frameAddress ?_
    rw [nextFreePage, BitVec.toNat_setWidth_of_le (by decide)]
    exact h.entry 0 (Nat.succ_pos _)
  · constructor
    case size => exact h.size
    case head =>
      rw [pageTaken, hsucc]
      omega
    case entry =>
      intro i hi
      rw [pageTaken, hsucc]
      have hentry := h.entry (i + 1) (by rw [List.length_cons]; omega)
      rw [List.getElem_cons_succ] at hentry
      rw [← hentry]
      exact congrArg (fun n ↦ (s.physicalMemoryMap.map n).toNat) (by omega)
    case frame => exact fun g hg ↦ h.frame g (List.mem_cons_of_mem f hg)

/-- A page that is put back is the next one to be taken. -/
theorem push (h : FreeMap L M free) (hhead : 0 < M.head) (hf : IsFrame L f) :
    FreeMap L (pushPage M (frameAddress f)) (f :: free) := by
  have hlimit : freeLimit L ≤ 0x3f000 := Nat.sub_le _ _
  have hlen := h.head
  have hone : (1 : BitVec 32).toNat = 1 := rfl
  have hzero : (0 : BitVec 32).toNat = 0 := rfl
  rw [BitVec.lt_def, hzero] at hhead
  have hpred : (M.head - 1).toNat = M.head.toNat - 1 := by
    rw [BitVec.toNat_sub, hone]
    omega
  constructor
  case size => exact h.size
  case head =>
    rw [pushPage, hpred, List.length_cons]
    omega
  case entry =>
    intro i hi
    have hmap (n : ℕ) : (pushPage M (frameAddress f)).map n =
        if n = M.head.toNat - 1 then (frameAddress f).setWidth 32 else M.map n := by
      rw [pushPage, hpred]
      exact Function.update_apply _ _ _ _
    rw [hmap, pushPage, hpred]
    cases i with
    | zero =>
      have hlt := hf.2
      rw [Nat.add_zero, if_pos rfl, List.getElem_cons_zero, BitVec.toNat_setWidth,
        toNat_frameAddress hf]
      omega
    | succ i =>
      rw [List.length_cons] at hi
      rw [if_neg (by omega), List.getElem_cons_succ, ← h.entry i (by omega)]
      exact congrArg (fun n ↦ (M.map n).toNat) (by omega)
  case frame =>
    intro g hg
    rcases List.mem_cons.mp hg with rfl | hg
    · exact hf
    · exact h.frame g hg

end FreeMap

/-! ### One entry changes -/

/-- The entry of one page of one process changes, and all other entries are kept. -/
structure LeafChanged (w w' : ℕ → Word) (root : Word) (v : ℕ) (x : Option Word) : Prop where
  tables : ∀ r n, ZoneTables w r n → ZoneTables w' r n
  leaf : ∀ r n, ZoneTables w r n → ∀ u, n ≤ u / 512 → u < 511 * 512 →
    leaf w' r u = if r = root ∧ u = v then x else leaf w r u

theorem leafChanged_bindWords {w : ℕ → Word} {root : Word} {n : ℕ} (h : ZoneTables w root n)
    (hn : n ≤ v / 512) (hv : v < 511 * 512) (he : isBlockEntry e = true) :
    LeafChanged w (bindWords w root v e) root v (some e) where
  tables _ _ hr := h.bind hr hn hv
  leaf _ _ hr _ hm hu := h.leaf_bindWords hr hn hv hm hu he

/-- An entry of a present table is written. -/
theorem leafChanged_writeEntry {w : ℕ → Word} {root : Word} {n : ℕ} (h : ZoneTables w root n)
    (hn : n ≤ v / 512) (hv : v < 511 * 512) (hpresent : present w root (v / 512) = true) :
    LeafChanged w (writeEntry w root v e) root v (if isBlockEntry e then some e else none) := by
  have hwrite : writeEntry w root v e = zoneWrite w root v e := by
    rw [writeEntry, h.lvl3Place_eq hn hv, zoneWrite]
  rw [hwrite]
  refine ⟨fun r m hr ↦ hr.write h.zone hv, fun r m hr u hm hu ↦ ?_⟩
  rw [hr.leaf_zoneWrite h.zone hv hm hu]
  simp only [hpresent, true_and]

/-- The entry of a page that has been made invalid. -/
theorem leafChanged_invalidate {w : ℕ → Word} {root : Word} {n : ℕ} (h : ZoneTables w root n)
    (hn : n ≤ v / 512) (hv : v < 511 * 512) (hleaf : leaf w root v = some e) :
    LeafChanged w (invalidate w root v) root v none := by
  obtain ⟨hpresent, hword, -⟩ := leaf_eq_some hleaf
  have hcleared := leafChanged_writeEntry (e := e &&& mask 63 1) h hn hv hpresent
  rw [isBlockEntry_cleared, if_neg Bool.false_ne_true] at hcleared
  rw [invalidate, hword]
  exact hcleared

namespace Implements

/-- A page that is mapped in a slot in use. -/
theorem exists_leaf (h : Implements L live gen s m) (hq : live q) {y : Mapping ℕ}
    (hmap : m.map (q, gen q) v = some y) :
    IsUserPage L v ∧ ∃ e, leaf s.words (L.zoneRoot q) v = some e ∧ mappingOf e = y := by
  rw [h.map q hq, userMapping] at hmap
  split_ifs at hmap with hv
  exact ⟨hv, Option.map_eq_some_iff.mp hmap⟩

theorem frame_of_leaf (h : Implements L live gen s m) (hq : live q) (hv : IsUserPage L v)
    (hleaf : leaf s.words (L.zoneRoot q) v = some e) : m.map (q, gen q) v = some (mappingOf e) ∧
      m.frameOf (q, gen q) v = some (mappingOf e).frame ∧ IsFrame L (mappingOf e).frame := by
  have hmap : m.map (q, gen q) v = some (mappingOf e) := by
    rw [h.map q hq, userMapping_of_user hv, hleaf]
    rfl
  have hframe : m.frameOf (q, gen q) v = some (mappingOf e).frame := by
    rw [SharedMemory.frameOf, hmap]
    rfl
  exact ⟨hmap, hframe, h.frame _ _ _ hframe⟩

/-- The shared memory after the entry of one page has changed. -/
theorem change {free : List ℕ} (h : Implements L live gen s m) (hq : live q) (hv : IsUserPage L v)
    (hreserved : L.zoneRoot q = L.mmuTablesStart → v ≠ page pageRes1 ∧ v ≠ page pageRes2)
    (hw : LeafChanged s.words t.words (L.zoneRoot q) v x)
    (hframe : ∀ e ∈ x, IsFrame L (mappingOf e).frame)
    (hconf : Configured L t) (hroot : t.ttbr0El1 = s.ttbr0El1) (hpages : t.pages = s.pages)
    (hfree : FreeMap L t.physicalMemoryMap free)
    (hcounter : ∀ f, IsFrame L f → getBindCounter t (frameAddress f) = BitVec.ofNat 8
      (SharedMemory.holders { m.setMap (q, gen q) v (x.map mappingOf) with free := free } f).card) :
    Implements L live gen t { m.setMap (q, gen q) v (x.map mappingOf) with free := free } := by
  have hrow := hv.1
  have hlt := hv.2.1
  have hmap (p : Tenant) (u : ℕ) :
      SharedMemory.map { m.setMap (q, gen q) v (x.map mappingOf) with free := free } p u =
      if p = (q, gen q) ∧ u = v then x.map mappingOf else m.map p u := SharedMemory.map_setMap
  have hnone (u : ℕ) (hu : u < 511 * 512) (hne : L.zoneRoot q = L.mmuTablesStart → v ≠ u)
      (hleaf : leaf s.words L.mmuTablesStart u = none) :
      leaf t.words L.mmuTablesStart u = none := by
    rw [hw.leaf _ 0 h.kernelTables u (Nat.zero_le _) hu,
      if_neg fun hand ↦ hne hand.1.symm hand.2.symm, hleaf]
  constructor
  case configured => exact hconf
  case hardwareRoot => rw [hroot, h.hardwareRoot]
  case kernelTables => exact hw.tables _ _ h.kernelTables
  case reserved => exact hnone _ (by decide) (fun heq ↦ (hreserved heq).1) h.reserved
  case reserved' => exact hnone _ (by decide) (fun heq ↦ (hreserved heq).2) h.reserved'
  case tables => exact fun r hr ↦ hw.tables _ _ (h.tables r hr)
  case procs => exact h.procs
  case map =>
    intro r hr u
    rw [hmap, userMapping]
    split_ifs with hsame hu hu
    · obtain ⟨hr', rfl⟩ := hsame
      obtain rfl : r = q := congrArg Prod.fst hr'
      rw [hw.leaf _ _ (h.tables r hr) u hrow (by omega), if_pos ⟨rfl, rfl⟩]
    · exact absurd (hsame.2 ▸ hv) hu
    · have hlt' := hu.2.1
      rw [hw.leaf _ _ (h.tables r hr) u hu.1 (by omega), if_neg, h.map r hr, userMapping_of_user hu]
      rintro ⟨hr', rfl⟩
      obtain rfl := L.zoneRoot_inj.mp hr'
      exact hsame ⟨rfl, rfl⟩
    · rw [h.map r hr, userMapping, if_neg hu]
  case frame =>
    intro p u f hp
    rw [SharedMemory.frameOf, hmap] at hp
    split_ifs at hp with hsame
    · rw [Option.map_map] at hp
      obtain ⟨e, he, rfl⟩ := Option.map_eq_some_iff.mp hp
      exact hframe e he
    · exact h.frame p u f hp
  case counter => exact hcounter
  case contents =>
    intro f hf
    rw [hpages]
    exact h.contents f hf
  case free => exact hfree

/-- The assignment of `lvl2_table_address` changes no mapping. -/
theorem setRoot (h : Implements L live gen s m) (root : Word) :
    Implements L live gen (s.setRoot root) m where
  configured :=
    ⟨h.configured.idPagingSize, h.configured.bindCounter, h.configured.bindCounterOffset⟩
  hardwareRoot := h.hardwareRoot
  kernelTables := h.kernelTables
  reserved := h.reserved
  reserved' := h.reserved'
  tables := h.tables
  procs := h.procs
  map := h.map
  frame := h.frame
  counter := h.counter
  contents := h.contents
  free := h.free

end Implements

/-! ### A new page -/

/-- The entry of a page that a handler maps. -/
theorem mappingOf_withAttributes (hf : IsFrame L f) {perm : Word}
    (hperm : perm = userPage ∨ perm = kernelPage) :
    mappingOf (withAttributes (frameAddress f)
      (newBlockAttributesSg1 (perm ||| accessFlagSet) normalWtNt)) =
      ⟨f, true⟩ := by
  have hlt := hf.2
  have haddress := toNat_frameAddress hf
  have hbit :
      withAttributes (frameAddress f)
      (newBlockAttributesSg1 (perm ||| accessFlagSet) normalWtNt) &&& 1#64 <<< 7 = 0 := by
    rw [withAttributes_and _ _ _ (by decide)]
    rcases hperm with rfl | rfl <;> decide
  rw [mappingOf, entryAddress_withAttributes, entryAddress_of_page (by omega) (by omega), haddress,
    Nat.mul_div_cancel_left f (by decide), decide_eq_true hbit]

theorem withAttributes_writable (e : Word) {perm : Word}
    (hperm : perm = userPage ∨ perm = kernelPage) :
    mappingOf (withAttributes e (newBlockAttributesSg1 (perm ||| accessFlagSet) normalWtNt)) =
      ⟨(mappingOf e).frame, true⟩ := by
  have hbit : withAttributes e (newBlockAttributesSg1 (perm ||| accessFlagSet) normalWtNt) &&&
      1#64 <<< 7 = 0 := by
    rw [withAttributes_and _ _ _ (by decide)]
    rcases hperm with rfl | rfl <;> decide
  rw [mappingOf, entryAddress_withAttributes, decide_eq_true hbit, mappingOf]

/-- `get_new_page` for a page of a process that is not mapped. -/
theorem Implements.take (h : Implements L live gen s m) (hsound : m.Sound) (hq : live q)
    (hroot : s.lvl2TableAddress = L.zoneRoot q) (hva : va.toNat < 0x3f000000)
    (hv : IsUserPage L (page va)) (hmap : m.map (q, gen q) (page va) = none)
    (hfree : m.free = f :: rest) {perm : Word} (hperm : perm = userPage ∨ perm = kernelPage) :
    ∃ t, getNewPage s va (perm ||| accessFlagSet) normalWtNt = .ok (t, 0) ∧
      Implements L live gen t (m.take (q, gen q) (page va) f rest) ∧
      leaf t.words (L.zoneRoot q) (page va) = some (withAttributes (frameAddress f)
        (newBlockAttributesSg1 (perm ||| accessFlagSet) normalWtNt)) := by
  obtain ⟨hhead, hnext, hrest⟩ := (hfree ▸ h.free).next
  have hf : IsFrame L f := h.free.frame f (hfree ▸ List.mem_cons_self)
  have haddress := toNat_frameAddress hf
  have hlt := hf.2
  have hlt' := hv.2.1
  have htables := hroot ▸ h.tables q hq
  have hget := getNewPage_apart (perm ||| accessFlagSet) normalWtNt h.configured htables.zone.rooted
    (htables.rowApart hv.1 (by omega)) hhead (by omega) (by rw [hnext]; omega)
    (by rw [hnext]; omega)
  refine ⟨_, hget, ?_⟩
  rw [hnext]
  have hentry := mappingOf_withAttributes hf hperm
  have hpage : page va < 0x3f000 := by
    unfold page
    omega
  have hres : page pageRes1 = 0x3f1fd ∧ page pageRes2 = 0x3f1fc := ⟨rfl, rfl⟩
  have hbind := leafChanged_bindWords (e := withAttributes (frameAddress f)
    (newBlockAttributesSg1 (perm ||| accessFlagSet) normalWtNt)) htables hv.1 (by omega)
    (isBlockEntry_withAttributes _ _)
  rw [hroot] at hbind
  have hwords :
      LeafChanged s.words (bound (pageTaken s) (page va) (frameAddress f)
      (withAttributes (frameAddress f)
      (newBlockAttributesSg1 (perm ||| accessFlagSet) normalWtNt))).words (L.zoneRoot q) (page va)
        (some (withAttributes
        (frameAddress f) (newBlockAttributesSg1 (perm ||| accessFlagSet) normalWtNt))) := by
    rw [bound, pageTaken, hroot]
    exact hbind
  have hchange := h.change hq hv (fun _ ↦ by omega) hwords ?_ ⟨h.configured.idPagingSize,
    h.configured.bindCounter, h.configured.bindCounterOffset⟩ rfl rfl hrest ?_
  · rw [Option.map_some, hentry] at hchange
    refine ⟨hchange, ?_⟩
    rw [hwords.leaf _ _ (h.tables q hq) _ hv.1 (by omega), if_pos ⟨rfl, rfl⟩]
  · rintro e ⟨⟩
    rw [hentry]
    exact hf
  · intro g hg
    obtain ⟨hsame, hother⟩ := hsound.holders_take (h.procs q hq) hmap hfree g
    rw [SharedMemory.take] at hsame hother
    rw [Option.map_some, hentry, getBindCounter_bound, toNat_frameAddress hg, haddress,
      Nat.mul_div_cancel_left g (by decide), Nat.mul_div_cancel_left f (by decide)]
    have hid : s.idPagingSize ≤ frameAddress f := by
      rw [h.configured.idPagingSize]
      exact le_frameAddress hf
    have hcount : getBindCounter (pageTaken s) (frameAddress g) =
        BitVec.ofNat 8 (m.holders g).card := h.counter g hg
    by_cases heq : g = f
    · rw [if_pos ⟨hid, heq⟩, hcount, hsame heq, heq,
        hsound.holders_of_free (hfree ▸ List.mem_cons_self)]
      rfl
    · rw [if_neg fun hand ↦ heq hand.2, hcount, hother heq]

/-! ### The entry of a mapped page -/

namespace Implements

/-- Writing the entry of a mapped page, where it keeps its frame. -/
theorem rewrite {y : Mapping ℕ} (h : Implements L live gen s m) (hq : live q)
    (hroot : s.lvl2TableAddress = L.zoneRoot q) (hv : IsUserPage L v)
    (hleaf : leaf s.words (L.zoneRoot q) v = some e)
    {e' : Word} (hblock : isBlockEntry e' = true) (hmapping : mappingOf e' = y)
    (hframe : y.frame = (mappingOf e).frame) :
    Implements L live gen { s with words := writeEntry s.words s.lvl2TableAddress v e' }
        (m.setMap (q, gen q) v (some y)) ∧
      leaf (writeEntry s.words s.lvl2TableAddress v e') (L.zoneRoot q) v = some e' := by
  have htables := h.tables q hq
  have hlt' := hv.2.1
  obtain ⟨hmap, hold, hf⟩ := h.frame_of_leaf hq hv hleaf
  have hwrite := leafChanged_writeEntry (e := e') htables hv.1 (by omega) (leaf_eq_some hleaf).1
  rw [if_pos hblock] at hwrite
  have hreserved : L.zoneRoot q = L.mmuTablesStart → v ≠ page pageRes1 ∧ v ≠ page pageRes2 := by
    intro hkernel
    rw [hkernel] at hleaf
    constructor
    · rintro rfl
      rw [h.reserved] at hleaf
      cases hleaf
    · rintro rfl
      rw [h.reserved'] at hleaf
      cases hleaf
  have hwords : LeafChanged s.words (writeEntry s.words s.lvl2TableAddress v e') (L.zoneRoot q)
      v (some e') := by
    rw [hroot]
    exact hwrite
  have hchange := h.change (t := { s with words := writeEntry s.words s.lvl2TableAddress v e' }) hq
    hv hreserved hwords
    ?_ ⟨h.configured.idPagingSize, h.configured.bindCounter, h.configured.bindCounterOffset⟩
    rfl rfl h.free ?_
  · rw [Option.map_some, hmapping] at hchange
    refine ⟨hchange, ?_⟩
    rw [hwords.leaf _ _ htables _ hv.1 (by omega), if_pos ⟨rfl, rfl⟩]
  · rintro e ⟨⟩
    rw [hmapping, hframe]
    exact hf
  · intro g hg
    have hholders := SharedMemory.holders_setMap (y := y) (hold.trans (congrArg some hframe.symm)) g
    rw [Option.map_some, hmapping]
    exact (h.counter g hg).trans
      (congrArg (fun c : Finset Tenant ↦ BitVec.ofNat 8 c.card) hholders.symm)

/-- `set_page_access_flag` on a mapped page. -/
theorem setPageAccessFlag (h : Implements L live gen s m) (hq : live q)
    (hroot : s.lvl2TableAddress = L.zoneRoot q) (hva : va.toNat < 2 ^ 30)
    (hv : IsUserPage L (page va)) (hmapped : leaf s.words (L.zoneRoot q) (page va) = some e) :
    ∃ t, Mmu.setPageAccessFlag s va = .ok t ∧ Implements L live gen t m ∧
      leaf t.words (L.zoneRoot q) (page va) = some (e ||| 1#64 <<< 10) := by
  have hrooted : Rooted s.lvl2TableAddress := hroot ▸ (h.tables q hq).zone.rooted
  obtain ⟨hpresent, hword, hblock⟩ := leaf_eq_some (hroot ▸ hmapped)
  have hblock' : isBlockEntry (e ||| 1#64 <<< 10) = true := by
    rw [isBlockEntry_iff] at hblock ⊢
    simpa using hblock
  have hmapping : mappingOf (e ||| 1#64 <<< 10) = mappingOf e := by
    have hkeep (x : Word) (hx : 1#64 <<< 10 &&& x = 0) : (e ||| 1#64 <<< 10) &&& x = e &&& x := by
      rw [BitVec.and_or_distrib_right, hx]
      exact BitVec.or_zero
    rw [mappingOf, entryAddress, hkeep _ (by decide), hkeep _ (by decide), mappingOf, entryAddress]
  have hset : Mmu.setPageAccessFlag s va =
      .ok { s with
        words := writeEntry s.words s.lvl2TableAddress (page va) (e ||| 1#64 <<< 10) } := by
    rw [Mmu.setPageAccessFlag, assert_pos (errorCode_lvl3 hrooted hva hpresent), ok_bind,
      setEntryAccessFlag, MmuState.setWord, word_lvl3 hrooted hva hpresent,
      getLvl3EntryPhysAddress_eq hrooted hva hpresent, hword, writeEntry]
  refine ⟨_, hset, ?_⟩
  have hsame : m.setMap (q, gen q) (page va) (some (mappingOf e)) = m := by
    rw [SharedMemory.setMap, ← (h.frame_of_leaf hq hv hmapped).1, Function.update_eq_self,
      Function.update_eq_self]
  have hrewrite := h.rewrite hq hroot hv hmapped hblock' hmapping rfl
  rw [hsame] at hrewrite
  exact hrewrite

end Implements

/-- `handle_shared_page_write` on a page that is mapped once. Its last assertion is about the low
six bits of the address of the level-3 entry, and entries have eight bytes. -/
theorem handleSharedPageWrite_alone (hroot : Rooted s.lvl2TableAddress) (hva : va.toNat < 2 ^ 30)
    (hleaf : leaf s.words s.lvl2TableAddress (page va) = some e)
    (hone : getBindCounter s (entryAddress e) = 1)
    (lowerLvl : Bool) : handleSharedPageWrite va lowerLvl s =
      if page va % 8 = 0 then .ok { s with
        words := writeEntry s.words s.lvl2TableAddress (page va) (withAttributes e
        (newBlockAttributesSg1 ((if lowerLvl then userPage else kernelPage) ||| accessFlagSet)
        normalWtNt)) }
      else .error (.assertion .sharedPageWalk) := by
  obtain ⟨hpresent, hword, -⟩ := leaf_eq_some hleaf
  have hplace := getLvl3EntryPhysAddress_eq hroot hva hpresent
  have hcount : getBindCounter s (entryAddress e + (va &&& mask 11 0)) = 1 := by
    have hlt := entryAddress_lt e
    have haligned := entryAddress_aligned e
    rw [getBindCounter_congr, hone]
    rw [BitVec.toNat_add, toNat_and_mask va (by omega) (by omega)]
    omega
  have hlow : (getLvl3EntryPhysAddress s va &&& mask 5 0 = 0) ↔ page va % 8 = 0 := by
    have haligned := table_aligned s.words s.lvl2TableAddress (page va / 512)
    rw [and_mask_eq_zero _ (by omega) (by omega), hplace, lvl3Place]
    omega
  rw [handleSharedPageWrite, getPhysicalAddress_eq hroot hva hleaf, ok_bind]
  dsimp only
  rw [hcount, assert_eq_ok (by decide), ok_bind, if_neg (by decide)]
  by_cases hpage : page va % 8 = 0
  · rw [if_pos hpage, assert_pos (hlow.mpr hpage), ok_bind, setBlockAndPageAttributesSg1,
      MmuState.setWord, word_lvl3 hroot hva hpresent, hplace, hword, writeEntry]
  · rw [if_neg hpage, assert_neg fun hzero ↦ hpage (hlow.mp hzero)]
    rfl

namespace Implements

/-- The counter of a frame is 1 exactly when one process holds it. -/
theorem counter_eq_one (h : Implements L live gen s m) (hcard : m.procs.card ≤ 255)
    (hf : IsFrame L f) : getBindCounter s (frameAddress f) = 1 ↔ (m.holders f).card = 1 := by
  have hle : (m.holders f).card ≤ m.procs.card := Finset.card_le_card SharedMemory.holders_subset
  have hone : (1 : BitVec 8).toNat = 1 := rfl
  rw [h.counter f hf, ← BitVec.toNat_inj, BitVec.toNat_ofNat, hone]
  omega

/-- The frame of a mapped page whose counter is 1 is held by its process alone. -/
theorem holders_eq (h : Implements L live gen s m) (hcard : m.procs.card ≤ 255) (hq : live q)
    (hv : IsUserPage L v) (hleaf : leaf s.words (L.zoneRoot q) v = some e)
    (hone : getBindCounter s (entryAddress e) = 1) :
    m.holders (mappingOf e).frame = {(q, gen q)} := by
  obtain ⟨-, hframe, hf⟩ := h.frame_of_leaf hq hv hleaf
  rw [entryAddress_eq e] at hone
  obtain ⟨p, hp⟩ := Finset.card_eq_one.mp ((h.counter_eq_one hcard hf).mp hone)
  have hmem : (q, gen q) ∈ m.holders (mappingOf e).frame :=
    SharedMemory.mem_holders.mpr ⟨h.procs q hq, v, hframe⟩
  rw [hp, Finset.mem_singleton] at hmem
  rw [hp, hmem]

/-- `handle_shared_page_write` makes a page writable that is mapped once. -/
theorem own (h : Implements L live gen s m) (hcard : m.procs.card ≤ 255) (hq : live q)
    (hroot : s.lvl2TableAddress = L.zoneRoot q) (hva : va.toNat < 2 ^ 30)
    (hv : IsUserPage L (page va)) (hleaf : leaf s.words (L.zoneRoot q) (page va) = some e)
    (hone : getBindCounter s (entryAddress e) = 1)
    {lowerLvl : Bool} (hok : handleSharedPageWrite va lowerLvl s = .ok t) :
    SharedMemory.Step stackPages m (.own (q, gen q) (page va)) (m.setMap (q, gen q) (page va)
      (some ⟨(mappingOf e).frame, true⟩)) ∧
      Implements L live gen t (m.setMap (q, gen q) (page va) (some ⟨(mappingOf e).frame, true⟩)) ∧
      leaf t.words (L.zoneRoot q) (page va) = some (withAttributes e
        (newBlockAttributesSg1 ((if lowerLvl then userPage else kernelPage) ||| accessFlagSet)
        normalWtNt)) := by
  have hperm : (if lowerLvl then userPage else kernelPage) = userPage ∨
      (if lowerLvl then userPage else kernelPage) = kernelPage := by
    cases lowerLvl
    · exact .inr rfl
    · exact .inl rfl
  refine ⟨.own (h.frame_of_leaf hq hv hleaf).2.1 (h.holders_eq hcard hq hv hleaf hone), ?_⟩
  rw [handleSharedPageWrite_alone (hroot ▸ (h.tables q hq).zone.rooted) hva
    (hroot ▸ hleaf) hone] at hok
  by_cases hpage : page va % 8 = 0
  case neg =>
    rw [if_neg hpage] at hok
    cases hok
  rw [if_pos hpage] at hok
  obtain rfl := Except.ok.inj hok
  exact h.rewrite hq hroot hv hleaf (isBlockEntry_withAttributes _ _)
    (withAttributes_writable e hperm) rfl

/-- The number of processes that have a page mapped, after one of them has dropped it. -/
theorem counter_drop (h : Implements L live gen s m) (hsound : m.Sound) (hq : live q)
    (hframe : m.frameOf (q, gen q) v = some f) (hf : IsFrame L f) {g : ℕ} (hg : IsFrame L g) :
    getBindCounter (pageDropped s v (frameAddress f)) (frameAddress g) =
      BitVec.ofNat 8 ((m.drop (q, gen q) v f).holders g).card := by
  have hmem : (q, gen q) ∈ m.holders f := SharedMemory.mem_holders.mpr ⟨h.procs q hq, _, hframe⟩
  rw [getBindCounter_pageDropped, toNat_frameAddress hg, toNat_frameAddress hf,
    Nat.mul_div_cancel_left g (by decide), Nat.mul_div_cancel_left f (by decide),
    hsound.holders_drop hframe]
  split_ifs with heq
  · subst heq
    have hpos : 0 < (m.holders g).card := Finset.card_pos.mpr ⟨_, hmem⟩
    have hone : (1 : BitVec 8).toNat = 1 := rfl
    rw [h.counter g hg, Finset.card_erase_of_mem hmem, ← BitVec.toNat_inj, BitVec.toNat_sub,
      BitVec.toNat_ofNat, BitVec.toNat_ofNat, hone]
    omega
  · exact h.counter g hg

/-- `free_virtual_page` on a mapped page, when the map has a place for it. -/
theorem drop (h : Implements L live gen s m) (hsound : m.Sound) (hcard : m.procs.card ≤ 255)
    (hq : live q) (hroot : s.lvl2TableAddress = L.zoneRoot q) (hva : va.toNat < 0x3f000000)
    (hv : IsUserPage L (page va)) (hleaf : leaf s.words (L.zoneRoot q) (page va) = some e)
    (hhead : getBindCounter s (entryAddress e) = 1 → 0 < s.physicalMemoryMap.head) :
    SharedMemory.Step stackPages m (.drop (q, gen q) (page va))
      (m.drop (q, gen q) (page va) (mappingOf e).frame) ∧
      ∃ t status, freeVirtualPage s va = .ok (t, status) ∧
        Implements L live gen t (m.drop (q, gen q) (page va) (mappingOf e).frame) := by
  obtain ⟨hmap, hframe, hf⟩ := h.frame_of_leaf hq hv hleaf
  have hlt := hv.2.1
  have hpage : page va < 0x3f000 := by
    unfold page
    omega
  have hnot : page va ∉ stackPages := by
    simp only [stackPages, List.mem_cons, List.not_mem_nil, or_false]
    omega
  have hsole : getBindCounter s (entryAddress e) = 1 ↔
      m.holders (mappingOf e).frame = {(q, gen q)} := by
    refine ⟨h.holders_eq hcard hq hv hleaf, fun hholders ↦ ?_⟩
    rw [entryAddress_eq, h.counter_eq_one hcard hf, hholders, Finset.card_singleton]
  refine ⟨.drop hframe hnot, _, _, freeVirtualPage_pageDropped (hroot ▸ (h.tables q hq).zone.rooted)
    (by omega) (hroot ▸ hleaf) ?_ hhead, ?_⟩
  · rw [h.configured.idPagingSize, entryAddress_eq]
    exact le_frameAddress hf
  have hpool : FreeMap L (pageDropped s (page va) (entryAddress e)).physicalMemoryMap
      (if m.holders (mappingOf e).frame = {(q, gen q)} then (mappingOf e).frame :: m.free
      else m.free) := by
    rw [pageDropped]
    by_cases hone : getBindCounter s (entryAddress e) = 1
    · rw [if_pos hone, if_pos (hsole.mp hone), entryAddress_eq]
      exact h.free.push (hhead hone) hf
    · rw [if_neg hone, if_neg fun heq ↦ hone (hsole.mpr heq)]
      exact h.free
  refine h.change (x := none) hq hv (fun _ ↦ ?_) ?_ (by rintro e ⟨⟩) h.configured.pageDropped rfl
    rfl hpool fun g hg ↦ ?_
  · have hres : page pageRes1 = 0x3f1fd ∧ page pageRes2 = 0x3f1fc := ⟨rfl, rfl⟩
    omega
  · rw [← hroot]
    exact leafChanged_invalidate (hroot ▸ h.tables q hq) hv.1 (by omega) (hroot ▸ hleaf)
  · rw [entryAddress_eq]
    exact h.counter_drop hsound hq hframe hf hg

/-- A process writes a byte to a page that it may write to. -/
theorem store (h : Implements L live gen s m) (hq : live q) (hv : IsUserPage L (page va))
    (hleaf : leaf s.words (L.zoneRoot q) (page va) = some e) (hwritable : e &&& 1#64 <<< 7 = 0)
    (b : BitVec 8) {k : Fin 0x1000} (hk : k.val = va.toNat % 0x1000) :
    SharedMemory.Step stackPages m
      (.store (q, gen q) (page va) (Function.update (pageBytes s.pages (mappingOf e).frame) k b))
      (m.store (mappingOf e).frame (Function.update (pageBytes s.pages (mappingOf e).frame) k b)) ∧
      Implements L live gen { s with
        pages := Function.update s.pages (entryAddress e + (va &&& mask 11 0)) b }
        (m.store (mappingOf e).frame
        (Function.update (pageBytes s.pages (mappingOf e).frame) k b)) := by
  obtain ⟨hmap, hframe, hf⟩ := h.frame_of_leaf hq hv hleaf
  have hmapping : mappingOf e = ⟨(mappingOf e).frame, true⟩ := by
    rw [mappingOf, decide_eq_true hwritable]
  rw [hmapping] at hmap
  refine ⟨.store _ hmap, ?_⟩
  have haddress :
      entryAddress e + (va &&& mask 11 0) = BitVec.ofNat 64 (0x1000 * (mappingOf e).frame + k) := by
    rw [hk, entryAddress_add]
  constructor
  case configured =>
    exact ⟨h.configured.idPagingSize, h.configured.bindCounter, h.configured.bindCounterOffset⟩
  case hardwareRoot => exact h.hardwareRoot
  case kernelTables => exact h.kernelTables
  case reserved => exact h.reserved
  case reserved' => exact h.reserved'
  case tables => exact h.tables
  case procs => exact h.procs
  case map => exact h.map
  case frame => exact h.frame
  case counter => exact h.counter
  case contents =>
    intro g hg
    have hg' := hg.2
    have hf' := hf.2
    have hbytes (j : Fin 0x1000) :
        pageBytes (Function.update s.pages (entryAddress e + (va &&& mask 11 0)) b) g j =
          Function.update s.pages (entryAddress e + (va &&& mask 11 0)) b
          (BitVec.ofNat 64 (0x1000 * g + j)) := rfl
    change Function.update m.contents _ _ g = _
    by_cases heq : g = (mappingOf e).frame
    · subst heq
      funext j
      have hj : BitVec.ofNat 64 (0x1000 * (mappingOf e).frame + j) =
          BitVec.ofNat 64 (0x1000 * (mappingOf e).frame + k) ↔ j = k := by
        rw [← BitVec.toNat_inj, BitVec.toNat_ofNat, BitVec.toNat_ofNat, Fin.ext_iff]
        omega
      rw [hbytes, haddress, Function.update_self, Function.update_apply, Function.update_apply]
      exact if_congr hj.symm rfl rfl
    · rw [Function.update_of_ne heq, h.contents g hg]
      funext j
      have hne :
          BitVec.ofNat 64 (0x1000 * g + j) ≠
          BitVec.ofNat 64 (0x1000 * (mappingOf e).frame + k) := by
        rw [ne_eq, ← BitVec.toNat_inj, BitVec.toNat_ofNat, BitVec.toNat_ofNat]
        omega
      rw [hbytes, haddress]
      exact (Function.update_of_ne hne _ _).symm
  case free => exact h.free

/-- Slots that are no longer in use are forgotten. -/
theorem mono {live' : Pid → Prop} (h : Implements L live gen s m) (hle : ∀ q, live' q → live q) :
    Implements L live' gen s m where
  configured := h.configured
  hardwareRoot := h.hardwareRoot
  kernelTables := h.kernelTables
  reserved := h.reserved
  reserved' := h.reserved'
  tables q hq := h.tables q (hle q hq)
  procs q hq := h.procs q (hle q hq)
  map q hq := h.map q (hle q hq)
  frame := h.frame
  counter := h.counter
  contents := h.contents
  free := h.free

end Implements

end SysresOs.Mmu
