import SysresOs.Files.Through

/-!
# Printing a directory

`print_directory` opens a directory, prints a line for each entry and calls itself for the entries
that are directories other than `.` and `..`, up to a depth. In a well-formed tree it prints the
lines depth first and closes all that it has opened (`printDirectory_lists`), and it needs a
descriptor for each level.
-/

set_option autoImplicit false
set_option relaxedAutoImplicit false

namespace SysresOs.Files

open SysresOs.ByteMemory SysresOs.Outcome
open SysresOs.Memory (toInt32)

/-! ### The code -/

/-- `is_special_directory`. -/
def isSpecialDirectory (name : Memory) : Bool :=
  name 0 = 0x2e ∧ (name 1 = 0 ∨ (name 1 = 0x2e ∧ name 2 = 0))

/-- `filename_join`, of strings without the zeros at their ends. -/
def filenameJoin (str1 str2 : List (BitVec 8)) : List (BitVec 8) := str1 ++ 0x2f :: str2

/-- What a line of `print_directory` shows. -/
structure DirectoryLine where
  inode : ℕ
  dirname : List (BitVec 8)
  name : List (BitVec 8)
  deriving DecidableEq

/-- The call of `print_directory` for an entry, if it is one of a directory other than `.` and
`..`. -/
def printBelow (descend : Filesystem → ℕ → ℤ → List (BitVec 8) →
    Except Stop (Filesystem × ℕ × List DirectoryLine))
    (fs : Filesystem) (taken : ℕ) (dirent : Dirent) (dirInode : Inode) (dirname : List (BitVec 8)) :
    Except Stop (Filesystem × ℕ × List DirectoryLine) :=
  if dirInode.kind = 1 ∧ ¬ isSpecialDirectory dirent.name then
    descend fs taken (toInt32 dirent.inode) (filenameJoin dirname (nameOf dirent.name))
  else .ok (fs, taken, [])

/-- The loop of `print_directory`, with the call for a directory in it. It is given the number of
buffers that have been taken before, so that each entry is in a new one. -/
def printLoop (fresh : ℕ → Memory)
    (descend : Filesystem → ℕ → ℤ → List (BitVec 8) →
    Except Stop (Filesystem × ℕ × List DirectoryLine)) (fd : ℤ) (dirname : List (BitVec 8)) :
    ℕ → Filesystem → ℕ → Except Stop (Filesystem × ℕ × List DirectoryLine)
  | 0, _, _ => .error .diverges
  | bound + 1, fs, taken => do
    if ← isAtEndOfFile fs fd then
      let fs ← fclose fs fd
      .ok (fs, taken, [])
    else do
      let (fs, dirent) ← readDirent fs (fresh taken) fd
      let (fs, dirInode) ← readInode fs (toInt32 dirent.inode)
      let (fs, taken, below) ← printBelow descend fs (taken + 1) dirent dirInode dirname
      let (fs, taken, rest) ← printLoop fresh descend fd dirname bound fs taken
      .ok (fs, taken, ⟨dirent.inode, dirname, nameOf dirent.name⟩ :: (below ++ rest))

/-- `print_directory` for a depth that is not negative, with at most `bound` rounds in each of its
loops. -/
def printDirectory (fresh : ℕ → Memory) (bound : ℕ) :
    ℕ → Filesystem → ℕ → ℤ → List (BitVec 8) → Except Stop (Filesystem × ℕ × List DirectoryLine)
  | 0, fs, taken, _, _ => .ok (fs, taken, [])
  | maxDepth + 1, fs, taken, inode, dirname => do
    let (fs, fd) ← iopen fs inode
    printLoop fresh (printDirectory fresh bound maxDepth) fd dirname bound fs taken

/-! ### What should be printed -/

/-- The entries `.` and `..`. -/
def specialNames : List (List (BitVec 8)) := [[0x2e], [0x2e, 0x2e]]

/-- The lines for a directory, depth first. -/
def listing (fs : Filesystem) : ℕ → ℕ → List (BitVec 8) → List DirectoryLine
  | 0, _, _ => []
  | depth + 1, n, dirname => (List.range (fileSize fs n / directoryEntrySize)).flatMap fun k ↦
    ⟨entryInode fs n k, dirname, entryName fs n k⟩ ::
      if IsDirectory fs (entryInode fs n k) ∧ entryName fs n k ∉ specialNames then
        listing fs depth (entryInode fs n k) (filenameJoin dirname (entryName fs n k))
      else []

/-- Every entry of a directory, those without a name among them, has the number of an inode that can
be read, and an entry without a name is none of a directory. -/
structure Listable (fs : Filesystem) (inodes index : Set ℕ) :
    Prop extends WellFormedTree fs inodes index where
  inode_lt : ∀ n ∈ inodes, IsDirectory fs n → ∀ k < fileSize fs n / directoryEntrySize,
    entryInode fs n k < fs.blockCount ∧ fileSize fs (entryInode fs n k) ≤ fs.maxFileSize
  named : ∀ n ∈ inodes, IsDirectory fs n → ∀ k < fileSize fs n / directoryEntrySize,
    IsDirectory fs (entryInode fs n k) → entryName fs n k ≠ []

/-- The state with another table of descriptors. -/
def withTable (fs : Filesystem) (cursor : ℕ) (table : ℕ → FileDescriptor) : Filesystem :=
  { fs with seekCursor := cursor, descriptors := table }

/-- A descriptor is the same, or was closed and is closed. -/
def SameOrClosed (fd fd' : FileDescriptor) : Prop := fd' = fd ∨ fd.closed ≠ 0 ∧ fd'.closed ≠ 0

/-- The open descriptors of a table are the same in another one, and its closed ones are closed. -/
def TableKept (table table' : ℕ → FileDescriptor) : Prop :=
  ∀ i < maxFileDescriptors, SameOrClosed (table i) (table' i)

/-- The closed descriptors of a table. -/
def closedSlots (table : ℕ → FileDescriptor) : Finset ℕ :=
  (Finset.range maxFileDescriptors).filter fun i ↦ (table i).closed ≠ 0

variable {fs : Filesystem} {inodes index : Set ℕ} {n k d cursor taken depth bound : ℕ}
  {fresh : ℕ → Memory} {table table' : ℕ → FileDescriptor} {dirname : List (BitVec 8)}

theorem listable_treeDisk : Listable treeDisk {n | n ∈ [1, 2, 3]} ∅ := by
  refine ⟨wellFormedTree_treeDisk, ?_, ?_⟩
  · change ∀ n ∈ [1, 2, 3], IsDirectory treeDisk n → ∀ k < fileSize treeDisk n / 32,
      entryInode treeDisk n k < 8 ∧ fileSize treeDisk (entryInode treeDisk n k) ≤ 160
    decide +kernel
  · change ∀ n ∈ [1, 2, 3], IsDirectory treeDisk n → ∀ k < fileSize treeDisk n / 32,
      IsDirectory treeDisk (entryInode treeDisk n k) → entryName treeDisk n k ≠ []
    decide +kernel

/-! ### Tables -/

theorem SameOrClosed.trans {fd fd' fd'' : FileDescriptor} (h : SameOrClosed fd fd')
    (h' : SameOrClosed fd' fd'') : SameOrClosed fd fd'' := by
  rcases h with rfl | ⟨hclosed, hclosed'⟩
  · exact h'
  · rcases h' with rfl | ⟨-, hclosed''⟩
    · exact .inr ⟨hclosed, hclosed'⟩
    · exact .inr ⟨hclosed, hclosed''⟩

theorem SameOrClosed.of_open {fd fd' : FileDescriptor} (h : SameOrClosed fd fd')
    (hopen : fd.closed = 0) : fd' = fd :=
  h.resolve_right fun hclosed ↦ hclosed.1 hopen

theorem TableKept.closedSlots_eq (h : TableKept table table') :
    closedSlots table' = closedSlots table := by
  refine Finset.filter_congr fun i hi ↦ ?_
  rcases h i (Finset.mem_range.mp hi) with heq | ⟨hclosed, hclosed'⟩
  · rw [heq]
  · exact iff_of_true hclosed' hclosed

/-- A descriptor that stays open. -/
theorem closedSlots_update {fd : FileDescriptor} (hopen : (table d).closed = 0)
    (hopen' : fd.closed = 0) : closedSlots (Function.update table d fd) = closedSlots table := by
  refine Finset.filter_congr fun i _ ↦ ?_
  rcases eq_or_ne i d with rfl | hne
  · rw [Function.update_self, hopen, hopen']
  · rw [Function.update_of_ne hne]

/-! ### Names -/

theorem isSpecialDirectory_eq (name : Memory) :
    isSpecialDirectory name = decide (nameOf name ∈ specialNames) := by
  have hread : read name 0 filenameMaxSize = name 0 :: name 1 :: name 2 :: read name 3 25 := rfl
  rw [nameOf, hread, isSpecialDirectory]
  by_cases hdot : name 0 = 0x2e#8
  · by_cases hend : name 1 = 0#8
    · simp [specialNames, hdot, hend]
    · by_cases hdot' : name 1 = 0x2e#8
      · by_cases hend' : name 2 = 0#8 <;> simp [specialNames, hdot, hdot', hend']
      · simp [specialNames, hdot, hdot', hend]
  · by_cases hend : name 0 = 0#8 <;> simp [specialNames, hdot, hend]

section Directory

variable (h : WellFormedTree fs inodes index) (hn : n ∈ inodes) (hdir : IsDirectory fs n)
  (hk : k < fileSize fs n / directoryEntrySize)

include h hn hdir hk

theorem WellFormedTree.nameOf_entryAt (fresh : Memory) :
    nameOf (entryAt fs fresh n (directoryEntrySize * k)).name = entryName fs n k := by
  obtain ⟨-, hend⟩ := h.entryEnd_eq hn hdir hk
  rw [entryAt, hend, Nat.mul_succ, Nat.add_sub_cancel_left, nameOf, entryName,
    ByteMemory.read, fileBytes]
  refine congrArg _ (List.map_congr_left fun i hi ↦ ?_)
  have hlt : i < filenameMaxSize := List.mem_range.mp hi
  rw [Nat.zero_add, direntOf]
  dsimp only
  rw [write_of_not_mem (Or.inl hlt)]
  exact write_fileBytes (hlt.trans (by decide))

/-- The read of an entry through a descriptor that is at it. -/
theorem WellFormedTree.readDirent_eq (hd : d < maxFileDescriptors)
    (htable : table d = ⟨inodeAt fs n, directoryEntrySize * k, 0⟩) (fresh : Memory) (cursor : ℕ) :
    ∃ cursor', readDirent (withTable fs cursor table) fresh d = .ok (withTable fs cursor'
      (Function.update table d ⟨inodeAt fs n, directoryEntrySize * (k + 1), 0⟩),
        entryAt fs fresh n (directoryEntrySize * k)) := by
  obtain ⟨hstop, hend⟩ := h.entryEnd_eq hn hdir hk
  have hmem : InMemory (withTable fs cursor table) := h.files.layout.inMemory.congr rfl rfl
  have hlt : directoryEntrySize * k < fileSize fs n :=
    (Nat.lt_div_iff_mul_lt' (h.size_dvd n hn hdir) k).mp hk
  obtain ⟨cursor', hread⟩ := readDirent_of_none hmem hd hlt hstop fresh cursor
  have hhead : atHead (withTable fs cursor table) d cursor n (directoryEntrySize * k) =
      withTable fs cursor table := by
    have hsame : inodeAt (withTable fs cursor table) n = inodeAt fs n := rfl
    rw [atHead, hsame, ← htable]
    exact congrArg (withTable fs cursor) (Function.update_eq_self d table)
  rw [hhead] at hread
  refine ⟨cursor', hread.trans ?_⟩
  have hend' : entryEnd (withTable fs cursor table) n (directoryEntrySize * k) =
      directoryEntrySize * (k + 1) := hend
  rw [hend']
  rfl

end Directory

/-! ### One directory -/

/-- The lines for an entry. -/
def entryLines (fs : Filesystem) (depth n : ℕ) (dirname : List (BitVec 8)) (k : ℕ) :
    List DirectoryLine :=
  ⟨entryInode fs n k, dirname, entryName fs n k⟩ ::
    if IsDirectory fs (entryInode fs n k) ∧ entryName fs n k ∉ specialNames then
      listing fs depth (entryInode fs n k) (filenameJoin dirname (entryName fs n k))
    else []

/-- The call prints the lines of every directory, as long as so many descriptors are closed. -/
def Lists (fs : Filesystem) (inodes : Set ℕ) (depth : ℕ)
    (descend : Filesystem → ℕ → ℤ → List (BitVec 8) →
      Except Stop (Filesystem × ℕ × List DirectoryLine)) : Prop :=
  ∀ n ∈ inodes, IsDirectory fs n → ∀ cursor table taken dirname, depth ≤ (closedSlots table).card →
    ∃ cursor' table' taken', descend (withTable fs cursor table) taken n dirname =
      .ok (withTable fs cursor' table', taken', listing fs depth n dirname) ∧ TableKept table table'

/-- What is printed below the line of an entry. -/
theorem Listable.printBelow_eq (h : Listable fs inodes index)
    {descend : Filesystem → ℕ → ℤ → List (BitVec 8) →
    Except Stop (Filesystem × ℕ × List DirectoryLine)}
    (hdescend : Lists fs inodes depth descend) (hn : n ∈ inodes) (hdir : IsDirectory fs n)
    (hk : k < fileSize fs n / directoryEntrySize) (junk : Memory) (cursor taken : ℕ)
    (dirname : List (BitVec 8)) (hroom : depth ≤ (closedSlots table).card) :
    ∃ cursor' table' taken', printBelow descend (withTable fs cursor table) taken
      (entryAt fs junk n (directoryEntrySize * k)) (inodeAt fs (entryInode fs n k)) dirname =
      .ok (withTable fs cursor' table', taken', (entryLines fs depth n dirname k).tail) ∧
      TableKept table table' := by
  have hbound := (h.files.layout.inMemory.bounds (h.inode_lt n hn hdir k hk).1).1
  rw [printBelow, isSpecialDirectory_eq, h.nameOf_entryAt hn hdir hk, h.entryAt_inode hn hdir hk,
    toInt32_natCast (by omega), entryLines, List.tail_cons]
  by_cases hsub : IsDirectory fs (entryInode fs n k) ∧ entryName fs n k ∉ specialNames
  · have hname := h.named n hn hdir k hk hsub.1
    rw [if_pos hsub, if_pos ⟨hsub.1, by simpa using hsub.2⟩]
    exact hdescend _ (h.entry_mem n hn hdir k hk hname) hsub.1 _ _ _ _ hroom
  · rw [if_neg hsub, if_neg fun hsub' ↦ hsub ⟨hsub'.1, by simpa using hsub'.2⟩]
    exact ⟨_, table, _, rfl, fun _ _ ↦ .inl rfl⟩

theorem printLoop_eq (fresh : ℕ → Memory) (cursor taken : ℕ) (dirname : List (BitVec 8))
    (h : Listable fs inodes index)
    {descend : Filesystem → ℕ → ℤ → List (BitVec 8) →
    Except Stop (Filesystem × ℕ × List DirectoryLine)}
    (hdescend : Lists fs inodes depth descend) (hn : n ∈ inodes) (hdir : IsDirectory fs n)
    (hd : d < maxFileDescriptors) (hk : k ≤ fileSize fs n / directoryEntrySize)
    (hbound : fileSize fs n / directoryEntrySize - k < bound)
    (htable : table d = ⟨inodeAt fs n, directoryEntrySize * k, 0⟩)
    (hroom : depth ≤ (closedSlots table).card) :
    ∃ cursor' table' taken', printLoop fresh descend d dirname bound (withTable fs cursor table)
      taken =
      .ok (withTable fs cursor' table', taken',
        ((List.range (fileSize fs n / directoryEntrySize)).drop k).flatMap
        (entryLines fs depth n dirname)) ∧
      (table' d).closed ≠ 0 ∧ ∀ i < maxFileDescriptors, i ≠ d →
      SameOrClosed (table i) (table' i) := by
  have hmul := Nat.mul_div_cancel' (h.size_dvd n hn hdir)
  induction bound generalizing cursor taken k table with
  | zero => omega
  | succ bound ih =>
    have hfd : (withTable fs cursor table).descriptors d =
        ⟨inodeAt fs n, directoryEntrySize * k, 0⟩ := htable
    rw [printLoop, isAtEndOfFile, getDescriptor_natCast hd, ok_bind, ok_bind, hfd]
    dsimp only
    rcases hk.eq_or_lt with rfl | hlt
    · have hend : (inodeAt fs n).size ≤ directoryEntrySize * (fileSize fs n / directoryEntrySize) :=
        hmul.ge
      rw [decide_eq_true hend, if_pos rfl, fclose, getDescriptor_natCast hd, ok_bind,
        setDescriptor_natCast hd, ok_bind, List.drop_of_length_le (by rw [List.length_range]),
        List.flatMap_nil]
      refine ⟨cursor, Function.update table d { table d with closed := 1 }, taken, rfl, ?_,
        fun i _ hne ↦ ?_⟩
      · rw [Function.update_self]
        exact Nat.one_ne_zero
      · rw [Function.update_of_ne hne]
        exact .inl rfl
    · have hopen : (table d).closed = 0 := congrArg FileDescriptor.closed htable
      have hpos : ¬ (inodeAt fs n).size ≤ directoryEntrySize * k := by
        refine not_le.mpr (lt_of_lt_of_eq ?_ hmul)
        exact Nat.mul_lt_mul_of_pos_left hlt (by decide)
      obtain ⟨cursor₁, hread⟩ := h.readDirent_eq hn hdir hlt hd htable (fresh taken) cursor
      obtain ⟨hchild, hsize⟩ := h.inode_lt n hn hdir k hlt
      have hbound' := (h.files.layout.inMemory.bounds hchild).1
      generalize htable₁ : Function.update table d ⟨inodeAt fs n, directoryEntrySize * (k + 1), 0⟩ =
        table₁ at hread
      have hself : table₁ d = ⟨inodeAt fs n, directoryEntrySize * (k + 1), 0⟩ := by
        rw [← htable₁, Function.update_self]
      have hothers (i : ℕ) (hne : i ≠ d) : table₁ i = table i := by
        rw [← htable₁, Function.update_of_ne hne]
      have hroom₁ : depth ≤ (closedSlots table₁).card := by
        rwa [← htable₁, closedSlots_update hopen rfl]
      have hmem : InMemory (withTable fs cursor₁ table₁) := h.files.layout.inMemory.congr rfl rfl
      have hinode : readInode (withTable fs cursor₁ table₁) (entryInode fs n k) =
          .ok (withTable fs (entryInode fs n k * fs.blockSize) table₁,
          inodeAt fs (entryInode fs n k)) :=
        (readInode_eq hmem hchild).trans (if_pos hsize)
      rw [decide_eq_false hpos, if_neg (by decide), hread, ok_bind]
      dsimp only
      rw [h.entryAt_inode hn hdir hlt, toInt32_natCast (by omega), hinode, ok_bind]
      dsimp only
      rw [h.nameOf_entryAt hn hdir hlt]
      obtain ⟨cursor₂, table₂, taken₂, hbelow, hkept⟩ := h.printBelow_eq hdescend hn hdir hlt
        (fresh taken) (entryInode fs n k * fs.blockSize) (taken + 1) dirname hroom₁
      have hself₂ : table₂ d = ⟨inodeAt fs n, directoryEntrySize * (k + 1), 0⟩ := by
        rw [(hkept d hd).of_open (congrArg FileDescriptor.closed hself), hself]
      obtain ⟨cursor', table', taken', hrest, hclosed, hothers'⟩ := ih cursor₂ taken₂ hlt (by omega)
        hself₂ (by rwa [hkept.closedSlots_eq])
      have hlines : (List.range (fileSize fs n / directoryEntrySize)).drop k =
          k :: (List.range (fileSize fs n / directoryEntrySize)).drop (k + 1) := by
        rw [List.drop_eq_getElem_cons (by rwa [List.length_range]), List.getElem_range]
      refine ⟨cursor', table', taken', ?_, hclosed, fun i hi hne ↦ ?_⟩
      · rw [hbelow, ok_bind]
        dsimp only
        rw [hrest, ok_bind, hlines, List.flatMap_cons]
        rfl
      · have hsame := hkept i hi
        rw [hothers i hne] at hsame
        exact hsame.trans (hothers' i hi hne)

/-! ### The whole tree -/

/-- Opening a descriptor leaves one less closed. -/
theorem card_closedSlots {fd : FileDescriptor} (hd : d < maxFileDescriptors)
    (hclosed : (table d).closed ≠ 0) (hopen : fd.closed = 0) :
    (closedSlots (Function.update table d fd)).card + 1 = (closedSlots table).card := by
  have hmem : d ∈ closedSlots table := Finset.mem_filter.mpr ⟨Finset.mem_range.mpr hd, hclosed⟩
  have herase : closedSlots (Function.update table d fd) = (closedSlots table).erase d := by
    ext i
    simp only [closedSlots, Finset.mem_erase, Finset.mem_filter]
    rcases eq_or_ne i d with rfl | hne
    · simp [hopen]
    · simp [hne]
  rw [herase, Finset.card_erase_add_one hmem]

theorem lists_printDirectory (h : Listable fs inodes index) (hbound : 2 ^ 30 ≤ bound)
    (fresh : ℕ → Memory) (depth : ℕ) :
    Lists fs inodes depth (printDirectory fresh bound depth) := by
  induction depth with
  | zero => exact fun n _ _ cursor table taken _ _ ↦ ⟨cursor, table, taken, rfl, fun _ _ ↦ .inl rfl⟩
  | succ depth ih =>
    intro n hn hdir cursor table taken dirname hroom
    have hmem : InMemory (withTable fs cursor table) := h.files.layout.inMemory.congr rfl rfl
    have hcount := h.files.inode_lt n hn
    have hsize := h.files.fileSize_lt hn
    obtain ⟨i, hi⟩ := Finset.card_pos.mp (Nat.zero_lt_of_lt hroom)
    obtain ⟨hi, hclosed⟩ := Finset.mem_filter.mp hi
    have hany : ∃ i < maxFileDescriptors, ((withTable fs cursor table).descriptors i).closed ≠ 0 :=
      ⟨i, Finset.mem_range.mp hi, hclosed⟩
    obtain ⟨d, hd, hslot, hclosed⟩ := slot_of_closed hany
    have hopen : iopen (withTable fs cursor table) n =
        .ok (withTable fs (n * fs.blockSize) (Function.update table d ⟨inodeAt fs n, 0, 0⟩),
        (d : ℤ)) :=
      (iopen_eq hmem hslot hd hcount).trans (if_pos (h.size_le n hn))
    have hcard : (closedSlots (Function.update table d ⟨inodeAt fs n, 0, 0⟩)).card + 1 =
        (closedSlots table).card :=
      card_closedSlots hd hclosed rfl
    have hrounds : fileSize fs n / directoryEntrySize - 0 < bound := by
      have hdiv := Nat.div_le_self (fileSize fs n) directoryEntrySize
      omega
    obtain ⟨cursor', table', taken', hloop, hclosed', hothers⟩ := printLoop_eq fresh
      (n * fs.blockSize) taken dirname
      h ih hn hdir hd (Nat.zero_le _) hrounds (Function.update_self d ⟨inodeAt fs n, 0, 0⟩ table)
      (by omega)
    rw [List.drop_zero] at hloop
    refine ⟨cursor', table', taken', ?_, fun i hi ↦ ?_⟩
    · rw [printDirectory, hopen, ok_bind]
      exact hloop
    · rcases eq_or_ne i d with rfl | hne
      · exact .inr ⟨hclosed, hclosed'⟩
      · have hsame := hothers i hi hne
        rwa [Function.update_of_ne hne] at hsame

/-- `print_directory` prints the lines depth first, and closes the descriptors that it opens: one
for each level. -/
theorem printDirectory_lists (h : Listable fs inodes index) (hn : n ∈ inodes)
    (hdir : IsDirectory fs n) (hroom : depth ≤ (closedSlots fs.descriptors).card)
    (hbound : 2 ^ 30 ≤ bound) (fresh : ℕ → Memory) (taken : ℕ)
    (dirname : List (BitVec 8)) :
    ∃ cursor table taken', printDirectory fresh bound depth fs taken n dirname =
      .ok ({ fs with seekCursor := cursor, descriptors := table }, taken',
      listing fs depth n dirname) ∧ TableKept fs.descriptors table :=
  lists_printDirectory h hbound fresh depth n hn hdir fs.seekCursor fs.descriptors
    taken dirname hroom

theorem printDirectory_lists_treeDisk : ∃ cursor table taken',
    printDirectory (fun _ _ ↦ 0) (2 ^ 30) 2 treeDisk 0 1 [] =
      .ok ({ treeDisk with seekCursor := cursor, descriptors := table }, taken',
      listing treeDisk 2 1 []) ∧ TableKept treeDisk.descriptors table :=
  printDirectory_lists listable_treeDisk (by decide) (by decide +kernel) (by decide) le_rfl _ 0 []

/-! ### What is printed can be opened -/

theorem resolve_append (fs : Filesystem) (n : ℕ) (front names : List (List (BitVec 8))) :
    resolve fs n (front ++ names) = (resolve fs n front).bind fun m ↦ resolve fs m names := by
  induction front generalizing n with
  | nil => rfl
  | cons name front ih =>
    rw [List.cons_append, resolve, resolve]
    cases lookupEntry fs n name with
    | none => rfl
    | some m => exact ih m

/-- The names in each directory are distinct. -/
def NamesDistinct (fs : Filesystem) (inodes : Set ℕ) : Prop :=
  ∀ n ∈ inodes, IsDirectory fs n → ∀ k < fileSize fs n / directoryEntrySize,
    ∀ k' < fileSize fs n / directoryEntrySize, entryName fs n k ≠ [] →
    entryName fs n k = entryName fs n k' → k = k'

/-- The names lead from the root directory to the inode, through directories. -/
structure Route (fs : Filesystem) (names : List (List (BitVec 8))) (n : ℕ) : Prop where
  resolve_eq : resolve fs fs.rootInode names = some n
  isName : ∀ name ∈ names, IsName name
  isDirectory : ∀ front, front <+: names → front ≠ names →
    ∀ m, resolve fs fs.rootInode front = some m → IsDirectory fs m

/-- An entry with a name is the one that is found under the name. -/
theorem NamesDistinct.lookupEntry_eq (hdistinct : NamesDistinct fs inodes) (hn : n ∈ inodes)
    (hdir : IsDirectory fs n) (hk : k < fileSize fs n / directoryEntrySize)
    (hname : entryName fs n k ≠ []) :
    lookupEntry fs n (entryName fs n k) = some (entryInode fs n k) := by
  rw [lookupEntry]
  cases hfind : (List.range (fileSize fs n / directoryEntrySize)).find?
      fun i ↦ entryName fs n i = entryName fs n k with
  | none =>
    have hnone := List.find?_range_eq_none.mp hfind k hk
    simp at hnone
  | some i =>
    obtain ⟨hsame, hi, -⟩ := List.find?_range_eq_some.mp hfind
    rw [hdistinct n hn hdir k hk i (List.mem_range.mp hi) hname (of_decide_eq_true hsame).symm,
      Option.map_some]

/-- One name more. -/
theorem Route.snoc (h : Listable fs inodes index) (hdistinct : NamesDistinct fs inodes)
    {names : List (List (BitVec 8))} (hroute : Route fs names n) (hn : n ∈ inodes)
    (hdir : IsDirectory fs n) (hk : k < fileSize fs n / directoryEntrySize)
    (hname : entryName fs n k ≠ []) :
    Route fs (names ++ [entryName fs n k]) (entryInode fs n k) := by
  refine ⟨?_, fun name hmem ↦ ?_, fun front hfront hne m hm ↦ ?_⟩
  · rw [resolve_append, hroute.resolve_eq, Option.bind_some, resolve,
      hdistinct.lookupEntry_eq hn hdir hk hname, Option.bind_some, resolve]
  · rcases List.mem_append.mp hmem with hmem | hmem
    · exact hroute.isName name hmem
    · obtain rfl := List.mem_singleton.mp hmem
      exact ⟨hname, not_mem_takeWhile _, h.no_slash n hn hdir k hk⟩
  · rcases List.prefix_concat_iff.mp hfront with rfl | hfront
    · exact absurd rfl hne
    · rcases eq_or_ne front names with rfl | hne'
      · obtain rfl := Option.some.inj (hroute.resolve_eq.symm.trans hm)
        exact hdir
      · exact hroute.isDirectory front hfront hne' m hm

theorem filenameJoin_slashed (names : List (List (BitVec 8))) (name : List (BitVec 8)) :
    filenameJoin (slashed names) name = slashed (names ++ [name]) := by
  rw [filenameJoin, slashed, slashed, List.flatMap_append, List.flatMap_singleton]

/-- A line with a name has the path of its inode. -/
theorem route_of_mem_listing (h : Listable fs inodes index) (hdistinct : NamesDistinct fs inodes)
    {names : List (List (BitVec 8))} (hroute : Route fs names n) (hn : n ∈ inodes)
    (hdir : IsDirectory fs n) {line : DirectoryLine}
    (hline : line ∈ listing fs depth n (slashed names)) (hname : line.name ≠ []) :
    ∃ path, filenameJoin line.dirname line.name = slashed path ∧ path ≠ [] ∧
      Route fs path line.inode := by
  induction depth generalizing n names with
  | zero => exact absurd hline List.not_mem_nil
  | succ depth ih =>
    obtain ⟨k, hk, hline⟩ := List.mem_flatMap.mp hline
    have hk := List.mem_range.mp hk
    rcases List.mem_cons.mp hline with rfl | hline
    · exact ⟨_, filenameJoin_slashed _ _, by simp, hroute.snoc h hdistinct hn hdir hk hname⟩
    · split_ifs at hline with hsub
      · have hnamed := h.named n hn hdir k hk hsub.1
        rw [filenameJoin_slashed] at hline
        exact ih (hroute.snoc h hdistinct hn hdir hk hnamed) (h.entry_mem n hn hdir k hk hnamed)
          hsub.1 hline
      · exact absurd hline List.not_mem_nil

/-- Another table of descriptors changes no file. -/
theorem Listable.withTable (h : Listable fs inodes index) (cursor : ℕ)
    (table : ℕ → FileDescriptor) : Listable (withTable fs cursor table) inodes index where
  files := h.files.congr rfl rfl fun _ _ ↦ ⟨rfl, fun _ _ ↦ rfl⟩
  blockSize_dvd := h.blockSize_dvd
  root_mem := h.root_mem
  size_le := h.size_le
  size_dvd := h.size_dvd
  entry_mem := h.entry_mem
  no_slash := h.no_slash
  inode_lt := h.inode_lt
  named := h.named

theorem listing_withTable (cursor : ℕ) (table : ℕ → FileDescriptor) (depth n : ℕ)
    (dirname : List (BitVec 8)) :
    listing (withTable fs cursor table) depth n dirname = listing fs depth n dirname := by
  induction depth generalizing n dirname with
  | zero => rfl
  | succ depth ih =>
    rw [listing]
    simp only [ih]
    rfl

/-- The path of a line for the root directory is looked up to the inode of the line. -/
theorem lookup_of_mem_listing (h : Listable fs inodes index) (hdistinct : NamesDistinct fs inodes)
    (hroot : IsDirectory fs fs.rootInode) (hslot : (closedSlots fs.descriptors).Nonempty)
    {line : DirectoryLine} (hline : line ∈ listing fs depth fs.rootInode [])
    (hname : line.name ≠ []) (fresh : ℕ → Memory) :
    ∃ bound, ∀ k ≥ bound, ∃ fs', inodeOfPath fresh k fs (filenameJoin line.dirname line.name) =
      .ok (fs', (line.inode : ℤ)) := by
  have hempty : Route fs [] fs.rootInode :=
    ⟨rfl, fun _ hmem ↦ absurd hmem List.not_mem_nil, fun front hfront hne _ _ ↦
      absurd (List.prefix_nil.mp hfront) hne⟩
  obtain ⟨path, hpath, hne, hroute⟩ :=
    route_of_mem_listing h hdistinct hempty h.root_mem hroot hline hname
  obtain ⟨i, hi⟩ := hslot
  obtain ⟨hi, hclosed⟩ := Finset.mem_filter.mp hi
  obtain ⟨d, hd, hnext, -⟩ := slot_of_closed ⟨i, Finset.mem_range.mp hi, hclosed⟩
  have hmem := h.files.layout.inMemory
  have hcount := h.files.inode_lt _ h.root_mem
  have hbound := (hmem.bounds hcount).1
  have hends : LookupEnds fs fresh (filenameJoin line.dirname line.name) (.found line.inode) := by
    rw [hpath, LookupEnds, if_pos hcount, if_pos (h.size_le _ h.root_mem),
      relative_slashed hne hroute.isName (Or.inl rfl)]
    have hwalks := h.walks_resolve h.root_mem hne hroute.isName hroute.isDirectory fresh
    rwa [hroute.resolve_eq] at hwalks
  obtain ⟨bound, hrun⟩ := hends.run hmem (by omega) (toInt32_ne (by omega)) hnext hd
  refine ⟨bound, fun k hk ↦ ?_⟩
  obtain ⟨cursor, dir, pos, heq⟩ := hrun k hk
  exact ⟨_, heq⟩

/-- What `print_directory` has printed for the root directory can be looked up afterwards, under the
path that was printed. -/
theorem inodeOfPath_of_printed (h : Listable fs inodes index) (hdistinct : NamesDistinct fs inodes)
    (hroot : IsDirectory fs fs.rootInode) (hroom : depth ≤ (closedSlots fs.descriptors).card)
    (hbound : 2 ^ 30 ≤ bound) {fs' : Filesystem} {taken' : ℕ} {lines : List DirectoryLine}
    (hprint : printDirectory fresh bound depth fs taken fs.rootInode [] = .ok (fs', taken', lines))
    {line : DirectoryLine} (hline : line ∈ lines) (hname : line.name ≠ []) (fresh' : ℕ → Memory) :
    ∃ bound, ∀ k ≥ bound, ∃ fs'', inodeOfPath fresh' k fs' (filenameJoin line.dirname line.name) =
      .ok (fs'', (line.inode : ℤ)) := by
  obtain ⟨cursor, table, taken'', hlists, hkept⟩ := lists_printDirectory h hbound fresh
    depth _ h.root_mem hroot fs.seekCursor fs.descriptors taken [] hroom
  obtain ⟨rfl, hrest⟩ := Prod.mk.inj (Except.ok.inj (hprint.symm.trans hlists))
  obtain ⟨-, rfl⟩ := Prod.mk.inj hrest
  have hslot : (closedSlots table).Nonempty := by
    rw [hkept.closedSlots_eq, ← Finset.card_pos]
    cases depth with
    | zero => exact absurd hline List.not_mem_nil
    | succ depth => omega
  rw [← listing_withTable cursor table] at hline
  exact lookup_of_mem_listing (h.withTable cursor table) hdistinct hroot hslot hline hname fresh'

/-- The entry b of the directory a of the small tree, once two levels have been printed. -/
theorem inodeOfPath_of_printed_treeDisk : ∃ fs' taken' lines,
    printDirectory (fun _ _ ↦ 0) (2 ^ 30) 2 treeDisk 0 1 [] = .ok (fs', taken', lines) ∧
      ∃ bound, ∀ k ≥ bound, ∃ fs'',
        inodeOfPath (fun _ _ ↦ 0) k fs' (filenameJoin [0x2f, 0x61] [0x62]) =
          .ok (fs'', ((3 : ℕ) : ℤ)) := by
  have hroom : 2 ≤ (closedSlots treeDisk.descriptors).card := by decide
  have hroot : IsDirectory treeDisk 1 := by decide +kernel
  have hline : (⟨3, [0x2f, 0x61], [0x62]⟩ : DirectoryLine) ∈ listing treeDisk 2 1 [] := by
    decide +kernel
  have hdistinct : NamesDistinct treeDisk {n | n ∈ [1, 2, 3]} := by
    change ∀ n ∈ [1, 2, 3], IsDirectory treeDisk n →
      ∀ k < fileSize treeDisk n / 32, ∀ k' < fileSize treeDisk n / 32,
      entryName treeDisk n k ≠ [] → entryName treeDisk n k = entryName treeDisk n k' → k = k'
    decide +kernel
  obtain ⟨cursor, table, taken', hprint, -⟩ := lists_printDirectory listable_treeDisk le_rfl
    (fun _ _ ↦ 0) 2 1 (by decide) hroot 0 treeDisk.descriptors 0 [] hroom
  exact ⟨_, taken', _, hprint,
    inodeOfPath_of_printed listable_treeDisk hdistinct hroot hroom le_rfl hprint hline
    (by decide) _⟩

end SysresOs.Files
