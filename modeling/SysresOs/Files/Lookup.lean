import SysresOs.Files.Walk

/-!
# Looking up a path

In a well-formed image a directory is an array of entries of 32 bytes, each with the name of a file
and the number of its inode. A path names a file through the names of directories: its first name is
looked up in the root directory, the second one in the directory found, and so on (`resolve`). The
loop of `inode_of_path` reads each directory up to the first entry with the name that is looked for
(`Walks.skip`), and goes on in the directory of that entry, so that it finds what `resolve` finds.
-/

set_option autoImplicit false
set_option relaxedAutoImplicit false

namespace SysresOs.Files

open SysresOs.ByteMemory SysresOs.Outcome
open SysresOs.Memory (toInt32)

/-! ### Directories -/

/-- A name in a path. -/
structure IsName (name : List (BitVec 8)) : Prop where
  ne_nil : name ≠ []
  no_zero : 0 ∉ name
  no_slash : 0x2f ∉ name

/-- The names one after the other, each behind a slash. -/
def slashed (names : List (List (BitVec 8))) : List (BitVec 8) :=
  names.flatMap fun name ↦ 0x2f :: name

/-- The name of entry `k` of a directory: its bytes up to the first zero. -/
def entryName (fs : Filesystem) (n k : ℕ) : List (BitVec 8) :=
  (fileBytes fs n (directoryEntrySize * k) filenameMaxSize).takeWhile (· ≠ 0)

/-- The inode of entry `k` of a directory. -/
def entryInode (fs : Filesystem) (n k : ℕ) : ℕ :=
  switchEndianness (ofBytes (fileBytes fs n (directoryEntrySize * k + filenameMaxSize) 4))

/-- The inode of the first entry with the name. -/
def lookupEntry (fs : Filesystem) (n : ℕ) (name : List (BitVec 8)) : Option ℕ :=
  ((List.range (fileSize fs n / directoryEntrySize)).find? fun k ↦ entryName fs n k = name).map
    (entryInode fs n)

/-- The inode that the names lead to from a directory. -/
def resolve (fs : Filesystem) (n : ℕ) : List (List (BitVec 8)) → Option ℕ
  | [] => some n
  | name :: names => (lookupEntry fs n name).bind fun m ↦ resolve fs m names

/-- The inode is that of a directory. -/
def IsDirectory (fs : Filesystem) (n : ℕ) : Prop := (inodeAt fs n).kind = 1

/-- An image whose directories are arrays of entries, with inodes of the image and names without a
slash. No entry crosses the boundary of a block. -/
structure WellFormedTree (fs : Filesystem) (inodes index : Set ℕ) : Prop where
  files : WellFormed fs inodes index
  blockSize_dvd : directoryEntrySize ∣ fs.blockSize
  root_mem : fs.rootInode ∈ inodes
  size_le : ∀ n ∈ inodes, fileSize fs n ≤ fs.maxFileSize
  size_dvd : ∀ n ∈ inodes, IsDirectory fs n → directoryEntrySize ∣ fileSize fs n
  entry_mem : ∀ n ∈ inodes, IsDirectory fs n → ∀ k < fileSize fs n / directoryEntrySize,
    entryName fs n k ≠ [] → entryInode fs n k ∈ inodes
  no_slash : ∀ n ∈ inodes, IsDirectory fs n → ∀ k < fileSize fs n / directoryEntrySize,
    0x2f ∉ entryName fs n k

variable {fs : Filesystem} {inodes index : Set ℕ} {n k : ℕ} {path name c tail : List (BitVec 8)}

/-! ### Names -/

theorem charAt_drop (path : List (BitVec 8)) (i : ℕ) : charAt (path.drop i) 0 = charAt path i := by
  rw [charAt, List.getElem?_drop, Nat.add_zero, charAt]

theorem endsAt_drop (path : List (BitVec 8)) (i : ℕ) : endsAt (path.drop i) 0 = endsAt path i := by
  rw [endsAt, charAt_drop, endsAt]

theorem endsAt_cons {b : BitVec 8} (hzero : b ≠ 0) (hslash : b ≠ 0x2f) :
    endsAt (b :: path) 0 = false :=
  decide_eq_false (not_or.mpr ⟨hslash, hzero⟩)

theorem endsAt_slashed (names : List (List (BitVec 8))) : endsAt (slashed names) 0 = true := by
  cases names with
  | nil => rfl
  | cons name names => rfl

/-- The bytes up to the first zero, and the zero. -/
theorem charAt_takeWhile {bytes : List (BitVec 8)} {i : ℕ}
    (hi : i ≤ (bytes.takeWhile (· ≠ 0)).length) :
    charAt (bytes.takeWhile (· ≠ 0)) i = charAt bytes i := by
  induction bytes generalizing i with
  | nil => rfl
  | cons b bytes ih =>
    by_cases hb : b = 0
    · rw [List.takeWhile_cons_of_neg (by simpa using hb)] at hi ⊢
      obtain rfl := Nat.le_zero.mp hi
      exact hb.symm
    · rw [List.takeWhile_cons_of_pos (by simpa using hb)] at hi ⊢
      cases i with
      | zero => rfl
      | succ i => exact ih (Nat.le_of_succ_le_succ hi)

theorem not_mem_takeWhile (bytes : List (BitVec 8)) :
    (0 : BitVec 8) ∉ bytes.takeWhile (· ≠ 0) := fun hmem ↦ by
  simpa using List.all_eq_true.mp List.all_takeWhile 0 hmem

/-- From character `cur` on, what is left of the path begins with `c`, and what is left of the name
of the entry is `name`. -/
theorem filenameMatchLoop_eq {dirname : Memory} {rest cur : ℕ} (hpath : path.drop cur = c ++ tail)
    (htail : endsAt tail 0 = true) (hzero : 0 ∉ c) (hslash : 0x2f ∉ c)
    (hlength : name.length ≤ rest)
    (hname : ∀ i ≤ name.length, i < rest → dirname (cur + i) = charAt name i)
    (hname_zero : 0 ∉ name) (hname_slash : 0x2f ∉ name) :
    filenameMatchLoop path dirname rest cur = if c = name then ((cur + c.length : ℕ) : ℤ)
      else -1 := by
  have hends : endsAt path cur = endsAt (c ++ tail) 0 := by rw [← hpath, endsAt_drop]
  have hchar : charAt path cur = charAt (c ++ tail) 0 := by rw [← hpath, charAt_drop]
  induction rest generalizing cur c name with
  | zero =>
    obtain rfl := List.eq_nil_of_length_eq_zero (Nat.le_zero.mp hlength)
    rw [filenameMatchLoop, hends]
    cases c with
    | nil => rw [List.nil_append, htail, if_pos rfl, if_pos rfl, List.length_nil, Nat.add_zero]
    | cons b c =>
      have hb : endsAt (b :: c ++ tail) 0 = false :=
        endsAt_cons (fun h ↦ hzero (by simp [h])) (fun h ↦ hslash (by simp [h]))
      rw [hb, if_neg (by decide), if_neg (by simp)]
  | succ rest ih =>
    have hfirst := hname 0 (Nat.zero_le _) (Nat.succ_pos rest)
    rw [Nat.add_zero] at hfirst
    rw [filenameMatchLoop, hends, hchar, hfirst]
    cases c with
    | nil =>
      rw [List.nil_append, htail]
      cases name with
      | nil => rw [if_pos ⟨rfl, rfl⟩, if_pos rfl, List.length_nil, Nat.add_zero]
      | cons a name =>
        have ha : charAt (a :: name) 0 = a := rfl
        have hne : charAt tail 0 ≠ a := by
          rcases of_decide_eq_true htail with h | h
          · exact fun heq ↦ hname_slash (by simp [← heq, h])
          · exact fun heq ↦ hname_zero (by simp [← heq, h])
        rw [ha, if_neg (fun h ↦ hname_zero (by simp [h.2])), if_pos hne, if_neg (by simp)]
    | cons b c =>
      have hb : endsAt (b :: c ++ tail) 0 = false :=
        endsAt_cons (fun h ↦ hzero (by simp [h])) (fun h ↦ hslash (by simp [h]))
      have hcb : charAt (b :: c ++ tail) 0 = b := rfl
      rw [hb, hcb, if_neg (by simp)]
      cases name with
      | nil =>
        have hne : b ≠ charAt [] 0 := fun h ↦ hzero (by simp [h, charAt])
        rw [if_pos hne, if_neg (by simp)]
      | cons a name =>
        have ha : charAt (a :: name) 0 = a := rfl
        rw [ha]
        by_cases hba : b = a
        · subst hba
          have hnext : path.drop (cur + 1) = c ++ tail := by
            rw [← List.drop_drop, hpath]
            rfl
          rw [if_neg (by simp), ih hnext (fun h ↦ hzero (List.mem_cons_of_mem b h))
            (fun h ↦ hslash (List.mem_cons_of_mem b h)) (by simpa using hlength) (fun i hi hlt ↦ ?_)
            (fun h ↦ hname_zero (List.mem_cons_of_mem b h))
            (fun h ↦ hname_slash (List.mem_cons_of_mem b h))
            (by rw [← hnext, endsAt_drop]) (by rw [← hnext, charAt_drop]), List.length_cons]
          · simp only [List.cons.injEq, true_and, Nat.add_right_comm cur 1, Nat.add_assoc]
          · rw [Nat.add_assoc, Nat.add_comm 1 i]
            exact hname (i + 1) (Nat.succ_le_succ hi) (Nat.succ_lt_succ hlt)
        · rw [if_pos hba, if_neg (by simp [hba])]

/-- The loop of `filename_match`, with the indices of the characters of the path that it
examines. -/
def filenameMatchLoopReads (path : List (BitVec 8)) (dirname : Memory) : ℕ → ℕ → ℤ × List ℕ
  | 0, cur => (if endsAt path cur then cur else -1, [cur])
  | rest + 1, cur =>
    if endsAt path cur ∧ dirname cur = 0 then (cur, [cur])
    else if charAt path cur ≠ dirname cur then (-1, [cur])
    else
      let (found, reads) := filenameMatchLoopReads path dirname rest (cur + 1)
      (found, cur :: reads)

/-- `filename_match`, with the indices of the characters of the path that it examines. -/
def filenameMatchReads (path : List (BitVec 8)) (dirname : Memory) : ℤ × List ℕ :=
  filenameMatchLoopReads path dirname filenameMaxSize 0

theorem filenameMatchLoopReads_fst (path : List (BitVec 8)) (dirname : Memory) (rest cur : ℕ) :
    (filenameMatchLoopReads path dirname rest cur).1 = filenameMatchLoop path dirname rest cur := by
  induction rest generalizing cur with
  | zero => rfl
  | succ rest ih =>
    rw [filenameMatchLoopReads, filenameMatchLoop]
    split_ifs
    · rfl
    · rfl
    · exact ih (cur + 1)

/-- The field of a directory entry with a name: the name, filled up with zeros, and a zero behind
it. -/
structure NameField (dirname : Memory) (name : List (BitVec 8)) : Prop where
  length_le : name.length ≤ filenameMaxSize
  no_zero : 0 ∉ name
  no_slash : 0x2f ∉ name
  padded : ∀ i < filenameMaxSize, dirname i = charAt name i
  terminated : dirname filenameMaxSize = 0

/-- The characters of a path before its first slash. -/
def firstComponent (path : List (BitVec 8)) : List (BitVec 8) := path.takeWhile (· ≠ 0x2f)

theorem firstComponent_append (path : List (BitVec 8)) :
    firstComponent path ++ path.dropWhile (· ≠ 0x2f) = path := List.takeWhile_append_dropWhile

theorem endsAt_dropWhile (path : List (BitVec 8)) :
    endsAt (path.dropWhile (· ≠ 0x2f)) 0 = true := by
  induction path with
  | nil => rfl
  | cons b path ih =>
    by_cases hb : b = 0x2f
    · rw [List.dropWhile_cons_of_neg (by simpa using hb)]
      exact decide_eq_true (.inl hb)
    · rw [List.dropWhile_cons_of_pos (by simpa using hb)]
      exact ih

theorem NameField.ne_slash {dirname : Memory} (h : NameField dirname name) {i : ℕ}
    (hi : i < filenameMaxSize) : dirname i ≠ 0x2f := by
  rw [h.padded i hi]
  intro hslash
  rcases Nat.lt_or_ge i name.length with hlt | hge
  · rw [charAt, List.getElem?_eq_getElem hlt, Option.getD_some] at hslash
    exact h.no_slash (hslash ▸ List.getElem_mem hlt)
  · rw [charAt, List.getElem?_eq_none hge, Option.getD_none] at hslash
    exact absurd hslash (by decide)

/-- The loop goes on only behind a character of the first component. -/
theorem NameField.reads_le {dirname : Memory} (h : NameField dirname name) {rest cur : ℕ}
    (hrest : rest + cur = filenameMaxSize) (hcur : cur ≤ (firstComponent path).length) :
    ∀ i ∈ (filenameMatchLoopReads path dirname rest cur).2, i ≤ (firstComponent path).length := by
  induction rest generalizing cur with
  | zero => exact List.forall_mem_singleton.mpr hcur
  | succ rest ih =>
    rw [filenameMatchLoopReads]
    split_ifs with hends hne
    · exact List.forall_mem_singleton.mpr hcur
    · exact List.forall_mem_singleton.mpr hcur
    · have hlt : cur < (firstComponent path).length := by
        refine lt_of_le_of_ne hcur fun heq ↦ ?_
        have hend : endsAt path cur = true := by
          have hdrop : path.drop cur = path.dropWhile (· ≠ 0x2f) := by
            have hleft :
                (firstComponent path ++ path.dropWhile (· ≠ 0x2f)).drop
                (firstComponent path).length = path.dropWhile (· ≠ 0x2f) := List.drop_left
            rwa [firstComponent_append, ← heq] at hleft
          rw [← endsAt_drop, hdrop, endsAt_dropWhile]
        have hsame := not_not.mp hne
        rcases of_decide_eq_true hend with hslash | hzero
        · exact h.ne_slash (by omega) (hsame ▸ hslash)
        · exact hends ⟨hend, hsame ▸ hzero⟩
      exact List.forall_mem_cons.mpr ⟨hcur, ih (by omega) hlt⟩

/-- `filename_match` compares the name with the first component of the path, and looks no further
than to the character behind this component. -/
theorem filenameMatch_firstComponent {dirname : Memory} (hpath : 0 ∉ path)
    (h : NameField dirname name) : (∀ k : ℕ, filenameMatch path dirname = k ↔
        firstComponent path = name ∧ (firstComponent path).length = k ∧ k ≤ filenameMaxSize) ∧
      (firstComponent path ≠ name → filenameMatch path dirname = -1) ∧
      (filenameMatchReads path dirname).1 = filenameMatch path dirname ∧
      ∀ i ∈ (filenameMatchReads path dirname).2, i ≤ (firstComponent path).length := by
  have hsplit : path.drop 0 = firstComponent path ++ path.dropWhile (· ≠ 0x2f) :=
    (firstComponent_append path).symm
  have hzero : 0 ∉ firstComponent path := fun hmem ↦ hpath (List.takeWhile_subset _ hmem)
  have hslash : 0x2f ∉ firstComponent path := fun hmem ↦ by
    simpa using List.all_eq_true.mp List.all_takeWhile 0x2f hmem
  have hpadded : ∀ i ≤ name.length, i < filenameMaxSize → dirname (0 + i) = charAt name i := by
    intro i _ hi
    rw [Nat.zero_add]
    exact h.padded i hi
  have hloop := filenameMatchLoop_eq hsplit (endsAt_dropWhile path) hzero hslash h.length_le
    hpadded h.no_zero h.no_slash
  have hmatch : filenameMatch path dirname =
      if firstComponent path = name then ((firstComponent path).length : ℤ) else -1 := by
    rw [filenameMatch, hloop, Nat.zero_add]
  refine ⟨fun k ↦ ?_, fun hne ↦ ?_, filenameMatchLoopReads_fst path dirname _ 0,
    h.reads_le (Nat.add_zero _) (Nat.zero_le _)⟩
  · rw [hmatch]
    split_ifs with hname
    · constructor
      · intro hk
        have hlength : (firstComponent path).length = k := by exact_mod_cast hk
        exact ⟨hname, hlength, by rw [← hlength, hname]; exact h.length_le⟩
      · rintro ⟨-, rfl, -⟩
        rfl
    · exact ⟨fun hk ↦ hk.elim, fun hk ↦ absurd hk.1 hname⟩
  · rw [hmatch, if_neg hne]

/-- The path `ab/c` and the name `ab`. -/
theorem filenameMatch_firstComponent_ab :
    (∀ k : ℕ, filenameMatch [0x61, 0x62, 0x2f, 0x63] (charAt [0x61, 0x62]) = k ↔
        firstComponent [0x61, 0x62, 0x2f, 0x63] = [0x61, 0x62] ∧
          (firstComponent [0x61, 0x62, 0x2f, 0x63]).length = k ∧ k ≤ filenameMaxSize) ∧
      (firstComponent [0x61, 0x62, 0x2f, 0x63] ≠ [0x61, 0x62] →
        filenameMatch [0x61, 0x62, 0x2f, 0x63] (charAt [0x61, 0x62]) = -1) ∧
      (filenameMatchReads [0x61, 0x62, 0x2f, 0x63] (charAt [0x61, 0x62])).1 =
        filenameMatch [0x61, 0x62, 0x2f, 0x63] (charAt [0x61, 0x62]) ∧
      ∀ i ∈ (filenameMatchReads [0x61, 0x62, 0x2f, 0x63] (charAt [0x61, 0x62])).2,
        i ≤ (firstComponent [0x61, 0x62, 0x2f, 0x63]).length :=
  filenameMatch_firstComponent (by decide) ⟨by decide, by decide, by decide, fun _ _ ↦ rfl, rfl⟩

/-! ### Entries -/

/-- A byte of an entry in its buffer. -/
theorem write_fileBytes {fresh : Memory} {pos count i : ℕ} (hi : i < count) :
    write fresh 0 (fileBytes fs n pos count) i = fileByte fs n (pos + i) := by
  have hlt : i < (fileBytes fs n pos count).length := by
    rw [length_fileBytes]
    exact hi
  have hbyte : (fileBytes fs n pos count)[i]? = some (fileByte fs n (pos + i)) := by
    rw [fileBytes, List.getElem?_map, List.getElem?_range hi]
    rfl
  unfold write
  rw [if_pos (Nat.zero_le i), Nat.sub_zero, hbyte, Option.getD_some]

section Directory

variable (h : WellFormedTree fs inodes index) (hn : n ∈ inodes) (hdir : IsDirectory fs n)
  (hk : k < fileSize fs n / directoryEntrySize)

include h hn hdir hk

/-- An entry is read as a whole. -/
theorem WellFormedTree.entryEnd_eq : entryStop fs n (directoryEntrySize * k) = none ∧
    entryEnd fs n (directoryEntrySize * k) = directoryEntrySize * (k + 1) := by
  have hentry : directoryEntrySize = 32 := rfl
  have hsize := h.files.fileSize_lt hn
  have hdvd := h.size_dvd n hn hdir
  have hle : directoryEntrySize * (k + 1) ≤ fileSize fs n := by
    calc directoryEntrySize * (k + 1) ≤ directoryEntrySize * (fileSize fs n / directoryEntrySize) :=
        Nat.mul_le_mul_left _ hk
      _ = fileSize fs n := Nat.mul_div_cancel' hdvd
  rw [Nat.mul_succ] at hle ⊢
  have hcount : entryCount fs n (directoryEntrySize * k) = directoryEntrySize :=
    min_eq_left (by omega)
  have hpos := h.files.layout.blockSize_pos
  have hone : directoryEntrySize * k % fs.blockSize + directoryEntrySize ≤ fs.blockSize := by
    obtain ⟨m, hm⟩ := h.blockSize_dvd
    rw [hm, Nat.mul_mod_mul_left, ← Nat.mul_succ]
    refine Nat.mul_le_mul_left _ (Nat.mod_lt k ?_)
    rw [hm] at hpos
    exact Nat.pos_of_mul_pos_left hpos
  have hend :
      entryEnd fs n (directoryEntrySize * k) = directoryEntrySize * k + directoryEntrySize := by
    rw [entryEnd, hcount]
    exact (readEnd_eq_iff hpos (by decide)).mpr (Or.inl hone)
  refine ⟨?_, hend⟩
  have hrange :
      InRange fs n (directoryEntrySize * k) (directoryEntrySize * k + directoryEntrySize) :=
    fun i _ hi ↦ h.files.data_block_lt hn (by omega)
  rw [entryStop, if_neg (by omega), hcount, if_pos hrange, hend, if_neg (by omega)]

theorem WellFormedTree.entryAt_inode (fresh : Memory) :
    (entryAt fs fresh n (directoryEntrySize * k)).inode = entryInode fs n k := by
  obtain ⟨-, hend⟩ := h.entryEnd_eq hn hdir hk
  rw [entryAt, hend, Nat.mul_succ, Nat.add_sub_cancel_left, entryInode, direntOf, load,
    ByteMemory.read]
  dsimp only
  refine congrArg (fun bytes ↦ switchEndianness (ofBytes bytes)) (List.map_congr_left fun i hi ↦ ?_)
  have hlt := List.mem_range.mp hi
  rw [write_fileBytes (by change 28 + i < 32; omega), Nat.add_assoc]

theorem WellFormedTree.entryAt_name (fresh : Memory) {i : ℕ} (hi : i ≤ (entryName fs n k).length)
    (hlt : i < filenameMaxSize) :
    (entryAt fs fresh n (directoryEntrySize * k)).name i = charAt (entryName fs n k) i := by
  have hentry : directoryEntrySize = 32 := rfl
  have hmax : filenameMaxSize = 28 := rfl
  obtain ⟨-, hend⟩ := h.entryEnd_eq hn hdir hk
  rw [entryAt, hend, Nat.mul_succ, Nat.add_sub_cancel_left, direntOf]
  dsimp only
  rw [write_of_not_mem (Or.inl hlt), write_fileBytes (by omega), entryName, charAt_takeWhile hi,
    charAt, fileBytes, List.getElem?_map, List.getElem?_range hlt, Option.map_some,
    Option.getD_some]

/-- The comparison of a path with the name of an entry. -/
theorem WellFormedTree.filenameMatch_entryAt (fresh : Memory) (hc : IsName c)
    (htail : endsAt tail 0 = true) :
    filenameMatch (c ++ tail) (entryAt fs fresh n (directoryEntrySize * k)).name =
      if c = entryName fs n k then (c.length : ℤ) else -1 := by
  have hlength : (entryName fs n k).length ≤ filenameMaxSize := by
    have hle :=
      (List.takeWhile_sublist (l := fileBytes fs n (directoryEntrySize * k) filenameMaxSize)
      (p := (· ≠ 0))).length_le
    rwa [length_fileBytes] at hle
  rw [filenameMatch, filenameMatchLoop_eq (List.drop_zero) htail hc.no_zero hc.no_slash hlength
    (fun i hi hlt ↦ by rw [Nat.zero_add, h.entryAt_name hn hdir hk fresh hi hlt])
    (not_mem_takeWhile _) (h.no_slash n hn hdir k hk), Nat.zero_add]

/-- A round at an entry. -/
theorem WellFormedTree.round_entry (fresh : Memory) (hc : IsName c) (htail : endsAt tail 0 = true) :
    round fs fresh ⟨n, directoryEntrySize * k, c ++ tail⟩ =
      if c = entryName fs n k then follow fs tail (entryInode fs n k)
      else .ok ⟨n, directoryEntrySize * (k + 1), c ++ tail⟩ := by
  obtain ⟨hstop, hend⟩ := h.entryEnd_eq hn hdir hk
  have hlt : directoryEntrySize * k < fileSize fs n := by
    exact (Nat.lt_div_iff_mul_lt' (h.size_dvd n hn hdir) k).mp hk
  unfold round
  rw [if_neg (not_le.mpr hlt), hstop]
  dsimp only
  rw [h.filenameMatch_entryAt hn hdir hk fresh hc htail, h.entryAt_inode hn hdir hk, hend]
  by_cases hsame : c = entryName fs n k
  · have hpos := List.length_pos_of_ne_nil hc.ne_nil
    rw [if_pos hsame, if_pos hsame, if_pos (by omega), Int.toNat_natCast, List.drop_left]
  · rw [if_neg hsame, if_neg hsame, if_neg (by decide)]

end Directory

/-! ### A small tree -/

/-- Eight blocks of 32 bytes: the directory 1 has the entries c and a in the blocks 4 and 5, the
directory 2, which is a, has the entry b in block 6, and both c and b are the file 3, whose 32 bytes
in block 7 look like an entry x of inode 1. -/
def treeDisk : Filesystem where
  image := imageOf [(8, 1), (9, 1), (10, 64), (11, 4), (12, 5), (16, 1), (17, 1), (18, 32), (19, 6),
    (24, 2), (25, 2), (26, 32), (27, 7), (32, 0x63000000), (39, 3), (40, 0x61000000), (47, 2),
    (48, 0x62000000), (55, 3), (56, 0x78000000), (63, 1)]
  blockSize := 32
  blockCount := 8
  freeBlockList := 0
  rootInode := 1
  maxFileSize := 160
  seekCursor := 0
  descriptors := fun _ ↦ ⟨⟨0, 0, 0, 0, 0⟩, 0, 1⟩

instance (fs : Filesystem) (n : ℕ) : Decidable (IsDirectory fs n) :=
  inferInstanceAs (Decidable (_ = _))

theorem wellFormed_treeDisk : WellFormed treeDisk {n | n ∈ [1, 2, 3]} ∅ := by
  refine ⟨⟨by decide, by decide, by decide⟩, ?_, ?_, ?_, ?_, fun _ _ _ _ hmem ↦ hmem, ?_⟩
  · change ∀ n ∈ [1, 2, 3], n < 8
    decide
  · change ∀ n ∈ [1, 2, 3], 12 + 4 * blocksFor treeDisk (fileSize treeDisk n) ≤ 32
    decide +kernel
  · change ∀ n ∈ [1, 2, 3], ∀ k < blocksFor treeDisk (fileSize treeDisk n),
      dataBlock treeDisk n k < 8
    decide +kernel
  · change ∀ n ∈ [1, 2, 3], ∀ k < blocksFor treeDisk (fileSize treeDisk n),
      dataBlock treeDisk n k ∉ [1, 2, 3]
    decide +kernel
  · change ∀ n ∈ [1, 2, 3], ∀ n' ∈ [1, 2, 3], ∀ k < blocksFor treeDisk (fileSize treeDisk n),
      ∀ k' < blocksFor treeDisk (fileSize treeDisk n'), dataBlock treeDisk n k =
      dataBlock treeDisk n' k' → n = n' ∧ k = k'
    decide +kernel

theorem wellFormedTree_treeDisk : WellFormedTree treeDisk {n | n ∈ [1, 2, 3]} ∅ := by
  refine ⟨wellFormed_treeDisk, by decide, by decide, ?_, ?_, ?_, ?_⟩
  · change ∀ n ∈ [1, 2, 3], fileSize treeDisk n ≤ 160
    decide +kernel
  · change ∀ n ∈ [1, 2, 3], IsDirectory treeDisk n → 32 ∣ fileSize treeDisk n
    decide +kernel
  · change ∀ n ∈ [1, 2, 3], IsDirectory treeDisk n → ∀ k < fileSize treeDisk n / 32,
      entryName treeDisk n k ≠ [] → entryInode treeDisk n k ∈ [1, 2, 3]
    decide +kernel
  · change ∀ n ∈ [1, 2, 3], IsDirectory treeDisk n →
      ∀ k < fileSize treeDisk n / 32, 0x2f ∉ entryName treeDisk n k
    decide +kernel

/-! ### Walks -/

/-- What a round returns leads to the ending, whatever the buffers hold. -/
def Leads (fs : Filesystem) : Except Ending Head → Ending → Prop
  | .error ending, ending' => ending = ending'
  | .ok head, ending => ∀ fresh, Walks fs fresh head ending

theorem Leads.walks {fresh : ℕ → Memory} {head : Head} {next : Except Ending Head} {ending : Ending}
    (h : Leads fs next ending) (hround : round fs (fresh 0) head = next) :
    Walks fs fresh head ending := by
  cases next with
  | error last => exact .ends (hround.trans (congrArg Except.error h))
  | ok head' => exact .next hround (h _)

section Walks

variable (h : WellFormedTree fs inodes index) (hn : n ∈ inodes) (hdir : IsDirectory fs n)
  {ending : Ending}

include h hn hdir

/-- Entries with other names are passed over. -/
theorem WellFormedTree.skip (hc : IsName c) (htail : endsAt tail 0 = true)
    (hk : k ≤ fileSize fs n / directoryEntrySize) (hothers : ∀ i < k, entryName fs n i ≠ c)
    (hw : ∀ fresh, Walks fs fresh ⟨n, directoryEntrySize * k, c ++ tail⟩ ending)
    (fresh : ℕ → Memory) : Walks fs fresh ⟨n, 0, c ++ tail⟩ ending := by
  induction k generalizing fresh with
  | zero => exact hw fresh
  | succ k ih =>
    refine ih (Nat.le_of_succ_le hk) (fun i hi ↦ hothers i (Nat.lt_succ_of_lt hi))
      (fun fresh ↦ ?_) fresh
    have hround := h.round_entry hn hdir hk (fresh 0) hc htail
    rw [if_neg (hothers k (Nat.lt_succ_self k)).symm] at hround
    exact .next hround (hw _)

/-- No entry has the name. -/
theorem WellFormedTree.walks_missing (hc : IsName c) (htail : endsAt tail 0 = true)
    (hnone : lookupEntry fs n c = none) (fresh : ℕ → Memory) :
    Walks fs fresh ⟨n, 0, c ++ tail⟩ .missing := by
  have hothers := List.find?_range_eq_none.mp (Option.map_eq_none_iff.mp hnone)
  refine h.skip hn hdir hc htail le_rfl (fun i hi ↦ by simpa using hothers i hi)
    (fun fresh ↦ .ends ?_) fresh
  rw [round, if_pos (Nat.mul_div_cancel' (h.size_dvd n hn hdir)).ge]

/-- The first entry with the name is followed. -/
theorem WellFormedTree.walks_entry (hc : IsName c) (htail : endsAt tail 0 = true) {m : ℕ}
    (hsome : lookupEntry fs n c = some m) (hleads : Leads fs (follow fs tail m) ending)
    (fresh : ℕ → Memory) : Walks fs fresh ⟨n, 0, c ++ tail⟩ ending := by
  obtain ⟨k, hfind, rfl⟩ := Option.map_eq_some_iff.mp hsome
  obtain ⟨hname, hk, hothers⟩ := List.find?_range_eq_some.mp hfind
  have hk := List.mem_range.mp hk
  refine h.skip hn hdir hc htail hk.le (fun i hi ↦ by simpa using hothers i hi)
    (fun fresh ↦ hleads.walks ?_) fresh
  rw [h.round_entry hn hdir hk (fresh 0) hc htail, if_pos (of_decide_eq_true hname).symm]

theorem WellFormedTree.lookupEntry_mem (hc : IsName c) {m : ℕ}
    (hsome : lookupEntry fs n c = some m) : m ∈ inodes := by
  obtain ⟨k, hfind, rfl⟩ := Option.map_eq_some_iff.mp hsome
  obtain ⟨hname, hk, -⟩ := List.find?_range_eq_some.mp hfind
  apply h.entry_mem n hn hdir k (List.mem_range.mp hk)
  rw [of_decide_eq_true hname]
  exact hc.ne_nil

end Walks

/-- The walk along names ends with the inode that they lead to. -/
theorem WellFormedTree.walks_resolve (h : WellFormedTree fs inodes index)
    {names : List (List (BitVec 8))} (hn : n ∈ inodes) (hne : names ≠ [])
    (hnames : ∀ name ∈ names, IsName name)
    (hdirs : ∀ front, front <+: names → front ≠ names → ∀ m, resolve fs n front = some m →
    IsDirectory fs m) (fresh : ℕ → Memory) :
    Walks fs fresh ⟨n, 0, (slashed names).drop 1⟩
      ((resolve fs n names).elim .missing fun m ↦ .found m) := by
  induction names generalizing n fresh with
  | nil => exact absurd rfl hne
  | cons name names ih =>
    have hname := hnames name List.mem_cons_self
    have hdir : IsDirectory fs n := hdirs [] List.nil_prefix (by simp) n rfl
    change Walks fs fresh ⟨n, 0, name ++ slashed names⟩ _
    cases hlookup : lookupEntry fs n name with
    | none =>
      rw [resolve, hlookup]
      exact h.walks_missing hn hdir hname (endsAt_slashed names) hlookup fresh
    | some m =>
      have hm := h.lookupEntry_mem hn hdir hname hlookup
      have hlt := h.files.inode_lt m hm
      rw [resolve, hlookup, Option.bind_some]
      refine h.walks_entry hn hdir hname (endsAt_slashed names) hlookup ?_ fresh
      cases names with
      | nil =>
        have hbound := (h.files.layout.inMemory.bounds hlt).1
        rw [follow, if_pos (by rfl), toInt32_natCast (by omega)]
        rfl
      | cons name' names =>
        have hslash : charAt (slashed (name' :: names)) 0 ≠ 0 := by
          change (0x2f : BitVec 8) ≠ 0
          decide
        rw [follow, if_neg hslash, if_pos hlt, if_pos (h.size_le m hm)]
        intro fresh
        refine ih hm (by simp) (fun name hmem ↦ hnames name (List.mem_cons_of_mem _ hmem))
          (fun front hfront hne m' hm' ↦ ?_) fresh
        refine hdirs (name :: front) (List.cons_prefix_cons.mpr ⟨rfl, hfront⟩) (by simpa using hne)
          m' ?_
        rw [resolve, hlookup, Option.bind_some, hm']

/-! ### The call -/

theorem relative_slashed {names : List (List (BitVec 8))} (hne : names ≠ [])
    (hnames : ∀ name ∈ names, IsName name)
    (hpath : path = slashed names ∨ path = (slashed names).drop 1) :
    relative path = (slashed names).drop 1 := by
  cases names with
  | nil => exact absurd rfl hne
  | cons name names =>
    obtain rfl | rfl := hpath
    · rfl
    · have hname := hnames name List.mem_cons_self
      cases name with
      | nil => exact absurd rfl hname.ne_nil
      | cons b name =>
        have hb : b ≠ 0x2f := fun heq ↦ hname.no_slash (by simp [heq])
        exact if_neg hb

/-- In a well-formed image the lookup of a path returns the inode that its names lead to from the
root directory, and -1 if some directory on the way has no entry with the next name. -/
theorem inodeOfPath_resolve (h : WellFormedTree fs inodes index)
    (hslot : ∃ d < maxFileDescriptors, (fs.descriptors d).closed ≠ 0)
    {names : List (List (BitVec 8))} (hne : names ≠ []) (hnames : ∀ name ∈ names, IsName name)
    (hdirs : ∀ front, front <+: names → front ≠ names →
      ∀ m, resolve fs fs.rootInode front = some m →
      IsDirectory fs m)
    (hpath : path = slashed names ∨ path = (slashed names).drop 1) (fresh : ℕ → Memory) :
    ∃ bound, ∀ k ≥ bound, ∃ fs', inodeOfPath fresh k fs path =
      .ok (fs', (resolve fs fs.rootInode names).elim (-1) fun m ↦ (m : ℤ)) := by
  obtain ⟨d, hd, hnext, -⟩ := slot_of_closed hslot
  have hmem := h.files.layout.inMemory
  have hroot := h.files.inode_lt _ h.root_mem
  have hbound := (hmem.bounds hroot).1
  have hends :
      LookupEnds fs fresh path
        ((resolve fs fs.rootInode names).elim .missing fun m ↦ .found m) := by
    rw [LookupEnds, if_pos hroot, if_pos (h.size_le _ h.root_mem),
      relative_slashed hne hnames hpath]
    exact h.walks_resolve h.root_mem hne hnames hdirs fresh
  obtain ⟨bound, hrun⟩ := hends.run hmem (by omega) (toInt32_ne (by omega)) hnext hd
  refine ⟨bound, fun k hk ↦ ?_⟩
  have hresult := hrun k hk
  cases hresolve : resolve fs fs.rootInode names with
  | none =>
    rw [hresolve] at hresult
    obtain ⟨cursor, dir, pos, heq⟩ := hresult
    exact ⟨_, heq⟩
  | some m =>
    rw [hresolve] at hresult
    obtain ⟨cursor, dir, pos, heq⟩ := hresult
    exact ⟨_, heq⟩

/-- The path `/a/b` of the small tree. -/
theorem inodeOfPath_resolve_treeDisk : resolve treeDisk 1 [[0x61], [0x62]] = some 3 ∧
    ∃ bound, ∀ k ≥ bound, ∃ fs', inodeOfPath (fun _ _ ↦ 0) k treeDisk
    [0x2f, 0x61, 0x2f, 0x62] = .ok (fs', 3) := by
  have hresolve : resolve treeDisk 1 [[0x61], [0x62]] = some 3 := by decide +kernel
  have hnames : ∀ name ∈ ([[0x61], [0x62]] : List (List (BitVec 8))), IsName name := by
    intro name hmem
    rcases List.mem_cons.mp hmem with rfl | hmem
    · exact ⟨by decide, by decide, by decide⟩
    · obtain rfl := List.mem_singleton.mp hmem
      exact ⟨by decide, by decide, by decide⟩
  have hdirs : ∀ front, front <+: [[0x61], [0x62]] → front ≠ [[0x61], [0x62]] →
      ∀ m, resolve treeDisk 1 front = some m → IsDirectory treeDisk m := by
    intro front hfront hne m hm
    rcases front with _ | ⟨first, _ | ⟨second, rest⟩⟩
    · obtain rfl := Option.some.inj hm
      decide +kernel
    · obtain ⟨rfl, -⟩ := List.cons_prefix_cons.mp hfront
      have hfirst : resolve treeDisk 1 [[0x61]] = some 2 := by decide +kernel
      obtain rfl := Option.some.inj (hfirst.symm.trans hm)
      decide +kernel
    · obtain ⟨rfl, hsecond⟩ := List.cons_prefix_cons.mp hfront
      obtain ⟨rfl, hrest⟩ := List.cons_prefix_cons.mp hsecond
      obtain rfl := List.prefix_nil.mp hrest
      exact absurd rfl hne
  have hrun := inodeOfPath_resolve wellFormedTree_treeDisk ⟨0, by decide, by decide⟩
    (by decide) hnames hdirs (Or.inl rfl) fun _ _ ↦ 0
  rw [show treeDisk.rootInode = 1 from rfl, hresolve] at hrun
  exact ⟨hresolve, hrun⟩

end SysresOs.Files
