import SysresOs.Files.Reading

/-!
# The walk along a path

`inode_of_path` opens a descriptor on the root directory and reads entry after entry. At an entry
whose name is the first component of the path it either returns, if that is the last component, or
reads the inode of the entry into the same descriptor. What the loop does is a walk over heads: a
directory, a position in it and the rest of the path (`round`). Every walk ends, since a head either
has a shorter path or a later position than the one before it (`exists_walks`), and the loop
computes the ending of the walk (`Walks.run`).
-/

set_option autoImplicit false
set_option relaxedAutoImplicit false

namespace SysresOs.Files

open SysresOs.ByteMemory SysresOs.Outcome
open SysresOs.Memory (toInt32)

variable {fs : Filesystem} {fresh : Memory} {d dir pos : ℕ}

/-! ### Entries -/

/-- The inode in a block. -/
def inodeAt (fs : Filesystem) (n : ℕ) : Inode where
  index := n
  kind := switchEndianness (load fs.image (n * fs.blockSize) 4)
  nlink := switchEndianness (load fs.image (n * fs.blockSize + 4) 4)
  size := fileSize fs n
  blocks := n * fs.blockSize + 12

/-- The number of bytes of an entry that are in the directory. -/
def entryCount (fs : Filesystem) (dir pos : ℕ) : ℕ := min directoryEntrySize (fileSize fs dir - pos)

/-- The position after an entry. -/
def entryEnd (fs : Filesystem) (dir pos : ℕ) : ℕ :=
  readEnd fs.blockSize (entryCount fs dir pos) (pos + entryCount fs dir pos) (2 ^ 32) pos

/-- The entry at a position, in a buffer that has the bytes of `fresh` at first. -/
def entryAt (fs : Filesystem) (fresh : Memory) (dir pos : ℕ) : Dirent :=
  direntOf (write fresh 0 (fileBytes fs dir pos (entryEnd fs dir pos - pos)))

theorem entryAt_inode_lt (fs : Filesystem) (fresh : Memory) (dir pos : ℕ) :
    (entryAt fs fresh dir pos).inode < 2 ^ 32 := switchEndianness_lt _

instance (fs : Filesystem) (n pos target : ℕ) : Decidable (InRange fs n pos target) :=
  decidable_of_iff (∀ i < target, pos ≤ i → dataBlock fs n (i / fs.blockSize) < fs.blockCount)
    ⟨fun h i hi hi' ↦ h i hi' hi, fun h i hi' hi ↦ h i hi hi'⟩

/-- Why the entry at a position is not read, if it is not. -/
def entryStop (fs : Filesystem) (dir pos : ℕ) : Option Stop :=
  if 2 ^ 31 ≤ fileSize fs dir then
    some (if dataBlock fs dir 0 < fs.blockCount then .copyTooLong else .assertion .seekBlock)
  else if InRange fs dir pos (pos + entryCount fs dir pos) then
    if directoryEntrySize < entryEnd fs dir pos - pos then some .overrun else none
  else some (.assertion .seekBlock)

/-! ### Rounds -/

/-- Where the loop is: a directory, a position in it and the rest of the path. -/
structure Head where
  dir : ℕ
  pos : ℕ
  path : List (BitVec 8)
  deriving DecidableEq

/-- How a walk ends. -/
inductive Ending
  | missing
  | found (inode : ℤ)
  | stopped (stop : Stop)
  deriving DecidableEq

/-- An entry with the name that is looked for: the rest of the path is empty, or goes on behind a
slash. -/
def follow (fs : Filesystem) (path : List (BitVec 8)) (inode : ℕ) : Except Ending Head :=
  if charAt path 0 = 0 then .error (.found (toInt32 inode))
  else if inode < fs.blockCount then
    if fileSize fs inode ≤ fs.maxFileSize then .ok ⟨inode, 0, path.drop 1⟩
    else .error (.stopped (.assertion .inodeSize))
  else .error (.stopped (.assertion .seekBlock))

/-- A round of the loop. -/
def round (fs : Filesystem) (fresh : Memory) (head : Head) : Except Ending Head :=
  if fileSize fs head.dir ≤ head.pos then .error .missing
  else match entryStop fs head.dir head.pos with
    | some stop => .error (.stopped stop)
    | none =>
      let dirent := entryAt fs fresh head.dir head.pos
      let found := filenameMatch head.path dirent.name
      if 0 < found then follow fs (head.path.drop found.toNat) dirent.inode
      else .ok { head with pos := entryEnd fs head.dir head.pos }

/-- The walk from a head ends so. -/
inductive Walks (fs : Filesystem) : (ℕ → Memory) → Head → Ending → Prop
  | ends {fresh : ℕ → Memory} {head : Head} {ending : Ending}
      (h : round fs (fresh 0) head = .error ending) : Walks fs fresh head ending
  | next {fresh : ℕ → Memory} {head head' : Head} {ending : Ending}
      (h : round fs (fresh 0) head = .ok head')
      (hw : Walks fs (fun i ↦ fresh (i + 1)) head' ending) : Walks fs fresh head ending

/-- What holds at every head: the directory is in the image, and the position is no large number. -/
structure Head.Valid (fs : Filesystem) (head : Head) : Prop where
  dir_lt : head.dir < fs.blockCount
  pos_eq : 2 ^ 31 ≤ fileSize fs head.dir → head.pos = 0

/-! ### Reading an inode and an entry -/

theorem readInode_eq (h : InMemory fs) (hn : dir < fs.blockCount) : readInode fs dir =
    if fileSize fs dir ≤ fs.maxFileSize then
      .ok ({ fs with seekCursor := dir * fs.blockSize }, inodeAt fs dir)
    else .error (.assertion .inodeSize) := by
  rw [readInode, seekBlock_eq h hn, ok_bind]
  dsimp only
  change (assert (Stop.assertion .inodeSize) (fileSize fs dir ≤ fs.maxFileSize) >>= _) = _
  split_ifs with hsize
  · rw [assert_pos hsize, ok_bind]
    rfl
  · rw [assert_neg hsize, error_bind]

theorem readInode_of_le {n : ℕ} (hlt : n < 2 ^ 32) (hn : fs.blockCount ≤ n) :
    readInode fs (toInt32 n) = .error (.assertion .seekBlock) := by
  rw [readInode, seekBlock_of_le hlt hn, error_bind]

/-- The state at a head: the descriptor `d` is on the directory, at the position. -/
def atHead (fs : Filesystem) (d cursor dir pos : ℕ) : Filesystem :=
  { fs with
    seekCursor := cursor
    descriptors := Function.update fs.descriptors d ⟨inodeAt fs dir, pos, 0⟩ }

theorem atHead_descriptor (fs : Filesystem) (d cursor dir pos : ℕ) :
    (atHead fs d cursor dir pos).descriptors d = ⟨inodeAt fs dir, pos, 0⟩ :=
  Function.update_self d _ _

theorem entryCount_pos (hlt : pos < fileSize fs dir) : 0 < entryCount fs dir pos := by
  have hsize : directoryEntrySize = 32 := rfl
  unfold entryCount
  omega

theorem lt_entryEnd (h : InMemory fs) (hlt : pos < fileSize fs dir) :
    pos < entryEnd fs dir pos := by
  have hcount := entryCount_pos hlt
  have hle : entryCount fs dir pos ≤ 32 := min_le_left _ _
  have hend : pos + entryCount fs dir pos ≤ entryEnd fs dir pos := by
    apply le_readEnd_of_lt h.blockSize_pos (fun _ ↦ hcount)
    omega
  omega

theorem min_entryCount (hsize : fileSize fs dir < 2 ^ 31) (hle : pos ≤ fileSize fs dir) :
    min (directoryEntrySize : ℤ) (toInt32 (sub32 (fileSize fs dir) pos)) =
      entryCount fs dir pos := by
  rw [sub32_eq hle (by omega), toInt32_natCast (by omega), entryCount]
  omega

/-- The read of an entry goes on for as long as its loop does. -/
theorem readDirent_of_loop (hd : d < maxFileDescriptors) (hsize : fileSize fs dir < 2 ^ 31)
    (hlt : pos < fileSize fs dir) (cursor : ℕ) :
    readDirent (atHead fs d cursor dir pos) fresh d =
      (readLoop (inodeAt fs dir) (pos + entryCount fs dir pos) (entryCount fs dir pos) (2 ^ 32)
          (atHead fs d cursor dir pos) pos [] >>= fun res ↦
        if directoryEntrySize < res.2.2.length then .error .overrun
        else .ok (
          { res.1 with
          descriptors := Function.update res.1.descriptors d ⟨inodeAt fs dir, res.2.1, 0⟩ },
          direntOf (write fresh 0 res.2.2))) := by
  have hfd := atHead_descriptor fs d cursor dir pos
  have hcount : entryCount fs dir pos ≤ fileSize fs dir - pos := min_le_right _ _
  have hmin :
      min (directoryEntrySize : ℤ)
      (toInt32 (sub32 ((atHead fs d cursor dir pos).descriptors d).inode.size
      ((atHead fs d cursor dir pos).descriptors d).pos)) = entryCount fs dir pos := by
    rw [hfd]
    exact min_entryCount hsize hlt.le
  rw [readDirent, readFile_of_loop (by decide) hd hmin (by rw [hfd]; dsimp only; omega), hfd]
  dsimp only
  cases readLoop (inodeAt fs dir) (pos + entryCount fs dir pos) (entryCount fs dir pos) (2 ^ 32)
    (atHead fs d cursor dir pos) pos [] with
  | error stop => rfl
  | ok res => rfl

/-- The loop of the read of an entry. -/
theorem readLoop_entry (h : InMemory fs) (hsize : fileSize fs dir < 2 ^ 31)
    (hrange : InRange fs dir pos (pos + entryCount fs dir pos)) (hlt : pos < fileSize fs dir)
    (d cursor : ℕ) : ∃ cursor', readLoop (inodeAt fs dir) (pos + entryCount fs dir pos)
    (entryCount fs dir pos) (2 ^ 32)
      (atHead fs d cursor dir pos) pos [] =
        .ok ({ atHead fs d cursor dir pos with seekCursor := cursor' }, entryEnd fs dir pos,
          fileBytes fs dir pos (entryEnd fs dir pos - pos)) := by
  have hcount := entryCount_pos hlt
  have hle : entryCount fs dir pos ≤ fileSize fs dir - pos := min_le_right _ _
  have hmem : InMemory (atHead fs d cursor dir pos) := h.congr rfl rfl
  apply readLoop_spec hmem rfl hrange
  · omega
  · exact fun _ ↦ hcount
  · omega
  · omega

/-- An entry that can be read. -/
theorem readDirent_of_none (h : InMemory fs) (hd : d < maxFileDescriptors)
    (hlt : pos < fileSize fs dir) (hstop : entryStop fs dir pos = none)
    (fresh : Memory) (cursor : ℕ) : ∃ cursor', readDirent (atHead fs d cursor dir pos) fresh d =
      .ok (atHead fs d cursor' dir (entryEnd fs dir pos), entryAt fs fresh dir pos) := by
  have hread : fileSize fs dir < 2 ^ 31 ∧ InRange fs dir pos (pos + entryCount fs dir pos) ∧
      entryEnd fs dir pos - pos ≤ directoryEntrySize := by
    unfold entryStop at hstop
    split_ifs at hstop with hbig hrange hover
    exact ⟨by omega, hrange, by omega⟩
  obtain ⟨cursor', hloop⟩ := readLoop_entry h hread.1 hread.2.1 hlt d cursor
  refine ⟨cursor', ?_⟩
  rw [readDirent_of_loop hd hread.1 hlt, hloop, ok_bind]
  dsimp only
  rw [length_fileBytes, if_neg (by omega), atHead, Function.update_idem]
  rfl

/-- A directory of such a size has a negative length for `read`. -/
theorem readDirent_of_big (h : InMemory fs) (hd : d < maxFileDescriptors)
    (hsize : 2 ^ 31 ≤ fileSize fs dir) (cursor : ℕ) :
    readDirent (atHead fs d cursor dir 0) fresh d = .error
      (if dataBlock fs dir 0 < fs.blockCount then .copyTooLong else .assertion .seekBlock) := by
  have hlt : fileSize fs dir < 2 ^ 32 := switchEndianness_lt _
  have hneg := toInt32_neg hsize hlt
  have hmin : min (directoryEntrySize : ℤ) (toInt32 (sub32 (fileSize fs dir) 0)) =
      toInt32 (fileSize fs dir) := by
    rw [sub32_eq (Nat.zero_le _) hlt, Nat.sub_zero]
    omega
  have hmem : InMemory (atHead fs d cursor dir 0) := h.congr rfl rfl
  have htarget : add32 0 (toUint32 (toInt32 (fileSize fs dir))) = fileSize fs dir := by
    rw [toUint32_toInt32 hlt, add32_eq (by omega), Nat.zero_add]
  have hpos : 0 < fileSize fs dir := by omega
  have hloop : readLoop (inodeAt fs dir) (fileSize fs dir) (toInt32 (fileSize fs dir)) (2 ^ 32)
      (atHead fs d cursor dir 0) 0 [] = .error
        (if dataBlock fs dir (0 / fs.blockSize) < fs.blockCount then .copyTooLong
        else .assertion .seekBlock) :=
    readLoop_of_neg hmem rfl hpos hneg (by decide)
  rw [Nat.zero_div] at hloop
  rw [readDirent, readFile, assert_pos (by decide), ok_bind, getDescriptor_natCast hd, ok_bind,
    atHead_descriptor]
  dsimp only
  rw [show (inodeAt fs dir).size = fileSize fs dir from rfl, hmin, htarget, hloop,
    error_bind, error_bind]

/-- An entry that cannot be read. -/
theorem readDirent_of_some (h : InMemory fs) (hd : d < maxFileDescriptors)
    (hlt : pos < fileSize fs dir) (hpos : 2 ^ 31 ≤ fileSize fs dir → pos = 0) {stop : Stop}
    (hstop : entryStop fs dir pos = some stop) (cursor : ℕ) :
    readDirent (atHead fs d cursor dir pos) fresh d = .error stop := by
  have hcount := entryCount_pos hlt
  have hle : entryCount fs dir pos ≤ fileSize fs dir - pos := min_le_right _ _
  unfold entryStop at hstop
  split_ifs at hstop with hbig hdata hrange hover
  · obtain rfl := hpos hbig
    rw [readDirent_of_big h hd hbig, if_pos hdata, ← Option.some.inj hstop]
  · obtain rfl := hpos hbig
    rw [readDirent_of_big h hd hbig, if_neg hdata, ← Option.some.inj hstop]
  · obtain ⟨cursor', hloop⟩ := readLoop_entry h (by omega) hrange hlt d cursor
    rw [readDirent_of_loop hd (by omega) hlt, hloop, ok_bind]
    dsimp only
    rw [length_fileBytes, if_pos hover, Option.some.inj hstop]
  · have hloop :
        readLoop (inodeAt fs dir) (pos + entryCount fs dir pos) (entryCount fs dir pos) (2 ^ 32)
        (atHead fs d cursor dir pos) pos [] = .error (.assertion .seekBlock) := by
      have hmem : InMemory (atHead fs d cursor dir pos) := h.congr rfl rfl
      apply readLoop_of_not_inRange hmem rfl hrange
      · omega
      · omega
      · omega
      · omega
    rw [readDirent_of_loop hd (by omega) hlt, hloop, error_bind, Option.some.inj hstop]

/-! ### The loop of `inode_of_path` -/

/-- What the loop returns for a walk that ends so, and in which state. -/
def Ending.Result (fs : Filesystem) (d : ℕ) : Ending → Except Stop (Filesystem × ℤ) → Prop
  | .missing, res => ∃ cursor dir pos, res = .ok
      ({ fs with
          seekCursor := cursor
          descriptors := Function.update fs.descriptors d ⟨inodeAt fs dir, pos, 1⟩ }, -1)
  | .found inode, res => ∃ cursor dir pos, res = .ok (atHead fs d cursor dir pos, inode)
  | .stopped stop, res => res = .error stop

theorem isAtEndOfFile_atHead (hd : d < maxFileDescriptors) (cursor : ℕ) :
    isAtEndOfFile (atHead fs d cursor dir pos) d = .ok (decide (fileSize fs dir ≤ pos)) := by
  rw [isAtEndOfFile, getDescriptor_natCast hd, ok_bind, atHead_descriptor]
  rfl

/-- The loop does what the round says: it returns, or goes on at the next head. -/
def FollowsRound (fs : Filesystem) (d : ℕ) (res : Except Stop (Filesystem × ℤ))
    (next : Filesystem → List (BitVec 8) → Except Stop (Filesystem × ℤ)) : Except Ending Head → Prop
  | .error ending => ending.Result fs d res
  | .ok head => ∃ cursor, res = next (atHead fs d cursor head.dir head.pos) head.path

/-- An entry with the name that is looked for. -/
theorem followsRound_follow (h : InMemory fs) (hd : d < maxFileDescriptors) {path : List (BitVec 8)}
    {inode : ℕ} (hinode : inode < 2 ^ 32) (cursor dir pos : ℕ)
    (next : Filesystem → List (BitVec 8) → Except Stop (Filesystem × ℤ)) :
    FollowsRound fs d
      (if charAt path 0 = 0 then .ok (atHead fs d cursor dir pos, toInt32 inode)
      else do
        let (st, inode) ← readInode (atHead fs d cursor dir pos) (toInt32 inode)
        let fd ← getDescriptor st d
        let st ← setDescriptor st d { fd with inode := inode, pos := 0 }
        next st (path.drop 1)) next (follow fs path inode) := by
  unfold follow
  by_cases hend : charAt path 0 = 0
  · rw [if_pos hend, if_pos hend]
    exact ⟨cursor, dir, pos, rfl⟩
  · rw [if_neg hend, if_neg hend]
    by_cases hlt : inode < fs.blockCount
    · have hmem : InMemory (atHead fs d cursor dir pos) := h.congr rfl rfl
      have hbound := (h.bounds hlt).1
      rw [if_pos hlt, toInt32_natCast (by omega), readInode_eq hmem hlt]
      by_cases hsize : fileSize fs inode ≤ fs.maxFileSize
      · rw [if_pos hsize, if_pos (by exact hsize), ok_bind]
        dsimp only
        rw [getDescriptor_natCast hd, ok_bind, setDescriptor_natCast hd, ok_bind]
        refine ⟨inode * fs.blockSize, ?_⟩
        dsimp only
        rw [atHead_descriptor]
        unfold atHead
        rw [Function.update_idem]
        rfl
      · rw [if_neg hsize, if_neg (by exact hsize), error_bind]
        rfl
    · have hread : readInode (atHead fs d cursor dir pos) (toInt32 inode) =
          .error (.assertion .seekBlock) :=
        readInode_of_le hinode (not_lt.mp hlt)
      rw [if_neg hlt, hread, error_bind]
      rfl

theorem inodeOfPathLoop_succ (h : InMemory fs) (hd : d < maxFileDescriptors) {head : Head}
    (hhead : head.Valid fs) (fresh : ℕ → Memory) (cursor bound : ℕ) :
    FollowsRound fs d
      (inodeOfPathLoop d (bound + 1) fresh (atHead fs d cursor head.dir head.pos) head.path)
      (inodeOfPathLoop d bound fun i ↦ fresh (i + 1)) (round fs (fresh 0) head) := by
  unfold round
  rw [inodeOfPathLoop, isAtEndOfFile_atHead hd, ok_bind]
  by_cases hend : fileSize fs head.dir ≤ head.pos
  · rw [if_pos hend, decide_eq_true hend, if_pos rfl, fclose, getDescriptor_natCast hd, ok_bind,
      setDescriptor_natCast hd, ok_bind, atHead_descriptor, atHead, Function.update_idem]
    exact ⟨cursor, head.dir, head.pos, rfl⟩
  · rw [if_neg hend, decide_eq_false hend, if_neg (by decide)]
    cases hstop : entryStop fs head.dir head.pos with
    | some stop =>
      rw [readDirent_of_some h hd (not_le.mp hend) hhead.pos_eq hstop, error_bind]
      rfl
    | none =>
      obtain ⟨cursor', hread⟩ := readDirent_of_none h hd (not_le.mp hend) hstop (fresh 0) cursor
      rw [hread, ok_bind]
      dsimp only
      by_cases hfound : 0 < filenameMatch head.path (entryAt fs (fresh 0) head.dir head.pos).name
      · rw [if_pos hfound, if_pos hfound]
        exact followsRound_follow h hd (entryAt_inode_lt _ _ _ _) cursor' head.dir _ _
      · rw [if_neg hfound, if_neg hfound]
        exact ⟨cursor', rfl⟩

/-! ### Walks -/

section Walks

variable {head head' : Head} {ending : Ending} {path : List (BitVec 8)} {inode : ℕ}

theorem follow_ok (h : follow fs path inode = .ok head) :
    charAt path 0 ≠ 0 ∧ inode < fs.blockCount ∧ fileSize fs inode ≤ fs.maxFileSize ∧
      head = ⟨inode, 0, path.drop 1⟩ := by
  unfold follow at h
  split_ifs at h with hend hlt hsize
  exact ⟨hend, hlt, hsize, (Except.ok.inj h).symm⟩

/-- A round that goes on goes to another position of the directory, or to another directory. -/
theorem round_ok (h : round fs fresh head = .ok head') :
    head.pos < fileSize fs head.dir ∧ entryStop fs head.dir head.pos = none ∧
      (head' = { head with pos := entryEnd fs head.dir head.pos } ∨
        follow fs (head.path.drop
          (filenameMatch head.path (entryAt fs fresh head.dir head.pos).name).toNat)
          (entryAt fs fresh head.dir head.pos).inode = .ok head') := by
  unfold round at h
  split_ifs at h with hend
  cases hstop : entryStop fs head.dir head.pos with
  | some stop =>
    rw [hstop] at h
    cases h
  | none =>
    rw [hstop] at h
    dsimp only at h
    refine ⟨not_le.mp hend, rfl, ?_⟩
    by_cases hfound : 0 < filenameMatch head.path (entryAt fs fresh head.dir head.pos).name
    · rw [if_pos hfound] at h
      exact Or.inr h
    · rw [if_neg hfound] at h
      exact Or.inl (Except.ok.inj h).symm

theorem entryStop_eq_none (h : entryStop fs dir pos = none) : fileSize fs dir < 2 ^ 31 ∧
    InRange fs dir pos (pos + entryCount fs dir pos) ∧
    entryEnd fs dir pos - pos ≤ directoryEntrySize := by
  unfold entryStop at h
  split_ifs at h with hbig hrange hover
  exact ⟨by omega, hrange, by omega⟩

theorem Head.Valid.round (hhead : head.Valid fs) (h : round fs fresh head = .ok head') :
    head'.Valid fs := by
  obtain ⟨-, hstop, rfl | hfollow⟩ := round_ok h
  · refine ⟨hhead.dir_lt, fun hbig ↦ ?_⟩
    have hsize := (entryStop_eq_none hstop).1
    exact absurd hbig (not_le.mpr hsize)
  · obtain ⟨-, hlt, -, rfl⟩ := follow_ok hfollow
    exact ⟨hlt, fun _ ↦ rfl⟩

/-- A path whose first character is none is not followed. -/
theorem length_drop_lt {k : ℕ} (h : charAt (path.drop k) 0 ≠ 0) :
    ((path.drop k).drop 1).length < path.length := by
  have hne : path.drop k ≠ [] := fun hnil ↦ h (by rw [hnil]; rfl)
  have hpos := List.length_pos_of_ne_nil hne
  rw [List.length_drop] at hpos
  rw [List.length_drop, List.length_drop]
  omega

/-- A round that goes on leaves a shorter path, or fewer bytes of the directory. -/
theorem round_decreases (hmem : InMemory fs) (h : round fs fresh head = .ok head') :
    head'.path.length < head.path.length ∨ head'.path = head.path ∧
      fileSize fs head'.dir - head'.pos < fileSize fs head.dir - head.pos := by
  obtain ⟨hlt, -, rfl | hfollow⟩ := round_ok h
  · have hend := lt_entryEnd hmem hlt
    refine Or.inr ⟨rfl, ?_⟩
    dsimp only
    omega
  · obtain ⟨hne, -, -, rfl⟩ := follow_ok hfollow
    exact Or.inl (length_drop_lt hne)

/-- Every walk ends. -/
theorem exists_walks (hmem : InMemory fs) (fresh : ℕ → Memory) (head : Head) :
    ∃ ending, Walks fs fresh head ending := by
  cases hround : SysresOs.Files.round fs (fresh 0) head with
  | error ending => exact ⟨ending, .ends hround⟩
  | ok head' =>
    obtain ⟨ending, hwalk⟩ := exists_walks hmem (fun i ↦ fresh (i + 1)) head'
    exact ⟨ending, .next hround hwalk⟩
termination_by (head.path.length, fileSize fs head.dir - head.pos)
decreasing_by
  rcases round_decreases hmem hround with hpath | ⟨hpath, hsize⟩
  · exact Prod.Lex.left _ _ hpath
  · rw [hpath]
    exact Prod.Lex.right _ hsize

/-- A walk has one ending. -/
theorem Walks.unique {fresh : ℕ → Memory} {ending' : Ending} (h : Walks fs fresh head ending)
    (h' : Walks fs fresh head ending') : ending = ending' := by
  induction h with
  | ends h =>
    cases h' with
    | ends h' => exact Except.error.inj (h.symm.trans h')
    | next h' _ => exact absurd (h.symm.trans h') (by simp)
  | next h _ ih =>
    cases h' with
    | ends h' => exact absurd (h.symm.trans h') (by simp)
    | next h' hw =>
      obtain rfl := Except.ok.inj (h.symm.trans h')
      exact ih hw

/-- The loop returns what the walk ends with, once there are enough rounds. -/
theorem Walks.run {fresh : ℕ → Memory} (hmem : InMemory fs) (hd : d < maxFileDescriptors)
    (hhead : head.Valid fs) (hw : Walks fs fresh head ending) :
    ∃ bound, ∀ k ≥ bound, ∀ cursor,
      ending.Result fs d
        (inodeOfPathLoop d k fresh (atHead fs d cursor head.dir head.pos) head.path) := by
  induction hw with
  | @ends fresh head ending h =>
    refine ⟨1, fun k hk cursor ↦ ?_⟩
    obtain ⟨k, rfl⟩ := Nat.exists_eq_add_of_le' hk
    have hround := inodeOfPathLoop_succ hmem hd hhead fresh cursor k
    rwa [h] at hround
  | @next fresh head head' ending h _ ih =>
    obtain ⟨bound, hbound⟩ := ih (hhead.round h)
    refine ⟨bound + 1, fun k hk cursor ↦ ?_⟩
    obtain ⟨k, rfl⟩ := Nat.exists_eq_add_of_le' (le_trans (Nat.le_add_left 1 bound) hk)
    have hround := inodeOfPathLoop_succ hmem hd hhead fresh cursor k
    rw [h] at hround
    obtain ⟨cursor', hloop⟩ := hround
    rw [hloop]
    exact hbound k (by omega) cursor'

end Walks

/-! ### The call -/

/-- A path without the slash it may begin with. -/
def relative (path : List (BitVec 8)) : List (BitVec 8) :=
  if charAt path 0 = 0x2f then path.drop 1 else path

/-- The slot that the lookup uses: the first closed one. -/
theorem slot_of_closed (h : ∃ d < maxFileDescriptors, (fs.descriptors d).closed ≠ 0) :
    ∃ d < maxFileDescriptors, getNextAvailableFileDescriptorSlot fs = d ∧
      (fs.descriptors d).closed ≠ 0 := by
  unfold getNextAvailableFileDescriptorSlot
  obtain ⟨d, hd, hclosed⟩ := h
  cases hfind : (List.range maxFileDescriptors).find? fun i ↦ (fs.descriptors i).closed ≠ 0 with
  | none =>
    have hnone := List.find?_eq_none.mp hfind d (List.mem_range.mpr hd)
    exact absurd hclosed (by simpa using hnone)
  | some slot =>
    refine ⟨slot, List.mem_range.mp (List.mem_of_find?_eq_some hfind), rfl, ?_⟩
    simpa using List.find?_some hfind

theorem slot_of_full (h : ∀ d < maxFileDescriptors, (fs.descriptors d).closed = 0) :
    getNextAvailableFileDescriptorSlot fs = -1 := by
  unfold getNextAvailableFileDescriptorSlot
  rw [List.find?_eq_none.mpr fun d hd ↦ by simpa using h d (List.mem_range.mp hd)]

/-- `iopen` of an inode of the image. -/
theorem iopen_eq (h : InMemory fs) (hslot : getNextAvailableFileDescriptorSlot fs = d)
    (hd : d < maxFileDescriptors) {n : ℕ} (hn : n < fs.blockCount) : iopen fs n =
      if fileSize fs n ≤ fs.maxFileSize then .ok (atHead fs d (n * fs.blockSize) n 0, (d : ℤ))
      else .error (.assertion .inodeSize) := by
  unfold iopen
  rw [hslot, if_neg (by omega), readInode_eq h hn]
  split_ifs with hsize
  · rw [ok_bind]
    dsimp only
    rw [setDescriptor_natCast hd, ok_bind]
    rfl
  · rw [error_bind]

/-- The walk of the whole lookup: the root directory is read first. -/
def LookupEnds (fs : Filesystem) (fresh : ℕ → Memory) (path : List (BitVec 8)) (ending : Ending) :
    Prop :=
  if fs.rootInode < fs.blockCount then
    if fileSize fs fs.rootInode ≤ fs.maxFileSize then
      Walks fs fresh ⟨fs.rootInode, 0, relative path⟩ ending
    else ending = .stopped (.assertion .inodeSize)
  else ending = .stopped (.assertion .seekBlock)

/-- A lookup of a path has one ending. -/
theorem exists_lookupEnds (h : InMemory fs) (fresh : ℕ → Memory) (path : List (BitVec 8)) :
    ∃ ending, LookupEnds fs fresh path ending := by
  unfold LookupEnds
  split_ifs
  · exact exists_walks h fresh _
  · exact ⟨_, rfl⟩
  · exact ⟨_, rfl⟩

theorem LookupEnds.unique {fresh : ℕ → Memory} {path : List (BitVec 8)} {ending ending' : Ending}
    (h : LookupEnds fs fresh path ending) (h' : LookupEnds fs fresh path ending') :
    ending = ending' := by
  unfold LookupEnds at h h'
  split_ifs at h h'
  · exact h.unique h'
  · rw [h, h']
  · rw [h, h']

theorem toInt32_ne {n : ℕ} (h : n < 2 ^ 31) : toInt32 n ≠ -1 := by
  rw [toInt32_natCast h]
  omega

/-- `inode_of_path` returns what its walk ends with. -/
theorem LookupEnds.run {fresh : ℕ → Memory} {path : List (BitVec 8)} {ending : Ending}
    (h : InMemory fs) (hroot : fs.rootInode < 2 ^ 32) (hne : toInt32 fs.rootInode ≠ -1)
    (hslot : getNextAvailableFileDescriptorSlot fs = d) (hd : d < maxFileDescriptors)
    (hends : LookupEnds fs fresh path ending) :
    ∃ bound, ∀ k ≥ bound, ending.Result fs d (inodeOfPath fresh k fs path) := by
  unfold LookupEnds at hends
  unfold inodeOfPath
  split_ifs at hends with hlt hsize
  · have hbound := (h.bounds hlt).1
    obtain ⟨bound, hrun⟩ := hends.run h hd ⟨hlt, fun _ ↦ rfl⟩
    refine ⟨bound, fun k hk ↦ ?_⟩
    rw [toInt32_natCast (by omega), iopen_eq h hslot hd hlt, if_pos hsize, ok_bind]
    exact hrun k hk _
  · have hbound := (h.bounds hlt).1
    refine ⟨0, fun k _ ↦ ?_⟩
    rw [toInt32_natCast (by omega), iopen_eq h hslot hd hlt, if_neg hsize, error_bind, hends]
    rfl
  · refine ⟨0, fun k _ ↦ ?_⟩
    unfold iopen
    rw [hslot, if_neg (not_or.mpr ⟨by omega, hne⟩), readInode_of_le hroot (not_lt.mp hlt),
      error_bind, error_bind, hends]
    rfl

/-- Without a descriptor the lookup reads the table out of its bounds. -/
theorem inodeOfPath_of_noDescriptor {fresh : ℕ → Memory} {path : List (BitVec 8)}
    (h : getNextAvailableFileDescriptorSlot fs = -1 ∨ toInt32 fs.rootInode = -1) (bound : ℕ) :
    inodeOfPath fresh (bound + 1) fs path = .error (.outOfBounds (-1)) := by
  rw [inodeOfPath, iopen]
  dsimp only
  rw [if_pos h, ok_bind, inodeOfPathLoop, isAtEndOfFile, getDescriptor,
    if_neg (by omega), error_bind, error_bind]

end SysresOs.Files
