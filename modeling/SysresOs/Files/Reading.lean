import SysresOs.Files.Transfer

/-!
# Reading

`read` goes block by block, but the length of a round does not get smaller with what was read
before. The bytes it stores are those of the file in any case (`readLoop_spec`), but it stores too
many and moves the position too far, unless the read stays in one block or ends with a block
(`readsExactly_iff`).
-/

set_option autoImplicit false
set_option relaxedAutoImplicit false

namespace SysresOs.Files

open SysresOs.ByteMemory SysresOs.Outcome
open SysresOs.Memory (toInt32)

variable {fs fs' : Filesystem} {inodes index : Set ℕ} {inode : Inode} {n i pos target bound : ℕ}
  {buffer : List (BitVec 8)}

/-! ### The loop of a read -/

/-- The bytes of a file from a position on. -/
def fileBytes (fs : Filesystem) (n pos count : ℕ) : List (BitVec 8) :=
  (List.range count).map fun i ↦ fileByte fs n (pos + i)

theorem fileBytes_append (fs : Filesystem) (n pos a b : ℕ) :
    fileBytes fs n pos a ++ fileBytes fs n (pos + a) b = fileBytes fs n pos (a + b) := by
  unfold fileBytes
  rw [List.range_add, List.map_append, List.map_map]
  simp only [Function.comp_def, Nat.add_assoc]

/-- The bytes of a file are a range of the image as long as they are in one block. -/
theorem read_content {count : ℕ} (h : pos % fs.blockSize + count ≤ fs.blockSize) :
    read (content fs (dataBlock fs n (pos / fs.blockSize))) (pos % fs.blockSize) count =
      fileBytes fs n pos count := by
  unfold ByteMemory.read fileBytes fileByte
  refine List.map_congr_left fun i hi ↦ ?_
  have hlt := List.mem_range.mp hi
  rw [fileAddr_add (by omega), content, if_pos (by omega), fileAddr, Nat.add_assoc]

/-- The length of a round of a read, of at most `r` bytes. -/
def readLength (size r pos : ℕ) : ℕ := min r (size - pos % size)

theorem readLength_spec (hpos : 0 < fs.blockSize) (pos : ℕ) {r : ℕ} (hr : 0 < r) :
    0 < readLength fs.blockSize r pos ∧ readLength fs.blockSize r pos ≤ r ∧
      pos % fs.blockSize + readLength fs.blockSize r pos ≤ fs.blockSize := by
  have hmod := Nat.mod_lt pos hpos
  unfold readLength
  omega

/-- A round stores the bytes of the file up to the end of a block. -/
theorem readLoop_step (h : InMemory fs)
    (hdata : dataBlock fs n (pos / fs.blockSize) < fs.blockCount) {r : ℕ}
    (hblocks : inode.blocks = n * fs.blockSize + 12) (hlt : pos < target)
    (htarget : target < 2 ^ 31) (hr : 0 < r) (hr_lt : r < 2 ^ 31) :
    readLoop inode target r (bound + 1) fs pos buffer =
      readLoop inode target r bound
        { fs with seekCursor := dataBlock fs n (pos / fs.blockSize) * fs.blockSize }
        (pos + readLength fs.blockSize r pos)
        (buffer ++ fileBytes fs n pos (readLength fs.blockSize r pos)) := by
  obtain ⟨hsub, hsize32⟩ := sub32_mod h (Nat.zero_lt_of_lt hdata) pos
  have hnumber := (h.bounds hdata).1
  obtain ⟨-, hround, hblock⟩ := readLength_spec h.blockSize_pos pos hr
  have hround32 : readLength fs.blockSize r pos < 2 ^ 32 := by omega
  have hlt32 : pos + readLength fs.blockSize r pos < 2 ^ 32 := by omega
  have hmin : min (r : ℤ) (toInt32 (sub32 fs.blockSize (pos % fs.blockSize))) =
      (readLength fs.blockSize r pos : ℕ) := by
    rw [hsub, ← toInt32_natCast hr_lt, min_toInt32_eq (by omega) (by omega), readLength]
  rw [readLoop, if_pos hlt]
  dsimp only
  rw [blockNumber_eq hblocks, toInt32_natCast (by omega), readBlock_eq h hdata, ok_bind]
  dsimp only
  rw [hmin, copyLength_natCast, ok_bind, read_content hblock, toUint32_natCast hround32,
    add32_eq hlt32]

/-- Where the loop of a read of `r` bytes ends. -/
def readEnd (size r target : ℕ) : ℕ → ℕ → ℕ
  | 0, pos => pos
  | bound + 1, pos =>
    if pos < target then readEnd size r target bound (pos + readLength size r pos) else pos

theorem le_readEnd (size r target bound pos : ℕ) : pos ≤ readEnd size r target bound pos := by
  induction bound generalizing pos with
  | zero => exact le_rfl
  | succ bound ih =>
    rw [readEnd]
    split_ifs
    · exact (Nat.le_add_right _ _).trans (ih _)
    · exact le_rfl

/-- The blocks of the bytes between two positions are in the image. -/
def InRange (fs : Filesystem) (n pos target : ℕ) : Prop :=
  ∀ i, pos ≤ i → i < target → dataBlock fs n (i / fs.blockSize) < fs.blockCount

/-- The loop stores the bytes of the file up to its end. -/
theorem readLoop_spec (h : InMemory fs) {r : ℕ} (hblocks : inode.blocks = n * fs.blockSize + 12)
    (hdata : InRange fs n pos target) (htarget : target < 2 ^ 31) (hr : pos < target → 0 < r)
    (hr_lt : r < 2 ^ 31) (hbound : target - pos < bound) :
    ∃ cursor, readLoop inode target r bound fs pos buffer =
      .ok ({ fs with seekCursor := cursor }, readEnd fs.blockSize r target bound pos,
        buffer ++ fileBytes fs n pos (readEnd fs.blockSize r target bound pos - pos)) := by
  induction bound generalizing pos buffer fs with
  | zero => omega
  | succ bound ih =>
    rcases lt_or_ge pos target with hlt | hge
    · obtain ⟨hround, -, -⟩ := readLength_spec h.blockSize_pos pos (hr hlt)
      rw [readLoop_step h (hdata pos le_rfl hlt) hblocks hlt htarget (hr hlt) hr_lt,
        readEnd, if_pos hlt]
      have h₁ :
          InMemory { fs with seekCursor := dataBlock fs n (pos / fs.blockSize) * fs.blockSize } :=
        h.congr rfl rfl
      have hend := le_readEnd fs.blockSize r target bound (pos + readLength fs.blockSize r pos)
      generalize readLength fs.blockSize r pos = c at *
      obtain ⟨cursor, hloop⟩ : ∃ cursor, readLoop inode target r bound
          { fs with seekCursor := dataBlock fs n (pos / fs.blockSize) * fs.blockSize } (pos + c)
            (buffer ++ fileBytes fs n pos c) = .ok ({ fs with seekCursor := cursor },
              readEnd fs.blockSize r target bound (pos + c), buffer ++ fileBytes fs n pos c ++
                fileBytes fs n (pos + c) (readEnd fs.blockSize r target bound
                (pos + c) - (pos + c))) := by
        apply ih h₁ hblocks (fun i hi hi' ↦ hdata i (by omega) hi') (fun _ ↦ hr hlt)
        omega
      have hcount : c + (readEnd fs.blockSize r target bound (pos + c) - (pos + c)) =
          readEnd fs.blockSize r target bound (pos + c) - pos := by omega
      refine ⟨cursor, hloop.trans ?_⟩
      rw [List.append_assoc, fileBytes_append, hcount]
    · rw [readLoop, readEnd, if_neg (by omega), if_neg (by omega), Nat.sub_self]
      exact ⟨fs.seekCursor, by simp [fileBytes]⟩

/-- All bytes that a round stores are in one block. -/
theorem div_add_of_lt {c j : ℕ} (hc : pos % fs.blockSize + c ≤ fs.blockSize) (hj : j < c) :
    (pos + j) / fs.blockSize = pos / fs.blockSize := by
  have hdecomp := Nat.div_add_mod' pos fs.blockSize
  apply Nat.div_eq_of_lt_le
  · omega
  · rw [Nat.succ_mul]
    omega

/-- A block that is not in the image ends the loop with an assertion. -/
theorem readLoop_of_not_inRange (h : InMemory fs) {r : ℕ}
    (hblocks : inode.blocks = n * fs.blockSize + 12)
    (hdata : ¬ InRange fs n pos target) (htarget : target < 2 ^ 31) (hr : 0 < r)
    (hr_lt : r < 2 ^ 31) (hbound : target - pos < bound) :
    readLoop inode target r bound fs pos buffer = .error (.assertion .seekBlock) := by
  induction bound generalizing pos buffer fs with
  | zero => omega
  | succ bound ih =>
    have hlt : pos < target := by
      by_contra hge
      exact hdata fun i hi hi' ↦ by omega
    by_cases hnumber : dataBlock fs n (pos / fs.blockSize) < fs.blockCount
    · obtain ⟨hround, -, hblock⟩ := readLength_spec h.blockSize_pos pos hr
      rw [readLoop_step h hnumber hblocks hlt htarget hr hr_lt]
      generalize readLength fs.blockSize r pos = c at *
      have h₁ :
          InMemory { fs with seekCursor := dataBlock fs n (pos / fs.blockSize) * fs.blockSize } :=
        h.congr rfl rfl
      have hrest :
          ¬ InRange { fs with seekCursor := dataBlock fs n (pos / fs.blockSize) * fs.blockSize } n
          (pos + c) target := by
        intro hrest
        apply hdata
        intro i hi hi'
        rcases lt_or_ge i (pos + c) with hin | hout
        · obtain ⟨j, rfl⟩ := Nat.exists_eq_add_of_le hi
          rw [div_add_of_lt hblock (by omega)]
          exact hnumber
        · exact hrest i hout hi'
      exact ih h₁ hblocks hrest (by omega)
    · rw [readLoop, if_pos hlt]
      dsimp only
      rw [blockNumber_eq hblocks, readBlock_of_le (dataBlock_lt _ _ _) (not_lt.mp hnumber),
        error_bind]

/-- A round for a negative length, which `memcpy` takes for a large one. -/
theorem readLoop_of_neg (h : InMemory fs) {len : ℤ} (hblocks : inode.blocks = n * fs.blockSize + 12)
    (hlt : pos < target) (hlen : len < 0) (hbound : 0 < bound) :
    readLoop inode target len bound fs pos buffer = .error
      (if dataBlock fs n (pos / fs.blockSize) < fs.blockCount then .copyTooLong
      else .assertion .seekBlock) := by
  obtain ⟨bound, rfl⟩ := Nat.exists_eq_succ_of_ne_zero hbound.ne'
  rw [readLoop, if_pos hlt]
  dsimp only
  rw [blockNumber_eq hblocks]
  split_ifs with hdata
  · have hnumber := (h.bounds hdata).1
    rw [toInt32_natCast (by omega), readBlock_eq h hdata, ok_bind]
    dsimp only
    rw [copyLength, if_pos (min_lt_of_left_lt hlen), error_bind]
  · rw [readBlock_of_le (dataBlock_lt _ _ _) (not_lt.mp hdata), error_bind]

/-! ### Where a read ends -/

section ReadEnd

variable {size r : ℕ}

theorem readEnd_of_le (hle : target ≤ pos) : readEnd size r target bound pos = pos := by
  cases bound with
  | zero => rfl
  | succ bound => rw [readEnd, if_neg (by omega)]

/-- The loop goes on up to its target. -/
theorem le_readEnd_of_lt (hsize : 0 < size) (hr : pos < target → 0 < r)
    (hbound : target - pos < bound) : target ≤ readEnd size r target bound pos := by
  induction bound generalizing pos with
  | zero => omega
  | succ bound ih =>
    rw [readEnd]
    split_ifs with hlt
    · have hmod := Nat.mod_lt pos hsize
      have hround : 0 < readLength size r pos := by
        have hr := hr hlt
        unfold readLength
        omega
      apply ih
      · exact fun _ ↦ hr hlt
      · omega
    · omega

/-- From the beginning of a block on, whole blocks are read, and too much if the last one is not. -/
theorem readEnd_aligned (hdvd : size ∣ pos) (hsize : 0 < size) (hle : pos ≤ target)
    (hlt : target < pos + r) (hbound : target - pos < bound) :
    readEnd size r target bound pos = target ↔ size ∣ target := by
  induction bound generalizing pos with
  | zero => omega
  | succ bound ih =>
    rcases hle.eq_or_lt with rfl | hpos
    · rw [readEnd_of_le le_rfl]
      exact iff_of_true rfl hdvd
    · have hlength : readLength size r pos = min r size := by
        rw [readLength, Nat.mod_eq_zero_of_dvd hdvd, Nat.sub_zero]
      rw [readEnd, if_pos hpos, hlength]
      rcases le_or_gt (pos + min r size) target with hnext | hover
      · have hmin : min r size = size := by omega
        rw [hmin] at hnext ⊢
        apply ih (Nat.dvd_add hdvd (dvd_refl size)) hnext
        · omega
        · omega
      · rw [readEnd_of_le hover.le]
        refine iff_of_false hover.ne' fun htarget ↦ ?_
        have hle := Nat.le_of_dvd (by omega) (Nat.dvd_sub htarget hdvd)
        omega

/-- A read ends where it should if it stays in one block, or if it should end with a block. -/
theorem readEnd_eq_iff (hsize : 0 < size) (hbound : r < bound) :
    readEnd size r (pos + r) bound pos = pos + r ↔ pos % size + r ≤ size ∨ size ∣ pos + r := by
  obtain ⟨bound, rfl⟩ := Nat.exists_eq_add_of_lt (Nat.zero_lt_of_lt hbound)
  have hmod := Nat.mod_lt pos hsize
  rcases Nat.eq_zero_or_pos r with rfl | hr
  · rw [readEnd_of_le (by omega)]
    exact iff_of_true rfl (Or.inl (by omega))
  · rw [Nat.zero_add, readEnd, if_pos (by omega)]
    rcases le_or_gt (pos % size + r) size with hone | hmore
    · have hlength : readLength size r pos = r := min_eq_left (by omega)
      rw [hlength, readEnd_of_le le_rfl]
      exact iff_of_true rfl (Or.inl hone)
    · have hlength : readLength size r pos = size - pos % size := min_eq_right (by omega)
      have hdvd : size ∣ pos + (size - pos % size) := by
        have hdecomp := Nat.div_add_mod pos size
        have hnext : pos + (size - pos % size) = size * (pos / size + 1) := by
          rw [Nat.mul_succ]
          omega
        exact ⟨_, hnext⟩
      rw [hlength, readEnd_aligned hdvd hsize (by omega) (by omega) (by omega)]
      simp only [not_le.mpr hmore, false_or]

end ReadEnd

/-! ### Reads -/

/-- The read stores the bytes of the file that it should and no more, and returns their number. -/
def ReadsExactly (fs : Filesystem) (d n : ℕ) (len : ℤ) : Prop :=
  ∃ cursor, readFile fs d len =
    .ok ({ fs with
            seekCursor := cursor
            descriptors := Function.update fs.descriptors d { fs.descriptors d with
              pos := (fs.descriptors d).pos +
                min len.toNat ((fs.descriptors d).inode.size - (fs.descriptors d).pos) } },
      fileBytes fs n (fs.descriptors d).pos
        (min len.toNat ((fs.descriptors d).inode.size - (fs.descriptors d).pos)),
      (min len.toNat ((fs.descriptors d).inode.size - (fs.descriptors d).pos) : ℕ))

/-- A read whose loop ends, or stops. -/
theorem readFile_of_loop {d : ℕ} {len : ℤ} {r : ℕ} (hlen : 0 ≤ len) (hd : d < maxFileDescriptors)
    (hr : min len (toInt32 (sub32 (fs.descriptors d).inode.size (fs.descriptors d).pos)) = r)
    (htarget : (fs.descriptors d).pos + r < 2 ^ 32) :
    readFile fs d len =
      (readLoop (fs.descriptors d).inode ((fs.descriptors d).pos + r) r (2 ^ 32) fs
          (fs.descriptors d).pos [] >>= fun res ↦
        .ok ({ res.1 with
                descriptors :=
                  Function.update res.1.descriptors d { fs.descriptors d with pos := res.2.1 } },
          res.2.2, (r : ℤ))) := by
  rw [readFile, assert_pos hlen, ok_bind, getDescriptor_natCast hd, ok_bind]
  dsimp only
  rw [hr, toUint32_natCast (by omega), add32_eq htarget]
  refine congrArg _ (funext fun res ↦ ?_)
  rw [setDescriptor_natCast hd, ok_bind]

/-- What a read does: it goes on up to the end of its loop. -/
theorem readFile_eq {d : ℕ} {len : ℤ} (h : WellFormed fs inodes index) (hn : n ∈ inodes)
    (hopen : IsOpen fs d n) (hlen : 0 ≤ len) {r last : ℕ}
    (hr : r = min len.toNat ((fs.descriptors d).inode.size - (fs.descriptors d).pos))
    (hlast : last = readEnd fs.blockSize r ((fs.descriptors d).pos + r) (2 ^ 32)
    (fs.descriptors d).pos) : ∃ cursor, readFile fs d len =
      .ok ({ fs with
              seekCursor := cursor
              descriptors :=
                  Function.update fs.descriptors d { fs.descriptors d with pos := last } },
        fileBytes fs n (fs.descriptors d).pos (last - (fs.descriptors d).pos), (r : ℤ)) := by
  have hfile := h.fileSize_lt hn
  have hsize := hopen.size_le
  have hpos := hopen.pos_le
  have hmin : min len (toInt32 (sub32 (fs.descriptors d).inode.size (fs.descriptors d).pos)) =
      r := by
    rw [sub32_eq hpos (by omega), toInt32_natCast (by omega), hr]
    omega
  obtain ⟨cursor, hloop⟩ :
      ∃ cursor, readLoop (fs.descriptors d).inode ((fs.descriptors d).pos + r) r (2 ^ 32) fs
      (fs.descriptors d).pos [] = .ok ({ fs with seekCursor := cursor }, last,
        fileBytes fs n (fs.descriptors d).pos (last - (fs.descriptors d).pos)) := by
    have hr_lt : r < 2 ^ 31 := by omega
    have htarget : (fs.descriptors d).pos + r ≤ fileSize fs n := by omega
    rw [hlast]
    clear hlast hmin
    apply readLoop_spec h.layout.inMemory hopen.blocks_eq _ _ _ hr_lt
    · omega
    · exact fun i _ hi ↦ h.data_block_lt hn (by omega)
    · omega
    · omega
  refine ⟨cursor, ?_⟩
  rw [readFile_of_loop hlen hopen.slot_lt hmin (by omega), hloop, ok_bind]

theorem length_fileBytes (fs : Filesystem) (n pos count : ℕ) :
    (fileBytes fs n pos count).length = count := by
  rw [fileBytes, List.length_map, List.length_range]

/-- A read is right if what it reads is in one block, or ends with a block. Every other read stores
more bytes than there is room for. -/
theorem readsExactly_iff {d : ℕ} {len : ℤ} (h : WellFormed fs inodes index) (hn : n ∈ inodes)
    (hopen : IsOpen fs d n) (hlen : 0 ≤ len) :
    ReadsExactly fs d n len ↔
      (fs.descriptors d).pos % fs.blockSize +
          min len.toNat ((fs.descriptors d).inode.size - (fs.descriptors d).pos) ≤ fs.blockSize ∨
        fs.blockSize ∣ (fs.descriptors d).pos +
          min len.toNat ((fs.descriptors d).inode.size - (fs.descriptors d).pos) := by
  obtain ⟨cursor, hread⟩ := readFile_eq h hn hopen hlen rfl rfl
  have hfile := h.fileSize_lt hn
  have hsize := hopen.size_le
  have hr : min len.toNat ((fs.descriptors d).inode.size - (fs.descriptors d).pos) < 2 ^ 32 := by
    omega
  rw [ReadsExactly, hread, ← readEnd_eq_iff h.layout.blockSize_pos hr]
  have hle := le_readEnd fs.blockSize
    (min len.toNat ((fs.descriptors d).inode.size - (fs.descriptors d).pos))
    ((fs.descriptors d).pos + min len.toNat
    ((fs.descriptors d).inode.size - (fs.descriptors d).pos)) (2 ^ 32) (fs.descriptors d).pos
  generalize min len.toNat ((fs.descriptors d).inode.size - (fs.descriptors d).pos) = r at *
  generalize readEnd fs.blockSize r ((fs.descriptors d).pos + r) (2 ^ 32) (fs.descriptors d).pos =
    last at *
  constructor
  · rintro ⟨cursor', heq⟩
    have hbytes := congrArg List.length (Prod.ext_iff.mp (Prod.ext_iff.mp (Except.ok.inj heq)).2).1
    simp only [length_fileBytes] at hbytes
    omega
  · rintro rfl
    refine ⟨cursor, ?_⟩
    rw [Nat.add_sub_cancel_left]

/-- Twelve bytes up to the end of the first block of the file. -/
theorem readsExactly_iff_openDisk : ReadsExactly (openDisk 20) 0 1 12 ↔
    20 % 32 + min (12 : ℤ).toNat (40 - 20) ≤ 32 ∨ 32 ∣ 20 + min (12 : ℤ).toNat (40 - 20) :=
  readsExactly_iff (wellFormed_openDisk 20) (Set.mem_singleton 1) (isOpen_openDisk (by decide))
    (by decide)

/-- Twenty bytes over the boundary of the blocks: twelve and then again twenty are stored. -/
theorem not_readsExactly_boundary : ¬ ReadsExactly (openDisk 20) 0 1 20 := by
  rintro ⟨cursor, heq⟩
  have hlength : (readFile (openDisk 20) (0 : ℕ) 20).map (fun r ↦ r.2.1.length) = .ok 32 := by
    decide +kernel
  rw [heq] at hlength
  have hcount := Except.ok.inj hlength
  dsimp only at hcount
  rw [length_fileBytes] at hcount
  exact absurd hcount (by decide)

end SysresOs.Files
