import SysresOs.Files.Image

/-!
# Writing in place

`write` changes the file block by block: a round reads a block, puts a part of the buffer in it and
writes it back. In the image a round is the write of a part of the buffer from the address of the
position on (`writeLoop_step`), so that a write inside a file changes the bytes at their addresses
and no other byte (`writeLoop_spec`, `writeFile_inPlace`).
-/

set_option autoImplicit false
set_option relaxedAutoImplicit false

namespace SysresOs.Files

open SysresOs.ByteMemory SysresOs.Outcome
open SysresOs.Memory (toInt32)

variable {fs fs' : Filesystem} {inodes index : Set ℕ} {inode : Inode} {n i pos target bound : ℕ}
  {buffer : List (BitVec 8)}

/-! ### One round of a write -/

/-- The length of a round: what is left, up to the end of the block. -/
def roundLength (fs : Filesystem) (pos target : ℕ) : ℕ :=
  min (target - pos) (fs.blockSize - pos % fs.blockSize)

theorem blockNumber_eq (hblocks : inode.blocks = n * fs.blockSize + 12) :
    blockNumber fs inode pos = dataBlock fs n (pos / fs.blockSize) := by
  rw [blockNumber, hblocks, dataBlock]

theorem min_toInt32_eq {a b : ℕ} (ha : a < 2 ^ 31) (hb : b < 2 ^ 31) :
    min (toInt32 a) (toInt32 b) = ((min a b : ℕ) : ℤ) := by
  rw [toInt32_natCast ha, toInt32_natCast hb]
  omega

theorem copyLength_natCast (k : ℕ) : copyLength k = .ok k := by
  rw [copyLength, if_neg (by omega), Int.toNat_natCast]

/-- The rest of a block is no large number. -/
theorem sub32_mod (h : InMemory fs) (hcount : 0 < fs.blockCount) (pos : ℕ) :
    sub32 fs.blockSize (pos % fs.blockSize) = fs.blockSize - pos % fs.blockSize ∧
      fs.blockSize < 2 ^ 30 := by
  have hsize := (h.bounds hcount).2.1
  have hmod := Nat.mod_lt pos h.blockSize_pos
  exact ⟨sub32_eq hmod.le (by omega), hsize⟩

/-- A round writes a part of the buffer from the address of the position on. -/
theorem writeLoop_step (h : WellFormed fs inodes index) (hn : n ∈ inodes)
    (hblocks : inode.blocks = n * fs.blockSize + 12) (hlt : pos < target)
    (htarget : target ≤ fileSize fs n) : writeLoop inode target (bound + 1) fs pos buffer =
      writeLoop inode target bound
        { fs with
          image := write fs.image (fileAddr fs n pos) (buffer.take (roundLength fs pos target))
          seekCursor := dataBlock fs n (pos / fs.blockSize) * fs.blockSize }
        (pos + roundLength fs pos target) (buffer.drop (roundLength fs pos target)) := by
  have hdata := h.data_block_lt hn (lt_of_lt_of_le hlt htarget)
  obtain ⟨hsub, hsize⟩ := sub32_mod h.layout.inMemory (Nat.zero_lt_of_lt hdata) pos
  have hfile := h.fileSize_lt hn
  have hnumber := (h.layout.inMemory.bounds hdata).1
  have hmod := Nat.mod_lt pos h.layout.blockSize_pos
  have hround : roundLength fs pos target ≤ target - pos := min_le_left _ _
  have hround' : roundLength fs pos target ≤ fs.blockSize - pos % fs.blockSize := min_le_right _ _
  rw [writeLoop, if_pos hlt]
  dsimp only
  rw [blockNumber_eq hblocks, toInt32_natCast (by omega), readBlock_eq h.layout.inMemory hdata,
    ok_bind]
  dsimp only
  rw [hsub, sub32_eq hlt.le (by omega), min_toInt32_eq (by omega) (by omega)]
  change (copyLength (roundLength fs pos target : ℕ) >>= _) = _
  rw [copyLength_natCast, ok_bind]
  have hlayout :
      Layout { fs with seekCursor := dataBlock fs n (pos / fs.blockSize) * fs.blockSize } :=
    h.layout.congr rfl rfl
  have htake : pos % fs.blockSize + (buffer.take (roundLength fs pos target)).length ≤
      fs.blockSize := by
    have hle := List.length_take_le (roundLength fs pos target) buffer
    omega
  have hput := putBlock_write (n := dataBlock fs n (pos / fs.blockSize)) htake
  rw [writeBlock_eq hlayout.inMemory hdata, ok_bind, toUint32_natCast (by omega),
    add32_eq (by omega)]
  congr 2

/-! ### The loop of a write -/

/-- A write from an address of the file to the end of the block leaves the inode blocks alone. -/
theorem WellFormed.sameInode_write (h : WellFormed fs inodes index) (hn : n ∈ inodes) {m k : ℕ}
    (hm : m ∈ inodes) {bytes : List (BitVec 8)} (hpos : pos < fileSize fs n)
    (hlength : pos % fs.blockSize + bytes.length ≤ fs.blockSize) :
    SameInode fs { fs with
      image := write fs.image (fileAddr fs n pos) bytes, seekCursor := k } m := by
  refine ⟨rfl, fun x hx ↦ write_of_not_mem ?_⟩
  by_contra hmem
  have hoffset : x = dataBlock fs n (pos / fs.blockSize) * fs.blockSize +
      (pos % fs.blockSize + (x - fileAddr fs n pos)) := by
    unfold fileAddr at hmem ⊢
    omega
  have hdiv : x / fs.blockSize = dataBlock fs n (pos / fs.blockSize) := by
    rw [hoffset]
    exact div_blockSize (by omega)
  apply h.data_not_inode n hn _ (div_lt_blocksFor h.layout.blockSize_pos hpos)
  rw [← hdiv, hx]
  exact hm

/-- A write inside a file changes the bytes at the addresses of the file to those of the buffer, and
no other byte of the image. -/
structure WrittenTo (fs fs' : Filesystem) (n pos : ℕ) (buffer : List (BitVec 8)) : Prop where
  fields : SameFields fs fs'
  freeBlockList : fs'.freeBlockList = fs.freeBlockList
  written : ∀ i (hi : i < buffer.length), fs'.image (fileAddr fs n (pos + i)) = buffer[i]
  others : ∀ x, (∀ i < buffer.length, x ≠ fileAddr fs n (pos + i)) → fs'.image x = fs.image x

/-- Two writes one behind the other are one write. -/
theorem WrittenTo.append {fs₁ : Filesystem} (size : ℕ) {a b : List (BitVec 8)}
    (ha : WrittenTo fs fs₁ n pos a) (hb : WrittenTo fs₁ fs' n (pos + a.length) b)
    (haddr : ∀ j < size, fileAddr fs₁ n j = fileAddr fs n j)
    (hinj : ∀ i < size, ∀ j < size, fileAddr fs n i = fileAddr fs n j → i = j)
    (hsize : pos + a.length + b.length ≤ size) : WrittenTo fs fs' n pos (a ++ b) := by
  refine ⟨ha.fields.trans hb.fields, hb.freeBlockList.trans ha.freeBlockList,
    fun i hi ↦ ?_, fun x hx ↦ ?_⟩
  · rw [List.length_append] at hi
    rcases lt_or_ge i a.length with hlt | hge
    · rw [List.getElem_append_left hlt, ← ha.written i hlt]
      refine hb.others _ fun j hj heq ↦ ?_
      rw [haddr _ (by omega)] at heq
      have hsame := hinj _ (by omega) _ (by omega) heq
      omega
    · have hbyte := hb.written (i - a.length) (by omega)
      rw [List.getElem_append_right hge, ← hbyte, Nat.add_assoc, Nat.add_sub_cancel' hge,
        haddr _ (by omega)]
  · rw [List.length_append] at hx
    rw [hb.others x fun j hj ↦ ?_, ha.others x fun j hj ↦ hx j (by omega)]
    rw [haddr _ (by omega), Nat.add_assoc]
    exact hx _ (by omega)

/-- A write into one block of a file. -/
theorem writtenTo_block (k : ℕ) (hlength : pos % fs.blockSize + buffer.length ≤ fs.blockSize) :
    WrittenTo fs { fs with image := write fs.image (fileAddr fs n pos) buffer, seekCursor := k } n
      pos
      buffer := by
  have haddr : ∀ i < buffer.length, fileAddr fs n (pos + i) = fileAddr fs n pos + i := fun i hi ↦
    fileAddr_add (by omega)
  refine ⟨⟨rfl, rfl, rfl, rfl, rfl⟩, rfl, fun i hi ↦ ?_, fun x hx ↦ ?_⟩
  · rw [haddr i hi]
    unfold write
    simp [hi]
  · apply write_of_not_mem
    by_contra hmem
    apply hx (x - fileAddr fs n pos) (by omega)
    rw [haddr _ (by omega)]
    omega

theorem writeLoop_spec (h : WellFormed fs inodes index) (hn : n ∈ inodes)
    (hblocks : inode.blocks = n * fs.blockSize + 12) (htarget : pos + buffer.length = target)
    (hsize : target ≤ fileSize fs n) (hbound : buffer.length < bound) :
    ∃ fs', writeLoop inode target bound fs pos buffer = .ok (fs', target) ∧
      WrittenTo fs fs' n pos buffer := by
  induction bound generalizing fs pos buffer with
  | zero => omega
  | succ bound ih =>
    rcases Nat.eq_zero_or_pos buffer.length with hzero | hlength
    · rw [writeLoop, if_neg (by omega), ← htarget, hzero, Nat.add_zero]
      exact ⟨fs, rfl, SameFields.refl fs, rfl, fun i hi ↦ by omega, fun _ _ ↦ rfl⟩
    · rw [writeLoop_step h hn hblocks (by omega) hsize]
      have hpos := h.layout.blockSize_pos
      have hmod := Nat.mod_lt pos hpos
      have hfits := h.fits n hn
      have hround : roundLength fs pos target ≤ buffer.length ∧
          pos % fs.blockSize + roundLength fs pos target ≤ fs.blockSize ∧
            0 < roundLength fs pos target := by
        rw [roundLength]
        omega
      generalize roundLength fs pos target = c at *
      have htake : (buffer.take c).length = c := List.length_take_of_le hround.1
      have hdrop : (buffer.drop c).length = buffer.length - c := List.length_drop
      generalize hfs₁ : ({ fs with
        image := write fs.image (fileAddr fs n pos) (buffer.take c)
        seekCursor := dataBlock fs n (pos / fs.blockSize) * fs.blockSize } : Filesystem) = fs₁
      have hsame : ∀ m ∈ inodes, SameInode fs fs₁ m := fun m hm ↦
        hfs₁ ▸ h.sameInode_write hn hm (by omega) (by omega)
      have hfirst : WrittenTo fs fs₁ n pos (buffer.take c) :=
        hfs₁ ▸ writtenTo_block _ (by omega)
      have h₁ : WellFormed fs₁ inodes index :=
        h.congr hfirst.fields.blockSize hfirst.fields.blockCount hsame
      have hfile : fileSize fs₁ n = fileSize fs n := (hsame n hn).fileSize_eq (by omega)
      obtain ⟨fs', hloop, hwritten⟩ :
          ∃ fs', writeLoop inode target bound fs₁ (pos + c) (buffer.drop c) =
          .ok (fs', target) ∧ WrittenTo fs₁ fs' n (pos + c) (buffer.drop c) := by
        apply ih h₁
        · rw [hblocks, hfirst.fields.blockSize]
        · omega
        · omega
        · omega
      refine ⟨fs', hloop, ?_⟩
      rw [← List.take_append_drop c buffer]
      apply hfirst.append (fileSize fs n) (htake.symm ▸ hwritten)
      · intro j hj
        have hblock := div_lt_blocksFor hpos hj
        exact (hsame n hn).fileAddr_eq (by omega)
      · exact fun i hi j hj ↦ h.fileAddr_inj hn hi hj
      · omega

/-! ### In-place writes -/

/-- A write inside a file leaves the inode blocks alone. -/
theorem WrittenTo.sameInode (hw : WrittenTo fs fs' n pos buffer) (h : WellFormed fs inodes index)
    (hn : n ∈ inodes) {m : ℕ} (hm : m ∈ inodes) (hsize : pos + buffer.length ≤ fileSize fs n) :
    SameInode fs fs' m := by
  refine ⟨hw.fields.blockSize, fun x hx ↦ hw.others x fun i hi heq ↦ ?_⟩
  have hpos := h.layout.blockSize_pos
  apply h.data_not_inode n hn _ (div_lt_blocksFor hpos (by omega : pos + i < fileSize fs n))
  rw [← fileAddr_div hpos, ← heq, hx]
  exact hm

theorem getDescriptor_natCast {d : ℕ} (hd : d < maxFileDescriptors) :
    getDescriptor fs d = .ok (fs.descriptors d) := by
  rw [getDescriptor, if_pos (by omega), Int.toNat_natCast]

theorem setDescriptor_natCast {d : ℕ} (hd : d < maxFileDescriptors) (fd : FileDescriptor) :
    setDescriptor fs d fd = .ok { fs with descriptors := Function.update fs.descriptors d fd } := by
  rw [setDescriptor, if_pos (by omega), Int.toNat_natCast]

/-- A file that is long enough is not extended. -/
theorem extendFile_of_le {d len : ℕ} (hd : d < maxFileDescriptors)
    (hlen : (fs.descriptors d).pos + len ≤ (fs.descriptors d).inode.size)
    (hsize : (fs.descriptors d).inode.size < 2 ^ 30) : extendFile fs d len = .ok fs := by
  rw [extendFile, getDescriptor_natCast hd, ok_bind]
  dsimp only
  rw [toUint32_natCast (by omega), add32_eq (by omega), if_pos hlen]

/-- What a write does once the file is long enough. -/
theorem writeFile_of_extended {d : ℕ} {fd : FileDescriptor} (hd : d < maxFileDescriptors)
    (hextend : extendFile fs d buffer.length = .ok fs') (hfd : fs'.descriptors d = fd)
    (h : WellFormed fs' inodes index) (hn : n ∈ inodes)
    (hblocks : fd.inode.blocks = n * fs'.blockSize + 12)
    (hlen : fd.pos + buffer.length ≤ fd.inode.size) (hsize : fd.inode.size ≤ fileSize fs' n) :
    ∃ fs₁, writeFile fs d buffer = .ok ({ fs₁ with
        descriptors := Function.update fs'.descriptors d { fd with
          pos := fd.pos + buffer.length } },
          (buffer.length : ℤ)) ∧ WrittenTo fs' fs₁ n fd.pos buffer := by
  have hfile := h.fileSize_lt hn
  obtain ⟨fs₁, hloop, hwritten⟩ :
      ∃ fs₁, writeLoop fd.inode (fd.pos + buffer.length) (2 ^ 32) fs' fd.pos buffer =
      .ok (fs₁, fd.pos + buffer.length) ∧ WrittenTo fs' fs₁ n fd.pos buffer := by
    apply writeLoop_spec h hn hblocks rfl
    · omega
    · omega
  refine ⟨fs₁, ?_, hwritten⟩
  rw [writeFile]
  dsimp only
  rw [assert_pos (by omega), ok_bind, hextend, ok_bind, getDescriptor_natCast hd, ok_bind, hfd,
    toUint32_natCast (by omega), sub32_eq (by omega) (by omega), assert_pos (by omega), ok_bind,
    add32_eq (by omega), hloop, ok_bind]
  dsimp only
  rw [setDescriptor_natCast hd, ok_bind, hwritten.fields.descriptors]

/-- A write that ends inside the file returns the length, moves the position by it, and changes the
bytes of the file it is on to those of the buffer and no other byte of the image. -/
theorem writeFile_inPlace {d : ℕ} (h : WellFormed fs inodes index) (hn : n ∈ inodes)
    (hopen : IsOpen fs d n)
    (hlen : (fs.descriptors d).pos + buffer.length ≤ (fs.descriptors d).inode.size) :
    ∃ fs', writeFile fs d buffer = .ok (fs', (buffer.length : ℤ)) ∧
      fs'.descriptors = Function.update fs.descriptors d
        { fs.descriptors d with pos := (fs.descriptors d).pos + buffer.length } ∧
      (∀ i (hi : i < buffer.length), fileByte fs' n ((fs.descriptors d).pos + i) = buffer[i]) ∧
      ∀ x, (∀ i < buffer.length, x ≠ fileAddr fs n ((fs.descriptors d).pos + i)) →
        fs'.image x = fs.image x := by
  have hfile := h.fileSize_lt hn
  have hsize := hopen.size_le
  have hextend := extendFile_of_le hopen.slot_lt hlen (by omega)
  obtain ⟨fs₁, hwrite, hwritten⟩ := writeFile_of_extended hopen.slot_lt hextend rfl h hn
    hopen.blocks_eq hlen hsize
  have hsame := hwritten.sameInode h hn hn (by omega)
  refine ⟨_, hwrite, rfl, fun i hi ↦ ?_, hwritten.others⟩
  have hfits := h.fits n hn
  have hblock := div_lt_blocksFor h.layout.blockSize_pos
    (by omega : (fs.descriptors d).pos + i < fileSize fs n)
  rw [fileByte, ← hwritten.written i hi, ← hsame.fileAddr_eq (by omega)]
  rfl

/-- Twenty bytes over the boundary of the two blocks of the file. -/
theorem writeFile_inPlace_openDisk : ∃ fs',
    writeFile (openDisk 20) (0 : ℕ) (List.replicate 20 7) = .ok (fs', (20 : ℕ)) ∧
      fs'.descriptors = Function.update (openDisk 20).descriptors 0
        { (openDisk 20).descriptors 0 with pos := 20 + 20 } ∧
      (∀ i (hi : i < (List.replicate 20 (7 : BitVec 8)).length),
        fileByte fs' 1 (20 + i) = (List.replicate 20 (7 : BitVec 8))[i]) ∧
      ∀ x, (∀ i < 20, x ≠ fileAddr (openDisk 20) 1 (20 + i)) →
      fs'.image x = (openDisk 20).image x :=
  writeFile_inPlace (wellFormed_openDisk 20) (Set.mem_singleton 1) (isOpen_openDisk (by decide))
    (by decide)

end SysresOs.Files
