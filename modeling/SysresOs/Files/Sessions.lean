import SysresOs.Lib.FileStore
import SysresOs.Files.Reading
import SysresOs.Files.Walk

/-!
# Sessions

A program has files open and calls `iopen`, `fclose`, `fseek`, `read` and `write` on them, with
several descriptors on one file among them. The image and the table of descriptors stand for a store
of files (`Represents`). A call that the code does right (`Permitted`) does to the store what it
should: a read stays in one block or ends with a block, and a write stays in the file as the
descriptor knows it or fills its last block.
-/

set_option autoImplicit false
set_option relaxedAutoImplicit false

namespace SysresOs.Files

open SysresOs.ByteMemory SysresOs.Outcome SysresOs.FileStore
open SysresOs.Memory (toInt32)

/-! ### Calls -/

/-- A descriptor of the table. -/
abbrev Slot := Fin maxFileDescriptors

/-- A call. -/
inductive FileCall
  | iopen (n : ℕ)
  | fclose (d : Slot)
  | fseek (d : Slot) (offset : ℤ) (whence : Seek)
  | read (d : Slot) (len : ℤ)
  | write (d : Slot) (buffer : List (BitVec 8))

/-- What a call gives: the bytes in the buffer of a read, and the value that is returned. -/
structure Answer where
  bytes : List (BitVec 8)
  value : ℤ

/-- What the calls do. -/
def FileCall.run (fs : Filesystem) : FileCall → Except Stop (Filesystem × Answer)
  | .iopen n => do
    let (fs, slot) ← Files.iopen fs n
    .ok (fs, ⟨[], slot⟩)
  | .fclose d => do
    let fs ← Files.fclose fs d
    .ok (fs, ⟨[], 0⟩)
  | .fseek d offset whence => do
    let fs ← Files.fseek fs d offset whence
    .ok (fs, ⟨[], 0⟩)
  | .read d len => do
    let (fs, bytes, value) ← readFile fs d len
    .ok (fs, ⟨bytes, value⟩)
  | .write d buffer => do
    let (fs, value) ← writeFile fs d buffer
    .ok (fs, ⟨[], value⟩)

/-- Where a seek goes to. -/
def seekTarget (fd : FileDescriptor) (offset : ℤ) : Seek → ℤ
  | .seekSet => offset
  | .seekCur => fd.pos + offset
  | .seekEnd => fd.inode.size + offset

/-- How much a read of at most `len` bytes reads. -/
def readCount (fd : FileDescriptor) (len : ℤ) : ℕ := min len.toNat (fd.inode.size - fd.pos)

/-- The end of the block that the end of the file is in. -/
def lastEnd (fs : Filesystem) (fd : FileDescriptor) : ℕ :=
  (fd.inode.size / fs.blockSize + 1) * fs.blockSize

/-- The write makes the file longer in its last block: from its end on, or up to the end of the
block. The descriptor knows the size of the file. -/
structure Appends (fs : Filesystem) (fd : FileDescriptor) (len : ℕ) : Prop where
  size_eq : fd.inode.size = fileSize fs fd.inode.index.toNat
  partly : fd.inode.size % fs.blockSize ≠ 0
  lt : fd.inode.size < fd.pos + len
  le : fd.pos + len ≤ lastEnd fs fd
  place : fd.pos = fd.inode.size ∨ fd.pos + len = lastEnd fs fd

/-- The calls that the code does right. -/
def Permitted (inodes : Set ℕ) (fs : Filesystem) : FileCall → Prop
  | .iopen n => n ∈ inodes
  | .fclose d => (fs.descriptors d).closed = 0
  | .fseek d offset whence => (fs.descriptors d).closed = 0 ∧
      0 ≤ seekTarget (fs.descriptors d) offset whence ∧
      seekTarget (fs.descriptors d) offset whence ≤ (fs.descriptors d).inode.size
  | .read d len => (fs.descriptors d).closed = 0 ∧ 0 ≤ len ∧
      ((fs.descriptors d).pos % fs.blockSize + readCount (fs.descriptors d) len ≤ fs.blockSize ∨
        fs.blockSize ∣ (fs.descriptors d).pos + readCount (fs.descriptors d) len)
  | .write d buffer => (fs.descriptors d).closed = 0 ∧
      ((fs.descriptors d).pos + buffer.length ≤ (fs.descriptors d).inode.size ∨
        Appends fs (fs.descriptors d) buffer.length)

/-! ### What an image and its descriptors stand for -/

/-- The bytes of a file. -/
def fileContent (fs : Filesystem) (n : ℕ) : List (BitVec 8) := fileBytes fs n 0 (fileSize fs n)

/-- The files of an image, none of which is open. -/
def initialStore (fs : Filesystem) : Store ℕ Slot (BitVec 8) where
  content := fileContent fs
  handle := fun _ ↦ none
  size_le := fun _ _ hd ↦ absurd hd (by simp)

/-- The descriptor is the handle. What it knows of the inode, the size apart, is what the image
has. -/
structure Shows (fs : Filesystem) (inodes : Set ℕ) (fd : FileDescriptor) (h : Handle ℕ) : Prop where
  mem : h.file ∈ inodes
  closed_eq : fd.closed = 0
  index_eq : fd.inode.index = h.file
  blocks_eq : fd.inode.blocks = h.file * fs.blockSize + 12
  size_eq : fd.inode.size = h.size
  pos_eq : fd.pos = h.pos
  kind_eq : fd.inode.kind = switchEndianness (load fs.image (h.file * fs.blockSize) 4)
  nlink_eq : fd.inode.nlink = switchEndianness (load fs.image (h.file * fs.blockSize + 4) 4)

/-- The image and the table of descriptors stand for the store. -/
structure Represents (inodes index : Set ℕ) (fs : Filesystem) (s : Store ℕ Slot (BitVec 8)) :
    Prop where
  wellFormed : WellFormed fs inodes index
  room : ∀ n ∈ inodes, blocksFor fs (fileSize fs n) * fs.blockSize ≤ fs.maxFileSize
  content : ∀ n ∈ inodes, s.content n = fileContent fs n
  closed : ∀ d, s.handle d = none → (fs.descriptors d).closed ≠ 0
  shows : ∀ d h, s.handle d = some h → Shows fs inodes (fs.descriptors d) h

variable {fs fs' : Filesystem} {inodes index : Set ℕ} {n m i pos k : ℕ} {fd : FileDescriptor}
  {d : Slot} {h : Handle ℕ} {s : Store ℕ Slot (BitVec 8)} {buffer : List (BitVec 8)}

@[simp] theorem length_fileContent (fs : Filesystem) (n : ℕ) :
    (fileContent fs n).length = fileSize fs n :=
  length_fileBytes _ _ _ _

theorem getElem?_fileContent (fs : Filesystem) (n i : ℕ) :
    (fileContent fs n)[i]? = if i < fileSize fs n then some (fileByte fs n i) else none := by
  unfold fileContent fileBytes
  rw [List.getElem?_map]
  split_ifs with hi
  · rw [List.getElem?_range hi, Option.map_some, Nat.zero_add]
  · rw [List.getElem?_eq_none (by rw [List.length_range]; omega), Option.map_none]

/-- A part of a file is its bytes from the position on. -/
theorem fileBytes_eq (hle : pos + k ≤ fileSize fs n) :
    fileBytes fs n pos k = ((fileContent fs n).drop pos).take k := by
  refine List.ext_getElem? fun i ↦ ?_
  rw [List.getElem?_take, List.getElem?_drop, getElem?_fileContent]
  unfold fileBytes
  rw [List.getElem?_map]
  split_ifs with hi hin
  · rw [List.getElem?_range hi, Option.map_some]
  · omega
  · rw [List.getElem?_eq_none (by rw [List.length_range]; omega), Option.map_none]

namespace Shows

/-- A handle is shown in an image with the same inode block. -/
theorem congr (hshow : Shows fs inodes fd h) (hsize : fs'.blockSize = fs.blockSize)
    (himage : ∀ x, h.file * fs.blockSize ≤ x → x < h.file * fs.blockSize + 8 →
    fs'.image x = fs.image x) : Shows fs' inodes fd h := by
  obtain ⟨hmem, hclosed, hindex, hblocks, hsize', hpos, hkind, hnlink⟩ := hshow
  refine ⟨hmem, hclosed, hindex, hsize ▸ hblocks, hsize', hpos, ?_, ?_⟩
  · rw [hkind, hsize, load_congr fun x hx hx' ↦ himage x hx (by omega)]
  · rw [hnlink, hsize, load_congr fun x hx hx' ↦ himage x (by omega) (by omega)]

end Shows

namespace Represents

theorem size_le (h' : Represents inodes index fs s) (hd : s.handle d = some h) :
    h.size ≤ fileSize fs h.file := by
  have hle := s.size_le d h hd
  rwa [h'.content _ (h'.shows d h hd).mem, length_fileContent] at hle

theorem isOpen (h' : Represents inodes index fs s) (hd : s.handle d = some h) :
    IsOpen fs d h.file := by
  have hshow := h'.shows d h hd
  have hsize := hshow.size_eq
  have hpos := hshow.pos_eq
  have hle := h.pos_le
  refine ⟨d.isLt, hshow.closed_eq, hshow.index_eq, hshow.blocks_eq, ?_, ?_⟩
  · rw [hsize]
    exact h'.size_le hd
  · omega

/-- An open descriptor is a handle. -/
theorem exists_handle (h' : Represents inodes index fs s) (hopen : (fs.descriptors d).closed = 0) :
    ∃ h, s.handle d = some h := by
  cases hd : s.handle d with
  | none => exact absurd hopen (h'.closed d hd)
  | some h => exact ⟨h, rfl⟩

/-- With all descriptors closed an image stands for its files. -/
theorem of_closed (hwf : WellFormed fs inodes index)
    (hroom : ∀ n ∈ inodes, blocksFor fs (fileSize fs n) * fs.blockSize ≤ fs.maxFileSize)
    (hclosed : ∀ d : Slot, (fs.descriptors d).closed ≠ 0) :
    Represents inodes index fs (initialStore fs) :=
  ⟨hwf, hroom, fun _ _ ↦ rfl, fun d _ ↦ hclosed d, fun _ _ hd ↦ absurd hd (by simp [initialStore])⟩

/-- Changing a descriptor, and with it the handle. -/
theorem setHandle (h' : Represents inodes index fs s) (d : Slot) (cursor : ℕ) (fd : FileDescriptor)
    {g : Option (Handle ℕ)} (hsize : ∀ h ∈ g, h.size ≤ (s.content h.file).length)
    (hclosed : g = none → fd.closed ≠ 0) (hshow : ∀ h, g = some h → Shows fs inodes fd h) :
    Represents inodes index
      { fs with seekCursor := cursor, descriptors := Function.update fs.descriptors d fd }
      (s.setHandle d g hsize) := by
  refine ⟨h'.wellFormed.congr rfl rfl fun m hm ↦ ⟨rfl, fun x hx ↦ rfl⟩, h'.room,
    h'.content, fun e he ↦ ?_, fun e h he ↦ ?_⟩
  · change Function.update s.handle d g e = none at he
    change (Function.update fs.descriptors d fd e).closed ≠ 0
    rcases eq_or_ne e d with rfl | hne
    · rw [Function.update_self] at he ⊢
      exact hclosed he
    · rw [Function.update_of_ne hne] at he
      rw [Function.update_of_ne (Fin.val_ne_of_ne hne)]
      exact h'.closed e he
  · change Function.update s.handle d g e = some h at he
    change Shows _ inodes (Function.update fs.descriptors d fd e) h
    rcases eq_or_ne e d with rfl | hne
    · rw [Function.update_self] at he ⊢
      exact (hshow h he).congr rfl fun _ _ _ ↦ rfl
    · rw [Function.update_of_ne hne] at he
      rw [Function.update_of_ne (Fin.val_ne_of_ne hne)]
      exact (h'.shows e h he).congr rfl fun _ _ _ ↦ rfl

end Represents

/-! ### Calls that leave the files alone -/

/-- What an answer says about what happened to the store. -/
inductive Answers (fs : Filesystem) : FileCall → Answer → Event ℕ Slot (BitVec 8) → Prop
  | opened (n : ℕ) (d : Slot) : Answers fs (.iopen n) ⟨[], (d : ℕ)⟩ (.opened d n)
  | refused (n : ℕ) : Answers fs (.iopen n) ⟨[], -1⟩ (.refused n)
  | closed (d : Slot) : Answers fs (.fclose d) ⟨[], 0⟩ (.closed d)
  | sought (d : Slot) (offset : ℤ) (whence : Seek) {pos : ℕ}
      (hpos : (pos : ℤ) = seekTarget (fs.descriptors d) offset whence) :
      Answers fs (.fseek d offset whence) ⟨[], 0⟩ (.sought d pos)
  | got (d : Slot) {len : ℤ} (hlen : 0 ≤ len) (bytes : List (BitVec 8)) :
      Answers fs (.read d len) ⟨bytes, bytes.length⟩ (.got d len.toNat bytes)
  | put (d : Slot) (buffer : List (BitVec 8)) : Answers fs (.write d buffer) ⟨[], buffer.length⟩
      (.put d buffer)

/-- The place is neither in a size of an inode nor in a block of a file. -/
def Outside (fs : Filesystem) (inodes : Set ℕ) (x : ℕ) : Prop :=
  ∀ n ∈ inodes, (x < n * fs.blockSize + 8 ∨ n * fs.blockSize + 12 ≤ x) ∧
    ∀ k < blocksFor fs (fileSize fs n), x / fs.blockSize ≠ dataBlock fs n k

/-- The files are in the same blocks, and what is outside of them is the same. -/
structure Framed (inodes : Set ℕ) (fs fs' : Filesystem) : Prop where
  blockSize : fs'.blockSize = fs.blockSize
  blockCount : fs'.blockCount = fs.blockCount
  freeBlockList : fs'.freeBlockList = fs.freeBlockList
  blocks : ∀ n ∈ inodes, blocksFor fs (fileSize fs' n) = blocksFor fs (fileSize fs n)
  tables : ∀ n ∈ inodes, ∀ k < blocksFor fs (fileSize fs n), dataBlock fs' n k = dataBlock fs n k
  image : ∀ x, Outside fs inodes x → fs'.image x = fs.image x

theorem Framed.of_image (hsize : fs'.blockSize = fs.blockSize)
    (hcount : fs'.blockCount = fs.blockCount) (hlist : fs'.freeBlockList = fs.freeBlockList)
    (himage : fs'.image = fs.image) : Framed inodes fs fs' := by
  refine ⟨hsize, hcount, hlist, fun n _ ↦ ?_, fun n _ k _ ↦ ?_, fun x _ ↦ by rw [himage]⟩
  · rw [fileSize, himage, hsize, fileSize]
  · rw [dataBlock, himage, hsize, dataBlock]

/-- An image whose files are in the same blocks is well formed as well. -/
theorem Framed.wellFormed (hframe : Framed inodes fs fs') (h : WellFormed fs inodes index) :
    WellFormed fs' inodes index := by
  have hfile : ∀ n ∈ inodes, blocksFor fs' (fileSize fs' n) = blocksFor fs (fileSize fs n) := by
    intro n hn
    rw [blocksFor_congr hframe.blockSize, hframe.blocks n hn]
  have hdata := hframe.tables
  refine ⟨h.layout.congr hframe.blockSize hframe.blockCount, fun n hn ↦ ?_, fun n hn ↦ ?_,
    fun n hn k hk ↦ ?_, fun n hn k hk ↦ ?_, fun n hn k hk ↦ ?_,
    fun n hn n' hn' k hk k' hk' heq ↦ ?_⟩
  · rw [hframe.blockCount]
    exact h.inode_lt n hn
  · rw [hfile n hn, hframe.blockSize]
    exact h.fits n hn
  · rw [hfile n hn] at hk
    rw [hdata n hn k hk, hframe.blockCount]
    exact h.data_lt n hn k hk
  · rw [hfile n hn] at hk
    rw [hdata n hn k hk]
    exact h.data_not_inode n hn k hk
  · rw [hfile n hn] at hk
    rw [hdata n hn k hk]
    exact h.data_not_index n hn k hk
  · rw [hfile n hn] at hk
    rw [hfile n' hn'] at hk'
    rw [hdata n hn k hk, hdata n' hn' k' hk'] at heq
    exact h.data_inj n hn n' hn' k hk k' hk' heq

theorem Framed.outside (h : Framed inodes fs fs') {x : ℕ} (hx : Outside fs inodes x) :
    Outside fs' inodes x := by
  intro n hn
  rw [blocksFor_congr h.blockSize, h.blocks n hn, h.blockSize]
  refine ⟨(hx n hn).1, fun k hk ↦ ?_⟩
  rw [h.tables n hn k hk]
  exact (hx n hn).2 k hk

theorem Framed.trans {fs₁ : Filesystem} (h : Framed inodes fs fs₁) (h' : Framed inodes fs₁ fs') :
    Framed inodes fs fs' := by
  have hblocks (n : ℕ) (hn : n ∈ inodes) :
      blocksFor fs₁ (fileSize fs₁ n) = blocksFor fs (fileSize fs n) := by
    rw [blocksFor_congr h.blockSize, h.blocks n hn]
  refine ⟨h'.blockSize.trans h.blockSize, h'.blockCount.trans h.blockCount,
    h'.freeBlockList.trans h.freeBlockList, fun n hn ↦ ?_, fun n hn k hk ↦ ?_, fun x hx ↦ ?_⟩
  · rw [← blocksFor_congr h.blockSize, h'.blocks n hn, hblocks n hn]
  · rw [h'.tables n hn k (by rwa [hblocks n hn]), h.tables n hn k hk]
  · rw [h'.image x (h.outside hx), h.image x hx]

/-- The call returns, does to the store what its answer says, and leaves what is outside of the
files alone. -/
def Does (inodes index : Set ℕ) (fs : Filesystem) (s : Store ℕ Slot (BitVec 8)) (call : FileCall) :
    Prop :=
  ∃ fs' answer e s', call.run fs = .ok (fs', answer) ∧ Answers fs call answer e ∧ Step s e s' ∧
    Represents inodes index fs' s' ∧ Framed inodes fs fs'

namespace Represents

/-- Opening a file through a descriptor. -/
theorem openFile (h' : Represents inodes index fs s) (hn : n ∈ inodes) (d : Slot) :
    Represents inodes index (atHead fs d (n * fs.blockSize) n 0) (s.openFile d n) := by
  have hlength : (s.content n).length = fileSize fs n := by rw [h'.content n hn, length_fileContent]
  refine h'.setHandle d (n * fs.blockSize) ⟨inodeAt fs n, 0, 0⟩ _ (fun hnone ↦ by simp at hnone)
    fun h hh ↦ ?_
  obtain rfl := Option.some.inj hh
  exact ⟨hn, rfl, rfl, rfl, hlength.symm, rfl, rfl, rfl⟩

theorem iopen (h' : Represents inodes index fs s) (hn : n ∈ inodes) :
    Does inodes index fs s (.iopen n) := by
  have hcount := h'.wellFormed.inode_lt n hn
  have hbound := (h'.wellFormed.layout.inMemory.bounds hcount).1
  by_cases hslot : ∃ d < maxFileDescriptors, (fs.descriptors d).closed ≠ 0
  · obtain ⟨d, hd, hnext, hclosed⟩ := slot_of_closed hslot
    have hsize : fileSize fs n ≤ fs.maxFileSize :=
      (blocksFor_mul h'.wellFormed.layout.blockSize_pos).trans (h'.room n hn)
    have hfree : s.handle ⟨d, hd⟩ = none := by
      cases hhandle : s.handle ⟨d, hd⟩ with
      | none => rfl
      | some h => exact absurd (h'.shows _ h hhandle).closed_eq hclosed
    refine ⟨atHead fs d (n * fs.blockSize) n 0, _, _, _, ?_, .opened n ⟨d, hd⟩, .opened n hfree,
      h'.openFile hn ⟨d, hd⟩, .of_image rfl rfl rfl rfl⟩
    rw [FileCall.run, iopen_eq h'.wellFormed.layout.inMemory hnext hd hcount, if_pos hsize, ok_bind]
  · have hfull : ∀ d < maxFileDescriptors, (fs.descriptors d).closed = 0 := fun d hd ↦ by
      by_contra hclosed
      exact hslot ⟨d, hd, hclosed⟩
    refine ⟨fs, _, _, s, ?_, .refused n, .refused n fun d hnone ↦ ?_, h',
      .of_image rfl rfl rfl rfl⟩
    · rw [FileCall.run, Files.iopen, slot_of_full hfull, if_pos (Or.inl rfl), ok_bind]
    · exact h'.closed d hnone (hfull d d.isLt)

theorem fclose (h' : Represents inodes index fs s) (hd : s.handle d = some h) :
    Does inodes index fs s (.fclose d) := by
  refine ⟨{ fs with descriptors := Function.update fs.descriptors d { fs.descriptors d with
    closed := 1 } }, _, _, _, ?_, .closed d, .closed hd, ?_, .of_image rfl rfl rfl rfl⟩
  · rw [FileCall.run, Files.fclose, getDescriptor_natCast d.isLt, ok_bind,
      setDescriptor_natCast d.isLt, ok_bind]
  · exact h'.setHandle d fs.seekCursor { fs.descriptors d with
      closed := 1 } _ (fun _ ↦ Nat.one_ne_zero) fun h hh ↦ by simp at hh

/-- Going to another position. -/
theorem move (h' : Represents inodes index fs s) (hd : s.handle d = some h) (cursor : ℕ)
    (hpos : pos ≤ h.size) : Represents inodes index
      { fs with
        seekCursor := cursor
        descriptors := Function.update fs.descriptors d { fs.descriptors d with pos := pos } }
      (s.move d h hd pos hpos) := by
  refine h'.setHandle d cursor _ _ (fun hnone ↦ by simp at hnone) fun g hg ↦ ?_
  obtain rfl := Option.some.inj hg
  have hshow := h'.shows d h hd
  exact ⟨hshow.mem, hshow.closed_eq, hshow.index_eq, hshow.blocks_eq, hshow.size_eq,
    rfl, hshow.kind_eq, hshow.nlink_eq⟩

end Represents

/-- A seek inside the file. -/
theorem fseek_eq {offset : ℤ} {whence : Seek} (hsize : (fs.descriptors d).inode.size < 2 ^ 31)
    (htarget : (k : ℤ) = seekTarget (fs.descriptors d) offset whence)
    (hk : k ≤ (fs.descriptors d).inode.size) : fseek fs d offset whence = .ok { fs with
      descriptors := Function.update fs.descriptors d { fs.descriptors d with pos := k } } := by
  rw [fseek, getDescriptor_natCast d.isLt, ok_bind]
  cases whence with
  | seekSet =>
    change (k : ℤ) = offset at htarget
    have heq : toUint32 offset = k := by rw [← htarget, toUint32_natCast (by omega)]
    dsimp only
    rw [ok_bind, heq, assert_pos hk, ok_bind, setDescriptor_natCast d.isLt]
  | seekCur =>
    change (k : ℤ) = (fs.descriptors d).pos + offset at htarget
    have heq : add32 (fs.descriptors d).pos (toUint32 offset) = k := by
      unfold add32 toUint32
      omega
    dsimp only
    rw [ok_bind, heq, assert_pos hk, ok_bind, setDescriptor_natCast d.isLt]
  | seekEnd =>
    change (k : ℤ) = (fs.descriptors d).inode.size + offset at htarget
    have heq : add32 (fs.descriptors d).inode.size (toUint32 offset) = k := by
      unfold add32 toUint32
      omega
    have hneg : offset ≤ 0 := by omega
    dsimp only
    rw [assert_pos hneg, ok_bind, ok_bind, heq, assert_pos hk, ok_bind,
      setDescriptor_natCast d.isLt]

namespace Represents

theorem fseek (h' : Represents inodes index fs s) (hd : s.handle d = some h)
    {offset : ℤ} {whence : Seek} (hlow : 0 ≤ seekTarget (fs.descriptors d) offset whence)
    (hhigh : seekTarget (fs.descriptors d) offset whence ≤ (fs.descriptors d).inode.size) :
    Does inodes index fs s (.fseek d offset whence) := by
  obtain ⟨k, hk⟩ := Int.eq_ofNat_of_zero_le hlow
  have hopen := h'.isOpen hd
  have hfile := h'.wellFormed.fileSize_lt (h'.shows d h hd).mem
  have hsize := hopen.size_le
  have hle : k ≤ (fs.descriptors d).inode.size := by omega
  have hle' : k ≤ h.size := (h'.shows d h hd).size_eq ▸ hle
  refine ⟨{ fs with descriptors := Function.update fs.descriptors d { fs.descriptors d with
    pos := k } }, _, _, _, ?_,
    .sought d offset whence hk.symm, .sought hd hle', h'.move hd fs.seekCursor hle',
    .of_image rfl rfl rfl rfl⟩
  rw [FileCall.run, fseek_eq (by omega) hk.symm hle, ok_bind]

theorem read (h' : Represents inodes index fs s) (hd : s.handle d = some h) {len : ℤ}
    (hlen : 0 ≤ len) (hright : (fs.descriptors d).pos % fs.blockSize + readCount
      (fs.descriptors d) len ≤ fs.blockSize ∨
      fs.blockSize ∣ (fs.descriptors d).pos + readCount (fs.descriptors d) len) :
    Does inodes index fs s (.read d len) := by
  have hshow := h'.shows d h hd
  have hopen := h'.isOpen hd
  have hfile := h'.wellFormed.fileSize_lt hshow.mem
  have hsize := hopen.size_le
  have hpos := hshow.pos_eq
  have hcount : readCount (fs.descriptors d) len = h.ahead len.toNat := by
    rw [readCount, hshow.size_eq, hpos, Handle.ahead]
  have hlt : readCount (fs.descriptors d) len < 2 ^ 32 := by
    unfold readCount
    omega
  have hend := (readEnd_eq_iff h'.wellFormed.layout.blockSize_pos hlt).mpr hright
  obtain ⟨cursor, hread⟩ := readFile_eq (r := readCount (fs.descriptors d) len) h'.wellFormed
    hshow.mem hopen hlen rfl hend.symm
  rw [Nat.add_sub_cancel_left, hcount, hpos] at hread
  have hle := h.pos_add_ahead_le len.toNat
  have hbytes :
      fileBytes fs h.file h.pos (h.ahead len.toNat) = s.part h.file h.pos (h.ahead len.toNat) := by
    have hfit := h'.size_le hd
    rw [fileBytes_eq (by omega), Store.part, h'.content _ hshow.mem]
  have hstep : Step s (.got d len.toNat (s.part h.file h.pos (h.ahead len.toNat))) _ :=
    .got len.toNat hd
  have hlength : (s.part h.file h.pos (h.ahead len.toNat)).length = h.ahead len.toNat := by
    rw [← hbytes, length_fileBytes]
  refine ⟨_, ⟨s.part h.file h.pos (h.ahead len.toNat), _⟩, _, _, ?_, .got d hlen _, hstep,
    h'.move hd cursor hle, .of_image rfl rfl rfl rfl⟩
  rw [FileCall.run, hread, ok_bind, hlength, hbytes]

end Represents

end SysresOs.Files
