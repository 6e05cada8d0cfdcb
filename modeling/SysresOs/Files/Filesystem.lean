import SysresOs.Lib.ByteMemory
import SysresOs.Memory.Alloc

/-!
# The filesystem

`libk/filesystem.c`. The image of the filesystem is a range of bytes that is cut into blocks. An
inode is a block: three words and the table of the blocks of its file. The free blocks are in a list
of index blocks, each of which holds the number of the next one and numbers of free blocks. All
words of the image are stored with the high byte first, whereas the processor loads the low byte
first. `uint32_t` is a natural number that is computed modulo `2 ^ 32`, and `int` an integer.
-/

set_option autoImplicit false
set_option relaxedAutoImplicit false

namespace SysresOs.Files

open SysresOs.ByteMemory SysresOs.Outcome
open SysresOs.Memory (toInt32)

/-! ### Integers -/

/-- Addition of `uint32_t`. -/
def add32 (a b : ℕ) : ℕ := (a + b) % 2 ^ 32

/-- Subtraction of `uint32_t`. -/
def sub32 (a b : ℕ) : ℕ := (a + (2 ^ 32 - b % 2 ^ 32)) % 2 ^ 32

/-- Multiplication of `uint32_t`. -/
def mul32 (a b : ℕ) : ℕ := a * b % 2 ^ 32

/-- The conversion of an `int` to `uint32_t`. -/
def toUint32 (n : ℤ) : ℕ := (n % 2 ^ 32).toNat

/-- `switch_endianness`, which is also `read_big_endian_int`. -/
def switchEndianness (n : ℕ) : ℕ :=
  ((n >>> 24) &&& 0x000000ff) ||| ((n >>> 8) &&& 0x0000ff00) ||| ((n <<< 8) &&& 0x00ff0000) |||
    ((n <<< 24) &&& 0xff000000)

/-- `MAX_FILE_DESCRIPTORS`. -/
def maxFileDescriptors : ℕ := 64

/-- `DIRECTORY_ENTRY_SIZE`. -/
def directoryEntrySize : ℕ := 32

/-- `FILENAME_MAX_SIZE`. -/
def filenameMaxSize : ℕ := 28

/-! ### State -/

/-- `struct inode_t`, with the table of blocks as an offset into the image. -/
structure Inode where
  index : ℤ
  kind : ℕ
  nlink : ℕ
  size : ℕ
  blocks : ℕ
  deriving DecidableEq

/-- `struct file_descriptor`. -/
structure FileDescriptor where
  inode : Inode
  pos : ℕ
  closed : ℕ
  deriving DecidableEq

/-- The assertions of the filesystem. -/
inductive Assertion
  /-- `assert((unsigned int) n < filesystem.block_count)` in `seek_block`. -/
  | seekBlock
  /-- `assert(inode.size <= filesystem.max_file_size)` in `read_inode`. -/
  | inodeSize
  /-- `assert (offset <= 0)` in `fseek`. -/
  | seekOffset
  /-- `assert(pos <= fd->inode.size)` in `fseek`. -/
  | seekPos
  /-- `assert(0)` in `fseek`, for another value than those of `enum seek_t`. -/
  | seekWhence
  /-- `assert(len >= 0)` in `read` and in `write`. -/
  | lenNonneg
  /-- `assert(len <= fd->inode.size - fd->pos)` in `write`. -/
  | writeLen
  deriving DecidableEq

/-- Why a call does not return, or returns after an access to what is no descriptor. -/
inductive Stop
  | assertion (which : Assertion)
  /-- An access to `file_descriptor_table[index]` for an index that the table does not have. -/
  | outOfBounds (index : ℤ)
  /-- A `memcpy` of a negative length, which is taken as a `size_t`. -/
  | copyTooLong
  /-- A store behind the end of a buffer that `kmalloc` returned. -/
  | overrun
  | diverges
  deriving DecidableEq

/-- The image, from `filesystem.start` on, the fields of `filesystem`, and the table of
descriptors. -/
structure Filesystem where
  image : Memory
  blockSize : ℕ
  blockCount : ℕ
  freeBlockList : ℕ
  rootInode : ℕ
  maxFileSize : ℕ
  seekCursor : ℕ
  descriptors : ℕ → FileDescriptor

/-- `init_filesystem` for an image of `size` bytes. -/
def initFilesystem (image : Memory) (size : ℕ) (descriptors : ℕ → FileDescriptor) : Filesystem :=
  let blockSize := switchEndianness (load image (size - 4) 4)
  { image := image
    blockSize := blockSize
    blockCount := sub32 size 4 / blockSize
    freeBlockList := switchEndianness (load image 8 4)
    rootInode := switchEndianness (load image 16 4)
    maxFileSize := mul32 blockSize (sub32 blockSize 12 / 4)
    seekCursor := 0
    descriptors := fun i ↦ { descriptors i with closed := 1 } }

/-! ### Blocks -/

/-- `seek_block`. -/
def seekBlock (fs : Filesystem) (n : ℤ) : Except Stop Filesystem := do
  assert (.assertion .seekBlock) (toUint32 n < fs.blockCount)
  .ok { fs with seekCursor := mul32 (toUint32 n) fs.blockSize }

/-- `read_block`. The content is in a new buffer, with a zero behind the last byte. -/
def readBlock (fs : Filesystem) (n : ℤ) : Except Stop (Filesystem × Memory) := do
  let fs ← seekBlock fs n
  .ok (fs, fun i ↦ if i < fs.blockSize then fs.image (fs.seekCursor + i) else 0)

/-- `write_block`. -/
def writeBlock (fs : Filesystem) (n : ℤ) (content : Memory) : Except Stop Filesystem := do
  let fs ← seekBlock fs n
  .ok { fs with image := fun x ↦
          if fs.seekCursor ≤ x ∧ x < fs.seekCursor + fs.blockSize then content (x - fs.seekCursor)
          else fs.image x }

/-- A word of the content of a block. -/
def word (content : Memory) (i : ℕ) : ℕ := load content (4 * i) 4

/-- The loop of `alloc_block` that looks for the last entry of an index block of `count` words. -/
def lastEntry (blockIndex : Memory) (count : ℕ) : ℕ → ℕ → ℕ
  | 0, offset => offset
  | bound + 1, offset =>
    if offset + 1 < count ∧
        switchEndianness (if word blockIndex (offset + 1) ≠ 0 then 1 else 0) ≠ 0 then
      lastEntry blockIndex count bound (offset + 1)
    else offset

/-- `alloc_block`. -/
def allocBlock (fs : Filesystem) : Except Stop (Filesystem × ℤ) := do
  let (fs, blockIndex) ← readBlock fs (toInt32 fs.freeBlockList)
  if switchEndianness (word blockIndex 1) = 0 then
    let lastFreeBlockList := fs.freeBlockList
    .ok ({ fs with freeBlockList := switchEndianness (word blockIndex 0) },
    toInt32 lastFreeBlockList)
  else do
    let offset := lastEntry blockIndex (fs.blockSize / 4) (fs.blockSize / 4) 1
    let freeBlock := switchEndianness (word blockIndex offset)
    let blockIndex := store blockIndex (4 * offset) 4 (switchEndianness 0)
    let fs ← writeBlock fs (toInt32 fs.freeBlockList) blockIndex
    .ok (fs, toInt32 freeBlock)

/-! ### Inodes -/

/-- `read_inode`. -/
def readInode (fs : Filesystem) (n : ℤ) : Except Stop (Filesystem × Inode) := do
  let fs ← seekBlock fs n
  let inode : Inode :=
    { index := n
      kind := switchEndianness (load fs.image fs.seekCursor 4)
      nlink := switchEndianness (load fs.image (fs.seekCursor + 4) 4)
      size := switchEndianness (load fs.image (fs.seekCursor + 8) 4)
      blocks := fs.seekCursor + 12 }
  assert (.assertion .inodeSize) (inode.size ≤ fs.maxFileSize)
  .ok (fs, inode)

/-- `write_inode`. -/
def writeInode (fs : Filesystem) (inode : Inode) : Except Stop Filesystem := do
  let fs ← seekBlock fs inode.index
  let image := store fs.image fs.seekCursor 4 (switchEndianness inode.kind)
  let image := store image (fs.seekCursor + 4) 4 (switchEndianness inode.nlink)
  .ok { fs with image := store image (fs.seekCursor + 8) 4 (switchEndianness inode.size) }

/-- The word of the table of blocks of an inode for the block that a position is in. -/
def blockNumber (fs : Filesystem) (inode : Inode) (pos : ℕ) : ℕ :=
  switchEndianness (load fs.image (inode.blocks + 4 * (pos / fs.blockSize)) 4)

/-! ### Descriptors -/

/-- `get_next_available_file_descriptor_slot`. -/
def getNextAvailableFileDescriptorSlot (fs : Filesystem) : ℤ :=
  match (List.range maxFileDescriptors).find? fun i ↦ (fs.descriptors i).closed ≠ 0 with
  | some i => i
  | none => -1

/-- `file_descriptor_table[index]`. -/
def getDescriptor (fs : Filesystem) (index : ℤ) : Except Stop FileDescriptor :=
  if 0 ≤ index ∧ index < maxFileDescriptors then .ok (fs.descriptors index.toNat)
  else .error (.outOfBounds index)

/-- Assignment of a descriptor. -/
def setDescriptor (fs : Filesystem) (index : ℤ) (fd : FileDescriptor) : Except Stop Filesystem :=
  if 0 ≤ index ∧ index < maxFileDescriptors then
    .ok { fs with descriptors := Function.update fs.descriptors index.toNat fd }
  else .error (.outOfBounds index)

/-- `is_at_end_of_file`. -/
def isAtEndOfFile (fs : Filesystem) (fileDesc : ℤ) : Except Stop Bool := do
  let fd ← getDescriptor fs fileDesc
  .ok (fd.inode.size ≤ fd.pos)

/-- `fclose`. -/
def fclose (fs : Filesystem) (fileDesc : ℤ) : Except Stop Filesystem := do
  let fd ← getDescriptor fs fileDesc
  setDescriptor fs fileDesc { fd with closed := 1 }

/-- `iopen`. -/
def iopen (fs : Filesystem) (inodeNumber : ℤ) : Except Stop (Filesystem × ℤ) :=
  let slot := getNextAvailableFileDescriptorSlot fs
  if slot = -1 ∨ inodeNumber = -1 then .ok (fs, -1)
  else do
    let (fs, inode) ← readInode fs inodeNumber
    let fs ← setDescriptor fs slot { inode := inode, pos := 0, closed := 0 }
    .ok (fs, slot)

/-- `enum seek_t`. -/
inductive Seek
  | seekSet
  | seekCur
  | seekEnd
  deriving DecidableEq

/-- `fseek`. -/
def fseek (fs : Filesystem) (fileDescriptor offset : ℤ) (whence : Seek) :
    Except Stop Filesystem := do
  let fd ← getDescriptor fs fileDescriptor
  let pos ← match whence with
    | .seekSet => .ok (toUint32 offset)
    | .seekCur => .ok (add32 fd.pos (toUint32 offset))
    | .seekEnd => do
      assert (.assertion .seekOffset) (offset ≤ 0)
      .ok (add32 fd.inode.size (toUint32 offset))
  assert (.assertion .seekPos) (pos ≤ fd.inode.size)
  setDescriptor fs fileDescriptor { fd with pos := pos }

/-! ### Growing a file -/

/-- The loop of `extend_file`. Every round adds to the size, so that it does not end if it goes on
for more rounds than there are sizes. -/
def extendLoop (target : ℕ) : ℕ → Filesystem → Inode → ℕ → Except Stop (Filesystem × Inode)
  | 0, _, _, _ => .error .diverges
  | bound + 1, fs, inode, indexOfLastBlock =>
    if inode.size < target then do
      let size := add32 inode.size
        (toUint32 (min (toInt32 (sub32 target inode.size)) (toInt32 fs.blockSize)))
      let inode := { inode with size := size }
      let (fs, block) ← allocBlock fs
      let fs := { fs with
        image := store fs.image (inode.blocks + 4 * (indexOfLastBlock + 1)) 4 (toUint32 block) }
      extendLoop target bound fs inode (indexOfLastBlock + 1)
    else .ok (fs, inode)

/-- `extend_file`. -/
def extendFile (fs : Filesystem) (fileDescriptor len : ℤ) : Except Stop Filesystem := do
  let fd ← getDescriptor fs fileDescriptor
  let target := add32 fd.pos (toUint32 len)
  if target ≤ fd.inode.size then .ok fs
  else do
    let size := add32 fd.inode.size
      (toUint32 (min len (toInt32 (sub32 fs.blockSize (fd.inode.size % fs.blockSize)))))
    let inode := { fd.inode with size := size }
    let (fs, inode) ← extendLoop target (2 ^ 32) fs inode (size / fs.blockSize)
    let fs ← setDescriptor fs fileDescriptor { fd with inode := inode }
    writeInode fs inode

/-! ### Reading and writing -/

/-- The length of a `memcpy`. -/
def copyLength (n : ℤ) : Except Stop ℕ := if n < 0 then .error .copyTooLong else .ok n.toNat

/-- The loop of `read`: it stores the bytes of the last component from the beginning of the buffer
on. -/
def readLoop (inode : Inode) (target : ℕ) (len : ℤ) :
    ℕ → Filesystem → ℕ → List (BitVec 8) → Except Stop (Filesystem × ℕ × List (BitVec 8))
  | 0, _, _, _ => .error .diverges
  | bound + 1, fs, pos, buffer =>
    if pos < target then do
      let (fs, block) ← readBlock fs (toInt32 (blockNumber fs inode pos))
      let copyLen := min len (toInt32 (sub32 fs.blockSize (pos % fs.blockSize)))
      let length ← copyLength copyLen
      let bytes := read block (pos % fs.blockSize) length
      readLoop inode target len bound fs (add32 pos (toUint32 copyLen)) (buffer ++ bytes)
    else .ok (fs, pos, buffer)

/-- `read`: the bytes that it stores from the beginning of the buffer on, and what it returns. -/
def readFile (fs : Filesystem) (fileDescriptor len : ℤ) :
    Except Stop (Filesystem × List (BitVec 8) × ℤ) := do
  assert (.assertion .lenNonneg) (0 ≤ len)
  let fd ← getDescriptor fs fileDescriptor
  let len := min len (toInt32 (sub32 fd.inode.size fd.pos))
  let (fs, pos, buffer) ← readLoop fd.inode (add32 fd.pos (toUint32 len)) len (2 ^ 32) fs fd.pos []
  let fs ← setDescriptor fs fileDescriptor { fd with pos := pos }
  .ok (fs, buffer, len)

/-- The loop of `write`. -/
def writeLoop (inode : Inode) (target : ℕ) :
    ℕ → Filesystem → ℕ → List (BitVec 8) → Except Stop (Filesystem × ℕ)
  | 0, _, _, _ => .error .diverges
  | bound + 1, fs, pos, buffer =>
    if pos < target then do
      let number := blockNumber fs inode pos
      let (fs, block) ← readBlock fs (toInt32 number)
      let copyLen :=
        min (toInt32 (sub32 target pos)) (toInt32 (sub32 fs.blockSize (pos % fs.blockSize)))
      let length ← copyLength copyLen
      let block := write block (pos % fs.blockSize) (buffer.take length)
      let fs ← writeBlock fs (toInt32 number) block
      writeLoop inode target bound fs (add32 pos (toUint32 copyLen)) (buffer.drop length)
    else .ok (fs, pos)

/-- `write`, of a whole buffer. -/
def writeFile (fs : Filesystem) (fileDescriptor : ℤ) (buffer : List (BitVec 8)) :
    Except Stop (Filesystem × ℤ) := do
  let len : ℤ := buffer.length
  assert (.assertion .lenNonneg) (0 ≤ len)
  let fs ← extendFile fs fileDescriptor len
  let fd ← getDescriptor fs fileDescriptor
  assert (.assertion .writeLen) (toUint32 len ≤ sub32 fd.inode.size fd.pos)
  let (fs, pos) ← writeLoop fd.inode (add32 fd.pos (toUint32 len)) (2 ^ 32) fs fd.pos buffer
  let fs ← setDescriptor fs fileDescriptor { fd with pos := pos }
  .ok (fs, len)

/-! ### Paths -/

/-- `struct dirent_t`, with the name as the buffer it is in. -/
structure Dirent where
  inode : ℕ
  name : Memory

/-- The entry in a buffer. -/
def direntOf (dir : Memory) : Dirent :=
  { inode := switchEndianness (load dir filenameMaxSize 4), name := write dir filenameMaxSize [0] }

/-- `read_dirent`, into a new buffer whose bytes are those of `fresh` at first. -/
def readDirent (fs : Filesystem) (fresh : Memory) (fileDescriptor : ℤ) :
    Except Stop (Filesystem × Dirent) := do
  let (fs, bytes, _) ← readFile fs fileDescriptor directoryEntrySize
  if directoryEntrySize < bytes.length then .error .overrun
  else .ok (fs, direntOf (write fresh 0 bytes))

/-- A character of a path, which ends with a zero. -/
def charAt (path : List (BitVec 8)) (i : ℕ) : BitVec 8 := (path[i]?).getD 0

/-- A path ends at a slash or at its end. -/
def endsAt (path : List (BitVec 8)) (i : ℕ) : Bool := charAt path i = 0x2f ∨ charAt path i = 0

/-- The loop of `filename_match`. -/
def filenameMatchLoop (path : List (BitVec 8)) (dirname : Memory) : ℕ → ℕ → ℤ
  | 0, cur => if endsAt path cur then cur else -1
  | rest + 1, cur =>
    if endsAt path cur ∧ dirname cur = 0 then cur
    else if charAt path cur ≠ dirname cur then -1
    else filenameMatchLoop path dirname rest (cur + 1)

/-- `filename_match`. -/
def filenameMatch (path : List (BitVec 8)) (dirname : Memory) : ℤ :=
  filenameMatchLoop path dirname filenameMaxSize 0

/-- The loop of `inode_of_path`, for at most so many rounds. Each round has the entry in a new
buffer, with the bytes of `fresh` for the rounds to come at first. -/
def inodeOfPathLoop (fdesc : ℤ) :
    ℕ → (ℕ → Memory) → Filesystem → List (BitVec 8) → Except Stop (Filesystem × ℤ)
  | 0, _, _, _ => .error .diverges
  | bound + 1, fresh, fs, path => do
    if ← isAtEndOfFile fs fdesc then
      let fs ← fclose fs fdesc
      .ok (fs, -1)
    else do
      let (fs, dirent) ← readDirent fs (fresh 0) fdesc
      let found := filenameMatch path dirent.name
      if 0 < found then
        let path := path.drop found.toNat
        if charAt path 0 = 0 then .ok (fs, toInt32 dirent.inode)
        else do
          let path := path.drop 1
          let (fs, inode) ← readInode fs (toInt32 dirent.inode)
          let fd ← getDescriptor fs fdesc
          let fs ← setDescriptor fs fdesc { fd with inode := inode, pos := 0 }
          inodeOfPathLoop fdesc bound (fun i ↦ fresh (i + 1)) fs path
      else inodeOfPathLoop fdesc bound (fun i ↦ fresh (i + 1)) fs path

/-- `inode_of_path`. -/
def inodeOfPath (fresh : ℕ → Memory) (bound : ℕ) (fs : Filesystem) (path : List (BitVec 8)) :
    Except Stop (Filesystem × ℤ) := do
  let path := if charAt path 0 = 0x2f then path.drop 1 else path
  let (fs, fdesc) ← iopen fs (toInt32 fs.rootInode)
  inodeOfPathLoop fdesc bound fresh fs path

/-- `fopen`. -/
def fopen (fresh : ℕ → Memory) (bound : ℕ) (fs : Filesystem) (path : List (BitVec 8)) :
    Except Stop (Filesystem × ℤ) := do
  let (fs, inode) ← inodeOfPath fresh bound fs path
  iopen fs inode

end SysresOs.Files
