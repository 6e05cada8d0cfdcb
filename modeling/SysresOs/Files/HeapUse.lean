import Mathlib.Data.Finset.Lattice.Fold
import Mathlib.Order.Lattice.Nat
import SysresOs.Files.FreeList
import SysresOs.Lib.Outcome

/-!
# The heap blocks of the filesystem

The functions of the filesystem take buffers from `kmalloc` and give them back to `kfree`. Here they
are written with the set of the allocated heap blocks. Each of them returns what the function
without the heap returns (`read_eq`, `write_eq`, `inodeOfPath_eq`), and all but `alloc_block` leave
the set of the allocated blocks as it was. `alloc_block` keeps its copy of an index block that has
no entry (`allocBlock_eq`), so that a call is neutral exactly if it comes to no such index block
(`neutral_iff`).
-/

set_option autoImplicit false
set_option relaxedAutoImplicit false

namespace SysresOs.Files.OnHeap

open SysresOs.ByteMemory SysresOs.Outcome
open SysresOs.Memory (toInt32)

universe u

/-! ### The heap -/

/-- Why a call does not return: as without the heap, or at a `kfree` of what is not allocated. -/
inductive HeapStop
  | stop (why : Stop)
  | badFree
  deriving DecidableEq

/-- A computation that does not use the heap. -/
def lift {α : Type u} (x : Except Stop α) : Except HeapStop α := x.mapError .stop

section Functions

-- the heap block that `kmalloc` chooses
variable (pick : Finset ℕ → ℕ)

/-- `kmalloc`: a block, and the allocated blocks with it. -/
def kmalloc (heap : Finset ℕ) : ℕ × Finset ℕ := (pick heap, insert (pick heap) heap)

/-- `kfree`. -/
def kfree (heap : Finset ℕ) (p : ℕ) : Except HeapStop (Finset ℕ) :=
  if p ∈ heap then .ok (heap.erase p) else .error .badFree

/-! ### Blocks -/

/-- `read_block`: the content and the heap block it is in. -/
def readBlock (fs : Filesystem) (n : ℤ) (heap : Finset ℕ) :
    Except HeapStop ((Filesystem × Memory × ℕ) × Finset ℕ) := do
  let (fs, content) ← lift (Files.readBlock fs n)
  let (p, heap) := kmalloc pick heap
  .ok ((fs, content, p), heap)

/-- `alloc_block`. -/
def allocBlock (fs : Filesystem) (heap : Finset ℕ) : Except HeapStop
    ((Filesystem × ℤ) × Finset ℕ) := do
  let ((fs, blockIndex, p), heap) ← readBlock pick fs (toInt32 fs.freeBlockList) heap
  if switchEndianness (word blockIndex 1) = 0 then
    let lastFreeBlockList := fs.freeBlockList
    .ok (({ fs with
      freeBlockList := switchEndianness (word blockIndex 0) }, toInt32 lastFreeBlockList), heap)
  else do
    let offset := lastEntry blockIndex (fs.blockSize / 4) (fs.blockSize / 4) 1
    let freeBlock := switchEndianness (word blockIndex offset)
    let blockIndex := store blockIndex (4 * offset) 4 (switchEndianness 0)
    let fs ← lift (writeBlock fs (toInt32 fs.freeBlockList) blockIndex)
    let heap ← kfree heap p
    .ok ((fs, toInt32 freeBlock), heap)

/-! ### Files -/

/-- The loop of `extend_file`. -/
def extendLoop (target : ℕ) :
    ℕ → Filesystem → Inode → ℕ → Finset ℕ → Except HeapStop ((Filesystem × Inode) × Finset ℕ)
  | 0, _, _, _, _ => .error (.stop .diverges)
  | bound + 1, fs, inode, indexOfLastBlock, heap =>
    if inode.size < target then do
      let size := add32 inode.size
        (toUint32 (min (toInt32 (sub32 target inode.size)) (toInt32 fs.blockSize)))
      let inode := { inode with size := size }
      let ((fs, block), heap) ← allocBlock pick fs heap
      let fs := { fs with
        image := store fs.image (inode.blocks + 4 * (indexOfLastBlock + 1)) 4 (toUint32 block) }
      extendLoop target bound fs inode (indexOfLastBlock + 1) heap
    else .ok ((fs, inode), heap)

/-- `extend_file`. -/
def extendFile (fs : Filesystem) (fileDescriptor len : ℤ) (heap : Finset ℕ) :
    Except HeapStop (Filesystem × Finset ℕ) := do
  let fd ← lift (getDescriptor fs fileDescriptor)
  let target := add32 fd.pos (toUint32 len)
  if target ≤ fd.inode.size then .ok (fs, heap)
  else do
    let size := add32 fd.inode.size
      (toUint32 (min len (toInt32 (sub32 fs.blockSize (fd.inode.size % fs.blockSize)))))
    let inode := { fd.inode with size := size }
    let ((fs, inode), heap) ← extendLoop pick target (2 ^ 32) fs inode (size / fs.blockSize) heap
    let fs ← lift (setDescriptor fs fileDescriptor { fd with inode := inode })
    let fs ← lift (writeInode fs inode)
    .ok (fs, heap)

/-- The loop of `read`. -/
def readLoop (inode : Inode) (target : ℕ) (len : ℤ) : ℕ → Filesystem → ℕ →
    List (BitVec 8) → Finset ℕ → Except HeapStop ((Filesystem × ℕ × List (BitVec 8)) × Finset ℕ)
  | 0, _, _, _, _ => .error (.stop .diverges)
  | bound + 1, fs, pos, buffer, heap =>
    if pos < target then do
      let ((fs, block, p), heap) ← readBlock pick fs (toInt32 (blockNumber fs inode pos)) heap
      let copyLen := min len (toInt32 (sub32 fs.blockSize (pos % fs.blockSize)))
      let length ← lift (copyLength copyLen)
      let bytes := read block (pos % fs.blockSize) length
      let heap ← kfree heap p
      readLoop inode target len bound fs (add32 pos (toUint32 copyLen)) (buffer ++ bytes) heap
    else .ok ((fs, pos, buffer), heap)

/-- `read`. -/
def readFile (fs : Filesystem) (fileDescriptor len : ℤ) (heap : Finset ℕ) :
    Except HeapStop ((Filesystem × List (BitVec 8) × ℤ) × Finset ℕ) := do
  lift (assert (.assertion .lenNonneg) (0 ≤ len))
  let fd ← lift (getDescriptor fs fileDescriptor)
  let len := min len (toInt32 (sub32 fd.inode.size fd.pos))
  let ((fs, pos, buffer), heap) ←
    readLoop pick fd.inode (add32 fd.pos (toUint32 len)) len (2 ^ 32) fs fd.pos [] heap
  let fs ← lift (setDescriptor fs fileDescriptor { fd with pos := pos })
  .ok ((fs, buffer, len), heap)

/-- The loop of `write`. -/
def writeLoop (inode : Inode) (target : ℕ) : ℕ → Filesystem → ℕ → List (BitVec 8) → Finset ℕ →
    Except HeapStop ((Filesystem × ℕ) × Finset ℕ)
  | 0, _, _, _, _ => .error (.stop .diverges)
  | bound + 1, fs, pos, buffer, heap =>
    if pos < target then do
      let number := blockNumber fs inode pos
      let ((fs, block, p), heap) ← readBlock pick fs (toInt32 number) heap
      let copyLen :=
        min (toInt32 (sub32 target pos)) (toInt32 (sub32 fs.blockSize (pos % fs.blockSize)))
      let length ← lift (copyLength copyLen)
      let block := write block (pos % fs.blockSize) (buffer.take length)
      let fs ← lift (writeBlock fs (toInt32 number) block)
      let heap ← kfree heap p
      writeLoop inode target bound fs (add32 pos (toUint32 copyLen)) (buffer.drop length) heap
    else .ok ((fs, pos), heap)

/-- `write`, of a whole buffer. -/
def writeFile (fs : Filesystem) (fileDescriptor : ℤ) (buffer : List (BitVec 8)) (heap : Finset ℕ) :
    Except HeapStop ((Filesystem × ℤ) × Finset ℕ) := do
  let len : ℤ := buffer.length
  lift (assert (.assertion .lenNonneg) (0 ≤ len))
  let (fs, heap) ← extendFile pick fs fileDescriptor len heap
  let fd ← lift (getDescriptor fs fileDescriptor)
  lift (assert (.assertion .writeLen) (toUint32 len ≤ sub32 fd.inode.size fd.pos))
  let ((fs, pos), heap) ←
    writeLoop pick fd.inode (add32 fd.pos (toUint32 len)) (2 ^ 32) fs fd.pos buffer heap
  let fs ← lift (setDescriptor fs fileDescriptor { fd with pos := pos })
  .ok ((fs, len), heap)

/-! ### Paths -/

/-- `read_dirent`: the entry and the heap block of its name. -/
def readDirent (fs : Filesystem) (fresh : Memory) (fileDescriptor : ℤ) (heap : Finset ℕ) :
    Except HeapStop ((Filesystem × Dirent × ℕ) × Finset ℕ) := do
  let (dir, heap) := kmalloc pick heap
  let ((fs, bytes, _), heap) ← readFile pick fs fileDescriptor directoryEntrySize heap
  if directoryEntrySize < bytes.length then .error (.stop .overrun)
  else .ok ((fs, direntOf (write fresh 0 bytes), dir), heap)

/-- The loop of `inode_of_path`. -/
def inodeOfPathLoop (fdesc : ℤ) : ℕ → (ℕ → Memory) → Filesystem → List (BitVec 8) → Finset ℕ →
    Except HeapStop ((Filesystem × ℤ) × Finset ℕ)
  | 0, _, _, _, _ => .error (.stop .diverges)
  | bound + 1, fresh, fs, path, heap => do
    if ← lift (isAtEndOfFile fs fdesc) then
      let fs ← lift (fclose fs fdesc)
      .ok ((fs, -1), heap)
    else do
      let ((fs, dirent, name), heap) ← readDirent pick fs (fresh 0) fdesc heap
      let found := filenameMatch path dirent.name
      if 0 < found then
        let path := path.drop found.toNat
        if charAt path 0 = 0 then
          let heap ← kfree heap name
          .ok ((fs, toInt32 dirent.inode), heap)
        else do
          let path := path.drop 1
          let (fs, inode) ← lift (readInode fs (toInt32 dirent.inode))
          let fd ← lift (getDescriptor fs fdesc)
          let fs ← lift (setDescriptor fs fdesc { fd with inode := inode, pos := 0 })
          let heap ← kfree heap name
          inodeOfPathLoop fdesc bound (fun i ↦ fresh (i + 1)) fs path heap
      else do
        let heap ← kfree heap name
        inodeOfPathLoop fdesc bound (fun i ↦ fresh (i + 1)) fs path heap

/-- `inode_of_path`. -/
def inodeOfPath (fresh : ℕ → Memory) (bound : ℕ) (fs : Filesystem) (path : List (BitVec 8))
    (heap : Finset ℕ) : Except HeapStop ((Filesystem × ℤ) × Finset ℕ) := do
  let path := if charAt path 0 = 0x2f then path.drop 1 else path
  let (fs, fdesc) ← lift (iopen fs (toInt32 fs.rootInode))
  inodeOfPathLoop pick fdesc bound fresh fs path heap

end Functions

/-! ### What does not use the heap -/

section Lift

variable {α β : Type u} {x : Except Stop α} {f : α → Except Stop β} {heap : Finset ℕ}

/-- A computation with a heap that it leaves as it is. -/
def keep (x : Except Stop α) (heap : Finset ℕ) : Except HeapStop (α × Finset ℕ) :=
  lift (x.map fun a ↦ (a, heap))

@[simp] theorem lift_ok (a : α) : lift (.ok a : Except Stop α) = .ok a := rfl

@[simp] theorem lift_error (why : Stop) : lift (.error why : Except Stop α) = .error (.stop why) :=
  rfl

@[simp] theorem keep_ok (a : α) (heap : Finset ℕ) :
    keep (.ok a : Except Stop α) heap = .ok (a, heap) := rfl

@[simp] theorem keep_error (why : Stop) (heap : Finset ℕ) :
    keep (.error why : Except Stop α) heap = .error (.stop why) := rfl

theorem keep_bind (x : Except Stop α) (f : α → Except Stop β) (heap : Finset ℕ) :
    keep (x >>= f) heap = lift x >>= fun a ↦ keep (f a) heap := by
  cases x <;> rfl

theorem keep_bind_keep (x : Except Stop α) (f : α → Except Stop β) (heap : Finset ℕ) :
    keep (x >>= f) heap = keep x heap >>= fun a ↦ keep (f a.1) a.2 := by
  cases x <;> rfl

end Lift

section Neutral

variable {pick : Finset ℕ → ℕ} {fs : Filesystem} {inode : Inode} {target bound pos : ℕ} {len : ℤ}
  {buffer : List (BitVec 8)} {heap : Finset ℕ}

theorem kfree_insert (hpick : ∀ heap, pick heap ∉ heap) (heap : Finset ℕ) :
    kfree (insert (pick heap) heap) (pick heap) = .ok heap := by
  rw [kfree, if_pos (Finset.mem_insert_self _ _), Finset.erase_insert (hpick heap)]

theorem readBlock_eq (fs : Filesystem) (n : ℤ) (heap : Finset ℕ) : readBlock pick fs n heap =
    lift (Files.readBlock fs n) >>= fun r ↦ .ok ((r.1, r.2, pick heap), insert (pick heap) heap) :=
  rfl

/-- The buffer of each round of a read is freed in the round. -/
theorem readLoop_eq (hpick : ∀ heap, pick heap ∉ heap) (inode : Inode) (target : ℕ)
    (len : ℤ) (bound : ℕ) (fs : Filesystem) (pos : ℕ) (buffer : List (BitVec 8)) (heap : Finset ℕ) :
    readLoop pick inode target len bound fs pos buffer heap =
      keep (Files.readLoop inode target len bound fs pos buffer) heap := by
  induction bound generalizing fs pos buffer with
  | zero => rfl
  | succ bound ih =>
    rw [readLoop, Files.readLoop]
    split_ifs with hlt
    · rw [readBlock_eq, keep_bind]
      cases Files.readBlock fs (toInt32 (blockNumber fs inode pos)) with
      | error why => rw [lift_error, error_bind, error_bind, error_bind]
      | ok res =>
        rw [lift_ok, ok_bind, ok_bind, ok_bind]
        dsimp only
        rw [keep_bind]
        cases copyLength (min len (toInt32 (sub32 res.1.blockSize (pos % res.1.blockSize)))) with
        | error why => rw [lift_error, error_bind, error_bind]
        | ok length =>
          rw [lift_ok, ok_bind, kfree_insert hpick, ok_bind, ih, ok_bind]
    · rfl

/-- The buffer of each round of a write is freed in the round. -/
theorem writeLoop_eq (hpick : ∀ heap, pick heap ∉ heap) (inode : Inode) (target bound : ℕ)
    (fs : Filesystem) (pos : ℕ) (buffer : List (BitVec 8)) (heap : Finset ℕ) :
    writeLoop pick inode target bound fs pos buffer heap =
      keep (Files.writeLoop inode target bound fs pos buffer) heap := by
  induction bound generalizing fs pos buffer with
  | zero => rfl
  | succ bound ih =>
    rw [writeLoop, Files.writeLoop]
    split_ifs with hlt
    · dsimp only
      rw [readBlock_eq, keep_bind]
      cases Files.readBlock fs (toInt32 (blockNumber fs inode pos)) with
      | error why => rw [lift_error, error_bind, error_bind, error_bind]
      | ok res =>
        rw [lift_ok, ok_bind, ok_bind, ok_bind]
        dsimp only
        rw [keep_bind]
        generalize min (toInt32 (sub32 target pos))
          (toInt32 (sub32 res.1.blockSize (pos % res.1.blockSize))) = copyLen
        cases copyLength copyLen with
        | error why => rw [lift_error, error_bind, error_bind]
        | ok length =>
          rw [lift_ok, ok_bind, ok_bind, keep_bind]
          cases writeBlock res.1 (toInt32 (blockNumber fs inode pos))
              (write res.2 (pos % res.1.blockSize) (buffer.take length)) with
          | error why => rw [lift_error, error_bind, error_bind]
          | ok fs' => rw [lift_ok, ok_bind, ok_bind, kfree_insert hpick, ok_bind, ih]
    · rfl

/-- `read` with the heap. -/
theorem readFile_eq (hpick : ∀ heap, pick heap ∉ heap) (fs : Filesystem) (fileDescriptor len : ℤ)
    (heap : Finset ℕ) : readFile pick fs fileDescriptor len heap = keep
    (Files.readFile fs fileDescriptor len) heap := by
  rw [readFile, Files.readFile, keep_bind]
  cases assert (Stop.assertion .lenNonneg) (0 ≤ len) with
  | error why => rw [lift_error, error_bind, error_bind]
  | ok _ =>
    rw [lift_ok, ok_bind, ok_bind, keep_bind]
    cases getDescriptor fs fileDescriptor with
    | error why => rw [lift_error, error_bind, error_bind]
    | ok fd =>
      rw [lift_ok, ok_bind, ok_bind]
      dsimp only
      rw [readLoop_eq hpick, keep_bind_keep]
      generalize Files.readLoop fd.inode _ _ _ fs fd.pos [] = res
      cases res with
      | error why => rw [keep_error, error_bind, error_bind]
      | ok res =>
        rw [keep_ok, ok_bind, ok_bind]
        dsimp only
        rw [keep_bind]
        cases setDescriptor res.1 fileDescriptor { fd with pos := res.2.1 } with
        | error why => rw [lift_error, error_bind, error_bind]
        | ok fs' => rw [lift_ok, ok_bind, ok_bind, keep_ok]

/-- `read_dirent` returns with one more block allocated, that of the name. -/
theorem readDirent_eq (hpick : ∀ heap, pick heap ∉ heap) (fs : Filesystem) (fresh : Memory)
    (fileDescriptor : ℤ) (heap : Finset ℕ) : readDirent pick fs fresh fileDescriptor heap =
      lift (Files.readDirent fs fresh fileDescriptor) >>= fun r ↦
        .ok ((r.1, r.2, pick heap), insert (pick heap) heap) := by
  rw [readDirent, Files.readDirent, kmalloc]
  dsimp only
  rw [readFile_eq hpick]
  cases Files.readFile fs fileDescriptor directoryEntrySize with
  | error why => rw [keep_error, error_bind, error_bind, lift_error, error_bind]
  | ok res =>
    rw [keep_ok, ok_bind, ok_bind]
    dsimp only
    split_ifs
    · rw [lift_error, error_bind]
    · rw [lift_ok, ok_bind]

/-- The name of each entry is freed in the round. -/
theorem inodeOfPathLoop_eq (hpick : ∀ heap, pick heap ∉ heap) (fdesc : ℤ) (bound : ℕ)
    (fresh : ℕ → Memory) (fs : Filesystem) (path : List (BitVec 8)) (heap : Finset ℕ) :
    inodeOfPathLoop pick fdesc bound fresh fs path heap =
      keep (Files.inodeOfPathLoop fdesc bound fresh fs path) heap := by
  induction bound generalizing fresh fs path with
  | zero => rfl
  | succ bound ih =>
    rw [inodeOfPathLoop, Files.inodeOfPathLoop, keep_bind]
    cases isAtEndOfFile fs fdesc with
    | error why => rw [lift_error, error_bind, error_bind]
    | ok atEnd =>
      rw [lift_ok, ok_bind, ok_bind]
      cases atEnd with
      | true =>
        rw [if_pos rfl, if_pos rfl, keep_bind]
        cases fclose fs fdesc with
        | error why => rw [lift_error, error_bind, error_bind]
        | ok fs' => rw [lift_ok, ok_bind, ok_bind, keep_ok]
      | false =>
        rw [if_neg (by decide), if_neg (by decide), readDirent_eq hpick, keep_bind]
        cases Files.readDirent fs (fresh 0) fdesc with
        | error why => rw [lift_error, error_bind, error_bind, error_bind]
        | ok res =>
          rw [lift_ok, ok_bind, ok_bind, ok_bind]
          dsimp only
          by_cases hfound : 0 < filenameMatch path res.2.name
          · rw [if_pos hfound, if_pos hfound]
            by_cases hend : charAt (path.drop (filenameMatch path res.2.name).toNat) 0 = 0
            · rw [if_pos hend, if_pos hend, kfree_insert hpick, ok_bind, keep_ok]
            · rw [if_neg hend, if_neg hend, keep_bind]
              cases readInode res.1 (toInt32 res.2.inode) with
              | error why => rw [lift_error, error_bind, error_bind]
              | ok read =>
                rw [lift_ok, ok_bind, ok_bind, keep_bind]
                cases getDescriptor read.1 fdesc with
                | error why => rw [lift_error, error_bind, error_bind]
                | ok fd =>
                  rw [lift_ok, ok_bind, ok_bind, keep_bind]
                  cases setDescriptor read.1 fdesc { fd with inode := read.2, pos := 0 } with
                  | error why => rw [lift_error, error_bind, error_bind]
                  | ok fs' => rw [lift_ok, ok_bind, ok_bind, kfree_insert hpick, ok_bind, ih]
          · rw [if_neg hfound, if_neg hfound, kfree_insert hpick, ok_bind, ih]

theorem inodeOfPath_eq (hpick : ∀ heap, pick heap ∉ heap) (fresh : ℕ → Memory) (bound : ℕ)
    (fs : Filesystem) (path : List (BitVec 8)) (heap : Finset ℕ) :
    inodeOfPath pick fresh bound fs path heap = keep (Files.inodeOfPath fresh bound fs path)
      heap := by
  rw [inodeOfPath, Files.inodeOfPath]
  dsimp only
  rw [keep_bind]
  cases iopen fs (toInt32 fs.rootInode) with
  | error why => rw [lift_error, error_bind, error_bind]
  | ok res => rw [lift_ok, ok_bind, ok_bind, inodeOfPathLoop_eq hpick]

end Neutral

/-! ### Index blocks without an entry -/

/-- What was read is an index block without an entry. -/
def entryless : Except Stop (Filesystem × Memory) → Bool
  | .ok (_, blockIndex) => switchEndianness (word blockIndex 1) = 0
  | .error _ => false

/-- The index block that `alloc_block` reads has no entry. -/
def indexEmpty (fs : Filesystem) : Bool := entryless (Files.readBlock fs (toInt32 fs.freeBlockList))

/-- The heap after `alloc_block`: the copy of an index block without an entry stays allocated. -/
def afterAlloc (pick : Finset ℕ → ℕ) (heap : Finset ℕ) (fs : Filesystem) : Finset ℕ :=
  if indexEmpty fs then insert (pick heap) heap else heap

/-- The states that follow a call, if it returns. -/
def statesAfter {α : Type} (x : Except Stop α) (f : α → List Filesystem) : List Filesystem :=
  match x with
  | .ok a => f a
  | .error _ => []

/-- The states in which the loop of `extend_file` calls `alloc_block`. -/
def allocStates (target : ℕ) : ℕ → Filesystem → Inode → ℕ → List Filesystem
  | 0, _, _, _ => []
  | bound + 1, fs, inode, indexOfLastBlock =>
    if inode.size < target then
      let size := add32 inode.size
        (toUint32 (min (toInt32 (sub32 target inode.size)) (toInt32 fs.blockSize)))
      let inode := { inode with size := size }
      fs :: statesAfter (Files.allocBlock fs) fun (fs, block) ↦
        let fs := { fs with
          image := store fs.image (inode.blocks + 4 * (indexOfLastBlock + 1)) 4 (toUint32 block) }
        allocStates target bound fs inode (indexOfLastBlock + 1)
    else []

/-- The states in which `extend_file` calls `alloc_block`. -/
def extendStates (fs : Filesystem) (fileDescriptor len : ℤ) : List Filesystem :=
  statesAfter (getDescriptor fs fileDescriptor) fun fd ↦
    let target := add32 fd.pos (toUint32 len)
    if target ≤ fd.inode.size then []
    else
      let size := add32 fd.inode.size
        (toUint32 (min len (toInt32 (sub32 fs.blockSize (fd.inode.size % fs.blockSize)))))
      allocStates target (2 ^ 32) fs { fd.inode with size := size } (size / fs.blockSize)

section Allocation

variable {pick : Finset ℕ → ℕ}

theorem allocBlock_eq (hpick : ∀ heap, pick heap ∉ heap) (fs : Filesystem) (heap : Finset ℕ) :
    allocBlock pick fs heap =
      lift (Files.allocBlock fs) >>= fun r ↦ .ok (r, afterAlloc pick heap fs) := by
  rw [allocBlock, Files.allocBlock, readBlock_eq, afterAlloc, indexEmpty]
  cases Files.readBlock fs (toInt32 fs.freeBlockList) with
  | error why => rw [lift_error, error_bind, error_bind, error_bind, lift_error, error_bind]
  | ok res =>
    rw [lift_ok, ok_bind, ok_bind, ok_bind, entryless]
    dsimp only
    by_cases hempty : switchEndianness (word res.2 1) = 0
    · rw [if_pos hempty, if_pos hempty, if_pos (decide_eq_true hempty), lift_ok, ok_bind]
    · rw [if_neg hempty, if_neg hempty, if_neg (by simpa using hempty)]
      generalize store res.2 _ 4 (switchEndianness 0) = blockIndex
      cases writeBlock res.1 (toInt32 res.1.freeBlockList) blockIndex with
      | error why => rw [lift_error, error_bind, error_bind, lift_error, error_bind]
      | ok fs' => rw [lift_ok, ok_bind, ok_bind, kfree_insert hpick, ok_bind, lift_ok, ok_bind]

theorem extendLoop_eq (hpick : ∀ heap, pick heap ∉ heap) (target bound : ℕ)
    (fs : Filesystem) (inode : Inode) (indexOfLastBlock : ℕ) (heap : Finset ℕ) :
    extendLoop pick target bound fs inode indexOfLastBlock heap =
      lift (Files.extendLoop target bound fs inode indexOfLastBlock) >>= fun r ↦
        .ok (r, (allocStates target bound fs inode indexOfLastBlock).foldl
        (afterAlloc pick) heap) := by
  induction bound generalizing fs inode indexOfLastBlock heap with
  | zero => rfl
  | succ bound ih =>
    rw [extendLoop, Files.extendLoop, allocStates]
    split_ifs with hlt
    · dsimp only
      rw [allocBlock_eq hpick]
      cases Files.allocBlock fs with
      | error why => rw [lift_error, error_bind, error_bind, error_bind, lift_error, error_bind]
      | ok res =>
        rw [lift_ok, ok_bind, ok_bind, ok_bind, statesAfter]
        dsimp only
        rw [ih, List.foldl_cons]
    · rfl

theorem extendFile_eq (hpick : ∀ heap, pick heap ∉ heap) (fs : Filesystem) (fileDescriptor len : ℤ)
    (heap : Finset ℕ) : extendFile pick fs fileDescriptor len heap =
      lift (Files.extendFile fs fileDescriptor len) >>= fun fs' ↦
        .ok (fs', (extendStates fs fileDescriptor len).foldl (afterAlloc pick) heap) := by
  rw [extendFile, Files.extendFile, extendStates]
  cases getDescriptor fs fileDescriptor with
  | error why => rw [lift_error, error_bind, error_bind, lift_error, error_bind]
  | ok fd =>
    rw [lift_ok, ok_bind, ok_bind, statesAfter]
    dsimp only
    by_cases hle : add32 fd.pos (toUint32 len) ≤ fd.inode.size
    · rw [if_pos hle, if_pos hle, if_pos hle, lift_ok, ok_bind, List.foldl_nil]
    · rw [if_neg hle, if_neg hle, if_neg hle, extendLoop_eq hpick]
      generalize allocStates _ _ _ _ _ = states
      generalize Files.extendLoop _ _ _ _ _ = res
      cases res with
      | error why => rw [lift_error, error_bind, error_bind, error_bind, lift_error, error_bind]
      | ok res =>
        rw [lift_ok, ok_bind, ok_bind, ok_bind]
        dsimp only
        cases setDescriptor res.1 fileDescriptor { fd with inode := res.2 } with
        | error why => rw [lift_error, error_bind, error_bind, lift_error, error_bind]
        | ok fs' => rw [lift_ok, ok_bind, ok_bind]

theorem writeFile_eq (hpick : ∀ heap, pick heap ∉ heap) (fs : Filesystem) (fileDescriptor : ℤ)
    (buffer : List (BitVec 8)) (heap : Finset ℕ) : writeFile pick fs fileDescriptor buffer heap =
      lift (Files.writeFile fs fileDescriptor buffer) >>= fun r ↦
        .ok (r, (extendStates fs fileDescriptor buffer.length).foldl (afterAlloc pick) heap) := by
  rw [writeFile, Files.writeFile]
  dsimp only
  cases assert (Stop.assertion .lenNonneg) (0 ≤ (buffer.length : ℤ)) with
  | error why => rw [lift_error, error_bind, error_bind, lift_error, error_bind]
  | ok _ =>
    rw [lift_ok, ok_bind, ok_bind, extendFile_eq hpick]
    generalize (extendStates fs fileDescriptor buffer.length).foldl (afterAlloc pick) heap = heap'
    cases Files.extendFile fs fileDescriptor buffer.length with
    | error why => rw [lift_error, error_bind, error_bind, error_bind, lift_error, error_bind]
    | ok fs' =>
      rw [lift_ok, ok_bind, ok_bind, ok_bind]
      dsimp only
      cases getDescriptor fs' fileDescriptor with
      | error why => rw [lift_error, error_bind, error_bind, lift_error, error_bind]
      | ok fd =>
        rw [lift_ok, ok_bind, ok_bind]
        cases assert (Stop.assertion .writeLen)
          (toUint32 (buffer.length : ℤ) ≤ sub32 fd.inode.size fd.pos) with
        | error why => rw [lift_error, error_bind, error_bind, lift_error, error_bind]
        | ok _ =>
          rw [lift_ok, ok_bind, ok_bind, writeLoop_eq hpick]
          generalize Files.writeLoop fd.inode _ _ fs' fd.pos buffer = res
          cases res with
          | error why => rw [keep_error, error_bind, error_bind, lift_error, error_bind]
          | ok res =>
            rw [keep_ok, ok_bind, ok_bind]
            dsimp only
            cases setDescriptor res.1 fileDescriptor { fd with pos := res.2 } with
            | error why => rw [lift_error, error_bind, error_bind, lift_error, error_bind]
            | ok fs'' => rw [lift_ok, ok_bind, ok_bind, lift_ok, ok_bind]

/-- The heap blocks stay allocated. -/
theorem subset_foldl_afterAlloc (states : List Filesystem) (heap : Finset ℕ) :
    heap ⊆ states.foldl (afterAlloc pick) heap := by
  induction states generalizing heap with
  | nil => exact Finset.Subset.refl heap
  | cons fs states ih =>
    refine Finset.Subset.trans ?_ (ih _)
    unfold afterAlloc
    split_ifs
    · exact Finset.subset_insert _ _
    · exact Finset.Subset.refl heap

/-- No block is left if and only if no index block is without an entry. -/
theorem foldl_afterAlloc_eq_iff (hpick : ∀ heap, pick heap ∉ heap) (states : List Filesystem)
    (heap : Finset ℕ) :
    states.foldl (afterAlloc pick) heap = heap ↔ ∀ fs ∈ states, indexEmpty fs = false := by
  induction states with
  | nil => simp
  | cons fs states ih =>
    rw [List.foldl_cons, List.forall_mem_cons, afterAlloc]
    cases hempty : indexEmpty fs with
    | true =>
      refine iff_of_false (fun heq ↦ hpick heap ?_) fun hall ↦ Bool.noConfusion hall.1
      have hsubset :
          insert (pick heap) heap ⊆ states.foldl (afterAlloc pick) (insert (pick heap) heap) :=
        subset_foldl_afterAlloc states _
      rw [if_pos rfl] at heq
      rw [heq] at hsubset
      exact hsubset (Finset.mem_insert_self _ _)
    | false =>
      rw [if_neg (by decide), ih]
      exact ⟨fun hall ↦ ⟨rfl, hall⟩, fun hall ↦ hall.2⟩

end Allocation

/-! ### Calls -/

/-- The calls that use the heap. -/
inductive Call
  | read (fileDescriptor len : ℤ)
  | write (fileDescriptor : ℤ) (buffer : List (BitVec 8))
  | allocBlock
  | inodeOfPath (fresh : ℕ → Memory) (bound : ℕ) (path : List (BitVec 8))

/-- The heap after the call. -/
def Call.run (pick : Finset ℕ → ℕ) (fs : Filesystem) (heap : Finset ℕ) : Call →
    Except HeapStop (Finset ℕ)
  | read fileDescriptor len => (readFile pick fs fileDescriptor len heap).map Prod.snd
  | write fileDescriptor buffer => (writeFile pick fs fileDescriptor buffer heap).map Prod.snd
  | allocBlock => (OnHeap.allocBlock pick fs heap).map Prod.snd
  | inodeOfPath fresh bound path => (OnHeap.inodeOfPath pick fresh bound fs path heap).map Prod.snd

/-- The states in which the call makes calls of `alloc_block`. -/
def Call.allocStates (fs : Filesystem) : Call → List Filesystem
  | read _ _ => []
  | write fileDescriptor buffer => extendStates fs fileDescriptor buffer.length
  | allocBlock => [fs]
  | inodeOfPath _ _ _ => []

section Calls

variable {pick : Finset ℕ → ℕ} {fs : Filesystem} {heap heap' : Finset ℕ}

theorem of_keep {α : Type u} {x : Except Stop α} (h : (keep x heap).map Prod.snd = .ok heap') :
    heap' = heap := by
  cases x with
  | error why => cases h
  | ok a => exact (Except.ok.inj h).symm

theorem of_lift {α : Type} {x : Except Stop α} {last : Finset ℕ}
    (h : Except.map Prod.snd (lift x >>= fun r ↦ .ok (r, last)) = .ok heap') : heap' = last := by
  cases x with
  | error why => cases h
  | ok a => exact (Except.ok.inj h).symm

/-- A call that returns leaves the heap that its calls of `alloc_block` do. -/
theorem Call.run_eq (hpick : ∀ heap, pick heap ∉ heap) (call : Call)
    (h : call.run pick fs heap = .ok heap') :
    heap' = (call.allocStates fs).foldl (afterAlloc pick) heap := by
  cases call with
  | read fileDescriptor len =>
    rw [Call.run, readFile_eq hpick] at h
    rw [Call.allocStates, List.foldl_nil]
    exact of_keep h
  | write fileDescriptor buffer =>
    rw [Call.run, writeFile_eq hpick] at h
    rw [Call.allocStates]
    exact of_lift h
  | allocBlock =>
    rw [Call.run, allocBlock_eq hpick] at h
    rw [Call.allocStates, List.foldl_cons, List.foldl_nil]
    exact of_lift h
  | inodeOfPath fresh bound path =>
    rw [Call.run, inodeOfPath_eq hpick] at h
    rw [Call.allocStates, List.foldl_nil]
    exact of_keep h

/-- A call that returns leaves the set of the allocated blocks as it was exactly if it has made no
call of `alloc_block` with an index block that has no entry. -/
theorem Call.neutral_iff (hpick : ∀ heap, pick heap ∉ heap) (call : Call)
    (h : call.run pick fs heap = .ok heap') :
    heap' = heap ↔ ∀ st ∈ call.allocStates fs, indexEmpty st = false := by
  rw [call.run_eq hpick h]
  exact foldl_afterAlloc_eq_iff hpick _ heap

end Calls

/-! ### The small disk -/

/-- The block behind all those that are allocated. -/
def nextBlock (heap : Finset ℕ) : ℕ := heap.sup id + 1

theorem nextBlock_notMem (heap : Finset ℕ) : nextBlock heap ∉ heap := fun hmem ↦ by
  have hle : id (nextBlock heap) ≤ heap.sup id := Finset.le_sup hmem
  exact absurd hle (Nat.not_succ_le_self _)

theorem run_smallDisk : Call.allocBlock.run nextBlock smallDisk ∅ = .ok ∅ := by decide +kernel

theorem Call.neutral_iff_smallDisk :
    (∅ : Finset ℕ) = ∅ ↔ ∀ st ∈ [smallDisk], indexEmpty st = false :=
  Call.neutral_iff nextBlock_notMem .allocBlock run_smallDisk

/-- The small disk with only an index block without entries in its list of free blocks. -/
def lastBlockDisk : Filesystem := { smallDisk with freeBlockList := 7 }

/-- `alloc_block` hands out the index block, and its copy stays allocated. -/
theorem Call.not_neutral_lastBlockDisk :
    ∃ heap', Call.allocBlock.run nextBlock lastBlockDisk ∅ = .ok heap' ∧ heap' ≠ ∅ :=
  ⟨{1}, by decide +kernel, by decide⟩

end SysresOs.Files.OnHeap
