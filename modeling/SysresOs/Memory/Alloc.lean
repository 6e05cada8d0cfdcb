import SysresOs.Lib.ByteMemory
import SysresOs.Lib.Outcome
import SysresOs.Lib.Trace
import Mathlib.Data.Int.Basic

/-!
# The heap allocator

`memory/alloc.c`. The heap is a list of blocks, each with a header of `ABLOCK_SIZE` bytes in front
of its payload, that grows at its end by `ksbrk`. The headers are in the memory that the payloads
are in, so the functions below load and store them byte by byte. `size_t` and pointers are integers
modulo `2 ^ 64`, and `int` is an integer modulo `2 ^ 32` with a sign.
-/

set_option autoImplicit false
set_option relaxedAutoImplicit false

namespace SysresOs.Memory

open SysresOs.ByteMemory SysresOs.Outcome SysresOs.Trace

/-! ### Integers -/

/-- Addition of `size_t`. -/
def add64 (a b : ℕ) : ℕ := (a + b) % 2 ^ 64

/-- Subtraction of `size_t`. -/
def sub64 (a b : ℕ) : ℕ := (a + (2 ^ 64 - b % 2 ^ 64)) % 2 ^ 64

/-- The conversion to `int`. -/
def toInt32 (n : ℤ) : ℤ := n.bmod (2 ^ 32)

/-- The conversion of an `int` to a pointer. -/
def ofInt32 (n : ℤ) : ℕ := (n % 2 ^ 64).toNat

/-- `GRANULE`. -/
def granule : ℕ := 0x1000

/-- `HEAP_MAX`. -/
def heapMax : ℤ := 0x3f00b000

/-- `ABLOCK_SIZE`. -/
def ablockSize : ℕ := 32

/-! ### State -/

/-- The assertions of the allocator. -/
inductive Assertion
  /-- `assert(0)` in `ksbrk`. -/
  | heapOverflow
  /-- `assert(heap_begin > 0)`. -/
  | heapBegin
  /-- `assert(block == request)` in `extend_heap`. -/
  | brkMoved
  /-- `assert(last->next == NULL)`. -/
  | lastNext
  /-- `assert(block >= last + ABLOCK_SIZE)`. -/
  | blockOrder
  /-- `assert(block->size >= size)` in `split_block`. -/
  | splitSize
  /-- `assert(block->next->free)` in `merge_block`. -/
  | nextFree
  /-- `assert(block == block->next->prev)` in `merge_block`. -/
  | nextPrev
  /-- `assert(block_ptr->free == 0)` in `kfree`. -/
  | doubleFree
  deriving DecidableEq, Repr

/-- Why a call of the allocator does not return. -/
inductive Stop
  /-- A failed `assert`, which calls `abort()`. -/
  | assertion (which : Assertion)
  /-- The search for a free block goes round a cycle. -/
  | diverges
  deriving DecidableEq, Repr

/-- The memory and the globals of the allocator, with the calls of `usr_free_virtual_page` so
far. -/
structure AllocState where
  memory : Memory
  heapBegin : ℕ
  endOffset : ℤ
  globalBase : ℕ
  freeRequests : List ℕ

namespace AllocState

variable (s : AllocState) (block : ℕ)

/-- `block->size`. -/
def size : ℕ := load s.memory block 8

/-- `block->next`. -/
def next : ℕ := load s.memory (block + 8) 8

/-- `block->prev`. -/
def prev : ℕ := load s.memory (block + 16) 8

/-- `block->free`. -/
def free : ℕ := load s.memory (block + 24) 4

/-- Assignment of `block->size`. -/
def setSize (value : ℕ) : AllocState := { s with memory := store s.memory block 8 value }

/-- Assignment of `block->next`. -/
def setNext (value : ℕ) : AllocState := { s with memory := store s.memory (block + 8) 8 value }

/-- Assignment of `block->prev`. -/
def setPrev (value : ℕ) : AllocState := { s with memory := store s.memory (block + 16) 8 value }

/-- Assignment of `block->free`. -/
def setFree (value : ℕ) : AllocState := { s with memory := store s.memory (block + 24) 4 value }

end AllocState

/-! ### The break -/

/-- The number of pages that `ksbrk` frees when the break moves down by `-increment` from `res`. -/
def pagesToFree (res increment : ℤ) : ℤ :=
  toInt32 (res.tdiv granule - (toInt32 (res + increment)).tdiv granule +
    if res.tmod granule = 0 then 0 else 1)

/-- `ksbrk`. -/
def ksbrk (s : AllocState) (increment : ℤ) : Except Stop (AllocState × ℕ) := do
  let res := toInt32 (s.endOffset + s.heapBegin)
  let s := { s with endOffset := toInt32 (s.endOffset + increment) }
  if toInt32 (res + increment) > heapMax then .error (.assertion .heapOverflow)
  else if increment < 0 then
    let pages := (List.range (pagesToFree res increment).toNat).map fun i : ℕ ↦
      ofInt32 (toInt32 (res - i * granule))
    .ok ({ s with freeRequests := s.freeRequests ++ pages }, ofInt32 (toInt32 (res + increment)))
  else .ok (s, ofInt32 res)

/-! ### Blocks -/

/-- `next_power_of_2`. -/
def nextPowerOf2 (n : ℕ) : ℕ :=
  let n := sub64 n 1
  let n := n ||| n >>> 1
  let n := n ||| n >>> 2
  let n := n ||| n >>> 4
  let n := n ||| n >>> 8
  let n := n ||| n >>> 16
  add64 n 1

/-- `split_block`. -/
def splitBlock (s : AllocState) (block size : ℕ) : Except Stop AllocState := do
  assert (.assertion .splitSize) (size ≤ s.size block)
  if add64 size ablockSize < s.size block then
    let new := add64 (add64 block ablockSize) size
    let s := s.setFree new 1
    let s := s.setSize new (sub64 (sub64 (s.size block) size) ablockSize)
    let s := s.setSize block size
    let s := s.setPrev new block
    let s := s.setNext new (s.next block)
    let s := s.setNext block new
    if s.next new ≠ 0 then .ok (s.setPrev (s.next new) new) else .ok s
  else .ok s

/-- `merge_block`. -/
def mergeBlock (s : AllocState) (block : ℕ) : Except Stop AllocState := do
  assert (.assertion .nextFree) (s.free (s.next block) ≠ 0)
  assert (.assertion .nextPrev) (block = s.prev (s.next block))
  let s := s.setSize block
    (add64 (s.size block) (add64 ablockSize (s.size (s.next block))))
  let s := if s.next (s.next block) ≠ 0 then s.setPrev (s.next (s.next block)) block else s
  .ok (s.setNext block (s.next (s.next block)))

/-- The loop of `find_free_block`, with its two variables. It reads the memory only, so that a
search that goes on after `2 ^ 64` blocks has been at one of them before and does not end. -/
def findFreeBlock (s : AllocState) (size : ℕ) : ℕ → ℕ → ℕ → Except Stop (ℕ × ℕ)
  | 0, _, _ => .error .diverges
  | bound + 1, last, current =>
    if current ≠ 0 ∧ ¬ (s.free current ≠ 0 ∧ size ≤ s.size current) then
      findFreeBlock s size bound current (s.next current)
    else .ok (last, current)

/-- `extend_heap`. -/
def extendHeap (s : AllocState) (last size : ℕ) : Except Stop (AllocState × ℕ) := do
  assert (.assertion .heapBegin) (0 < s.heapBegin)
  let (s, block) ← ksbrk s 0
  let (s, request) ← ksbrk s (toInt32 (add64 size ablockSize))
  assert (.assertion .brkMoved) (block = request)
  if request = 2 ^ 64 - 1 then .ok (s, 0)
  else do
    let s := s.setPrev block 0
    let s ← if last ≠ 0 then do
        assert (.assertion .lastNext) (s.next last = 0)
        let s := s.setNext last block
        .ok (s.setPrev block last)
      else .ok s
    let s := s.setSize block size
    let s := s.setNext block 0
    let s := s.setFree block 0
    assert (.assertion .blockOrder) (add64 last ablockSize ≤ block)
    .ok (s, block)

/-- `get_block_ptr`. -/
def getBlockPtr (ptr : ℕ) : ℕ := sub64 ptr ablockSize

/-- The size of the block that a request for `size` bytes gets. -/
def blockSize (size : ℕ) : ℕ := sub64 (nextPowerOf2 (add64 size ablockSize)) ablockSize

/-- `kmalloc`. -/
def kmalloc (s : AllocState) (size : ℕ) : Except Stop (AllocState × ℕ) := do
  let size := blockSize size
  if size = 0 then .ok (s, 0)
  else if s.globalBase = 0 then do
    let (s, block) ← extendHeap s 0 size
    if block = 0 then .ok (s, 0)
    else .ok ({ s with globalBase := block }, add64 block ablockSize)
  else do
    let (last, block) ← findFreeBlock s size (2 ^ 64) s.globalBase s.globalBase
    if block = 0 then do
      let (s, block) ← extendHeap s last size
      if block = 0 then .ok (s, 0) else .ok (s, add64 block ablockSize)
    else do
      let s := s.setFree block 0
      let s ← if size < s.size block then splitBlock s block size else .ok s
      .ok (s, add64 block ablockSize)

/-- `kfree`. -/
def kfree (s : AllocState) (ptr : ℕ) : Except Stop AllocState :=
  if ptr = 0 then .ok s
  else do
    let block := getBlockPtr ptr
    assert (.assertion .doubleFree) (s.free block = 0)
    let s := s.setFree block 1
    let s ← if s.next block ≠ 0 ∧ s.free (s.next block) ≠ 0 then mergeBlock s block else .ok s
    if s.prev block ≠ 0 ∧ s.free (s.prev block) ≠ 0 then mergeBlock s (s.prev block) else .ok s

/-- `krealloc`. -/
def krealloc (s : AllocState) (ptr size : ℕ) : Except Stop (AllocState × ℕ) :=
  if ptr = 0 then kmalloc s size
  else
    let block := getBlockPtr ptr
    if size ≤ s.size block then .ok (s, ptr)
    else if s.next block ≠ 0 ∧ s.free (s.next block) ≠ 0 ∧
        size ≤ add64 (add64 (s.size (s.next block)) ablockSize) (s.size block) then do
      let s ← mergeBlock s block
      .ok (s, ptr)
    else do
      let (s, newPtr) ← kmalloc s (blockSize size)
      if newPtr = 0 then .ok (s, 0)
      else do
        let s := { s with memory := copy s.memory newPtr ptr (s.size block) }
        let s ← kfree s ptr
        .ok (s, newPtr)

/-- `init_alloc`: the globals for a heap that begins at the linker symbol `__end`. -/
def initAlloc (memory : Memory) (endAddr : ℕ) : AllocState where
  memory := memory
  heapBegin := endAddr
  endOffset := 0
  globalBase := 0
  freeRequests := []

/-! ### Calls -/

/-- The calls of a program that uses the heap, its stores to what it has allocated, and stores
outside the heap. -/
inductive Call
  | malloc (size : ℕ)
  | realloc (ptr size : ℕ)
  | free (ptr : ℕ)
  | store (ptr offset : ℕ) (bytes : List (BitVec 8))
  | storeOutside (addr : ℕ) (bytes : List (BitVec 8))

/-- The heap as its program knows it: the pointers that were returned and not yet freed, with the
last size requested for each. -/
structure Session where
  heap : AllocState
  live : ℕ → Option ℕ

/-- What is allocated after a pointer is returned for a request. -/
def Session.returned (live : ℕ → Option ℕ) (ptr size : ℕ) : ℕ → Option ℕ :=
  if ptr = 0 then live else Function.update live ptr (some size)

/-- The largest size that may be requested. -/
def maxRequest : ℕ := 2 ^ 30 - 32

/-- The steps of a program that frees and reallocates only what is allocated, asks for at most
`maxRequest` bytes, and writes to no other bytes of the heap than those of its blocks. -/
inductive CallStep : Session → Call → Session → Prop
  | malloc {s s' : AllocState} {live : ℕ → Option ℕ} {size ptr : ℕ} (hsize : size ≤ maxRequest)
      (h : kmalloc s size = .ok (s', ptr)) :
      CallStep ⟨s, live⟩ (.malloc size) ⟨s', Session.returned live ptr size⟩
  | reallocNull {s s' : AllocState} {live : ℕ → Option ℕ} {size ptr : ℕ} (hsize : size ≤ maxRequest)
      (h : krealloc s 0 size = .ok (s', ptr)) :
      CallStep ⟨s, live⟩ (.realloc 0 size) ⟨s', Session.returned live ptr size⟩
  | realloc {s s' : AllocState} {live : ℕ → Option ℕ} {old size ptr : ℕ} (hsize : size ≤ maxRequest)
      (hold : (live old).isSome) (h : krealloc s old size = .ok (s', ptr)) :
      CallStep ⟨s, live⟩ (.realloc old size)
        ⟨s', if ptr = 0 then live else Session.returned (Function.update live old none) ptr size⟩
  | freeNull {s s' : AllocState} {live : ℕ → Option ℕ} (h : kfree s 0 = .ok s') :
      CallStep ⟨s, live⟩ (.free 0) ⟨s', live⟩
  | free {s s' : AllocState} {live : ℕ → Option ℕ} {old : ℕ} (hold : (live old).isSome)
      (h : kfree s old = .ok s') :
      CallStep ⟨s, live⟩ (.free old) ⟨s', Function.update live old none⟩
  | store {s : AllocState} {live : ℕ → Option ℕ} {ptr size offset : ℕ} {bytes : List (BitVec 8)}
      (hptr : live ptr = some size) (hbytes : offset + bytes.length ≤ s.size (getBlockPtr ptr)) :
      CallStep ⟨s, live⟩ (.store ptr offset bytes)
        ⟨{ s with memory := write s.memory (ptr + offset) bytes }, live⟩
  | storeOutside {s : AllocState} {live : ℕ → Option ℕ} {addr : ℕ} {bytes : List (BitVec 8)}
      (haddr : addr + bytes.length ≤ s.heapBegin ∨ (s.heapBegin : ℤ) + s.endOffset ≤ addr) :
      CallStep ⟨s, live⟩ (.storeOutside addr bytes)
        ⟨{ s with memory := write s.memory addr bytes }, live⟩

/-- The sessions that start with `init_alloc`. The image ends at a multiple of the page size, below
the end of the physical memory. -/
def FreshHeap (s : Session) : Prop :=
  ∃ memory endAddr, 0 < endAddr ∧ endAddr < 2 ^ 30 ∧ 32 ∣ endAddr ∧
    s = ⟨initAlloc memory endAddr, fun _ ↦ none⟩

/-- A sequence of calls that all return. -/
abbrev HeapRun : List (Transition Session Call) → Session → Prop := Run FreshHeap CallStep

end SysresOs.Memory
