import SysresOs.Lib.BitField
import SysresOs.Lib.Outcome
import SysresOs.Memory.Heap
import SysresOs.Files.Filesystem

/-!
# Words and blocks

Switching the order of the bytes of a word twice gives the word back, and gives zero for zero only.
A block that is in the image is read and written as it is.
-/

set_option autoImplicit false
set_option relaxedAutoImplicit false

namespace SysresOs.Files

open SysresOs.ByteMemory SysresOs.Outcome SysresOs.BitField
open SysresOs.Memory (toInt32 toInt32_eq)

/-! ### Integers -/

theorem add32_eq {a b : ℕ} (h : a + b < 2 ^ 32) : add32 a b = a + b := Nat.mod_eq_of_lt h

theorem sub32_eq {a b : ℕ} (h : b ≤ a) (ha : a < 2 ^ 32) : sub32 a b = a - b := by
  unfold sub32
  omega

theorem mul32_eq {a b : ℕ} (h : a * b < 2 ^ 32) : mul32 a b = a * b := Nat.mod_eq_of_lt h

theorem toUint32_natCast {n : ℕ} (h : n < 2 ^ 32) : toUint32 n = n := by
  unfold toUint32
  omega

theorem toInt32_natCast {n : ℕ} (h : n < 2 ^ 31) : toInt32 n = n := toInt32_eq (by omega) (by omega)

/-- A large `uint32_t` is a negative `int`. -/
theorem toInt32_neg {n : ℕ} (h : 2 ^ 31 ≤ n) (h' : n < 2 ^ 32) : toInt32 n < 0 := by
  have hle : toInt32 n = (n : ℤ) - 2 ^ 32 := by
    unfold toInt32
    rw [Int.bmod_def, if_neg]
    · omega
    · omega
  omega

/-- A `uint32_t` that is converted to an `int` and back is the same. -/
theorem toUint32_toInt32 {n : ℕ} (h : n < 2 ^ 32) : toUint32 (toInt32 n) = n := by
  have hmod : toInt32 n % 2 ^ 32 = n % 2 ^ 32 := Int.bmod_emod
  unfold toUint32
  omega

/-! ### The order of bytes -/

/-- Bit `i` of the switched word is in the byte at the other end. -/
theorem testBit_switchEndianness (n : ℕ) {i : ℕ} (hi : i < 32) :
    (switchEndianness n).testBit i = n.testBit (24 - i / 8 * 8 + i % 8) := by
  have hmask : ∀ hi lo : ℕ, lo ≤ hi →
      (2 ^ (hi + 1) - 2 ^ lo).testBit i = decide (lo ≤ i ∧ i ≤ hi) :=
    fun hi lo h ↦ testBit_pow_sub_pow h i
  have h0 := hmask 7 0 (by omega)
  have h1 := hmask 15 8 (by omega)
  have h2 := hmask 23 16 (by omega)
  have h3 := hmask 31 24 (by omega)
  norm_num at h0 h1 h2 h3
  unfold switchEndianness
  simp only [Nat.testBit_or, Nat.testBit_and, Nat.testBit_shiftRight, Nat.testBit_shiftLeft, h0, h1,
    h2, h3]
  obtain hlt | hlt | hlt | hlt : i < 8 ∨ 8 ≤ i ∧ i < 16 ∨ 16 ≤ i ∧ i < 24 ∨ 24 ≤ i := by omega
  · rw [show 24 - i / 8 * 8 + i % 8 = 24 + i by omega]
    simp [show i ≤ 7 by omega, show ¬ 8 ≤ i by omega, show ¬ 16 ≤ i by omega,
      show ¬ 24 ≤ i by omega]
  · rw [show 24 - i / 8 * 8 + i % 8 = 8 + i by omega]
    simp [show ¬ i ≤ 7 by omega, show 8 ≤ i by omega, show i ≤ 15 by omega, show ¬ 16 ≤ i by omega,
      show ¬ 24 ≤ i by omega]
  · rw [show 24 - i / 8 * 8 + i % 8 = i - 8 by omega]
    simp [show ¬ i ≤ 7 by omega, show 8 ≤ i by omega, show ¬ i ≤ 15 by omega, show 16 ≤ i by omega,
      show i ≤ 23 by omega, show ¬ 24 ≤ i by omega]
  · rw [show 24 - i / 8 * 8 + i % 8 = i - 24 by omega]
    simp [show ¬ i ≤ 7 by omega, show ¬ i ≤ 15 by omega, show ¬ i ≤ 23 by omega,
      show 24 ≤ i by omega,
      show i ≤ 31 by omega]

theorem switchEndianness_lt (n : ℕ) : switchEndianness n < 2 ^ 32 := by
  unfold switchEndianness
  refine Nat.or_lt_two_pow (Nat.or_lt_two_pow (Nat.or_lt_two_pow ?_ ?_) ?_) ?_
  · exact lt_of_le_of_lt Nat.and_le_right (by decide)
  · exact lt_of_le_of_lt Nat.and_le_right (by decide)
  · exact lt_of_le_of_lt Nat.and_le_right (by decide)
  · exact lt_of_le_of_lt Nat.and_le_right (by decide)

/-- Switching twice gives the word back. -/
theorem switchEndianness_switchEndianness {n : ℕ} (hn : n < 2 ^ 32) :
    switchEndianness (switchEndianness n) = n := by
  refine Nat.eq_of_testBit_eq fun i ↦ ?_
  rcases lt_or_ge i 32 with hi | hi
  · rw [testBit_switchEndianness _ hi, testBit_switchEndianness _ (by omega)]
    congr 1
    omega
  · have hpow : 2 ^ 32 ≤ 2 ^ i := Nat.pow_le_pow_right (by decide) hi
    rw [Nat.testBit_eq_false_of_lt (lt_of_lt_of_le (switchEndianness_lt _) hpow),
      Nat.testBit_eq_false_of_lt (lt_of_lt_of_le hn hpow)]

@[simp] theorem switchEndianness_zero : switchEndianness 0 = 0 := by decide

theorem switchEndianness_eq_zero {n : ℕ} (hn : n < 2 ^ 32) : switchEndianness n = 0 ↔ n = 0 := by
  refine ⟨fun h ↦ ?_, fun h ↦ by rw [h, switchEndianness_zero]⟩
  rw [← switchEndianness_switchEndianness hn, h, switchEndianness_zero]

/-! ### Blocks of the image -/

variable {fs : Filesystem} {n : ℕ}

/-- The blocks of the image are in the physical memory. -/
structure InMemory (fs : Filesystem) : Prop where
  blockSize_pos : 0 < fs.blockSize
  image_lt : fs.blockCount * fs.blockSize < 2 ^ 30

/-- The image and its blocks are in the physical memory, and a block is a number of words. -/
structure Layout (fs : Filesystem) : Prop where
  blockSize_pos : 0 < fs.blockSize
  blockSize_dvd : 4 ∣ fs.blockSize
  image_lt : fs.blockCount * fs.blockSize < 2 ^ 30

theorem Layout.inMemory (h : Layout fs) : InMemory fs := ⟨h.blockSize_pos, h.image_lt⟩

/-- `init_filesystem` finds the blocks of an image whose last word is their size. -/
theorem inMemory_initFilesystem {image : Memory} {size : ℕ} (descriptors : ℕ → FileDescriptor)
    (hsize : 4 ≤ size) (hlt : size ≤ 2 ^ 30)
    (hpos : 0 < switchEndianness (load image (size - 4) 4)) :
    InMemory (initFilesystem image size descriptors) where
  blockSize_pos := hpos
  image_lt := by
    have hle := Nat.div_mul_le_self (size - 4) (switchEndianness (load image (size - 4) 4))
    have hcount : sub32 size 4 = size - 4 := sub32_eq hsize (by omega)
    simp only [initFilesystem, hcount]
    omega

theorem layout_initFilesystem {image : Memory} {size : ℕ} (descriptors : ℕ → FileDescriptor)
    (hsize : 4 ≤ size) (hlt : size ≤ 2 ^ 30) (hpos : 0 < switchEndianness (load image (size - 4) 4))
    (hdvd : 4 ∣ switchEndianness (load image (size - 4) 4)) :
    Layout (initFilesystem image size descriptors) where
  blockSize_pos := hpos
  blockSize_dvd := hdvd
  image_lt := (inMemory_initFilesystem descriptors hsize hlt hpos).image_lt

theorem InMemory.blockEnd_le (hn : n < fs.blockCount) : n * fs.blockSize + fs.blockSize ≤
    fs.blockCount * fs.blockSize := by
  have hle : (n + 1) * fs.blockSize ≤ fs.blockCount * fs.blockSize := Nat.mul_le_mul_right _ hn
  rwa [Nat.succ_mul] at hle

theorem Layout.congr {fs' : Filesystem} (h : Layout fs) (hsize : fs'.blockSize = fs.blockSize)
    (hcount : fs'.blockCount = fs.blockCount) : Layout fs' := by
  apply Layout.mk
  · rw [hsize]
    exact h.blockSize_pos
  · rw [hsize]
    exact h.blockSize_dvd
  · rw [hsize, hcount]
    exact h.image_lt

theorem InMemory.congr {fs' : Filesystem} (h : InMemory fs) (hsize : fs'.blockSize = fs.blockSize)
    (hcount : fs'.blockCount = fs.blockCount) : InMemory fs' := by
  apply InMemory.mk
  · rw [hsize]
    exact h.blockSize_pos
  · rw [hsize, hcount]
    exact h.image_lt

/-- Block numbers and block sizes are small. -/
theorem InMemory.bounds (h : InMemory fs) (hn : n < fs.blockCount) :
    n < 2 ^ 30 ∧ fs.blockSize < 2 ^ 30 ∧ n * fs.blockSize < 2 ^ 30 := by
  have hend := InMemory.blockEnd_le hn
  have hlt := h.image_lt
  have hpos := h.blockSize_pos
  have hcount : n ≤ n * fs.blockSize := Nat.le_mul_of_pos_right n hpos
  omega

theorem seekBlock_eq (h : InMemory fs) (hn : n < fs.blockCount) :
    seekBlock fs n = .ok { fs with seekCursor := n * fs.blockSize } := by
  obtain ⟨hn30, hsize, hmul⟩ := h.bounds hn
  rw [seekBlock, toUint32_natCast (by omega), mul32_eq (by omega), assert_pos hn, ok_bind]

/-- The content of a block. -/
def content (fs : Filesystem) (n : ℕ) : Memory := fun i ↦
  if i < fs.blockSize then fs.image (n * fs.blockSize + i) else 0

theorem readBlock_eq (h : InMemory fs) (hn : n < fs.blockCount) :
    readBlock fs n = .ok ({ fs with seekCursor := n * fs.blockSize }, content fs n) := by
  unfold readBlock
  rw [seekBlock_eq h hn, ok_bind]
  rfl

/-- A number that is no number of a block does not pass the assertion. -/
theorem seekBlock_of_le (hlt : n < 2 ^ 32) (hn : fs.blockCount ≤ n) :
    seekBlock fs (toInt32 n) = .error (.assertion .seekBlock) := by
  rw [seekBlock, toUint32_toInt32 hlt, assert_neg (not_lt.mpr hn)]
  rfl

theorem readBlock_of_le (hlt : n < 2 ^ 32) (hn : fs.blockCount ≤ n) :
    readBlock fs (toInt32 n) = .error (.assertion .seekBlock) := by
  rw [readBlock, seekBlock_of_le hlt hn, error_bind]

/-- Putting a content in the place of a block. -/
def putBlock (fs : Filesystem) (n : ℕ) (c : Memory) : Memory := fun x ↦
  if n * fs.blockSize ≤ x ∧ x < n * fs.blockSize + fs.blockSize then c (x - n * fs.blockSize)
    else fs.image x

theorem writeBlock_eq (h : InMemory fs) (hn : n < fs.blockCount) (c : Memory) :
    writeBlock fs n c = .ok { fs with
      image := putBlock fs n c, seekCursor := n * fs.blockSize } := by
  unfold writeBlock
  rw [seekBlock_eq h hn, ok_bind]
  rfl

/-- Behind the end of a block is zero. -/
theorem word_content_of_le {i : ℕ} (hi : fs.blockSize ≤ 4 * i) : word (content fs n) i = 0 := by
  have hzero : ∀ j ∈ List.range 4, content fs n (4 * i + j) = 0 := fun j _ ↦ by
    unfold content
    rw [if_neg (by omega)]
  rw [word, load, ByteMemory.read, List.map_congr_left hzero]
  decide

/-- The words of a content are those of its bytes. -/
theorem word_congr {c c' : Memory} {size i : ℕ} (hi : 4 * i + 4 ≤ size)
    (h : ∀ j < size, c' j = c j) : word c' i = word c i :=
  load_congr fun x _ hx ↦ h x (by omega)

/-- Word `i` of a block, as a number. -/
def blockWord (fs : Filesystem) (n i : ℕ) : ℕ := switchEndianness (word (content fs n) i)

theorem blockWord_eq_zero {i : ℕ} : blockWord fs n i = 0 ↔ word (content fs n) i = 0 :=
  switchEndianness_eq_zero (load_lt _ _ _)

/-! ### The block of a byte -/

/-- Everything but the image and the cursors is the same. -/
structure SameFields (fs fs' : Filesystem) : Prop where
  blockSize : fs'.blockSize = fs.blockSize
  blockCount : fs'.blockCount = fs.blockCount
  rootInode : fs'.rootInode = fs.rootInode
  maxFileSize : fs'.maxFileSize = fs.maxFileSize
  descriptors : fs'.descriptors = fs.descriptors

theorem SameFields.refl (fs : Filesystem) : SameFields fs fs := ⟨rfl, rfl, rfl, rfl, rfl⟩

theorem SameFields.trans {fs₁ fs₂ fs₃ : Filesystem} (h : SameFields fs₁ fs₂)
    (h' : SameFields fs₂ fs₃) : SameFields fs₁ fs₃ :=
  ⟨h'.blockSize.trans h.blockSize, h'.blockCount.trans h.blockCount, h'.rootInode.trans h.rootInode,
    h'.maxFileSize.trans h.maxFileSize, h'.descriptors.trans h.descriptors⟩

/-- The two images agree outside a block. -/
def SameOutside (fs fs' : Filesystem) (n : ℕ) : Prop :=
  ∀ x, x / fs.blockSize ≠ n → fs'.image x = fs.image x

variable {fs' : Filesystem}

theorem div_blockSize {j : ℕ} (hj : j < fs.blockSize) :
    (n * fs.blockSize + j) / fs.blockSize = n := by
  rw [Nat.mul_comm, Nat.mul_add_div (by omega), Nat.div_eq_of_lt hj, Nat.add_zero]

/-- The content of a block depends on its bytes only. -/
theorem content_congr (hsize : fs'.blockSize = fs.blockSize)
    (himage : ∀ x, x / fs.blockSize = n → fs'.image x = fs.image x) :
    content fs' n = content fs n := by
  ext1 j
  unfold content
  rw [hsize]
  split_ifs with hj
  · apply himage
    exact div_blockSize hj
  · rfl

theorem putBlock_of_ne (hpos : 0 < fs.blockSize) (c : Memory) {x : ℕ} (hx : x / fs.blockSize ≠ n) :
    putBlock fs n c x = fs.image x := by
  unfold putBlock
  rw [if_neg]
  intro hmem
  apply hx
  rw [Nat.div_eq_iff hpos]
  omega

theorem putBlock_apply {c : Memory} {j : ℕ} (hj : j < fs.blockSize) :
    putBlock fs n c (n * fs.blockSize + j) = c j := by
  unfold putBlock
  rw [if_pos (by omega), Nat.add_sub_cancel_left]

/-- What is put in the place of a block is its content afterwards. -/
theorem content_putBlock (c : Memory) (k : ℕ) {j : ℕ} (hj : j < fs.blockSize) :
    content { fs with image := putBlock fs n c, seekCursor := k } n j = c j := by
  unfold content
  rw [if_pos hj]
  exact putBlock_apply hj

theorem blockWord_putBlock (c : Memory) (k : ℕ) {i : ℕ} (hi : 4 * i + 4 ≤ fs.blockSize) :
    blockWord { fs with image := putBlock fs n c, seekCursor := k } n i =
      switchEndianness (word c i) := by
  rw [blockWord, word_congr hi fun j hj ↦ content_putBlock c k hj]

/-- Storing a zero in the place of another word changes the image. -/
theorem putBlock_store_ne {i : ℕ} (hi : 4 * i + 4 ≤ fs.blockSize)
    (hne : word (content fs n) i ≠ 0) :
    putBlock fs n (store (content fs n) (4 * i) 4 0) ≠ fs.image := by
  intro heq
  have hput : blockWord { fs with
      image := putBlock fs n (store (content fs n) (4 * i) 4 0)
      seekCursor := fs.seekCursor } n i = _ := blockWord_putBlock _ _ hi
  rw [heq, word, load_store (by decide), switchEndianness_zero] at hput
  exact hne (blockWord_eq_zero.mp hput)

end SysresOs.Files
