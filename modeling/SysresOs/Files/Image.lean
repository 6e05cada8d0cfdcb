import Mathlib.Data.Finset.Card
import Mathlib.Order.Interval.Finset.Nat
import SysresOs.Files.FreeList

/-!
# Files of an image

A byte of a file has an address in the image: the table of the inode has the number of its block. In
a well-formed image no two bytes of files share an address, and none is in an inode block or in an
index block (`WellFormed.fileAddr_inj`). The number of the blocks of a file is hence at most that of
the blocks of the image, so that its size is no large number (`WellFormed.fileSize_lt`).
-/

set_option autoImplicit false
set_option relaxedAutoImplicit false

namespace SysresOs.Files

open SysresOs.ByteMemory SysresOs.Outcome

/-! ### Inodes and addresses -/

/-- The size in the inode block `n`. -/
def fileSize (fs : Filesystem) (n : ℕ) : ℕ :=
  switchEndianness (load fs.image (n * fs.blockSize + 8) 4)

/-- The number of blocks that so many bytes are in. -/
def blocksFor (fs : Filesystem) (size : ℕ) : ℕ := (size + fs.blockSize - 1) / fs.blockSize

/-- Entry `k` of the table in the inode block `n`. -/
def dataBlock (fs : Filesystem) (n k : ℕ) : ℕ :=
  switchEndianness (load fs.image (n * fs.blockSize + 12 + 4 * k) 4)

/-- The address of byte `i` of the file with the inode `n`. -/
def fileAddr (fs : Filesystem) (n i : ℕ) : ℕ :=
  dataBlock fs n (i / fs.blockSize) * fs.blockSize + i % fs.blockSize

/-- Byte `i` of the file with the inode `n`. -/
def fileByte (fs : Filesystem) (n i : ℕ) : BitVec 8 := fs.image (fileAddr fs n i)

/-- The data blocks of all files are distinct, in the image, and neither inode nor index blocks. The
table of a file is in its inode block. -/
structure WellFormed (fs : Filesystem) (inodes index : Set ℕ) : Prop where
  layout : Layout fs
  inode_lt : ∀ n ∈ inodes, n < fs.blockCount
  fits : ∀ n ∈ inodes, 12 + 4 * blocksFor fs (fileSize fs n) ≤ fs.blockSize
  data_lt : ∀ n ∈ inodes, ∀ k < blocksFor fs (fileSize fs n), dataBlock fs n k < fs.blockCount
  data_not_inode : ∀ n ∈ inodes, ∀ k < blocksFor fs (fileSize fs n), dataBlock fs n k ∉ inodes
  data_not_index : ∀ n ∈ inodes, ∀ k < blocksFor fs (fileSize fs n), dataBlock fs n k ∉ index
  data_inj : ∀ n ∈ inodes, ∀ n' ∈ inodes, ∀ k < blocksFor fs (fileSize fs n),
    ∀ k' < blocksFor fs (fileSize fs n'), dataBlock fs n k = dataBlock fs n' k' → n = n' ∧ k = k'

/-- The descriptor `d` is open on the file with the inode `n`. -/
structure IsOpen (fs : Filesystem) (d n : ℕ) : Prop where
  slot_lt : d < maxFileDescriptors
  closed_eq : (fs.descriptors d).closed = 0
  index_eq : (fs.descriptors d).inode.index = n
  blocks_eq : (fs.descriptors d).inode.blocks = n * fs.blockSize + 12
  size_le : (fs.descriptors d).inode.size ≤ fileSize fs n
  pos_le : (fs.descriptors d).pos ≤ (fs.descriptors d).inode.size

variable {fs fs' : Filesystem} {inodes index : Set ℕ} {n k i j size : ℕ}

theorem blocksFor_mul (hpos : 0 < fs.blockSize) : size ≤ blocksFor fs size * fs.blockSize := by
  have hlt := Nat.lt_div_mul_add hpos (a := size + fs.blockSize - 1)
  unfold blocksFor
  omega

/-- The block of a byte is one of those the bytes are in. -/
theorem div_lt_blocksFor (hpos : 0 < fs.blockSize) (hi : i < size) :
    i / fs.blockSize < blocksFor fs size := by
  rw [Nat.div_lt_iff_lt_mul hpos]
  exact lt_of_lt_of_le hi (blocksFor_mul hpos)

theorem fileAddr_div (hpos : 0 < fs.blockSize) :
    fileAddr fs n i / fs.blockSize = dataBlock fs n (i / fs.blockSize) :=
  div_blockSize (Nat.mod_lt i hpos)

theorem fileAddr_mod : fileAddr fs n i % fs.blockSize = i % fs.blockSize := by
  rw [fileAddr, Nat.mul_add_mod', Nat.mod_mod]

/-- Bytes in a row in one block have addresses in a row. -/
theorem fileAddr_add (h : i % fs.blockSize + j < fs.blockSize) :
    fileAddr fs n (i + j) = fileAddr fs n i + j := by
  have hdecomp := Nat.div_add_mod i fs.blockSize
  have hdiv : (i + j) / fs.blockSize = i / fs.blockSize := by
    rw [← hdecomp, Nat.add_assoc, Nat.mul_add_div (by omega), Nat.div_eq_of_lt h,
      hdecomp, Nat.add_zero]
  have hmod : (i + j) % fs.blockSize = i % fs.blockSize + j := by
    conv_lhs => rw [← hdecomp, Nat.add_assoc, Nat.mul_add_mod, Nat.mod_eq_of_lt h]
  rw [fileAddr, hdiv, hmod, fileAddr, Nat.add_assoc]

namespace WellFormed

variable (h : WellFormed fs inodes index) (hn : n ∈ inodes)

include h hn

/-- The blocks of a file are at most those of the image. -/
theorem blocksFor_le : blocksFor fs (fileSize fs n) ≤ fs.blockCount := by
  have hcard := Finset.card_le_card_of_injOn (dataBlock fs n)
    (fun k hk ↦ Finset.mem_coe.mpr
    (Finset.mem_range.mpr (h.data_lt n hn k (Finset.mem_range.mp hk)))) (fun k hk k' hk' heq ↦
      (h.data_inj n hn n hn k (Finset.mem_range.mp hk) k' (Finset.mem_range.mp hk') heq).2)
  rwa [Finset.card_range, Finset.card_range] at hcard

theorem fileSize_lt : fileSize fs n < 2 ^ 30 := by
  calc fileSize fs n ≤ blocksFor fs (fileSize fs n) * fs.blockSize :=
        blocksFor_mul h.layout.blockSize_pos
    _ ≤ fs.blockCount * fs.blockSize := Nat.mul_le_mul_right _ (h.blocksFor_le hn)
    _ < 2 ^ 30 := h.layout.image_lt

/-- No two bytes of a file share an address. -/
theorem fileAddr_inj (hi : i < fileSize fs n) (hj : j < fileSize fs n)
    (heq : fileAddr fs n i = fileAddr fs n j) : i = j := by
  have hpos := h.layout.blockSize_pos
  have hblock : dataBlock fs n (i / fs.blockSize) = dataBlock fs n (j / fs.blockSize) := by
    rw [← fileAddr_div hpos, heq, fileAddr_div hpos]
  have hmod : i % fs.blockSize = j % fs.blockSize := by rw [← fileAddr_mod, heq, fileAddr_mod]
  have hdiv :=
    (h.data_inj n hn n hn _ (div_lt_blocksFor hpos hi) _ (div_lt_blocksFor hpos hj) hblock).2
  rw [← Nat.div_add_mod i fs.blockSize, hdiv, hmod, Nat.div_add_mod]

theorem data_block_lt (hi : i < fileSize fs n) :
    dataBlock fs n (i / fs.blockSize) < fs.blockCount :=
  h.data_lt n hn _ (div_lt_blocksFor h.layout.blockSize_pos hi)

end WellFormed

theorem dataBlock_lt (fs : Filesystem) (n k : ℕ) : dataBlock fs n k < 2 ^ 32 :=
  switchEndianness_lt _

/-! ### What the files depend on -/

/-- The inode block is the same in both images, which have blocks of the same size. -/
structure SameInode (fs fs' : Filesystem) (n : ℕ) : Prop where
  blockSize : fs'.blockSize = fs.blockSize
  image : ∀ x, x / fs.blockSize = n → fs'.image x = fs.image x

namespace SameInode

theorem load_eq (h : SameInode fs fs' n) (hi : i + 4 ≤ fs.blockSize) :
    load fs'.image (n * fs'.blockSize + i) 4 = load fs.image (n * fs.blockSize + i) 4 := by
  rw [h.blockSize]
  refine load_congr fun x hx hx' ↦ h.image x ?_
  obtain ⟨j, rfl⟩ := Nat.exists_eq_add_of_le (le_trans (Nat.le_add_right _ i) hx)
  exact div_blockSize (by omega)

theorem fileSize_eq (h : SameInode fs fs' n) (hsize : 12 ≤ fs.blockSize) :
    fileSize fs' n = fileSize fs n := by
  rw [fileSize, h.load_eq (by omega), fileSize]

theorem dataBlock_eq (h : SameInode fs fs' n) (hk : 12 + 4 * k + 4 ≤ fs.blockSize) :
    dataBlock fs' n k = dataBlock fs n k := by
  rw [dataBlock, Nat.add_assoc, h.load_eq (by omega), dataBlock, Nat.add_assoc]

theorem fileAddr_eq (h : SameInode fs fs' n) (hi : 12 + 4 * (i / fs.blockSize) + 4 ≤ fs.blockSize) :
    fileAddr fs' n i = fileAddr fs n i := by
  rw [fileAddr, h.blockSize, h.dataBlock_eq hi, fileAddr]

end SameInode

theorem blocksFor_congr (hsize : fs'.blockSize = fs.blockSize) :
    blocksFor fs' size = blocksFor fs size := by
  rw [blocksFor, hsize, blocksFor]

/-- An image is well formed if another one with the same inode blocks is. -/
theorem WellFormed.congr (h : WellFormed fs inodes index) (hsize : fs'.blockSize = fs.blockSize)
    (hcount : fs'.blockCount = fs.blockCount) (hsame : ∀ n ∈ inodes, SameInode fs fs' n) :
    WellFormed fs' inodes index := by
  have hfile : ∀ n ∈ inodes, blocksFor fs' (fileSize fs' n) = blocksFor fs (fileSize fs n) := by
    intro n hn
    have hfits := h.fits n hn
    rw [(hsame n hn).fileSize_eq (by omega), blocksFor_congr hsize]
  have hdata : ∀ n ∈ inodes, ∀ k < blocksFor fs (fileSize fs n), dataBlock fs' n k =
      dataBlock fs n k :=
    fun n hn k hk ↦ by
      have hfits := h.fits n hn
      exact (hsame n hn).dataBlock_eq (by omega)
  refine ⟨h.layout.congr hsize hcount, fun n hn ↦ ?_, fun n hn ↦ ?_, fun n hn k hk ↦ ?_,
    fun n hn k hk ↦ ?_, fun n hn k hk ↦ ?_, fun n hn n' hn' k hk k' hk' heq ↦ ?_⟩
  · rw [hcount]
    exact h.inode_lt n hn
  · rw [hfile n hn, hsize]
    exact h.fits n hn
  · rw [hfile n hn] at hk
    rw [hdata n hn k hk, hcount]
    exact h.data_lt n hn k hk
  · rw [hfile n hn] at hk
    rw [hdata n hn k hk]
    exact h.data_not_inode n hn k hk
  · rw [hfile n hn] at hk
    rw [hdata n hn k hk]
    exact h.data_not_index n hn k hk
  · rw [hfile n hn] at hk
    rw [hfile n' hn'] at hk'
    rw [hdata n hn k hk, hdata n' hn' k' hk'] at heq
    exact h.data_inj n hn n' hn' k hk k' hk' heq

/-! ### The small disk -/

/-- The small disk with a descriptor of its file at a position. -/
def openDisk (pos : ℕ) : Filesystem :=
  { smallDisk with
    descriptors := Function.update smallDisk.descriptors 0 ⟨⟨1, 1, 1, 40, 44⟩, pos, 0⟩ }

theorem wellFormed_smallDisk : WellFormed smallDisk {1} {2} := by
  have hsize : fileSize smallDisk 1 = 40 := by decide +kernel
  have hzero : dataBlock smallDisk 1 0 = 3 := by decide +kernel
  have hone : dataBlock smallDisk 1 1 = 4 := by decide +kernel
  have hdata : ∀ k < blocksFor smallDisk 40, dataBlock smallDisk 1 k = k + 3 := fun k hk ↦ by
    have hlt : k < 2 := hk
    obtain rfl | rfl : k = 0 ∨ k = 1 := by omega
    · exact hzero
    · exact hone
  have hblocks : blocksFor smallDisk 40 = 2 := by decide
  refine ⟨layout_smallDisk, ?_, ?_, ?_, ?_, ?_, ?_⟩
  · rintro n rfl
    decide
  · rintro n rfl
    rw [hsize]
    decide
  · rintro n rfl k hk
    rw [hsize] at hk
    rw [hdata k hk]
    change k + 3 < 8
    omega
  · rintro n rfl k hk hmem
    rw [hsize] at hk
    rw [hdata k hk] at hmem
    exact absurd (Set.mem_singleton_iff.mp hmem) (by omega)
  · rintro n rfl k hk hmem
    rw [hsize] at hk
    rw [hdata k hk] at hmem
    exact absurd (Set.mem_singleton_iff.mp hmem) (by omega)
  · rintro n rfl n' rfl k hk k' hk' heq
    rw [hsize] at hk hk'
    rw [hdata k hk, hdata k' hk'] at heq
    exact ⟨rfl, by omega⟩

theorem wellFormed_openDisk (pos : ℕ) : WellFormed (openDisk pos) {1} {2} :=
  wellFormed_smallDisk.congr rfl rfl fun _ _ ↦ ⟨rfl, fun _ _ ↦ rfl⟩

theorem isOpen_openDisk {pos : ℕ} (hpos : pos ≤ 40) : IsOpen (openDisk pos) 0 1 := by
  have hsize : fileSize smallDisk 1 = 40 := by decide +kernel
  exact ⟨by decide, rfl, rfl, rfl, hsize.ge, hpos⟩

/-! ### Writing into a block -/

/-- Bytes written into the content of a block are in the image at their addresses. -/
theorem putBlock_write {o : ℕ} {bytes : List (BitVec 8)} (ho : o + bytes.length ≤ fs.blockSize) :
    putBlock fs n (write (content fs n) o bytes) = write fs.image (n * fs.blockSize + o) bytes := by
  ext1 x
  unfold putBlock
  split_ifs with hx
  · obtain ⟨j, rfl⟩ := Nat.exists_eq_add_of_le hx.1
    have hj : j < fs.blockSize := by omega
    rw [Nat.add_sub_cancel_left]
    unfold write content
    simp only [Nat.add_le_add_iff_left, if_pos hj, Nat.add_sub_add_left]
  · rw [write_of_not_mem (by omega)]

end SysresOs.Files
