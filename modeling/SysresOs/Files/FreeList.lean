import SysresOs.Files.Words

/-!
# The free list

The free blocks are in a chain of index blocks. The first word of an index block is the number of
the next one, and its other words are numbers of free blocks, up to a zero or to the end of the
block. `alloc_block` takes the last entry of the first index block, and the index block itself once
it has no entry left (`FreeList.step`). A chain of `n` blocks is hence handed out in `n` calls, in
an order that the chain fixes (`drained`), and every call changes only the index block that is the
first one at that time (`FreeList.drains`).

The routine has no case for an empty list. A list that has ended has the superblock as its first
index block: the next call hands out the superblock or takes a word out of it
(`FreeList.not_refusesWhenFull`).
-/

set_option autoImplicit false
set_option relaxedAutoImplicit false

namespace SysresOs.Files

open SysresOs.ByteMemory SysresOs.Outcome
open SysresOs.Memory (toInt32)

/-! ### Chains of index blocks -/

/-- An index block and the free blocks it has the numbers of. -/
structure IndexBlock where
  number : ℕ
  entries : List ℕ

/-- The number of the first index block of a chain, or zero. -/
def headOf : List IndexBlock → ℕ
  | [] => 0
  | b :: _ => b.number

/-- The block `b.number` holds the number `next` and the entries of `b`, which end with a zero or
with the block. -/
structure IsIndexBlock (fs : Filesystem) (next : ℕ) (b : IndexBlock) : Prop where
  number_ne : b.number ≠ 0
  number_lt : b.number < fs.blockCount
  next_eq : blockWord fs b.number 0 = next
  fits : b.entries.length < fs.blockSize / 4
  entries_eq : ∀ i (hi : i < b.entries.length), blockWord fs b.number (i + 1) = b.entries[i]
  entries_ne : ∀ e ∈ b.entries, e ≠ 0
  entries_lt : ∀ e ∈ b.entries, e < fs.blockCount
  ends : b.entries.length + 1 < fs.blockSize / 4 → blockWord fs b.number (b.entries.length + 1) = 0

/-- Every index block holds the number of the one behind it. -/
def IsChain (fs : Filesystem) : List IndexBlock → Prop
  | [] => True
  | b :: chain => IsIndexBlock fs (headOf chain) b ∧ IsChain fs chain

/-- The blocks of a chain: index blocks and entries. -/
def blocksOf (chain : List IndexBlock) : List ℕ := chain.flatMap fun b ↦ b.number :: b.entries

/-- The blocks of a chain in the order in which they are handed out. -/
def drained (chain : List IndexBlock) : List ℕ :=
  chain.flatMap fun b ↦ b.entries.reverse ++ [b.number]

/-- The free list of the filesystem is a chain of blocks that are all distinct. -/
structure FreeList (fs : Filesystem) (chain : List IndexBlock) : Prop where
  layout : Layout fs
  head : fs.freeBlockList = headOf chain
  isChain : IsChain fs chain
  nodup : (blocksOf chain).Nodup

theorem blocksOf_cons (b : IndexBlock) (chain : List IndexBlock) :
    blocksOf (b :: chain) = (b.number :: b.entries) ++ blocksOf chain := rfl

theorem drained_perm (chain : List IndexBlock) : (drained chain).Perm (blocksOf chain) := by
  induction chain with
  | nil => exact List.Perm.refl _
  | cons b chain ih =>
    apply List.Perm.append _ ih
    exact (List.perm_append_singleton _ _).trans ((List.reverse_perm b.entries).cons b.number)

/-- A run of calls of `alloc_block`, with the numbers it returns. -/
def allocBlocks : ℕ → Filesystem → Except Stop (Filesystem × List ℤ)
  | 0, fs => .ok (fs, [])
  | n + 1, fs => do
    let (fs, block) ← allocBlock fs
    let (fs, blocks) ← allocBlocks n fs
    .ok (fs, block :: blocks)

/-! ### A small disk -/

/-- An image that has the given numbers as words. -/
def imageOf (words : List (ℕ × ℕ)) : Memory :=
  words.foldl (fun m w ↦ store m (4 * w.1) 4 (switchEndianness w.2)) fun _ ↦ 0

/-- Eight blocks of 32 bytes: the superblock, an inode of a file of 40 bytes in the blocks 3 and 4,
and an index block with the free blocks 5 and 6. -/
def smallDisk : Filesystem where
  image := imageOf [(0, 1), (2, 2), (3, 3), (4, 1), (8, 1), (9, 1), (10, 40), (11, 3), (12, 4),
    (17, 5), (18, 6)]
  blockSize := 32
  blockCount := 8
  freeBlockList := 2
  rootInode := 1
  maxFileSize := 160
  seekCursor := 0
  descriptors := fun _ ↦ ⟨⟨0, 0, 0, 0, 0⟩, 0, 1⟩

theorem layout_smallDisk : Layout smallDisk := ⟨by decide, by decide, by decide⟩

theorem freeList_smallDisk : FreeList smallDisk [⟨2, [5, 6]⟩] := by
  refine ⟨layout_smallDisk, rfl,
    ⟨⟨by decide, by decide, ?_, by decide, ?_, by decide, by decide, fun _ ↦ ?_⟩,
    trivial⟩, by decide⟩
  · decide +kernel
  · decide +kernel
  · decide +kernel

variable {fs fs' : Filesystem} {n : ℕ}

/-! ### What a chain depends on -/

theorem IsIndexBlock.congr {next : ℕ} {b : IndexBlock} (h : IsIndexBlock fs next b)
    (hsize : fs'.blockSize = fs.blockSize) (hcount : fs'.blockCount = fs.blockCount)
    (himage : ∀ x, x / fs.blockSize = b.number → fs'.image x = fs.image x) :
    IsIndexBlock fs' next b := by
  have hword : ∀ j, blockWord fs' b.number j = blockWord fs b.number j := fun j ↦ by
    rw [blockWord, content_congr hsize himage, blockWord]
  exact ⟨h.number_ne, hcount ▸ h.number_lt, (hword 0).trans h.next_eq, hsize ▸ h.fits,
    fun i hi ↦ (hword _).trans (h.entries_eq i hi), h.entries_ne, hcount ▸ h.entries_lt,
    fun hlt ↦ (hword _).trans (h.ends (hsize ▸ hlt))⟩

/-- A chain depends on its index blocks only. -/
theorem IsChain.congr {chain : List IndexBlock} (h : IsChain fs chain)
    (hsize : fs'.blockSize = fs.blockSize) (hcount : fs'.blockCount = fs.blockCount)
    (himage : ∀ b ∈ chain, ∀ x, x / fs.blockSize = b.number → fs'.image x = fs.image x) :
    IsChain fs' chain := by
  induction chain with
  | nil => trivial
  | cons b chain ih =>
    apply And.intro
    · exact h.1.congr hsize hcount (himage b List.mem_cons_self)
    · exact ih h.2 fun c hc ↦ himage c (List.mem_cons_of_mem b hc)

theorem IsChain.number_mem {chain : List IndexBlock} {b : IndexBlock} (hb : b ∈ chain) :
    b.number ∈ blocksOf chain :=
  List.mem_flatMap.mpr ⟨b, hb, List.mem_cons_self⟩

/-! ### The last entry -/

/-- The comparison is inside the switch of the bytes, which changes nothing. -/
theorem switchEndianness_ne_zero_of_ne (v : ℕ) :
    switchEndianness (if v ≠ 0 then 1 else 0) ≠ 0 ↔ v ≠ 0 := by
  by_cases hv : v = 0
  · simp [hv]
  · have hone : switchEndianness 1 ≠ 0 := by decide
    simp [hv, hone]

/-- The search goes on over words that are not zero, and stops at the last one. -/
theorem lastEntry_eq {c : Memory} {count last bound offset : ℕ} (hle : offset ≤ last)
    (hlast : last < count) (hbound : last - offset ≤ bound)
    (hne : ∀ i, offset < i → i ≤ last → word c i ≠ 0)
    (hend : last + 1 < count → word c (last + 1) = 0) : lastEntry c count bound offset = last := by
  induction bound generalizing offset with
  | zero =>
    have heq : offset = last := by omega
    rw [lastEntry, heq]
  | succ bound ih =>
    simp only [lastEntry, switchEndianness_ne_zero_of_ne]
    rcases hle.eq_or_lt with rfl | hlt
    · rw [if_neg]
      rintro ⟨hcount, hword⟩
      exact hword (hend hcount)
    · rw [if_pos ⟨by omega, hne _ (by omega) (by omega)⟩]
      apply ih
      · omega
      · omega
      · exact fun i hi hi' ↦ hne i (by omega) hi'

/-- The search ends at a word of the block that is not zero. -/
theorem lastEntry_spec {c : Memory} {count offset : ℕ} (bound : ℕ) (hlt : offset < count)
    (hne : word c offset ≠ 0) :
    lastEntry c count bound offset < count ∧ offset ≤ lastEntry c count bound offset ∧
      word c (lastEntry c count bound offset) ≠ 0 := by
  induction bound generalizing offset with
  | zero => exact ⟨hlt, le_rfl, hne⟩
  | succ bound ih =>
    simp only [lastEntry, switchEndianness_ne_zero_of_ne]
    split_ifs with hnext
    · have hrec := ih hnext.1 hnext.2
      exact ⟨hrec.1, by omega, hrec.2.2⟩
    · exact ⟨hlt, le_rfl, hne⟩

/-! ### One call -/

/-- What an index block without entries starts with. -/
theorem IsIndexBlock.word_one {next : ℕ} {b : IndexBlock} (h : IsIndexBlock fs next b)
    (hdvd : 4 ∣ fs.blockSize) (hempty : b.entries = []) : blockWord fs b.number 1 = 0 := by
  have hends := h.ends
  rw [hempty, List.length_nil] at hends
  by_cases hlt : 0 + 1 < fs.blockSize / 4
  · exact hends hlt
  · rw [blockWord_eq_zero]
    apply word_content_of_le
    omega

/-- An index block without entries is handed out, and the next one becomes the first. -/
theorem FreeList.step_nil {number : ℕ} {chain : List IndexBlock}
    (h : FreeList fs (⟨number, []⟩ :: chain)) :
    ∃ fs', allocBlock fs = .ok (fs', number) ∧ FreeList fs' chain ∧ SameFields fs fs' ∧
      fs'.image = fs.image := by
  have hindex : IsIndexBlock fs (headOf chain) ⟨number, []⟩ := h.isChain.1
  have hhead : fs.freeBlockList = number := h.head
  have hlt : number < 2 ^ 30 := (h.layout.inMemory.bounds hindex.number_lt).1
  have hone : switchEndianness (word (content fs number) 1) = 0 :=
    hindex.word_one h.layout.blockSize_dvd rfl
  have hnext : switchEndianness (word (content fs number) 0) = headOf chain := hindex.next_eq
  have hnodup : (blocksOf chain).Nodup := (List.nodup_append.mp h.nodup).2.1
  refine ⟨{ fs with seekCursor := number * fs.blockSize, freeBlockList := headOf chain }, ?_, ?_,
    ⟨rfl, rfl, rfl, rfl, rfl⟩, rfl⟩
  · rw [allocBlock, hhead, toInt32_natCast (by omega),
      readBlock_eq h.layout.inMemory hindex.number_lt, ok_bind]
    simp only [hone, hnext, hhead, if_true]
    rw [toInt32_natCast (by omega)]
  · exact ⟨h.layout.congr rfl rfl, rfl, h.isChain.2.congr rfl rfl fun _ _ _ _ ↦ rfl, hnodup⟩

/-- A zero in the place of the last entry takes it away. -/
theorem IsIndexBlock.dropLast {number next e : ℕ} {entries : List ℕ}
    (h : IsIndexBlock fs next ⟨number, entries ++ [e]⟩) (hdvd : 4 ∣ fs.blockSize) :
    IsIndexBlock { fs with
      image := putBlock fs number (store (content fs number) (4 * (entries.length + 1)) 4 0)
      seekCursor := number * fs.blockSize } next ⟨number, entries⟩ := by
  have hlength : (entries ++ [e]).length = entries.length + 1 := by simp
  have hfits : entries.length + 1 < fs.blockSize / 4 := hlength ▸ h.fits
  have hstore : ∀ i, i < fs.blockSize / 4 → blockWord { fs with
      image := putBlock fs number (store (content fs number) (4 * (entries.length + 1)) 4 0)
      seekCursor := number * fs.blockSize } number i =
        if i = entries.length + 1 then 0 else blockWord fs number i := fun i hi ↦ by
    rw [blockWord_putBlock _ _ (by omega), word]
    split_ifs with heq
    · rw [heq, load_store (by decide), switchEndianness_zero]
    · rw [load_store_of_disjoint (by omega), blockWord, word]
  refine ⟨h.number_ne, h.number_lt, ?_, ?_, fun i hi ↦ ?_, fun c hc ↦ ?_, fun c hc ↦ ?_, fun _ ↦ ?_⟩
  · rw [hstore 0 (by omega), if_neg (by omega)]
    exact h.next_eq
  · exact Nat.lt_of_succ_lt hfits
  · change i < entries.length at hi
    have heq := h.entries_eq i (by rw [hlength]; omega)
    rw [hstore _ (by omega), if_neg (by omega), heq]
    exact List.getElem_append_left hi
  · exact h.entries_ne c (List.mem_append_left _ hc)
  · exact h.entries_lt c (List.mem_append_left _ hc)
  · rw [hstore _ hfits, if_pos rfl]

/-- The last entry of the first index block is handed out, and only this block changes. -/
theorem FreeList.step_concat {number e : ℕ} {entries : List ℕ} {chain : List IndexBlock}
    (h : FreeList fs (⟨number, entries ++ [e]⟩ :: chain)) :
    ∃ fs', allocBlock fs = .ok (fs', e) ∧ FreeList fs' (⟨number, entries⟩ :: chain) ∧
      SameFields fs fs' ∧
      SameOutside fs fs' number := by
  have hindex : IsIndexBlock fs (headOf chain) ⟨number, entries ++ [e]⟩ := h.isChain.1
  have hhead : fs.freeBlockList = number := h.head
  have hnumber : number < fs.blockCount := hindex.number_lt
  have hlt := (h.layout.inMemory.bounds hnumber).1
  have hdvd := h.layout.blockSize_dvd
  have hpos := h.layout.blockSize_pos
  have hlength : (entries ++ [e]).length = entries.length + 1 := by simp
  have hfits : entries.length + 1 < fs.blockSize / 4 := hlength ▸ hindex.fits
  have hlast : blockWord fs number (entries.length + 1) = e := by
    have heq := hindex.entries_eq entries.length (by rw [hlength]; omega)
    rw [heq]
    exact List.getElem_concat_length rfl _
  have hne : ∀ i, 1 ≤ i → i ≤ entries.length + 1 → word (content fs number) i ≠ 0 := by
    intro i hi hi' hzero
    obtain ⟨j, rfl⟩ := Nat.exists_eq_add_of_le' hi
    have heq := hindex.entries_eq j (by rw [hlength]; omega)
    rw [blockWord_eq_zero.mpr hzero] at heq
    exact hindex.entries_ne _ (List.getElem_mem _) heq.symm
  have hend : lastEntry (content fs number) (fs.blockSize / 4) (fs.blockSize / 4) 1 =
      entries.length + 1 := by
    apply lastEntry_eq
    · omega
    · exact hfits
    · omega
    · exact fun i hi hi' ↦ hne i hi.le hi'
    · intro hcount
      rw [← blockWord_eq_zero]
      exact hlength ▸ hindex.ends (by rw [hlength]; exact hcount)
  have hone : switchEndianness (word (content fs number) 1) ≠ 0 := fun hzero ↦
    hne 1 le_rfl (by omega) (blockWord_eq_zero.mp hzero)
  have he : e < 2 ^ 30 := (h.layout.inMemory.bounds (hindex.entries_lt e (by simp))).1
  refine ⟨{ fs with
    image := putBlock fs number (store (content fs number) (4 * (entries.length + 1)) 4 0)
    seekCursor := number * fs.blockSize }, ?_, ?_, ⟨rfl, rfl, rfl, rfl, rfl⟩, ?_⟩
  · have hlist : toInt32 fs.freeBlockList = number := by rw [hhead, toInt32_natCast (by omega)]
    rw [allocBlock, hlist, readBlock_eq h.layout.inMemory hnumber, ok_bind]
    dsimp only
    rw [if_neg hone, hend, hlist, switchEndianness_zero]
    have hlayout : Layout { fs with seekCursor := number * fs.blockSize } := h.layout.congr rfl rfl
    rw [writeBlock_eq hlayout.inMemory hnumber, ok_bind]
    rw [blockWord] at hlast
    rw [hlast, toInt32_natCast (by omega)]
    rfl
  · have hnodup := h.nodup
    rw [blocksOf_cons] at hnodup
    refine ⟨h.layout.congr rfl rfl, hhead, ⟨hindex.dropLast hdvd, ?_⟩, ?_⟩
    · refine h.isChain.2.congr rfl rfl fun b hb x hx ↦ putBlock_of_ne hpos _ ?_
      rw [hx]
      intro heq
      apply (List.nodup_append.mp hnodup).2.2 number List.mem_cons_self number _ rfl
      exact heq ▸ IsChain.number_mem hb
    · rw [blocksOf_cons]
      apply List.Nodup.sublist _ hnodup
      exact ((List.sublist_append_left entries [e]).cons_cons number).append (List.Sublist.refl _)
  · exact fun x hx ↦ putBlock_of_ne hpos _ hx

/-- One call takes the first block of what is left, and changes only the first index block. -/
theorem FreeList.step {chain : List IndexBlock} {b : ℕ} {rest : List ℕ} (h : FreeList fs chain)
    (hdrained : drained chain = b :: rest) :
    ∃ fs' chain', allocBlock fs = .ok (fs', b) ∧ FreeList fs' chain' ∧ drained chain' = rest ∧
      SameFields fs fs' ∧ SameOutside fs fs' fs.freeBlockList := by
  cases chain with
  | nil => exact absurd hdrained (by simp [drained])
  | cons index chain =>
    obtain ⟨number, entries⟩ := index
    have hhead : fs.freeBlockList = number := h.head
    rw [hhead]
    rcases List.eq_nil_or_concat entries with rfl | ⟨entries, e, rfl⟩
    · obtain ⟨fs', halloc, hfree, hfields, himage⟩ := h.step_nil
      obtain ⟨rfl, rfl⟩ : number = b ∧ drained chain = rest := by
        simpa [drained] using hdrained
      exact ⟨fs', chain, halloc, hfree, rfl, hfields, fun x _ ↦ by rw [himage]⟩
    · rw [List.concat_eq_append] at h hdrained
      obtain ⟨fs', halloc, hfree, hfields, hsame⟩ := h.step_concat
      obtain ⟨rfl, hrest⟩ : e = b ∧ drained (⟨number, entries⟩ :: chain) = rest := by
        simpa [drained] using hdrained
      exact ⟨fs', _, halloc, hfree, hrest, hfields, hsame⟩

/-! ### A run of calls -/

theorem allocBlocks_succ {k : ℕ} {b : ℤ} (h : allocBlock fs = .ok (fs', b)) :
    allocBlocks (k + 1) fs = (allocBlocks k fs' >>= fun r ↦ .ok (r.1, b :: r.2)) := by
  rw [allocBlocks, h, ok_bind]

/-- After `k` calls the first `k` blocks of the chain are handed out, and the others are the
chain. -/
theorem FreeList.after {chain : List IndexBlock} (h : FreeList fs chain) {k : ℕ}
    (hk : k ≤ (drained chain).length) :
    ∃ fs' chain', allocBlocks k fs = .ok (fs', ((drained chain).take k).map (↑)) ∧
      FreeList fs' chain' ∧
      drained chain' = (drained chain).drop k ∧ SameFields fs fs' := by
  induction k generalizing fs chain with
  | zero => exact ⟨fs, chain, by simp [allocBlocks], h, by simp, SameFields.refl fs⟩
  | succ k ih =>
    rcases hdrained : drained chain with _ | ⟨b, rest⟩
    · rw [hdrained] at hk
      exact absurd hk (by simp)
    · obtain ⟨fs₁, chain₁, halloc, hfree, rfl, hfields, -⟩ := h.step hdrained
      rw [hdrained, List.length_cons] at hk
      obtain ⟨fs', chain', hallocs, hfree', hdrop, hfields'⟩ := ih hfree (by omega)
      refine ⟨fs', chain', ?_, hfree', ?_, hfields.trans hfields'⟩
      · rw [allocBlocks_succ halloc, hallocs, ok_bind]
        simp
      · rw [hdrop, List.drop_succ_cons]

theorem headOf_eq_zero {chain : List IndexBlock} (h : FreeList fs chain)
    (hempty : drained chain = []) : fs.freeBlockList = 0 := by
  rw [h.head]
  cases chain with
  | nil => rfl
  | cons b chain => simp [drained] at hempty

/-- The calls hand out every block of the chain once, and each changes only the first index
block. -/
theorem FreeList.drains {chain : List IndexBlock} (h : FreeList fs chain) :
    ∃ (fs' : Filesystem) (numbers : List ℕ),
      allocBlocks (blocksOf chain).length fs = .ok (fs', numbers.map (↑)) ∧ numbers.Nodup ∧
        numbers.Perm (blocksOf chain) ∧
          ∀ k < (blocksOf chain).length, ∃ s taken s' b, allocBlocks k fs = .ok (s, taken) ∧
            allocBlock s = .ok (s', b) ∧ SameOutside s s' s.freeBlockList := by
  have hperm := drained_perm chain
  obtain ⟨fs', chain', hallocs, -, -, -⟩ := h.after hperm.length_eq.ge
  rw [List.take_of_length_le hperm.length_eq.le] at hallocs
  refine ⟨fs', drained chain, hallocs, hperm.nodup_iff.mpr h.nodup, hperm, fun k hk ↦ ?_⟩
  rw [← hperm.length_eq] at hk
  obtain ⟨s, chain₁, hallocs₁, hfree, hdrop, -⟩ := h.after hk.le
  rw [List.drop_eq_getElem_cons hk] at hdrop
  obtain ⟨s', chain₂, halloc, -, -, -, hsame⟩ := hfree.step hdrop
  exact ⟨s, _, s', _, hallocs₁, halloc, hsame⟩

/-- The three blocks of the small disk are handed out. -/
theorem FreeList.drains_smallDisk : ∃ (fs' : Filesystem) (numbers : List ℕ),
    allocBlocks 3 smallDisk = .ok (fs', numbers.map (↑)) ∧ numbers.Nodup ∧ numbers.Perm [2, 5, 6] ∧
      ∀ k < 3, ∃ s taken s' b, allocBlocks k smallDisk = .ok (s, taken) ∧
        allocBlock s = .ok (s', b) ∧ SameOutside s s' s.freeBlockList :=
  freeList_smallDisk.drains

/-! ### An empty list -/

/-- A call hands out no block that is in use, nor the superblock, and leaves the image alone. -/
def RefusesWhenFull (inUse : Filesystem → Set ℤ) (fs : Filesystem) : Prop :=
  ∀ fs' b, allocBlock fs = .ok (fs', b) → b ∉ inUse fs ∧ b ≠ 0 ∧ fs'.image = fs.image

/-- Once the list is empty, calls are refused. -/
def KeepsFullDisk (inUse : Filesystem → Set ℤ) (fs : Filesystem) : Prop :=
  ∀ k s taken, allocBlocks k fs = .ok (s, taken) → s.freeBlockList = 0 → RefusesWhenFull inUse s

/-- A call on an empty list hands out the superblock, or takes a word out of it. -/
theorem allocBlock_of_empty (h : Layout fs) (hcount : 0 < fs.blockCount)
    (hlist : fs.freeBlockList = 0) :
    ∃ fs' b, allocBlock fs = .ok (fs', b) ∧ (b = 0 ∨ fs'.image ≠ fs.image) := by
  have hzero : toInt32 fs.freeBlockList = ((0 : ℕ) : ℤ) := by rw [hlist, toInt32_natCast (by omega)]
  have hdvd := h.blockSize_dvd
  rw [allocBlock, hzero, readBlock_eq h.inMemory hcount, ok_bind]
  dsimp only
  by_cases hone : switchEndianness (word (content fs 0) 1) = 0
  · rw [if_pos hone, hzero]
    exact ⟨_, _, rfl, Or.inl rfl⟩
  · have hlayout : Layout { fs with seekCursor := 0 * fs.blockSize } := h.congr rfl rfl
    rw [if_neg hone, hzero, writeBlock_eq hlayout.inMemory hcount, ok_bind]
    refine ⟨_, _, rfl, Or.inr fun himage ↦ ?_⟩
    have hword : word (content fs 0) 1 ≠ 0 :=
      fun hword ↦ hone (by rw [hword, switchEndianness_zero])
    have hfit : 1 < fs.blockSize / 4 := by
      by_contra hle
      exact hword (word_content_of_le (by omega))
    obtain ⟨hlt, -, hne⟩ := lastEntry_spec (fs.blockSize / 4) hfit hword
    rw [switchEndianness_zero] at himage
    exact putBlock_store_ne (by omega) hne himage

/-- Every chain ends, and the call after that does not refuse. -/
theorem FreeList.not_refuses {chain : List IndexBlock} (h : FreeList fs chain)
    (hcount : 0 < fs.blockCount) (inUse : Filesystem → Set ℤ) :
    ∃ k s taken, allocBlocks k fs = .ok (s, taken) ∧ s.freeBlockList = 0 ∧
      ¬ RefusesWhenFull inUse s := by
  obtain ⟨s, chain', hallocs, hfree, hdrop, hfields⟩ := h.after le_rfl
  rw [List.drop_length] at hdrop
  have hlist := headOf_eq_zero hfree hdrop
  obtain ⟨s', b, halloc, hbad⟩ :=
    allocBlock_of_empty hfree.layout (hfields.blockCount ▸ hcount) hlist
  refine ⟨_, s, _, hallocs, hlist, fun hrefuses ↦ ?_⟩
  obtain ⟨-, hne, himage⟩ := hrefuses s' b halloc
  rcases hbad with rfl | hchanged
  · exact hne rfl
  · exact hchanged himage

/-- No image with a chain of free blocks is safe once the chain has been handed out. -/
theorem FreeList.not_keepsFullDisk {chain : List IndexBlock} (h : FreeList fs chain)
    (hcount : 0 < fs.blockCount) (inUse : Filesystem → Set ℤ) : ¬ KeepsFullDisk inUse fs := by
  intro hkeeps
  obtain ⟨k, s, taken, hallocs, hlist, hnot⟩ := h.not_refuses hcount inUse
  exact hnot (hkeeps k s taken hallocs hlist)

theorem FreeList.not_keepsFullDisk_smallDisk : ¬ KeepsFullDisk (fun _ ↦ {1, 3, 4}) smallDisk :=
  freeList_smallDisk.not_keepsFullDisk (by decide) _

/-- After three calls on the small disk, the fourth one hands out the superblock. -/
theorem not_keepsFullDisk_empty : ¬ KeepsFullDisk (fun _ ↦ ∅) smallDisk := by
  intro hkeeps
  obtain ⟨s, chain', hallocs, hfree, hdrop, hfields⟩ := freeList_smallDisk.after (by decide : 3 ≤ _)
  have hlist : s.freeBlockList = 0 := headOf_eq_zero hfree hdrop
  have hcount : 0 < s.blockCount := hfields.blockCount ▸ (by decide : 0 < smallDisk.blockCount)
  obtain ⟨s', b, halloc, hbad⟩ := allocBlock_of_empty hfree.layout hcount hlist
  obtain ⟨-, hne, himage⟩ := hkeeps 3 s _ hallocs hlist s' b halloc
  exact hbad.elim hne fun hchanged ↦ hchanged himage

end SysresOs.Files
