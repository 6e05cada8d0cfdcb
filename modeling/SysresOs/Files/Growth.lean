import SysresOs.Files.Sessions

/-!
# Writes in a session

A write changes the bytes of one file at one position (`WrittenTo.fileContent_eq`). Where the file
has room in its last block and the descriptor knows its size, a write from the end on, or up to the
end of the block, makes the file longer without a new block (`Represents.extendFile_eq`). So every
call that the code does right does to the store what it should (`Represents.does`).
-/

set_option autoImplicit false
set_option relaxedAutoImplicit false

namespace SysresOs.Files

open SysresOs.ByteMemory SysresOs.Outcome SysresOs.FileStore
open SysresOs.Memory (toInt32)

variable {fs fs' : Filesystem} {inodes index : Set ℕ} {n m i pos k : ℕ} {fd : FileDescriptor}
  {d : Slot} {h : Handle ℕ} {s : Store ℕ Slot (BitVec 8)} {buffer : List (BitVec 8)}

/-! ### Writes inside a file -/

/-- The files after a write inside one of them. -/
theorem WrittenTo.fileContent_eq (hw : WrittenTo fs fs' n pos buffer)
    (h : WellFormed fs inodes index) (hn : n ∈ inodes) (hsize : pos + buffer.length ≤ fileSize fs n)
    (hm : m ∈ inodes) : fileContent fs' m =
      if m = n then splice pos buffer (fileContent fs n) else fileContent fs m := by
  have hsame := hw.sameInode h hn hm hsize
  have hfits := h.fits m hm
  have hfile : fileSize fs' m = fileSize fs m := hsame.fileSize_eq (by omega)
  have hbyte : ∀ i < fileSize fs m, fileByte fs' m i = fs'.image (fileAddr fs m i) := fun i hi ↦ by
    have hblock := div_lt_blocksFor h.layout.blockSize_pos hi
    rw [fileByte, hsame.fileAddr_eq (by omega)]
  refine List.ext_getElem? fun i ↦ ?_
  rw [getElem?_fileContent, hfile]
  by_cases hmn : m = n
  · subst hmn
    rw [if_pos rfl, getElem?_splice (by rw [length_fileContent]; omega), getElem?_fileContent]
    split_ifs with hi hpos hpos
    · rw [hbyte i hi]
      rcases lt_or_ge (i - pos) buffer.length with hin | hout
      · have hput := hw.written (i - pos) hin
        rw [Nat.add_sub_cancel' hpos] at hput
        rw [hput, List.getElem?_eq_getElem hin, Option.some_or]
      · rw [List.getElem?_eq_none hout, Option.none_or, hw.others _ fun j hj heq ↦ ?_, fileByte]
        have hsame := h.fileAddr_inj hn hi (by omega) heq
        omega
    · rw [hbyte i hi, Option.none_or, hw.others _ fun j hj heq ↦ ?_, fileByte]
      have hsame := h.fileAddr_inj hn hi (by omega) heq
      omega
    · rw [List.getElem?_eq_none (by omega), Option.none_or]
    · rfl
  · rw [if_neg hmn, getElem?_fileContent]
    split_ifs with hi
    · rw [hbyte i hi, hw.others _ fun j hj heq ↦ hmn ?_, fileByte]
      have hpos := h.layout.blockSize_pos
      have hblock :
          dataBlock fs m (i / fs.blockSize) = dataBlock fs n ((pos + j) / fs.blockSize) := by
        rw [← fileAddr_div hpos, heq, fileAddr_div hpos]
      exact (h.data_inj m hm n hn _ (div_lt_blocksFor hpos hi) _ (div_lt_blocksFor hpos (by omega))
        hblock).1
    · rfl

/-- A write inside a file changes the blocks of the file only. -/
theorem WrittenTo.framed (hw : WrittenTo fs fs' n pos buffer) (h : WellFormed fs inodes index)
    (hn : n ∈ inodes) (hsize : pos + buffer.length ≤ fileSize fs n) : Framed inodes fs fs' := by
  have hpos := h.layout.blockSize_pos
  refine ⟨hw.fields.blockSize, hw.fields.blockCount, hw.freeBlockList, fun m hm ↦ ?_,
    fun m hm k hk ↦ ?_, fun x hx ↦ hw.others x fun i hi heq ↦ ?_⟩
  · have hfits := h.fits m hm
    rw [(hw.sameInode h hn hm hsize).fileSize_eq (by omega)]
  · have hfits := h.fits m hm
    exact (hw.sameInode h hn hm hsize).dataBlock_eq (by omega)
  · apply (hx n hn).2 _ (div_lt_blocksFor hpos (by omega : pos + i < fileSize fs n))
    rw [heq, fileAddr_div hpos]

/-- A write once the file is long enough. -/
theorem Represents.put {fs₀ : Filesystem} (h' : Represents inodes index fs s)
    (hd : s.handle d = some h) (hextend : extendFile fs₀ d buffer.length = .ok fs)
    (hfits : h.pos + buffer.length ≤ h.size) :
    ∃ fs', writeFile fs₀ d buffer = .ok (fs', (buffer.length : ℤ)) ∧
      Represents inodes index fs' (s.put d h hd buffer) ∧ Framed inodes fs fs' := by
  have hshow := h'.shows d h hd
  have hopen := h'.isOpen hd
  have hpos := hshow.pos_eq
  have hsize := hshow.size_eq
  have hlast := hopen.size_le
  obtain ⟨fs₁, hwrite, hwritten⟩ := writeFile_of_extended d.isLt hextend rfl h'.wellFormed
    hshow.mem hopen.blocks_eq (by omega) hlast
  have hsame : ∀ m ∈ inodes, SameInode fs fs₁ m := fun m hm ↦
    hwritten.sameInode h'.wellFormed hshow.mem hm (by omega)
  have hcontent := fun m hm ↦ hwritten.fileContent_eq h'.wellFormed hshow.mem (by omega) (m := m) hm
  have hshows : ∀ e g fd, Shows fs inodes fd g →
      Shows { fs₁ with descriptors := e } inodes fd g := by
    intro e g fd hg
    have hlow := h'.wellFormed.fits _ hg.mem
    refine hg.congr hwritten.fields.blockSize fun x hx hx' ↦ (hsame _ hg.mem).image x ?_
    obtain ⟨j, rfl⟩ := Nat.exists_eq_add_of_le hx
    exact div_blockSize (by omega)
  have hframe (e) : Framed inodes fs { fs₁ with descriptors := e } :=
    (hwritten.framed h'.wellFormed hshow.mem (by omega)).trans (.of_image rfl rfl rfl rfl)
  refine ⟨_, hwrite, ⟨(hframe _).wellFormed h'.wellFormed, fun m hm ↦ ?_,
    fun m hm ↦ ?_, fun e he ↦ ?_, fun e g he ↦ ?_⟩, hframe _⟩
  · have hlow := h'.wellFormed.fits m hm
    change blocksFor fs₁ (fileSize fs₁ m) * fs₁.blockSize ≤ fs₁.maxFileSize
    rw [(hsame m hm).fileSize_eq (by omega), blocksFor_congr hwritten.fields.blockSize,
      hwritten.fields.blockSize, hwritten.fields.maxFileSize]
    exact h'.room m hm
  · change Function.update s.content _ _ m = fileContent fs₁ m
    rw [hcontent m hm, hpos]
    split_ifs with hmn
    · rw [hmn, Function.update_self, h'.content _ hshow.mem]
    · rw [Function.update_of_ne hmn, h'.content m hm]
  · change Function.update s.handle d _ e = none at he
    change (Function.update fs.descriptors d _ e).closed ≠ 0
    rcases eq_or_ne e d with rfl | hne
    · rw [Function.update_self] at he
      exact absurd he (by simp)
    · rw [Function.update_of_ne hne] at he
      rw [Function.update_of_ne (Fin.val_ne_of_ne hne)]
      exact h'.closed e he
  · change Function.update s.handle d _ e = some g at he
    change Shows _ inodes (Function.update fs.descriptors d _ e) g
    rcases eq_or_ne e d with rfl | hne
    · rw [Function.update_self] at he ⊢
      obtain rfl := Option.some.inj he
      refine hshows _ _ _ ⟨hshow.mem, hshow.closed_eq, hshow.index_eq, hshow.blocks_eq, ?_, ?_,
        hshow.kind_eq, hshow.nlink_eq⟩
      · dsimp only
        omega
      · dsimp only
        omega
    · rw [Function.update_of_ne hne] at he
      rw [Function.update_of_ne (Fin.val_ne_of_ne hne)]
      exact hshows _ _ _ (h'.shows e g he)

/-! ### Writes behind the end of a file -/

/-- The image after the size in the inode block `n` has been written. -/
def resized (fs : Filesystem) (n size : ℕ) : Memory :=
  store fs.image (n * fs.blockSize + 8) 4 (switchEndianness size)

theorem extendLoop_of_le {target bound : ℕ} {inode : Inode} (hbound : 0 < bound)
    (hle : target ≤ inode.size) : extendLoop target bound fs inode k = .ok (fs, inode) := by
  obtain ⟨bound, rfl⟩ := Nat.exists_eq_succ_of_ne_zero hbound.ne'
  rw [extendLoop, if_neg (not_lt.mpr hle)]

theorem lastEnd_eq (hpos : 0 < fs.blockSize) (fd : FileDescriptor) :
    lastEnd fs fd = fd.inode.size + (fs.blockSize - fd.inode.size % fs.blockSize) := by
  have hdecomp := Nat.div_add_mod' fd.inode.size fs.blockSize
  have hmod := Nat.mod_lt fd.inode.size hpos
  rw [lastEnd, Nat.succ_mul]
  omega

namespace Appends

variable {len : ℕ} (ha : Appends fs fd len) (hpos : 0 < fs.blockSize)

include ha hpos

/-- The bytes are in the blocks that the file has. -/
theorem blocksFor_eq : blocksFor fs (fd.pos + len) = blocksFor fs fd.inode.size := by
  have hend := lastEnd_eq hpos fd
  have hblock (size : ℕ) (hlow : fd.inode.size ≤ size) (hhigh : size ≤ lastEnd fs fd) :
      blocksFor fs size = fd.inode.size / fs.blockSize + 1 := by
    have hdecomp := Nat.div_add_mod' fd.inode.size fs.blockSize
    have hpartly := ha.partly
    unfold lastEnd at hhigh hend
    apply Nat.div_eq_of_lt_le
    · rw [Nat.succ_mul]
      omega
    · rw [Nat.succ_mul]
      omega
  rw [hblock _ ha.lt.le ha.le, hblock _ le_rfl (by omega)]

theorem min_eq (hle : fd.pos ≤ fd.inode.size) :
    min len (fs.blockSize - fd.inode.size % fs.blockSize) = fd.pos + len - fd.inode.size := by
  have hend := lastEnd_eq hpos fd
  have hlt := ha.lt
  have hhigh := ha.le
  have hplace := ha.place
  omega

end Appends

/-- What an appending write says about the handle. -/
theorem Represents.of_appends (h' : Represents inodes index fs s) (hd : s.handle d = some h)
    {len : ℕ} (ha : Appends fs (fs.descriptors d) len) :
    h.size = fileSize fs h.file ∧ h.size < h.pos + len ∧
      blocksFor fs (h.pos + len) = blocksFor fs h.size ∧ h.pos + len < 2 ^ 30 := by
  have hshow := h'.shows d h hd
  have hbs := h'.wellFormed.layout.blockSize_pos
  have hindex : (fs.descriptors d).inode.index.toNat = h.file := by
    rw [hshow.index_eq, Int.toNat_natCast]
  have hlast := ha.size_eq
  have hlt := ha.lt
  have hblocks := ha.blocksFor_eq hbs
  rw [hshow.size_eq, hindex] at hlast
  rw [hshow.size_eq, hshow.pos_eq] at hlt hblocks
  have hmul : h.pos + len ≤ blocksFor fs (h.pos + len) * fs.blockSize := blocksFor_mul hbs
  have hle := Nat.mul_le_mul_right fs.blockSize (h'.wellFormed.blocksFor_le hshow.mem)
  have himage := h'.wellFormed.layout.image_lt
  rw [hblocks, hlast] at hmul
  exact ⟨hlast, hlt, hblocks, by omega⟩

namespace Represents

/-- `extend_file` inside the last block: the size gets larger, and no block is taken. -/
theorem extendFile_eq (h' : Represents inodes index fs s) (hd : s.handle d = some h) {len : ℕ}
    (ha : Appends fs (fs.descriptors d) len) : extendFile fs d len = .ok { fs with
      image := resized fs h.file (h.pos + len)
      seekCursor := h.file * fs.blockSize
      descriptors := Function.update fs.descriptors d { fs.descriptors d with
        inode := { (fs.descriptors d).inode with size := h.pos + len } } } := by
  have hshow := h'.shows d h hd
  have hopen := h'.isOpen hd
  have hlow := hopen.pos_le
  have hmem := h'.wellFormed.layout.inMemory
  have hbs := hmem.blockSize_pos
  have hcount := h'.wellFormed.inode_lt _ hshow.mem
  obtain ⟨hsub, hsize⟩ := sub32_mod hmem (Nat.zero_lt_of_lt hcount) (fs.descriptors d).inode.size
  obtain ⟨-, -, -, hend⟩ := h'.of_appends hd ha
  rw [← hshow.pos_eq] at hend
  have hlt := ha.lt
  have hmin :
      min (len : ℤ) (toInt32 (sub32 fs.blockSize ((fs.descriptors d).inode.size % fs.blockSize))) =
      ((fs.descriptors d).pos + len - (fs.descriptors d).inode.size : ℕ) := by
    rw [hsub, toInt32_natCast (by omega), ← ha.min_eq hbs hlow]
    omega
  have htarget :
      (fs.descriptors d).inode.size +
      ((fs.descriptors d).pos + len - (fs.descriptors d).inode.size) = h.pos + len := by
    rw [← hshow.pos_eq]
    omega
  have hloop (inode : Inode) (hsize : inode.size = h.pos + len) :
      extendLoop (h.pos + len) (2 ^ 32) fs inode ((h.pos + len) / fs.blockSize) = .ok (fs, inode) :=
    extendLoop_of_le (by decide) hsize.ge
  rw [extendFile, getDescriptor_natCast d.isLt, ok_bind]
  dsimp only
  rw [toUint32_natCast (by omega), add32_eq (by omega), if_neg (not_le.mpr hlt), hmin,
    toUint32_natCast (by omega), add32_eq (by omega), htarget, hshow.pos_eq,
    hloop ⟨_, _, _, h.pos + len, _⟩ rfl, ok_bind]
  dsimp only
  rw [setDescriptor_natCast d.isLt, ok_bind, writeInode]
  dsimp only
  rw [hshow.index_eq, seekBlock_eq, ok_bind]
  · dsimp only
    rw [hshow.kind_eq, hshow.nlink_eq, switchEndianness_switchEndianness (load_lt _ _ _),
      switchEndianness_switchEndianness (load_lt _ _ _), store_load, store_load]
    rfl
  · exact hmem.congr rfl rfl
  · exact hcount

end Represents

/-- The image `fs'` is `fs` with another size in the inode block `n`. -/
structure Resized (fs fs' : Filesystem) (n size : ℕ) : Prop where
  blockSize : fs'.blockSize = fs.blockSize
  blockCount : fs'.blockCount = fs.blockCount
  maxFileSize : fs'.maxFileSize = fs.maxFileSize
  image : fs'.image = resized fs n size

namespace Resized

variable {size : ℕ} (hr : Resized fs fs' n size)

include hr

theorem image_eq {x : ℕ} (hx : x < n * fs.blockSize + 8 ∨ n * fs.blockSize + 12 ≤ x) :
    fs'.image x = fs.image x := by
  rw [hr.image]
  exact store_of_not_mem hx

theorem fileSize_eq (hsize : size < 2 ^ 32) : fileSize fs' n = size := by
  rw [fileSize, hr.image, hr.blockSize, resized, load_store (switchEndianness_lt _),
    switchEndianness_switchEndianness hsize]

/-- The other inode blocks are the same. -/
theorem sameInode (hne : m ≠ n) (hfits : 12 ≤ fs.blockSize) : SameInode fs fs' m := by
  refine ⟨hr.blockSize, fun x hx ↦ hr.image_eq ?_⟩
  by_contra hmem
  have hblock : x / fs.blockSize = n := by
    obtain ⟨j, rfl⟩ := Nat.exists_eq_add_of_le (show n * fs.blockSize ≤ x by omega)
    exact div_blockSize (by omega)
  exact hne (hx.symm.trans hblock)

/-- What is before the sizes is the same. -/
theorem header {x : ℕ} (hfits : 12 ≤ fs.blockSize) (hx : m * fs.blockSize ≤ x)
    (hx' : x < m * fs.blockSize + 8) : fs'.image x = fs.image x := by
  rcases eq_or_ne m n with rfl | hne
  · exact hr.image_eq (Or.inl hx')
  · obtain ⟨j, rfl⟩ := Nat.exists_eq_add_of_le hx
    exact (hr.sameInode hne hfits).image _ (div_blockSize (by omega))

theorem dataBlock_eq : dataBlock fs' n k = dataBlock fs n k := by
  rw [dataBlock, hr.blockSize, load_congr fun x hx _ ↦ hr.image_eq (Or.inr (by omega)), dataBlock]


variable (hwf : WellFormed fs inodes index) (hn : n ∈ inodes)

include hwf

/-- The tables of all files are the same. -/
theorem tables (hm : m ∈ inodes) (hk : k < blocksFor fs (fileSize fs m)) :
    dataBlock fs' m k = dataBlock fs m k := by
  have hfits := hwf.fits m hm
  rcases eq_or_ne m n with rfl | hne
  · exact hr.dataBlock_eq
  · exact (hr.sameInode hne (by omega)).dataBlock_eq (by omega)

/-- The sizes of all files. -/
theorem fileSize_ite (hsize : size < 2 ^ 32) (hm : m ∈ inodes) :
    fileSize fs' m = if m = n then size else fileSize fs m := by
  have hfits := hwf.fits m hm
  split_ifs with hmn
  · rw [hmn, hr.fileSize_eq hsize]
  · exact (hr.sameInode hmn (by omega)).fileSize_eq (by omega)

include hn

theorem framed (hsize : size < 2 ^ 32) (hblocks : blocksFor fs size = blocksFor fs (fileSize fs n))
    (hlist : fs'.freeBlockList = fs.freeBlockList) : Framed inodes fs fs' := by
  refine ⟨hr.blockSize, hr.blockCount, hlist, fun m hm ↦ ?_, fun m hm k hk ↦ hr.tables hwf hm hk,
    fun x hx ↦ hr.image_eq (hx n hn).1⟩
  rw [hr.fileSize_ite hwf hsize hm]
  split_ifs with hmn
  · rw [hblocks, hmn]
  · rfl

/-- The bytes of all files are the same. -/
theorem fileByte_eq (hm : m ∈ inodes) (hi : i < fileSize fs m) :
    fileByte fs' m i = fileByte fs m i := by
  have hpos := hwf.layout.blockSize_pos
  have hblock := div_lt_blocksFor hpos hi
  have haddr : fileAddr fs' m i = fileAddr fs m i := by
    rw [fileAddr, hr.blockSize, hr.tables hwf hm hblock, fileAddr]
  have hfits := hwf.fits n hn
  rw [fileByte, haddr, hr.image_eq, fileByte]
  by_contra hmem
  apply hwf.data_not_inode m hm _ hblock
  rw [← fileAddr_div hpos]
  obtain ⟨j, hj⟩ := Nat.exists_eq_add_of_le (show n * fs.blockSize ≤ fileAddr fs m i by omega)
  rw [hj, div_blockSize (by omega)]
  exact hn

/-- The files after one of them has got longer. -/
theorem fileContent_eq (hsize : size < 2 ^ 32) (hle : fileSize fs n ≤ size) (hm : m ∈ inodes) :
    fileContent fs' m = if m = n then fileContent fs n ++ fileBytes fs' n (fileSize fs n)
    (size - fileSize fs n) else fileContent fs m := by
  have hold (hm : m ∈ inodes) : fileBytes fs' m 0 (fileSize fs m) = fileContent fs m := by
    refine List.map_congr_left fun i hi ↦ ?_
    rw [Nat.zero_add, hr.fileByte_eq hwf hn hm (List.mem_range.mp hi)]
  rw [fileContent, hr.fileSize_ite hwf hsize hm]
  split_ifs with hmn
  · subst hmn
    have happend := fileBytes_append fs' m 0 (fileSize fs m) (size - fileSize fs m)
    rw [Nat.zero_add, Nat.add_sub_cancel' hle] at happend
    rw [← happend, hold hm]
  · exact hold hm

end Resized

namespace Represents

/-- A write that makes the file longer. -/
theorem grow (h' : Represents inodes index fs s) (hd : s.handle d = some h) {len : ℕ}
    (ha : Appends fs (fs.descriptors d) len) : ∃ fs' tail hsize, extendFile fs d len = .ok fs' ∧
      h.pos + len = h.size + tail.length ∧ Represents inodes index fs' (s.grow d h hsize tail) ∧
        Framed inodes fs fs' := by
  have hshow := h'.shows d h hd
  obtain ⟨hlast, hlt, hblocks, hend⟩ := h'.of_appends hd ha
  rw [hlast] at hblocks
  have hextend := h'.extendFile_eq hd ha
  generalize hfs' : ({ fs with
    image := resized fs h.file (h.pos + len)
    seekCursor := h.file * fs.blockSize
    descriptors := Function.update fs.descriptors d { fs.descriptors d with
      inode := { (fs.descriptors d).inode with size := h.pos + len } } } : Filesystem) =
        fs' at hextend
  have hr : Resized fs fs' h.file (h.pos + len) := hfs' ▸ ⟨rfl, rfl, rfl, rfl⟩
  have hdescriptors : fs'.descriptors = Function.update fs.descriptors d { fs.descriptors d with
      inode := { (fs.descriptors d).inode with size := h.pos + len } } := hfs' ▸ rfl
  have hlength : h.pos + len = h.size +
      (fileBytes fs' h.file (fileSize fs h.file) (h.pos + len - fileSize fs h.file)).length := by
    rw [length_fileBytes]
    omega
  have hcontent : h.size = (s.content h.file).length := by
    rw [h'.content _ hshow.mem, length_fileContent, hlast]
  have hfits := h'.wellFormed.fits _ hshow.mem
  have hshows {g fd} (hg : Shows fs inodes fd g) : Shows fs' inodes fd g :=
    hg.congr hr.blockSize fun x hx hx' ↦ hr.header (by omega) hx hx'
  have hlist : fs'.freeBlockList = fs.freeBlockList := hfs' ▸ rfl
  have hframe := hr.framed h'.wellFormed hshow.mem (by omega) hblocks hlist
  refine ⟨fs', _, hcontent, hextend, hlength,
    ⟨hframe.wellFormed h'.wellFormed, fun m hm ↦ ?_, fun m hm ↦ ?_,
    fun e he ↦ ?_, fun e g he ↦ ?_⟩, hframe⟩
  · rw [hr.fileSize_ite h'.wellFormed (by omega) hm, blocksFor_congr hr.blockSize, hr.blockSize,
      hr.maxFileSize]
    split_ifs with hmn
    · rw [hblocks]
      exact h'.room _ hshow.mem
    · exact h'.room m hm
  · rw [hr.fileContent_eq h'.wellFormed hshow.mem (by omega) (by omega) hm, Store.grow]
    dsimp only
    split_ifs with hmn
    · rw [hmn, Function.update_self, h'.content _ hshow.mem]
    · rw [Function.update_of_ne hmn, h'.content m hm]
  · change Function.update s.handle d _ e = none at he
    rw [hdescriptors]
    rcases eq_or_ne e d with rfl | hne
    · rw [Function.update_self] at he
      exact absurd he (by simp)
    · rw [Function.update_of_ne hne] at he
      rw [Function.update_of_ne (Fin.val_ne_of_ne hne)]
      exact h'.closed e he
  · change Function.update s.handle d _ e = some g at he
    rw [hdescriptors]
    rcases eq_or_ne e d with rfl | hne
    · rw [Function.update_self] at he ⊢
      obtain rfl := Option.some.inj he
      exact hshows ⟨hshow.mem, hshow.closed_eq, hshow.index_eq, hshow.blocks_eq, hlength,
        hshow.pos_eq, hshow.kind_eq, hshow.nlink_eq⟩
    · rw [Function.update_of_ne hne] at he
      rw [Function.update_of_ne (Fin.val_ne_of_ne hne)]
      exact hshows (h'.shows e g he)

theorem write (h' : Represents inodes index fs s) (hd : s.handle d = some h)
    (hfits : (fs.descriptors d).pos + buffer.length ≤ (fs.descriptors d).inode.size ∨
      Appends fs (fs.descriptors d) buffer.length) : Does inodes index fs s (.write d buffer) := by
  have hshow := h'.shows d h hd
  suffices hwrite : ∃ fs', writeFile fs d buffer = .ok (fs', (buffer.length : ℤ)) ∧
      Represents inodes index fs' (s.put d h hd buffer) ∧ Framed inodes fs fs' by
    obtain ⟨fs', hwrite, hnext, hframe⟩ := hwrite
    refine ⟨fs', _, _, _, ?_, .put d buffer, .put buffer hd, hnext, hframe⟩
    rw [FileCall.run, hwrite, ok_bind]
  rcases hfits with hinside | happend
  · have hfile := h'.wellFormed.fileSize_lt hshow.mem
    have hsize := (h'.isOpen hd).size_le
    have hextend := extendFile_of_le d.isLt hinside (by omega)
    rw [hshow.pos_eq, hshow.size_eq] at hinside
    exact h'.put hd hextend hinside
  · obtain ⟨fs', tail, hsize, hextend, hend, hgrown, hframe⟩ := h'.grow hd happend
    obtain ⟨fs₁, hwrite, hnext, hframe'⟩ := hgrown.put (Function.update_self _ _ _) hextend hend.le
    rw [Store.put_grow hd hsize hend] at hnext
    exact ⟨fs₁, hwrite, hnext, hframe.trans hframe'⟩

/-- A call that is permitted does to the store what it should. -/
theorem does (h' : Represents inodes index fs s) {call : FileCall}
    (hcall : Permitted inodes fs call) : Does inodes index fs s call := by
  cases call with
  | iopen n => exact h'.iopen hcall
  | fclose d =>
    obtain ⟨h, hd⟩ := h'.exists_handle hcall
    exact h'.fclose hd
  | fseek d offset whence =>
    obtain ⟨hopen, hlow, hhigh⟩ := hcall
    obtain ⟨h, hd⟩ := h'.exists_handle hopen
    exact h'.fseek hd hlow hhigh
  | read d len =>
    obtain ⟨hopen, hlen, hright⟩ := hcall
    obtain ⟨h, hd⟩ := h'.exists_handle hopen
    exact h'.read hd hlen hright
  | write d buffer =>
    obtain ⟨hopen, hfits⟩ := hcall
    obtain ⟨h, hd⟩ := h'.exists_handle hopen
    exact h'.write hd hfits

end Represents

end SysresOs.Files
