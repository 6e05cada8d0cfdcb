import SysresOs.Files.Descriptors
import SysresOs.Files.Remote

/-!
# The filesystem manager

`main_fs_manager` calls the functions of the filesystem with the arguments of a request, and answers
with a status and, for `fread`, with a buffer of 500 bytes. It looks at no argument: which requests
it serves without an access outside the table of descriptors or its buffer depends on the caller
(`staysInBounds_iff`).
-/

set_option autoImplicit false
set_option relaxedAutoImplicit false

namespace SysresOs.Files

open SysresOs.ByteMemory SysresOs.Outcome
open SysresOs.Memory (toInt32 toInt32_bounds)

/-! ### Reading into a buffer -/

/-- The loop of `read` into a buffer of so many bytes. -/
def readIntoLoop (capacity : ℕ) (inode : Inode) (target : ℕ) (len : ℤ) :
    ℕ → Filesystem → ℕ → List (BitVec 8) → Except Stop (Filesystem × ℕ × List (BitVec 8))
  | 0, _, _, _ => .error .diverges
  | bound + 1, fs, pos, buffer =>
    if pos < target then do
      let (fs, block) ← readBlock fs (toInt32 (blockNumber fs inode pos))
      let copyLen := min len (toInt32 (sub32 fs.blockSize (pos % fs.blockSize)))
      let length ← copyLength copyLen
      let bytes := read block (pos % fs.blockSize) length
      if capacity < buffer.length + length then .error .overrun
      else
        readIntoLoop capacity inode target len bound fs (add32 pos (toUint32 copyLen))
          (buffer ++ bytes)
    else .ok (fs, pos, buffer)

/-- `read` into a buffer of so many bytes. -/
def readInto (capacity : ℕ) (fs : Filesystem) (fileDescriptor len : ℤ) :
    Except Stop (Filesystem × List (BitVec 8) × ℤ) := do
  assert (.assertion .lenNonneg) (0 ≤ len)
  let fd ← getDescriptor fs fileDescriptor
  let len := min len (toInt32 (sub32 fd.inode.size fd.pos))
  let (fs, pos, buffer) ←
    readIntoLoop capacity fd.inode (add32 fd.pos (toUint32 len)) len (2 ^ 32) fs fd.pos []
  let fs ← setDescriptor fs fileDescriptor { fd with pos := pos }
  .ok (fs, buffer, len)

/-- A read that stays in its buffer is a read. -/
theorem readLoop_of_readIntoLoop {capacity : ℕ} {inode : Inode} {target bound : ℕ} {len : ℤ}
    {fs : Filesystem} {pos : ℕ} {buffer : List (BitVec 8)} {res : Filesystem × ℕ × List (BitVec 8)}
    (h : readIntoLoop capacity inode target len bound fs pos buffer = .ok res) :
    readLoop inode target len bound fs pos buffer = .ok res := by
  induction bound generalizing fs pos buffer with
  | zero => cases h
  | succ bound ih =>
    rw [readIntoLoop] at h
    rw [readLoop]
    by_cases hlt : pos < target
    · rw [if_pos hlt] at h ⊢
      obtain ⟨block, hblock, h⟩ := bind_eq_ok.mp h
      obtain ⟨length, hlength, h⟩ := bind_eq_ok.mp h
      rw [hblock, ok_bind]
      dsimp only
      rw [hlength, ok_bind]
      split_ifs at h
      exact ih h
    · rwa [if_neg hlt] at h ⊢

theorem readFile_of_readInto {capacity : ℕ} {fs : Filesystem} {fileDescriptor len : ℤ}
    {res : Filesystem × List (BitVec 8) × ℤ}
    (h : readInto capacity fs fileDescriptor len = .ok res) :
    readFile fs fileDescriptor len = .ok res := by
  obtain ⟨_, hlen, h⟩ := bind_eq_ok.mp h
  obtain ⟨fd, hfd, h⟩ := bind_eq_ok.mp h
  obtain ⟨done, hloop, h⟩ := bind_eq_ok.mp h
  rw [readFile, hlen, ok_bind, hfd, ok_bind]
  dsimp only
  rw [readLoop_of_readIntoLoop hloop, ok_bind]
  exact h

/-! ### The manager -/

/-- What the manager answers: the status, and what has been stored into `response.buff`. -/
structure Reply where
  status : ℤ
  stored : List (BitVec 8)

/-- The value of `enum seek_t` in a word. -/
def seekOf (whence : BitVec 32) : Option Seek :=
  match whence.toNat with
  | 0 => some .seekSet
  | 1 => some .seekCur
  | 2 => some .seekEnd
  | _ => none

/-- `fseek` for any word as the third argument. -/
def fseekWord (fs : Filesystem) (fileDescriptor offset : ℤ) (whence : BitVec 32) :
    Except Stop Filesystem :=
  match seekOf whence with
  | some seek => fseek fs fileDescriptor offset seek
  | none => do
    let _ ← getDescriptor fs fileDescriptor
    .error (.assertion .seekWhence)

/-- The manager serves a request. -/
def serve (fresh : ℕ → Memory) (bound : ℕ) (fs : Filesystem) : Invocation →
    Except Stop (Filesystem × Reply)
  | .fclose fileDescriptor => do
    let fs ← fclose fs fileDescriptor.toInt
    .ok (fs, ⟨0, []⟩)
  | .fopen path => do
    let (fs, slot) ← fopen fresh bound fs path
    .ok (fs, ⟨slot, []⟩)
  | .fseek fileDescriptor offset whence => do
    let fs ← fseekWord fs fileDescriptor.toInt offset.toInt whence
    .ok (fs, ⟨0, []⟩)
  | .fread fileDescriptor byteCount => do
    let (fs, stored, len) ← readInto ioBuffSize fs fileDescriptor.toInt
      (byteCount.setWidth 32).toInt
    .ok (fs, ⟨len, stored⟩)
  | .fwrite fileDescriptor buf _ => do
    let (fs, len) ← writeFile fs fileDescriptor.toInt buf
    .ok (fs, ⟨len, []⟩)
  | .move _ _ => .ok (fs, ⟨0, []⟩)
  | .unknown => .ok (fs, ⟨-1, []⟩)

/-- The number of bytes that the caller copies out of its response: `uread` takes the status as a
`size_t`. -/
def copiedOut : Invocation → ℤ → ℕ
  | .fread _ _, status => (status % 2 ^ 64).toNat
  | _, _ => 0

/-- The stops that are accesses outside the table of descriptors or `response.buff`. -/
def Strays : Invocation → Stop → Prop
  | _, .outOfBounds _ => True
  | .fread _ _, .overrun => True
  | .fread _ _, .copyTooLong => True
  | _, _ => False

/-- The manager and its client stay in bounds. -/
def Within (invocation : Invocation) : Except Stop (Filesystem × Reply) → Prop
  | .ok (_, reply) => reply.stored.length ≤ ioBuffSize ∧
      copiedOut invocation reply.status ≤ ioBuffSize
  | .error stop => ¬ Strays invocation stop

/-- They do once there are enough rounds for a lookup to end. -/
def StaysInBounds (fs : Filesystem) (fresh : ℕ → Memory) (invocation : Invocation) : Prop :=
  ∃ bound, ∀ k ≥ bound, Within invocation (serve fresh k fs invocation)

/-! ### The condition -/

/-- An index of the table of descriptors. -/
def InTable (fileDescriptor : ℤ) : Prop := 0 ≤ fileDescriptor ∧ fileDescriptor < maxFileDescriptors

/-- The length that a round of a read copies. -/
def copyAt (fs : Filesystem) (len : ℤ) (pos : ℕ) : ℤ :=
  min len (toInt32 (sub32 fs.blockSize (pos % fs.blockSize)))

/-- A read from a position on, into a buffer with so much room left, leaves the buffer: it returns a
length that is no size of the buffer, or one of its rounds copies too much. A round copies if its
block is in the image. -/
inductive Overreads (fs : Filesystem) (inode : Inode) (target : ℕ) (len : ℤ) : ℕ → ℕ → Prop
  | length {pos room : ℕ} (hend : target ≤ pos) (hlen : len < 0 ∨ ioBuffSize < len) :
      Overreads fs inode target len pos room
  | copy {pos room : ℕ} (hlt : pos < target) (hblock : blockNumber fs inode pos < fs.blockCount)
      (hcopy : copyAt fs len pos < 0 ∨ room < copyAt fs len pos) :
      Overreads fs inode target len pos room
  | next {pos room : ℕ} (hlt : pos < target) (hblock : blockNumber fs inode pos < fs.blockCount)
      (hcopy : 0 ≤ copyAt fs len pos ∧ copyAt fs len pos ≤ room)
      (hnext : Overreads fs inode target len (add32 pos (toUint32 (copyAt fs len pos)))
        (room - (copyAt fs len pos).toNat)) : Overreads fs inode target len pos room

/-- The requests of callers that are served in bounds. -/
def RemoteCall.Safe (fs : Filesystem) : RemoteCall → Prop
  | uclose fileDescriptor => InTable fileDescriptor.toInt
  | uopen _ => (∃ d < maxFileDescriptors, (fs.descriptors d).closed ≠ 0) ∧ toInt32 fs.rootInode ≠ -1
  | useek fileDescriptor _ _ => InTable fileDescriptor.toInt
  | uread fileDescriptor byteCount =>
    (byteCount.setWidth 32).toInt < 0 ∨ InTable fileDescriptor.toInt ∧
      let fd := fs.descriptors fileDescriptor.toInt.toNat
      let len := min (byteCount.setWidth 32).toInt (toInt32 (sub32 fd.inode.size fd.pos))
      ¬ Overreads fs fd.inode (add32 fd.pos (toUint32 len)) len fd.pos ioBuffSize
  | uwrite fileDescriptor _ => InTable fileDescriptor.toInt
  | umove _ _ => True

/-! ### Accesses to the table -/

/-- An access to a descriptor that the table does not have. -/
def OutOfTable : Stop → Prop
  | .outOfBounds _ => True
  | _ => False

section Table

variable {fs : Filesystem} {d : ℤ}

theorem avoids_copyLength (n : ℤ) : Avoids (copyLength n) OutOfTable := by
  unfold copyLength
  exact Avoids.ite (fun _ ↦ .error id) fun _ ↦ .ok

theorem avoids_seekBlock (fs : Filesystem) (n : ℤ) : Avoids (seekBlock fs n) OutOfTable :=
  (assert_avoids False.elim).bind fun _ _ ↦ .ok

theorem avoids_readBlock (fs : Filesystem) (n : ℤ) : Avoids (readBlock fs n) OutOfTable :=
  (avoids_seekBlock fs n).bind fun _ _ ↦ .ok

theorem avoids_writeBlock (fs : Filesystem) (n : ℤ) (content : Memory) :
    Avoids (writeBlock fs n content) OutOfTable :=
  (avoids_seekBlock fs n).bind fun _ _ ↦ .ok

theorem avoids_allocBlock (fs : Filesystem) : Avoids (allocBlock fs) OutOfTable :=
  (avoids_readBlock fs _).bind fun _ _ ↦
    Avoids.ite (fun _ ↦ .ok) fun _ ↦ (avoids_writeBlock _ _ _).bind fun _ _ ↦ .ok

theorem avoids_readInode (fs : Filesystem) (n : ℤ) : Avoids (readInode fs n) OutOfTable :=
  (avoids_seekBlock fs n).bind fun _ _ ↦ (assert_avoids False.elim).bind fun _ _ ↦ .ok

theorem avoids_writeInode (fs : Filesystem) (inode : Inode) :
    Avoids (writeInode fs inode) OutOfTable :=
  (avoids_seekBlock fs _).bind fun _ _ ↦ .ok

theorem getDescriptor_of_not_inTable (hd : ¬ InTable d) :
    getDescriptor fs d = .error (.outOfBounds d) := by
  unfold InTable at hd
  rw [getDescriptor, if_neg hd]

theorem avoids_getDescriptor (hd : InTable d) : Avoids (getDescriptor fs d) OutOfTable := by
  rw [getDescriptor, if_pos ⟨hd.1, hd.2⟩]
  exact .ok

theorem avoids_setDescriptor (hd : InTable d) (fd : FileDescriptor) :
    Avoids (setDescriptor fs d fd) OutOfTable := by
  rw [setDescriptor, if_pos ⟨hd.1, hd.2⟩]
  exact .ok

theorem avoids_iopen (fs : Filesystem) (n : ℤ) : Avoids (iopen fs n) OutOfTable := by
  unfold iopen
  refine Avoids.ite (fun _ ↦ .ok) fun hslot ↦ (avoids_readInode fs n).bind fun _ _ ↦
    (avoids_setDescriptor ?_ _).bind fun _ _ ↦ .ok
  by_cases hclosed : ∃ d < maxFileDescriptors, (fs.descriptors d).closed ≠ 0
  · obtain ⟨d, hd, hnext, -⟩ := slot_of_closed hclosed
    rw [hnext]
    exact ⟨Int.natCast_nonneg d, by omega⟩
  · push Not at hclosed
    exact absurd (.inl (slot_of_full hclosed)) hslot

theorem avoids_readIntoLoop (capacity : ℕ) (inode : Inode) (target : ℕ) (len : ℤ) (bound : ℕ)
    (fs : Filesystem) (pos : ℕ) (buffer : List (BitVec 8)) :
    Avoids (readIntoLoop capacity inode target len bound fs pos buffer) OutOfTable := by
  induction bound generalizing fs pos buffer with
  | zero => exact .error id
  | succ bound ih =>
    rw [readIntoLoop]
    exact Avoids.ite (fun _ ↦ (avoids_readBlock _ _).bind fun _ _ ↦
      (avoids_copyLength _).bind fun _ _ ↦
      Avoids.ite (fun _ ↦ .error id) fun _ ↦ ih _ _ _) fun _ ↦ .ok

theorem avoids_writeLoop (inode : Inode) (target bound : ℕ) (fs : Filesystem) (pos : ℕ)
    (buffer : List (BitVec 8)) :
    Avoids (writeLoop inode target bound fs pos buffer) OutOfTable := by
  induction bound generalizing fs pos buffer with
  | zero => exact .error id
  | succ bound ih =>
    rw [writeLoop]
    exact Avoids.ite (fun _ ↦ (avoids_readBlock _ _).bind fun _ _ ↦
      (avoids_copyLength _).bind fun _ _ ↦
      (avoids_writeBlock _ _ _).bind fun _ _ ↦ ih _ _ _) fun _ ↦ .ok

theorem avoids_extendLoop (target bound : ℕ) (fs : Filesystem) (inode : Inode)
    (indexOfLastBlock : ℕ) :
    Avoids (extendLoop target bound fs inode indexOfLastBlock) OutOfTable := by
  induction bound generalizing fs inode indexOfLastBlock with
  | zero => exact .error id
  | succ bound ih =>
    rw [extendLoop]
    exact Avoids.ite (fun _ ↦ (avoids_allocBlock _).bind fun _ _ ↦ ih _ _ _) fun _ ↦ .ok

theorem avoids_extendFile (hd : InTable d) (fs : Filesystem) (len : ℤ) :
    Avoids (extendFile fs d len) OutOfTable :=
  (avoids_getDescriptor hd).bind fun _ _ ↦ Avoids.ite (fun _ ↦ .ok) fun _ ↦
    (avoids_extendLoop _ _ _ _ _).bind fun _ _ ↦ (avoids_setDescriptor hd _).bind fun _ _ ↦
    avoids_writeInode _ _

theorem avoids_writeFile (hd : InTable d) (fs : Filesystem) (buffer : List (BitVec 8)) :
    Avoids (writeFile fs d buffer) OutOfTable :=
  (assert_avoids False.elim).bind fun _ _ ↦ (avoids_extendFile hd fs _).bind fun _ _ ↦
    (avoids_getDescriptor hd).bind fun _ _ ↦ (assert_avoids False.elim).bind fun _ _ ↦
      (avoids_writeLoop _ _ _ _ _ _).bind fun _ _ ↦ (avoids_setDescriptor hd _).bind fun _ _ ↦ .ok

theorem avoids_fseek (hd : InTable d) (fs : Filesystem) (offset : ℤ) (whence : Seek) :
    Avoids (fseek fs d offset whence) OutOfTable := by
  refine (avoids_getDescriptor hd).bind fun fd _ ↦ ?_
  have hset : ∀ pos, Avoids (assert (.assertion .seekPos) (pos ≤ fd.inode.size) >>= fun _ ↦
      setDescriptor fs d { fd with pos := pos }) OutOfTable := fun pos ↦
    (assert_avoids False.elim).bind fun _ _ ↦ avoids_setDescriptor hd _
  cases whence with
  | seekSet => exact hset _
  | seekCur => exact hset _
  | seekEnd => exact (assert_avoids False.elim).bind fun _ _ ↦ hset _

end Table

/-! ### Reads -/

section Read

variable {fs : Filesystem} {inode : Inode} {target bound pos : ℕ} {len : ℤ}

/-- The copies of a read into the buffer stay in it, and so does the length that it returns. -/
def WithinRead (len : ℤ) : Except Stop (Filesystem × ℕ × List (BitVec 8)) → Prop
  | .ok (_, _, buffer) => buffer.length ≤ ioBuffSize ∧ 0 ≤ len ∧ len ≤ ioBuffSize
  | .error .overrun => False
  | .error .copyTooLong => False
  | .error _ => True

/-- A round copies something, or a negative number of bytes. -/
theorem copyAt_ne_zero (h : InMemory fs) (hcount : 0 < fs.blockCount) (hlen : len ≠ 0) (pos : ℕ) :
    copyAt fs len pos ≠ 0 := by
  obtain ⟨hsub, hsize⟩ := sub32_mod h hcount pos
  have hmod := Nat.mod_lt pos h.blockSize_pos
  rw [copyAt, hsub, toInt32_natCast (by omega)]
  omega

theorem readIntoLoop_withinRead (h : InMemory fs) (hlen : len ≠ 0) {buffer : List (BitVec 8)}
    (hbuffer : buffer.length ≤ ioBuffSize) (hbound : ioBuffSize - buffer.length < bound)
    (cursor : ℕ) :
    WithinRead len (readIntoLoop ioBuffSize inode target len bound { fs with
      seekCursor := cursor } pos buffer) ↔
      ¬ Overreads fs inode target len pos (ioBuffSize - buffer.length) := by
  induction bound generalizing pos buffer cursor with
  | zero => omega
  | succ bound ih =>
    have hmem : InMemory { fs with seekCursor := cursor } := h.congr rfl rfl
    rw [readIntoLoop]
    by_cases hlt : pos < target
    · rw [if_pos hlt]
      change WithinRead len (readBlock { fs with
        seekCursor := cursor } (toInt32 (blockNumber fs inode pos)) >>= _) ↔ _
      by_cases hblock : blockNumber fs inode pos < fs.blockCount
      · have hnumber := (h.bounds hblock).1
        have hread := readBlock_eq hmem hblock
        rw [toInt32_natCast (by omega), hread, ok_bind]
        dsimp only
        rw [← copyAt]
        have hne := copyAt_ne_zero h (Nat.zero_lt_of_lt hblock) hlen pos
        by_cases hneg : copyAt fs len pos < 0
        · rw [copyLength, if_pos hneg, error_bind]
          exact iff_of_false id (not_not.mpr (.copy hlt hblock (.inl hneg)))
        · rw [copyLength, if_neg hneg, ok_bind]
          by_cases hover : ioBuffSize < buffer.length + (copyAt fs len pos).toNat
          · rw [if_pos hover]
            exact iff_of_false id (not_not.mpr (.copy hlt hblock (.inr (by omega))))
          · have hbytes :
                (read (content { fs with seekCursor := cursor } (blockNumber fs inode pos))
                (pos % fs.blockSize) (copyAt fs len pos).toNat).length =
                (copyAt fs len pos).toNat := by
              rw [ByteMemory.read, List.length_map, List.length_range]
            have hroom : ioBuffSize - (buffer.length + (copyAt fs len pos).toNat) =
              ioBuffSize - buffer.length - (copyAt fs len pos).toNat := by omega
            rw [if_neg hover, ih, List.length_append, hbytes, hroom]
            · refine not_congr ⟨.next hlt hblock (by omega), fun hreads ↦ ?_⟩
              cases hreads with
              | length hend _ => omega
              | copy _ _ hcopy => omega
              | next _ _ _ hnext => exact hnext
            · rw [List.length_append, hbytes]
              omega
            · rw [List.length_append, hbytes]
              omega
      · have hread :
            readBlock { fs with seekCursor := cursor } (toInt32 (blockNumber fs inode pos)) =
            .error (.assertion .seekBlock) :=
          readBlock_of_le (switchEndianness_lt _) (not_lt.mp hblock)
        rw [hread, error_bind]
        refine iff_of_true trivial fun hreads ↦ ?_
        cases hreads with
        | length hend _ => omega
        | copy _ hblock' _ => exact hblock hblock'
        | next _ hblock' _ _ => exact hblock hblock'
    · rw [if_neg hlt]
      refine ⟨fun hwithin hreads ↦ ?_, fun hfits ↦ ⟨hbuffer, ?_⟩⟩
      · obtain ⟨-, hnonneg, hle⟩ := hwithin
        cases hreads with
        | length _ hout => omega
        | copy hlt' _ _ => exact hlt hlt'
        | next hlt' _ _ _ => exact hlt hlt'
      · by_contra hout
        exact hfits (.length (not_lt.mp hlt) (by omega))

/-- The status is a `size_t` of at most the size of the buffer. -/
theorem copiedOut_le_iff {status : ℤ} (hlow : -2 ^ 31 ≤ status) (hhigh : status < 2 ^ 31) :
    (status % 2 ^ 64).toNat ≤ ioBuffSize ↔ 0 ≤ status ∧ status ≤ ioBuffSize := by
  have hbuff : ioBuffSize = 500 := rfl
  omega

theorem add32_zero_le (a : ℕ) : add32 a (toUint32 0) ≤ a := by
  unfold add32 toUint32
  exact Nat.mod_le a (2 ^ 32)

/-- A read of no bytes does nothing. -/
theorem withinRead_zero (hend : target ≤ pos) (bound : ℕ) :
    WithinRead 0 (readIntoLoop ioBuffSize inode target 0 (bound + 1) fs pos []) ↔
      ¬ Overreads fs inode target 0 pos ioBuffSize := by
  rw [readIntoLoop, if_neg (not_lt.mpr hend)]
  refine iff_of_true ⟨Nat.zero_le _, le_rfl, Int.natCast_nonneg _⟩ fun hreads ↦ ?_
  cases hreads with
  | length _ hlen => exact hlen.elim (lt_irrefl _) (not_lt.mpr (Int.natCast_nonneg _))
  | copy hlt _ _ => exact absurd hlt (not_lt.mpr hend)
  | next hlt _ _ _ => exact absurd hlt (not_lt.mpr hend)

/-- What `fread` does after its loop. -/
theorem within_fread {d : ℕ} (hd : d < maxFileDescriptors) {fileDescriptor : BitVec 32}
    {byteCount : BitVec 64} {fd : FileDescriptor} (hlow : -2 ^ 31 ≤ len) (hhigh : len < 2 ^ 31)
    (res : Except Stop (Filesystem × ℕ × List (BitVec 8)))
    (hbounds : ∀ i, res ≠ .error (.outOfBounds i)) :
    Within (.fread fileDescriptor byteCount) ((res >>= fun done ↦
      setDescriptor done.1 d { fd with
        pos := done.2.1 } >>= fun fs ↦ Except.ok (fs, done.2.2, len)) >>= fun served ↦
        Except.ok (served.1, ⟨served.2.2, served.2.1⟩)) ↔ WithinRead len res := by
  cases res with
  | error stop =>
    rw [error_bind]
    cases stop with
    | outOfBounds i => exact absurd rfl (hbounds i)
    | overrun => exact iff_of_false (not_not.mpr trivial) id
    | copyTooLong => exact iff_of_false (not_not.mpr trivial) id
    | assertion which => exact iff_of_true id trivial
    | diverges => exact iff_of_true id trivial
  | ok r =>
    rw [ok_bind, setDescriptor_natCast hd, ok_bind, ok_bind]
    exact and_congr_right fun _ ↦ copiedOut_le_iff hlow hhigh

/-- A read is served in bounds unless its descriptor or its length is bad. -/
theorem within_serve_fread (h : InMemory fs) (fresh : ℕ → Memory) (fileDescriptor : BitVec 32)
    (byteCount : BitVec 64) :
    Within (.fread fileDescriptor byteCount)
      (serve fresh bound fs (.fread fileDescriptor byteCount)) ↔
      (RemoteCall.uread fileDescriptor byteCount).Safe fs := by
  have hcount : (byteCount.setWidth 32).toInt < 2 ^ 31 := BitVec.toInt_lt
  unfold RemoteCall.Safe serve readInto
  dsimp only
  generalize (byteCount.setWidth 32).toInt = count at hcount
  by_cases hneg : count < 0
  · rw [assert_neg (not_le.mpr hneg), error_bind, error_bind]
    exact iff_of_true id (.inl hneg)
  · rw [assert_pos (not_lt.mp hneg), ok_bind]
    simp only [hneg, false_or]
    by_cases htable : InTable fileDescriptor.toInt
    · obtain ⟨d, hd⟩ := Int.eq_ofNat_of_zero_le htable.1
      have hlt : d < maxFileDescriptors := by
        have hlt := htable.2
        omega
      rw [and_iff_right htable, hd, getDescriptor_natCast hlt, ok_bind, Int.toNat_natCast]
      generalize hfd : fs.descriptors d = fd
      have hint := toInt32_bounds (sub32 fd.inode.size fd.pos)
      generalize hlen : min count (toInt32 (sub32 fd.inode.size fd.pos)) = len
      rw [within_fread hlt (by omega) (by omega) _ fun i hi ↦
        avoids_readIntoLoop _ _ _ _ _ _ _ _ _ hi trivial]
      by_cases hzero : len = 0
      · rw [hzero]
        exact withinRead_zero (add32_zero_le fd.pos) _
      · exact readIntoLoop_withinRead h hzero (Nat.zero_le _) (by decide) fs.seekCursor
    · rw [getDescriptor_of_not_inTable htable, error_bind, error_bind]
      exact iff_of_false (not_not.mpr trivial) fun hsafe ↦ htable hsafe.1

end Read

/-! ### The other functions -/

section Serve

variable {fs : Filesystem} {d : ℤ} {fresh : ℕ → Memory} {bound : ℕ} {path : List (BitVec 8)}
  {ending : Ending}

/-- A function that fills no buffer is served in bounds unless it accesses a descriptor outside the
table. -/
theorem within_bind {α : Type} {invocation : Invocation} (hread : ∀ fileDescriptor byteCount,
      invocation ≠ .fread fileDescriptor byteCount) (x : Except Stop α)
    (fs : α → Filesystem) (status : α → ℤ) :
    Within invocation (x >>= fun a ↦ .ok (fs a, ⟨status a, []⟩)) ↔ Avoids x OutOfTable := by
  have hcopied : ∀ n, copiedOut invocation n = 0 := by
    intro n
    cases invocation with
    | fread fileDescriptor byteCount => exact absurd rfl (hread fileDescriptor byteCount)
    | _ => rfl
  have hstrays : ∀ stop, Strays invocation stop ↔ OutOfTable stop := by
    intro stop
    cases invocation with
    | fread fileDescriptor byteCount => exact absurd rfl (hread fileDescriptor byteCount)
    | _ => cases stop <;> exact Iff.rfl
  cases x with
  | error stop =>
    rw [error_bind]
    refine ⟨fun hwithin ↦ .error fun hstop ↦ hwithin ((hstrays stop).mpr hstop),
      fun havoids hstop ↦ ?_⟩
    exact havoids stop rfl ((hstrays stop).mp hstop)
  | ok a =>
    rw [ok_bind]
    refine iff_of_true ⟨Nat.zero_le _, ?_⟩ .ok
    rw [hcopied]
    exact Nat.zero_le _

/-- A function that fails at the access to a descriptor outside the table. -/
theorem avoids_iff_inTable {α : Type} {x : Except Stop α}
    (hout : ¬ InTable d → x = .error (.outOfBounds d))
    (hin : InTable d → Avoids x OutOfTable) : Avoids x OutOfTable ↔ InTable d := by
  refine ⟨fun havoids ↦ ?_, hin⟩
  by_contra hd
  exact havoids _ (hout hd) trivial

theorem avoids_fclose_iff : Avoids (fclose fs d) OutOfTable ↔ InTable d := by
  apply avoids_iff_inTable
  · intro hd
    rw [fclose, getDescriptor_of_not_inTable hd, error_bind]
  · intro hd
    exact (avoids_getDescriptor hd).bind fun _ _ ↦ avoids_setDescriptor hd _

theorem avoids_fseekWord_iff (offset : ℤ) (whence : BitVec 32) :
    Avoids (fseekWord fs d offset whence) OutOfTable ↔ InTable d := by
  unfold fseekWord
  cases seekOf whence with
  | some seek =>
    apply avoids_iff_inTable
    · intro hd
      dsimp only
      rw [fseek, getDescriptor_of_not_inTable hd, error_bind]
    · intro hd
      exact avoids_fseek hd fs offset seek
  | none =>
    apply avoids_iff_inTable
    · intro hd
      dsimp only
      rw [getDescriptor_of_not_inTable hd, error_bind]
    · intro hd
      exact (avoids_getDescriptor hd).bind fun _ _ ↦ .error id

theorem avoids_writeFile_iff (buffer : List (BitVec 8)) :
    Avoids (writeFile fs d buffer) OutOfTable ↔ InTable d := by
  apply avoids_iff_inTable
  · intro hd
    rw [writeFile]
    dsimp only
    rw [assert_pos (Int.natCast_nonneg _), ok_bind, extendFile, getDescriptor_of_not_inTable hd,
      error_bind, error_bind]
  · intro hd
    exact avoids_writeFile hd fs buffer

/-- `fopen` leaves the table if its lookup does. -/
theorem Ending.Result.avoids_iopen {res : Except Stop (Filesystem × ℤ)} {slot : ℕ}
    (h : ending.Result fs slot res) (hbounds : ∀ i, ending ≠ .stopped (.outOfBounds i)) :
    Avoids (res >>= fun r ↦ iopen r.1 r.2) OutOfTable := by
  refine Avoids.bind ?_ fun r _ ↦ Files.avoids_iopen r.1 r.2
  cases ending with
  | missing =>
    obtain ⟨_, _, _, rfl⟩ := h
    exact .ok
  | found v =>
    obtain ⟨_, _, _, rfl⟩ := h
    exact .ok
  | stopped stop =>
    obtain rfl : res = .error stop := h
    refine .error fun hstop ↦ ?_
    cases stop with
    | outOfBounds i => exact hbounds i rfl
    | _ => exact hstop

/-- `fopen` leaves the table exactly if there is no descriptor for its lookup or no root
directory. -/
theorem staysInBounds_fopen_iff (h : InMemory fs) (hroot : fs.rootInode < 2 ^ 32) :
    StaysInBounds fs fresh (.fopen path) ↔
      (∃ slot < maxFileDescriptors, (fs.descriptors slot).closed ≠ 0) ∧
      toInt32 fs.rootInode ≠ -1 := by
  have hwithin : ∀ k, Within (.fopen path) (serve fresh k fs (.fopen path)) ↔
      Avoids (fopen fresh k fs path) OutOfTable := fun k ↦ within_bind (by simp) _ Prod.fst Prod.snd
  unfold StaysInBounds
  simp only [hwithin]
  have hfails : (getNextAvailableFileDescriptorSlot fs = -1 ∨ toInt32 fs.rootInode = -1) →
      ¬ ∃ bound, ∀ k ≥ bound, Avoids (fopen fresh k fs path) OutOfTable := by
    rintro hnone ⟨bound, havoids⟩
    have hlast := havoids (bound + 1) (Nat.le_succ bound)
    rw [fopen, inodeOfPath_of_noDescriptor hnone, error_bind] at hlast
    exact hlast _ rfl trivial
  by_cases hslot : ∃ slot < maxFileDescriptors, (fs.descriptors slot).closed ≠ 0
  · rw [and_iff_right hslot]
    refine ⟨fun havoids hne ↦ hfails (.inr hne) havoids, fun hne ↦ ?_⟩
    obtain ⟨slot, hlt, hnext, -⟩ := slot_of_closed hslot
    obtain ⟨ending, hends⟩ := exists_lookupEnds h fresh path
    obtain ⟨bound, hrun⟩ := hends.run h hroot hne hnext hlt
    exact ⟨bound, fun k hk ↦ (hrun k hk).avoids_iopen fun i ↦ hends.ne_outOfBounds⟩
  · push Not at hslot
    refine iff_of_false (hfails (.inl (slot_of_full hslot))) ?_
    rintro ⟨⟨slot, hlt, hclosed⟩, -⟩
    exact hclosed (hslot slot hlt)

/-- The first `fopen` after `init_filesystem` has descriptors for its lookup. -/
theorem staysInBounds_initFilesystem {image : Memory} {size : ℕ} (descriptors : ℕ → FileDescriptor)
    (hsize : 4 ≤ size) (hlt : size ≤ 2 ^ 30)
    (hpos : 0 < switchEndianness (load image (size - 4) 4)) :
    StaysInBounds (initFilesystem image size descriptors) fresh (.fopen path) ↔
      toInt32 (switchEndianness (load image 16 4)) ≠ -1 := by
  have hmemory := inMemory_initFilesystem descriptors hsize hlt hpos
  rw [staysInBounds_fopen_iff hmemory (switchEndianness_lt _)]
  exact and_iff_right ⟨0, by decide, Nat.one_ne_zero⟩

/-- The rounds of a lookup matter to `fopen` only. -/
theorem staysInBounds_of_forall {invocation : Invocation} {p : Prop}
    (h : ∀ k, Within invocation (serve fresh k fs invocation) ↔ p) :
    StaysInBounds fs fresh invocation ↔ p := by
  unfold StaysInBounds
  simp only [h]
  exact ⟨fun ⟨bound, hp⟩ ↦ hp bound le_rfl, fun hp ↦ ⟨0, fun _ _ ↦ hp⟩⟩

end Serve

/-! ### The requests -/

/-- A request of a caller is served in bounds exactly if it is safe. -/
theorem staysInBounds_iff {fs : Filesystem} {call : RemoteCall} {request : Request}
    (h : InMemory fs) (hroot : fs.rootInode < 2 ^ 32) (hreq : call.request = some request)
    (fresh : ℕ → Memory) : StaysInBounds fs fresh (dispatch request.bytes) ↔ call.Safe fs := by
  cases call with
  | uclose fileDescriptor =>
    rw [dispatch_request hreq (by simp), RemoteCall.invocation]
    exact staysInBounds_of_forall fun k ↦ (within_bind (by simp) _ id _).trans avoids_fclose_iff
  | uopen path =>
    rw [dispatch_request hreq (by simp), RemoteCall.invocation]
    exact staysInBounds_fopen_iff h hroot
  | useek fileDescriptor offset whence =>
    rw [dispatch_request hreq (by simp), RemoteCall.invocation]
    exact staysInBounds_of_forall fun k ↦
      (within_bind (by simp) _ id _).trans (avoids_fseekWord_iff _ _)
  | uread fileDescriptor byteCount =>
    rw [dispatch_request hreq (by simp), RemoteCall.invocation]
    exact staysInBounds_of_forall fun k ↦ within_serve_fread h fresh fileDescriptor byteCount
  | uwrite fileDescriptor buf =>
    rw [dispatch_request hreq (by simp), RemoteCall.invocation]
    exact staysInBounds_of_forall fun k ↦ (within_bind (by simp) _ Prod.fst Prod.snd).trans
      (avoids_writeFile_iff _)
  | umove srcPath dstPath =>
    rw [dispatch_umove hreq]
    exact staysInBounds_of_forall fun k ↦ iff_of_true ⟨Nat.zero_le _, Nat.zero_le _⟩ trivial

theorem staysInBounds_iff_treeDisk :
    StaysInBounds treeDisk (fun _ _ ↦ 0) (dispatch { Request.ofCode 0 with
      fileDescriptor := 3 }.bytes) ↔
      (RemoteCall.uclose 3).Safe treeDisk :=
  staysInBounds_iff wellFormed_treeDisk.layout.inMemory (by decide) rfl _

/-- `uclose` of what a failed `uopen` returns. -/
theorem not_staysInBounds_uclose : ∃ request, (RemoteCall.uclose (-1)).request = some request ∧
    ¬ StaysInBounds treeDisk (fun _ _ ↦ 0) (dispatch request.bytes) := by
  refine ⟨{ Request.ofCode 0 with fileDescriptor := -1 }, rfl, ?_⟩
  have hreq : (RemoteCall.uclose (-1)).request = some { Request.ofCode 0 with
      fileDescriptor := -1 } := rfl
  rw [dispatch_request hreq (by simp), RemoteCall.invocation]
  rintro ⟨bound, hwithin⟩
  have htable := ((within_bind (by simp) _ id _).trans avoids_fclose_iff).mp (hwithin bound le_rfl)
  exact absurd htable.1 (by decide)

end SysresOs.Files
