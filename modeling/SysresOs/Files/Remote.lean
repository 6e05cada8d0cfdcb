import SysresOs.Files.Filesystem
import SysresOs.Proc.State

/-!
# Requests to the filesystem manager

`user_filesystem.c` and the decoder in `fs_manager.c`. A process calls the filesystem with a message
of 1024 bytes: a code, a descriptor, two words and two buffers. The manager takes the arguments of
the function that it calls out of the message. They are those of the caller, except that `umove`
copies both paths into the second buffer, so that the manager gets an empty source path
(`carries_iff`).
-/

set_option autoImplicit false
set_option relaxedAutoImplicit false

namespace SysresOs.Files

open SysresOs.ByteMemory

/-! ### Buffers and strings -/

/-- `IO_BUFF_SIZE`. -/
def ioBuffSize : ℕ := 500

/-- An array of `IO_BUFF_SIZE` characters. -/
structure Buff where
  bytes : List (BitVec 8)
  length_eq : bytes.length = ioBuffSize

/-- A buffer of zeros. -/
def Buff.zero : Buff := ⟨List.replicate ioBuffSize 0, List.length_replicate⟩

/-- `memmove` to the beginning of a buffer. -/
def Buff.put (b : Buff) (bytes : List (BitVec 8)) (h : bytes.length ≤ ioBuffSize) : Buff where
  bytes := bytes ++ b.bytes.drop bytes.length
  length_eq := by
    rw [List.length_append, List.length_drop, b.length_eq, Nat.add_sub_cancel' h]

/-- The characters of a string before its zero. -/
structure CString where
  chars : List (BitVec 8)
  no_zero : 0 ∉ chars

/-- The string as it is stored. -/
def CString.stored (s : CString) : List (BitVec 8) := s.chars ++ [0]

/-- `strsize`. -/
abbrev CString.strsize (s : CString) : ℕ := s.stored.length

/-- The string that begins at a byte of a message. -/
def stringAt (message : List (BitVec 8)) (offset : ℕ) : List (BitVec 8) :=
  (message.drop offset).takeWhile (· ≠ 0)

/-- The integer of `n` bytes in a message. -/
def field (message : List (BitVec 8)) (offset n : ℕ) : ℕ := ofBytes ((message.drop offset).take n)

/-! ### Requests -/

/-- `fs_request_t`. -/
structure Request where
  code : BitVec 32
  fileDescriptor : BitVec 32
  data1 : BitVec 64
  data2 : BitVec 64
  buff1 : Buff
  buff2 : Buff

/-- The bytes of a request. -/
def Request.bytes (r : Request) : List (BitVec 8) :=
  toBytes 4 r.code.toNat ++ (toBytes 4 r.fileDescriptor.toNat ++ (toBytes 8 r.data1.toNat ++
    (toBytes 8 r.data2.toNat ++ (r.buff1.bytes ++ r.buff2.bytes))))

/-- A request with a code and otherwise zeros. -/
def Request.ofCode (code : BitVec 32) : Request := ⟨code, 0, 0, 0, .zero, .zero⟩

/-- The calls of the filesystem from a process. -/
inductive RemoteCall
  | uclose (fileDescriptor : BitVec 32)
  | uopen (path : CString)
  | useek (fileDescriptor offset whence : BitVec 32)
  | uread (fileDescriptor : BitVec 32) (byteCount : BitVec 64)
  | uwrite (fileDescriptor : BitVec 32) (buf : List (BitVec 8))
  | umove (srcPath dstPath : CString)

/-- The request that a call sends, if its sizes pass the checks. -/
def RemoteCall.request : RemoteCall → Option Request
  | uclose fileDescriptor => some { Request.ofCode 0 with fileDescriptor := fileDescriptor }
  | uopen path =>
    if h : path.strsize ≤ ioBuffSize then
      let req := Request.ofCode 1
      some { req with buff1 := req.buff1.put path.stored h }
    else none
  | useek fileDescriptor offset whence =>
    some { Request.ofCode 2 with
      fileDescriptor := fileDescriptor
      data1 := offset.signExtend 64
      data2 := whence.setWidth 64 }
  | uread fileDescriptor byteCount =>
    some { Request.ofCode 3 with fileDescriptor := fileDescriptor, data1 := byteCount }
  | uwrite fileDescriptor buf =>
    let req := { Request.ofCode 4 with
        fileDescriptor := fileDescriptor, data1 := BitVec.ofNat 64 buf.length }
    if h : buf.length ≤ ioBuffSize then some { req with buff1 := req.buff1.put buf h } else none
  | umove srcPath dstPath =>
    let req := Request.ofCode 5
    if h : srcPath.strsize ≤ ioBuffSize then
      let req := { req with buff2 := req.buff2.put srcPath.stored h }
      if h : dstPath.strsize ≤ ioBuffSize then some { req with
        buff2 := req.buff2.put dstPath.stored h } else none
    else none

/-! ### The manager -/

/-- The functions that the manager calls, with their arguments. -/
inductive Invocation
  | fclose (fileDescriptor : BitVec 32)
  | fopen (path : List (BitVec 8))
  | fseek (fileDescriptor offset whence : BitVec 32)
  | fread (fileDescriptor : BitVec 32) (byteCount : BitVec 64)
  | fwrite (fileDescriptor : BitVec 32) (buf : List (BitVec 8)) (byteCount : BitVec 64)
  | move (srcPath dstPath : List (BitVec 8))
  | unknown
  deriving DecidableEq

/-- The `switch` of `main_fs_manager` for a message that was received. -/
def dispatch (message : List (BitVec 8)) : Invocation :=
  let fileDescriptor := BitVec.ofNat 32 (field message 4 4)
  let data1 := BitVec.ofNat 64 (field message 8 8)
  let data2 := BitVec.ofNat 64 (field message 16 8)
  match field message 0 4 with
  | 0 => .fclose fileDescriptor
  | 1 => .fopen (stringAt message 24)
  | 2 => .fseek fileDescriptor (data1.setWidth 32) (data2.setWidth 32)
  | 3 => .fread fileDescriptor data1
  | 4 => .fwrite fileDescriptor ((message.drop 24).take data1.toNat) data1
  | 5 => .move (stringAt message 24) (stringAt message 524)
  | _ => .unknown

/-- The function that a call is for, with the arguments that the caller passes. -/
def RemoteCall.invocation : RemoteCall → Invocation
  | uclose fileDescriptor => .fclose fileDescriptor
  | uopen path => .fopen path.chars
  | useek fileDescriptor offset whence => .fseek fileDescriptor offset whence
  | uread fileDescriptor byteCount => .fread fileDescriptor byteCount
  | uwrite fileDescriptor buf => .fwrite fileDescriptor buf (BitVec.ofNat 64 buf.length)
  | umove srcPath dstPath => .move srcPath.chars dstPath.chars

/-- The message fits, and the manager calls the function with the arguments of the caller. -/
def RemoteCall.Carries (call : RemoteCall) : Prop :=
  ∀ request, call.request = some request →
    request.bytes.length ≤ Proc.buffSize ∧ dispatch request.bytes = call.invocation

/-! ### The fields of a message -/

section Fields

variable {l₁ l₂ : List (BitVec 8)} {k n v : ℕ}

theorem field_append (hk : l₁.length = k) (offset n : ℕ) :
    field (l₁ ++ l₂) (k + offset) n = field l₂ offset n := by
  rw [field, ← List.drop_drop, List.drop_left' hk, field]

theorem field_toBytes (hv : v < 256 ^ n) (l : List (BitVec 8)) :
    field (toBytes n v ++ l) 0 n = v := by
  rw [field, List.drop_zero, List.take_left' (length_toBytes n v), ofBytes_toBytes hv]

/-- The string that was stored is read back. -/
theorem stringAt_stored (s : CString) (l : List (BitVec 8)) :
    stringAt (s.stored ++ l) 0 = s.chars := by
  have hchars : ∀ c ∈ s.chars, decide (c ≠ 0) = true := fun c hc ↦
    decide_eq_true fun hzero ↦ s.no_zero (hzero ▸ hc)
  rw [stringAt, List.drop_zero, CString.stored, List.append_assoc,
    List.takeWhile_append_of_pos hchars, List.singleton_append,
    List.takeWhile_cons_of_neg (by simp), List.append_nil]

end Fields

namespace Request

variable (r : Request)

theorem length_bytes : r.bytes.length = Proc.buffSize := by
  simp only [bytes, List.length_append, length_toBytes, r.buff1.length_eq, r.buff2.length_eq]
  rfl

theorem field_code : field r.bytes 0 4 = r.code.toNat :=
  field_toBytes (r.code.isLt.trans_le (by decide)) _

theorem field_fileDescriptor : field r.bytes 4 4 = r.fileDescriptor.toNat := by
  rw [bytes, field_append (length_toBytes 4 _) 0 4]
  exact field_toBytes (r.fileDescriptor.isLt.trans_le (by decide)) _

theorem field_data1 : field r.bytes 8 8 = r.data1.toNat := by
  rw [bytes, field_append (length_toBytes 4 _) 4 8, field_append (length_toBytes 4 _) 0 8]
  exact field_toBytes (r.data1.isLt.trans_le (by decide)) _

theorem field_data2 : field r.bytes 16 8 = r.data2.toNat := by
  rw [bytes, field_append (length_toBytes 4 _) 12 8, field_append (length_toBytes 4 _) 8 8,
    field_append (length_toBytes 8 _) 0 8]
  exact field_toBytes (r.data2.isLt.trans_le (by decide)) _

theorem drop_header : r.bytes.drop 24 = r.buff1.bytes ++ r.buff2.bytes := by
  have hdrop : ∀ (n v : ℕ) (l : List (BitVec 8)), (toBytes n v ++ l).drop n = l := fun n v l ↦
    List.drop_left' (length_toBytes n v)
  rw [show (24 : ℕ) = 4 + (4 + (8 + 8)) from rfl, ← List.drop_drop, ← List.drop_drop,
    ← List.drop_drop, bytes, hdrop, hdrop, hdrop, hdrop]

theorem stringAt_buff1 : stringAt r.bytes 24 = stringAt (r.buff1.bytes ++ r.buff2.bytes) 0 := by
  rw [stringAt, r.drop_header, stringAt, List.drop_zero]

theorem stringAt_buff2 : stringAt r.bytes 524 = stringAt r.buff2.bytes 0 := by
  rw [stringAt, show (524 : ℕ) = 24 + ioBuffSize from rfl, ← List.drop_drop, r.drop_header,
    List.drop_left' r.buff1.length_eq, stringAt, List.drop_zero]

/-- What the manager makes of a request. -/
theorem dispatch_bytes : dispatch r.bytes = match r.code.toNat with
    | 0 => .fclose r.fileDescriptor
    | 1 => .fopen (stringAt (r.buff1.bytes ++ r.buff2.bytes) 0)
    | 2 => .fseek r.fileDescriptor (r.data1.setWidth 32) (r.data2.setWidth 32)
    | 3 => .fread r.fileDescriptor r.data1
    | 4 => .fwrite r.fileDescriptor ((r.buff1.bytes ++ r.buff2.bytes).take r.data1.toNat) r.data1
    | 5 => .move (stringAt (r.buff1.bytes ++ r.buff2.bytes) 0) (stringAt r.buff2.bytes 0)
    | _ => .unknown := by
  rw [dispatch, r.field_code, r.field_fileDescriptor, r.field_data1, r.field_data2, r.drop_header,
    r.stringAt_buff1, r.stringAt_buff2, BitVec.ofNat_toNat, BitVec.ofNat_toNat, BitVec.ofNat_toNat,
    BitVec.setWidth_eq, BitVec.setWidth_eq, BitVec.setWidth_eq]

end Request

/-! ### What the manager gets -/

theorem Buff.put_bytes (b : Buff) {l : List (BitVec 8)} (h : l.length ≤ ioBuffSize) :
    (b.put l h).bytes = l ++ b.bytes.drop l.length := rfl

/-- A path in the first buffer. -/
theorem stringAt_put (b b' : Buff) (s : CString) (h : s.strsize ≤ ioBuffSize) :
    stringAt ((b.put s.stored h).bytes ++ b'.bytes) 0 = s.chars := by
  rw [Buff.put_bytes, List.append_assoc, stringAt_stored]

theorem stringAt_zero (l : List (BitVec 8)) : stringAt (Buff.zero.bytes ++ l) 0 = [] := by
  have hzero : Buff.zero.bytes = 0 :: List.replicate 499 0 := List.replicate_succ
  rw [hzero, stringAt, List.drop_zero, List.cons_append, List.takeWhile_cons_of_neg (by simp)]

/-- The manager gets an empty source path. -/
theorem dispatch_umove {srcPath dstPath : CString} {request : Request}
    (h : (RemoteCall.umove srcPath dstPath).request = some request) :
    dispatch request.bytes = .move [] dstPath.chars := by
  unfold RemoteCall.request at h
  dsimp only at h
  split_ifs at h with hsrc hdst
  obtain rfl := Option.some.inj h
  rw [Request.dispatch_bytes]
  change Invocation.move (stringAt (Buff.zero.bytes ++ _) 0) (stringAt (dstPath.stored ++ _) 0) = _
  rw [stringAt_zero, stringAt_stored]

/-- The arguments of a call other than `umove` arrive. -/
theorem dispatch_request {call : RemoteCall} {request : Request} (h : call.request = some request)
    (hmove : ∀ srcPath dstPath, call ≠ .umove srcPath dstPath) :
    dispatch request.bytes = call.invocation := by
  cases call with
  | uclose fileDescriptor =>
    obtain rfl := Option.some.inj h
    rw [Request.dispatch_bytes]
    rfl
  | uopen path =>
    unfold RemoteCall.request at h
    dsimp only at h
    split_ifs at h with hsize
    obtain rfl := Option.some.inj h
    rw [Request.dispatch_bytes]
    exact congrArg Invocation.fopen (stringAt_put _ _ path hsize)
  | useek fileDescriptor offset whence =>
    obtain rfl := Option.some.inj h
    rw [Request.dispatch_bytes]
    have hoffset : (offset.signExtend 64).setWidth 32 = offset := by
      ext i hi
      have hi' : i < 64 := by omega
      rw [BitVec.getElem_setWidth, BitVec.getLsbD_signExtend, decide_eq_true hi',
        Bool.true_and, if_pos hi, BitVec.getLsbD_eq_getElem hi]
    have hwhence : (whence.setWidth 64).setWidth 32 = whence := by
      ext i hi
      simp
    change Invocation.fseek fileDescriptor ((offset.signExtend 64).setWidth 32)
      ((whence.setWidth 64).setWidth 32) = _
    rw [hoffset, hwhence]
    rfl
  | uread fileDescriptor byteCount =>
    obtain rfl := Option.some.inj h
    rw [Request.dispatch_bytes]
    rfl
  | uwrite fileDescriptor buf =>
    unfold RemoteCall.request at h
    dsimp only at h
    split_ifs at h with hsize
    obtain rfl := Option.some.inj h
    rw [Request.dispatch_bytes]
    have hlength : (BitVec.ofNat 64 buf.length).toNat = buf.length := by
      rw [BitVec.toNat_ofNat]
      exact Nat.mod_eq_of_lt (hsize.trans_lt (by decide))
    change Invocation.fwrite fileDescriptor
      (((buf ++ _) ++ _).take (BitVec.ofNat 64 buf.length).toNat) _ = _
    rw [hlength, List.append_assoc, List.take_left]
    rfl
  | umove srcPath dstPath => exact absurd rfl (hmove srcPath dstPath)

/-- The arguments of a call whose sizes pass the checks arrive exactly if it is no `umove` from a
path that is not empty. -/
theorem carries_iff {call : RemoteCall} {request : Request} (h : call.request = some request) :
    call.Carries ↔ ∀ srcPath dstPath, call = .umove srcPath dstPath → srcPath.chars = [] := by
  have hcarries : call.Carries ↔ dispatch request.bytes = call.invocation := by
    simp only [RemoteCall.Carries, h, Option.some.injEq, forall_eq', request.length_bytes,
      le_refl, true_and]
  rw [hcarries]
  constructor
  · rintro heq srcPath dstPath rfl
    rw [dispatch_umove h] at heq
    exact (Invocation.move.inj heq).1.symm
  · intro hempty
    by_cases hmove : ∃ srcPath dstPath, call = .umove srcPath dstPath
    · obtain ⟨srcPath, dstPath, rfl⟩ := hmove
      rw [dispatch_umove h, RemoteCall.invocation, hempty srcPath dstPath rfl]
    · push Not at hmove
      exact dispatch_request h hmove

theorem carries_iff_uclose : (RemoteCall.uclose 3).Carries ↔
    ∀ srcPath dstPath, RemoteCall.uclose 3 = .umove srcPath dstPath → srcPath.chars = [] :=
  carries_iff rfl

/-- The paths `a` and `b`. -/
theorem not_carries_umove :
    ¬ (RemoteCall.umove ⟨[0x61], by decide⟩ ⟨[0x62], by decide⟩).Carries := by
  intro hcarries
  obtain ⟨request, hrequest⟩ : ∃ request,
    (RemoteCall.umove ⟨[0x61], by decide⟩ ⟨[0x62], by decide⟩).request = some request := ⟨_, rfl⟩
  obtain ⟨-, hmove⟩ := hcarries request hrequest
  rw [dispatch_umove hrequest] at hmove
  exact absurd (Invocation.move.inj hmove).1 (by simp)

end SysresOs.Files
