import SysresOs.Lib.AddressSpace
import SysresOs.Memory.UserCopy
import SysresOs.Proc.Scheduler

/-!
# Messages in physical memory

`write_buff_svc` stores the message of a process when the process is resumed: `memmove` writes byte
after byte through the tables of the process. The copy ends at the first byte that it cannot write,
because a data abort of the kernel does not come back to it. Where it writes all bytes, every place
has the byte of the message for it, whatever the order (`written_messageWrites`).
-/

set_option autoImplicit false
set_option relaxedAutoImplicit false

namespace SysresOs.Mmu

open SysresOs.AddressSpace (Patch)

open SysresOs.Proc (Kernel Resume)

/-- Bytes that the kernel writes one after another through the tables of a process, up to the first
abort. -/
def storeBytes (ttbr0 : Word) : List (Word × BitVec 8) → MmuState → MmuState
  | [], s => s
  | (va, b) :: writes, s =>
    match kernelTranslation { s with ttbr0El1 := ttbr0 } va true with
    | none => s
    | some pa => storeBytes ttbr0 writes { s with
        pages := Function.update s.pages (pa + (va &&& mask 11 0)) b }

/-- The bytes of a message in the order in which `memmove` stores them, from the buffer at
`buff`. -/
def messageWrites (buff addr : Word) (bytes : List (BitVec 8)) : List (Word × BitVec 8) :=
  (memmoveOrder addr buff bytes.length).map fun i ↦ (addr + BitVec.ofNat 64 i, bytes.getD i 0)

/-- What `write_buff_svc` stores for the process that is resumed, if one is. -/
def writeMessage (k : Kernel) (buff : Word) (s : MmuState) : Option Resume → MmuState
  | some ⟨pid, some (addr, bytes)⟩ =>
    storeBytes (k.sys.procs pid).memConf.ttbr0El1 (messageWrites buff addr bytes) s
  | _ => s

/-- The byte at an address after the writes. -/
def written (writes : List (Word × BitVec 8)) (a : Word) (b : BitVec 8) : BitVec 8 :=
  writes.foldl (fun b w ↦ if w.1 = a then w.2 else b) b

/-! ### The bytes of a message -/

section Bytes

variable {addr a buff : Word} {bytes : List (BitVec 8)} {order : List ℕ} {b : BitVec 8}

theorem mem_memmoveOrder {i n : ℕ} : i ∈ memmoveOrder addr buff n ↔ i < n := by
  unfold memmoveOrder
  split_ifs <;> simp

theorem nodup_memmoveOrder (n : ℕ) : (memmoveOrder addr buff n).Nodup := by
  unfold memmoveOrder
  split_ifs
  · exact List.nodup_range
  · exact List.nodup_reverse.mpr List.nodup_range

/-- In an order without repetitions every place gets the byte of its offset. -/
theorem written_map (hnodup : order.Nodup) (hsmall : ∀ i ∈ order, i < 2 ^ 64) :
    written (order.map fun i ↦ (addr + BitVec.ofNat 64 i, bytes.getD i 0)) a b =
      if (a - addr).toNat ∈ order then bytes.getD (a - addr).toNat 0 else b := by
  induction order generalizing b with
  | nil => simp [written]
  | cons i order ih =>
    obtain ⟨hnot, hnodup⟩ := List.nodup_cons.mp hnodup
    obtain ⟨hi, hsmall⟩ := List.forall_mem_cons.mp hsmall
    have hsame : addr + BitVec.ofNat 64 i = a ↔ (a - addr).toNat = i := by
      constructor
      · rintro rfl
        exact AddressSpace.toNat_add_sub addr hi
      · rintro rfl
        rw [BitVec.ofNat_toNat, BitVec.setWidth_eq, BitVec.add_comm, BitVec.sub_add_cancel]
    rw [List.map_cons]
    change written _ a (if addr + BitVec.ofNat 64 i = a then bytes.getD i 0 else b) = _
    rw [ih hnodup hsmall]
    by_cases heq : (a - addr).toNat = i
    · rw [if_pos (hsame.mpr heq), heq, if_neg hnot, if_pos List.mem_cons_self]
    · rw [if_neg (mt hsame.mp heq)]
      simp only [List.mem_cons, heq, false_or]

/-- Whatever the order of `memmove`, the message is in place afterwards. -/
theorem written_messageWrites (buff : Word) (hsize : bytes.length ≤ 2 ^ 64) :
    written (messageWrites buff addr bytes) a b = Patch.store (some (addr, bytes))
      (fun _ ↦ b) a := by
  refine (written_map (nodup_memmoveOrder _) fun i hi ↦
    (mem_memmoveOrder.mp hi).trans_le hsize).trans ?_
  change _ = (bytes[(a - addr).toNat]?).getD b
  simp only [mem_memmoveOrder]
  split_ifs with hi
  · rw [List.getD_eq_getElem?_getD, List.getElem?_eq_getElem hi, Option.getD_some, Option.getD_some]
  · rw [List.getElem?_eq_none (Nat.le_of_not_lt hi), Option.getD_none]

theorem mem_messageWrites {w : Word × BitVec 8} (hw : w ∈ messageWrites buff addr bytes) :
    Patch.Covers (some (addr, bytes)) w.1 := by
  obtain ⟨i, hi, rfl⟩ := List.mem_map.mp hw
  have hlt := mem_memmoveOrder.mp hi
  change (addr + BitVec.ofNat 64 i - addr).toNat < bytes.length
  rw [BitVec.add_comm, BitVec.add_sub_cancel, BitVec.toNat_ofNat]
  exact (Nat.mod_le _ _).trans_lt hlt

end Bytes

/-! ### The state around the message -/

/-- Only the contents of pages change. -/
theorem storeBytes_eq (ttbr0 : Word) (writes : List (Word × BitVec 8)) (s : MmuState) :
    ∃ pages, storeBytes ttbr0 writes s = { s with pages } := by
  induction writes generalizing s with
  | nil => exact ⟨s.pages, rfl⟩
  | cons w writes ih =>
    rw [storeBytes]
    split
    · exact ⟨s.pages, rfl⟩
    · exact ih _

theorem writeMessage_eq (k : Kernel) (buff : Word) (s : MmuState) (resume : Option Resume) :
    ∃ pages, writeMessage k buff s resume = { s with pages } := by
  unfold writeMessage
  split
  · exact storeBytes_eq _ _ s
  · exact ⟨s.pages, rfl⟩

/-- Without a message nothing is stored. -/
theorem writeMessage_of_none (k : Kernel) (buff : Word) (s : MmuState) {resume : Option Resume}
    (h : ∀ r, resume = some r → r.write = none) : writeMessage k buff s resume = s := by
  unfold writeMessage
  split
  next pid addr bytes => exact nomatch h _ rfl
  next => rfl

end SysresOs.Mmu
