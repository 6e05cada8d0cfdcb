import SysresOs.Trap.Dispatch

/-!
# A message that is stored for a process

`memmove` stores the message of `write_buff_svc` with the tables of the process. Where it raises a
data abort, the handlers of `mmu.c` may resolve it, but `el1_sync_handler` has lost `x30` then.
`memmove` calls nothing and keeps its return address in this register, so that it does not return to
`write_buff_svc` any more: the copy comes to its end exactly if it raises no abort at all
(`writesBuffer_iff`).
-/

set_option autoImplicit false
set_option relaxedAutoImplicit false

namespace SysresOs.Trap

open SysresOs.AArch64

open SysresOs.Mmu hiding Word

/-- The bytes that `write_buff_svc` stores, in their order. -/
def targetBytes (buff writeAddr : Word) (usedSize : ℕ) : List Word :=
  (memmoveOrder writeAddr buff usedSize).map fun i ↦ writeAddr + BitVec.ofNat 64 i

/-- Whatever the C functions do within the procedure call standard, `write_buff_svc` gets through:
the handlers resolve every abort of `memmove`, which runs with the registers of `cpu` and has its
return address in `x30` at the end. -/
def WritesBuffer (link : Linkage) (c : CopyContext) (buff writeAddr : Word) (usedSize : ℕ)
    (s : MmuState) (cpu : Cpu) : Prop :=
  ∀ call, Conforms cpu.sp call →
    ∃ n t aborts u, writeBuffSvc c n buff writeAddr usedSize s = .ok (t, aborts) ∧
    takeAborts link call true aborts cpu = some u ∧ u.x 30 = cpu.x 30

section Copy

variable {link : Linkage} {c : CopyContext} {buff writeAddr : Word} {usedSize : ℕ} {s : MmuState}
  {cpu u : Cpu}

theorem mem_targetBytes {va : Word} :
    va ∈ targetBytes buff writeAddr usedSize ↔
      ∃ i < usedSize, writeAddr + BitVec.ofNat 64 i = va := by
  unfold targetBytes memmoveOrder
  split_ifs <;> simp

/-- An abort leaves another value in `x30`. -/
theorem x30_takeAborts {write : Bool} {aborts : List (Abort × Word)} {t : Cpu} (hne : aborts ≠ [])
    (ht : takeAborts link (clobber cpu) write aborts t = some u) : u.x 30 = cpu.x 30 + 1 := by
  induction aborts generalizing t with
  | nil => exact absurd rfl hne
  | cons a aborts ih =>
    obtain ⟨v, hv, ht⟩ := Option.bind_eq_some_iff.mp ht
    cases aborts with
    | nil =>
      obtain rfl := Option.some.inj ht
      obtain rfl := Option.some.inj hv
      have hrestored : Restored (clobber cpu) t (runEl1SyncHandler link (clobber cpu)
          (exec (clobber cpu) (pushes stubPairs ++ [.mov 8 0])
            (takeException (link.address .currElSp0Sync) (abortEsr a.1 write) a.2 t))) :=
        restored_currEl link _ 0 (conforms_clobber t.sp cpu)
      obtain ⟨w, hw⟩ := hrestored.link
      exact hw.trans (clobber_x cpu w _ (.inl rfl))
    | cons b aborts => exact ih (List.cons_ne_nil b aborts) ht

/-- A copy that gets through raises no abort. -/
theorem WritesBuffer.silent (h : WritesBuffer link c buff writeAddr usedSize s cpu)
    (haddr : writeAddr ≠ 0) :
    ∀ va ∈ targetBytes buff writeAddr usedSize, kernelAbort s va true = none := by
  obtain ⟨n, t, aborts, u, hcopy, htaken, hlink⟩ := h (clobber cpu) (conforms_clobber cpu.sp cpu)
  rw [writeBuffSvc, if_pos haddr] at hcopy
  cases aborts with
  | nil => exact none_of_accesses hcopy
  | cons a aborts =>
    have hlost := x30_takeAborts (List.cons_ne_nil a aborts) htaken
    exact absurd (hlost.symm.trans hlink) (by bv_omega)

variable (link c buff writeAddr usedSize s cpu)

/-- `write_buff_svc` gets through exactly if it has nothing to write, or the process has every byte
of the buffer mapped so that the kernel may write it. -/
theorem writesBuffer_iff : WritesBuffer link c buff writeAddr usedSize s cpu ↔
    writeAddr = 0 ∨ ∀ i < usedSize, kernelAbort s (writeAddr + BitVec.ofNat 64 i) true = none := by
  by_cases haddr : writeAddr = 0
  · refine iff_of_true (fun call _ ↦ ⟨0, s, [], cpu, if_neg (not_not.mpr haddr), rfl, rfl⟩)
      (.inl haddr)
  · rw [or_iff_right haddr]
    constructor
    · intro h i hi
      exact h.silent haddr _ (mem_targetBytes.mpr ⟨i, hi, rfl⟩)
    · intro hnone call _
      have hall : ∀ va ∈ targetBytes buff writeAddr usedSize, kernelAbort s va true = none := by
        intro va hva
        obtain ⟨i, hi, rfl⟩ := mem_targetBytes.mp hva
        exact hnone i hi
      exact ⟨1, s, [], cpu, (if_pos haddr).trans (accesses_of_none hall 0), rfl, rfl⟩

end Copy

/-! ### A status in the heap of a process -/

theorem sampleContext_buffer :
    ∀ i < 16, UserAddress sampleContext.alloc (0x8000000 + BitVec.ofNat 64 i) := by
  intro i hi
  have hbegin : sampleContext.alloc.heapBegin = 0x8000000 := rfl
  have hend : sampleContext.alloc.heapBegin + sampleContext.alloc.endOffset.signExtend 64 =
      0x8010000 := by decide
  refine .inl ⟨?_, ?_⟩
  · rw [hbegin]
    bv_omega
  · rw [hend]
    bv_omega

/-- A process waits for its child with a buffer for the status in a page of its heap that is shared
after a fork, and the handlers stop the kernel; with a buffer in a page that is not mapped yet they
resolve the fault, and `memmove` does not return. -/
theorem not_writesBuffer_sampleCopy :
    (¬ ResolvesFaults sampleContext 0x7000 0x8000000 16 sampleCopy ∧
      ¬ WritesBuffer sampleLink sampleContext 0x7000 0x8000000 16 sampleCopy sampleCpu) ∧
    (ResolvesFaults sampleContext 0x7000 0x8001000 16 sampleCopy ∧
      ¬ WritesBuffer sampleLink sampleContext 0x7000 0x8001000 16 sampleCopy sampleCpu) := by
  obtain ⟨-, -, -, hleaf⟩ := sampleCopy_leaves
  refine ⟨⟨fun hresolves ↦ ?_, fun hwrites ↦ ?_⟩, ?_, fun hwrites ↦ ?_⟩
  · have hcan := (resolvesFaults_iff 0x7000 sampleCopy_ready sampleContext_buffer).mp hresolves
    exact hcan.1 _ (List.mem_map.mpr ⟨0, by decide, rfl⟩) ⟨sampleEntry, hleaf, by decide⟩
  · have hnone := hwrites.silent (by decide) 0x8000000 (mem_targetBytes.mpr ⟨0, by decide, rfl⟩)
    have habort : kernelAbort sampleCopy 0x8000000 true = some .permission := by decide +kernel
    exact nomatch habort.symm.trans hnone
  · have hok : ((writeBuffSvc sampleContext 2 0x7000 0x8001000 16 sampleCopy).toOption).isSome := by
      decide +kernel
    cases hr : writeBuffSvc sampleContext 2 0x7000 0x8001000 16 sampleCopy with
    | error stop =>
      rw [hr] at hok
      exact nomatch hok
    | ok r => exact ⟨2, r, hr⟩
  · have hnone := hwrites.silent (by decide) 0x8001000 (mem_targetBytes.mpr ⟨0, by decide, rfl⟩)
    have habort : kernelAbort sampleCopy 0x8001000 true = some .lvl3 := by decide +kernel
    exact nomatch habort.symm.trans hnone

end SysresOs.Trap
