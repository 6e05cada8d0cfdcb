import SysresOs.Memory.Tiling

/-!
# The calls of the allocator

The invariant of the heap is that its blocks tile it and that no two neighbours are both free. Each
call keeps it, and is described by what it does to the map of what is allocated: `kmalloc` adds a
pointer (`kmalloc_spec`), `kfree` removes one (`kfree_spec`), and `krealloc` lets a block grow or
moves it (`krealloc_spec`). No call changes a byte of the payload of a block that stays allocated.
-/

set_option autoImplicit false
set_option relaxedAutoImplicit false

namespace SysresOs.Memory

open SysresOs.ByteMemory SysresOs.Outcome

/-- The invariant of the heap. -/
structure HeapInvariant (s : AllocState) (bs : List Block) : Prop extends Tiled s bs where
  coalesced : Coalesced bs

variable {s : AllocState} {l r bs bs' : List Block} {b c : Block}

/-! ### Payloads -/

/-- Changes to headers leave the payloads alone. -/
theorem SameBut.payload {m m' : Memory} {a p k x : ℕ}
    (hsame : SameBut (starts a bs ++ starts a bs') m m')
    (hused : used a bs p = some k) (hused' : used a bs' p = some k) (hx : p ≤ x) (hx' : x < p + k) :
    m' x = m x := by
  refine hsame x fun c hc ↦ ?_
  rcases List.mem_append.mp hc with hc | hc
  · obtain ⟨l, r, hbs, rfl⟩ := used_eq_some.mp hused
    exact (starts_payload hbs hx hx' hc).symm
  · obtain ⟨l, r, hbs, rfl⟩ := used_eq_some.mp hused'
    exact (starts_payload hbs hx hx' hc).symm

/-- What is stored in the payload of a block that is allocated leaves the headers alone. -/
theorem HeapInvariant.store {m : Memory} (h : HeapInvariant s bs)
    (hm : ∀ c ∈ starts s.heapBegin bs, ∀ x, c ≤ x → x < c + 32 → m x = s.memory x) :
    HeapInvariant { s with memory := m } bs where
  aligned := h.aligned
  positive := h.positive
  base := h.base
  chain := h.chain.congr fun c hc ↦ headerAt_congr fun x hx hx' ↦ hm c hc x hx hx'
  break_eq := h.break_eq
  bound := h.bound
  sized := h.sized
  coalesced := h.coalesced

/-! ### The neighbours of a block -/

theorem Tiled.next_free (h : Tiled s (l ++ b :: r)) :
    (s.next (s.heapBegin + span l) ≠ 0 ∧ s.free (s.next (s.heapBegin + span l)) ≠ 0) ↔
      headFree r = true := by
  have hnext : s.next (s.heapBegin + span l) = link 0 (s.heapBegin + span l + 32 + b.size) r := by
    rw [AllocState.next_eq, h.header]
  rw [hnext]
  cases r with
  | nil => simp
  | cons c r =>
    have hrest : Tiled s ((l ++ [b]) ++ c :: r) := by simpa using h
    have haddr : s.heapBegin + span (l ++ [b]) = s.heapBegin + span l + 32 + b.size := by
      rw [span_append, span_cons, span_nil]
      omega
    rw [link_cons, ← haddr, AllocState.free_eq, hrest.header, headFree_cons]
    cases c.free <;> simp

/-- The size of the successor of a block. -/
theorem Tiled.size_next (h : Tiled s (l ++ b :: c :: r)) :
    s.size (s.next (s.heapBegin + span l)) = c.size := by
  have hrest : Tiled s ((l ++ [b]) ++ c :: r) := by simpa using h
  have haddr : s.heapBegin + span (l ++ [b]) = s.heapBegin + span l + 32 + b.size := by
    rw [span_append, span_cons, span_nil]
    omega
  have hnext : s.next (s.heapBegin + span l) = s.heapBegin + span (l ++ [b]) := by
    rw [AllocState.next_eq, h.header, link_cons, haddr]
  rw [hnext, AllocState.size_eq, hrest.header]

theorem Tiled.prev_free (h : Tiled s (l ++ b :: r)) :
    (s.prev (s.heapBegin + span l) ≠ 0 ∧ s.free (s.prev (s.heapBegin + span l)) ≠ 0) ↔
      lastFree l = true := by
  have hpos := h.positive
  have hprev : s.prev (s.heapBegin + span l) = lastStart 0 s.heapBegin l := by
    rw [AllocState.prev_eq, h.header]
  rw [hprev]
  rcases List.eq_nil_or_concat' l with rfl | ⟨l, a, rfl⟩
  · simp [lastStart]
  · have hrest : Tiled s (l ++ a :: b :: r) := by simpa using h
    rw [lastStart_concat, AllocState.free_eq, hrest.header, lastFree_concat]
    cases a.free with
    | false => simp
    | true =>
      simp only [Bool.toNat_true, ne_eq, one_ne_zero, not_false_eq_true, and_true, iff_true]
      omega

/-- A merge of free blocks: it keeps what is allocated, and it changes headers of the heap only. -/
structure Merges (s : AllocState) (bs : List Block) (m : Memory) (bs' : List Block) : Prop where
  tiled : Tiled { s with memory := m } bs'
  same : SameBut (starts s.heapBegin bs) s.memory m
  used_eq : used s.heapBegin bs' = used s.heapBegin bs
  starts_subset : starts s.heapBegin bs' ⊆ starts s.heapBegin bs

theorem Merges.refl (h : Tiled s bs) : Merges s bs s.memory bs :=
  ⟨h, SameBut.refl _ _, rfl, List.Subset.refl _⟩

/-- Merging a free block with its free successor. -/
theorem merges_mergeBlock (h : Tiled s (l ++ b :: c :: r)) (hb : b.free = true)
    (hc : c.free = true) : ∃ m, mergeBlock s (s.heapBegin + span l) = .ok { s with memory := m } ∧
      Merges s (l ++ b :: c :: r) m (l ++ ⟨b.size + 32 + c.size, b.free⟩ :: r) := by
  obtain ⟨m, hrun, htiled, hsame⟩ := mergeBlock_spec h hc
  have haddr : s.heapBegin + span l + 32 + b.size + 32 + c.size =
      s.heapBegin + span l + 32 + (b.size + 32 + c.size) := by omega
  refine ⟨m, hrun, htiled, hsame, ?_, ?_⟩
  · have hnew : (⟨b.size + 32 + c.size, b.free⟩ : Block).free = true := hb
    ext1 p
    rw [used_append, used_append, used_cons_free hnew, used_cons_free hb, used_cons_free hc, haddr]
  · simp only [starts_append, starts, haddr]
    refine List.append_subset.mpr ⟨List.subset_append_left _ _, ?_⟩
    refine List.cons_subset.mpr ⟨by simp, ?_⟩
    intro d hd
    simp [hd]

/-- Merging with the block behind, where it is free. -/
def mergeNext (s : AllocState) (block : ℕ) : Except Stop AllocState :=
  if s.next block ≠ 0 ∧ s.free (s.next block) ≠ 0 then mergeBlock s block else .ok s

/-- Merging with the block in front, where it is free. -/
def mergePrev (s : AllocState) (block : ℕ) : Except Stop AllocState :=
  if s.prev block ≠ 0 ∧ s.free (s.prev block) ≠ 0 then mergeBlock s (s.prev block) else .ok s

/-- `kfree` marks a block and merges it with its neighbours. -/
theorem kfree_eq {ptr : ℕ} (hptr : ptr ≠ 0) (hfree : s.free (getBlockPtr ptr) = 0) : kfree s ptr =
    mergeNext (s.setFree (getBlockPtr ptr) 1) (getBlockPtr ptr) >>= fun s ↦ mergePrev s
    (getBlockPtr ptr) := by
  unfold kfree mergeNext mergePrev
  rw [if_neg hptr]
  dsimp only
  rw [assert_pos hfree, ok_bind]
  split_ifs <;> rfl

theorem mergeNext_spec (h : Tiled s (l ++ b :: r)) (hb : b.free = true) (hr : Coalesced r) :
    ∃ m c r', mergeNext s (s.heapBegin + span l) = .ok { s with memory := m } ∧
      Merges s (l ++ b :: r) m (l ++ c :: r') ∧ c.free = true ∧ Coalesced (c :: r') := by
  unfold mergeNext
  cases hfree : headFree r with
  | false =>
    refine ⟨s.memory, b, r, ?_, .refl h, hb, ?_⟩
    · rw [if_neg fun hcond ↦ by simp [h.next_free.mp hcond] at hfree]
    · exact coalesced_cons.mpr ⟨hr, by simp [hfree]⟩
  | true =>
    cases r with
    | nil => cases hfree
    | cons c r =>
      obtain ⟨m, hrun, hmerges⟩ := merges_mergeBlock h hb hfree
      obtain ⟨hr', hapart⟩ := coalesced_cons.mp hr
      refine ⟨m, _, r, ?_, hmerges, hb, coalesced_cons.mpr ⟨hr', fun hand ↦ hapart ⟨hfree, hand.2⟩⟩⟩
      rw [if_pos (h.next_free.mpr hfree), hrun]

theorem mergePrev_spec (h : Tiled s (l ++ b :: r)) (hb : b.free = true) (hl : Coalesced l)
    (hr : Coalesced (b :: r)) :
    ∃ m bs', mergePrev s (s.heapBegin + span l) = .ok { s with memory := m } ∧
      Merges s (l ++ b :: r) m bs' ∧ Coalesced bs' := by
  unfold mergePrev
  cases hfree : lastFree l with
  | false =>
    refine ⟨s.memory, l ++ b :: r, ?_, .refl h, coalesced_append.mpr ⟨hl, hr, by simp [hfree]⟩⟩
    rw [if_neg fun hcond ↦ by simp [h.prev_free.mp hcond] at hfree]
  | true =>
    rcases List.eq_nil_or_concat' l with rfl | ⟨l, a, rfl⟩
    · cases hfree
    have hprev : s.prev (s.heapBegin + span (l ++ [a])) = s.heapBegin + span l := by
      rw [AllocState.prev_eq, h.header, lastStart_concat]
    have hcond := h.prev_free.mpr hfree
    rw [if_pos hcond, hprev]
    rw [lastFree_concat] at hfree
    have hrest : Tiled s (l ++ a :: b :: r) := by simpa using h
    obtain ⟨m, hrun, hmerges⟩ := merges_mergeBlock hrest hfree hb
    obtain ⟨hl', -, hapart⟩ := coalesced_append.mp hl
    obtain ⟨hr', hapart'⟩ := coalesced_cons.mp hr
    refine ⟨m, _, hrun, by simpa using hmerges, ?_⟩
    refine coalesced_append.mpr ⟨hl', coalesced_cons.mpr ⟨hr', ?_⟩, ?_⟩
    · exact fun hand ↦ hapart' ⟨hb, hand.2⟩
    · exact fun hand ↦ hapart ⟨hand.1, hfree⟩

/-! ### Freeing -/

/-- The header of a pointer that is allocated. -/
theorem Tiled.getBlockPtr_eq (h : Tiled s (l ++ r)) :
    getBlockPtr (s.heapBegin + span l + 32) = s.heapBegin + span l := by
  have hbound := h.bound
  rw [span_append] at hbound
  unfold getBlockPtr ablockSize
  rw [sub64_eq (by omega) (by omega)]
  omega

theorem Merges.trans {m m' : Memory} {bs'' : List Block} (h : Merges s bs m bs')
    (h' : Merges { s with memory := m } bs' m' bs'') : Merges s bs m' bs'' where
  tiled := h'.tiled
  same := h.same.trans (h'.same.mono h.starts_subset)
  used_eq := h'.used_eq.trans h.used_eq
  starts_subset := List.Subset.trans h'.starts_subset h.starts_subset

/-- Freeing what is allocated. -/
theorem kfree_spec (h : HeapInvariant s bs) {p k : ℕ} (hp : used s.heapBegin bs p = some k) :
    ∃ m bs', kfree s p = .ok { s with memory := m } ∧ HeapInvariant { s with memory := m } bs' ∧
      used s.heapBegin bs' = Function.update (used s.heapBegin bs) p none ∧
      SameBut (starts s.heapBegin bs) s.memory m := by
  obtain ⟨l, r, rfl, rfl⟩ := used_eq_some.mp hp
  have htiled := h.toTiled
  have hfree0 : s.free (s.heapBegin + span l) = 0 := by rw [AllocState.free_eq, htiled.header]; rfl
  obtain ⟨hl, hbr, -⟩ := coalesced_append.mp h.coalesced
  obtain ⟨hr, -⟩ := coalesced_cons.mp hbr
  -- the block is marked, and then merged with its successor and its predecessor
  obtain ⟨htiled1, hsame1⟩ := setFree_spec htiled true
  obtain ⟨m₂, c, r', hrun2, hmerges2, hc, hcr⟩ := mergeNext_spec htiled1 rfl hr
  obtain ⟨m₃, bs', hrun3, hmerges3, hcoalesced⟩ := mergePrev_spec hmerges2.tiled hc hl hcr
  have hmerges := hmerges2.trans hmerges3
  have hstarts :
      starts s.heapBegin (l ++ ⟨k, true⟩ :: r) = starts s.heapBegin (l ++ ⟨k, false⟩ :: r) := by
    simp only [starts_append, starts]
  refine ⟨m₃, bs', ?_, ⟨hmerges.tiled, hcoalesced⟩, ?_, ?_⟩
  · rw [kfree_eq (by omega) (by rw [htiled.getBlockPtr_eq, hfree0]), htiled.getBlockPtr_eq]
    exact bind_eq_ok.mpr ⟨_, hrun2, hrun3⟩
  · rw [show used s.heapBegin bs' = _ from hmerges.used_eq]
    ext1 q
    show used s.heapBegin (l ++ ⟨k, true⟩ :: r) q = _
    rw [used_middle, Function.update_apply, used_middle]
    by_cases hq : q = s.heapBegin + span l + 32
    · simp only [if_pos hq, if_true]
    · simp only [if_neg hq]
  · exact hsame1.trans (hstarts ▸ hmerges.same)

/-! ### Allocating -/

/-- A block of at least `size` bytes at `p` is added to what is allocated, and headers are all that
changes in the memory. -/
structure Allocates (s : AllocState) (bs : List Block) (size p : ℕ) (s' : AllocState)
    (bs' : List Block) : Prop where
  invariant : HeapInvariant s' bs'
  heapBegin_eq : s'.heapBegin = s.heapBegin
  ne_null : p ≠ 0
  fresh : used s.heapBegin bs p = none
  used_eq : ∃ k, size ≤ k ∧ used s.heapBegin bs' = Function.update (used s.heapBegin bs) p (some k)
  same : SameBut (starts s.heapBegin bs ++ starts s.heapBegin bs') s.memory s'.memory

theorem allocates_extend {size : ℕ} (h : HeapInvariant s bs) (hpos : 0 < size) (hdvd : 32 ∣ size)
    (hsize : size + 32 ≤ 2 ^ 30) : Yields (extendHeap s (lastStart 0 s.heapBegin bs) size) fun r ↦
      r.2 = s.heapBegin + span bs ∧ r.1.globalBase = s.globalBase ∧
        Allocates s bs size (s.heapBegin + span bs + 32)
          { r.1 with globalBase := s.heapBegin } (bs ++ [⟨size, false⟩]) := by
  refine (extendHeap_spec h.toTiled hpos hdvd hsize).mono ?_
  rintro ⟨s', block⟩ ⟨hblock, m, e, hs', htiled, hsame⟩
  have hfresh : used s.heapBegin bs (s.heapBegin + span bs + 32) = none := used_eq_none (by omega)
  refine ⟨hblock, ?_, ⟨htiled, ?_⟩, ?_, by omega, hfresh, ⟨size, le_rfl, ?_⟩, ?_⟩
  · show s'.globalBase = s.globalBase
    rw [show s' = { s with memory := m, endOffset := e } from hs']
  · exact coalesced_append.mpr ⟨h.coalesced, List.IsChain.singleton _, by simp⟩
  · show s'.heapBegin = s.heapBegin
    rw [show s' = { s with memory := m, endOffset := e } from hs']
  · ext1 q
    rw [used_middle, Function.update_apply]
    by_cases hq : q = s.heapBegin + span bs + 32
    · simp only [if_pos hq, if_false, Bool.false_eq_true]
    · simp only [if_neg hq, used, Option.or_none]
  · rw [show s'.memory = m from congrArg AllocState.memory hs']
    exact hsame.mono (List.subset_append_right _ _)

/-- Cutting what is not needed off a block that is marked already. -/
def trimBlock (s : AllocState) (block size : ℕ) : Except Stop AllocState :=
  if size < s.size block then splitBlock s block size else .ok s

/-- A block that is free is taken, or its first part is. -/
theorem allocates_found {size : ℕ} (h : HeapInvariant s (l ++ b :: r)) (hpos : 0 < size)
    (hdvd : 32 ∣ size) (hb : Fits size b) :
    ∃ m bs', trimBlock (s.setFree (s.heapBegin + span l) 0) (s.heapBegin + span l) size =
        .ok { s with memory := m } ∧
      Allocates s (l ++ b :: r) size (s.heapBegin + span l + 32) { s with memory := m } bs' := by
  obtain ⟨hfree, hle⟩ := hb
  have hbound := h.bound
  have hposb := h.size_pos
  simp only [span_append, span_cons] at hbound
  obtain ⟨hl, hbr, hapart⟩ := coalesced_append.mp h.coalesced
  obtain ⟨hr, hapart'⟩ := coalesced_cons.mp hbr
  obtain ⟨htiled1, hsame1⟩ := setFree_spec h.toTiled false
  have hsize1 : (s.setFree (s.heapBegin + span l) 0).size (s.heapBegin + span l) = b.size := by
    have hheader := htiled1.header
    rw [AllocState.size_eq]
    exact congrArg Header.size hheader
  have hfresh : used s.heapBegin (l ++ b :: r) (s.heapBegin + span l + 32) = none := by
    rw [used_middle, if_pos rfl, if_pos hfree]
  have hadd : add64 size ablockSize = size + 32 := add64_eq (by unfold ablockSize; omega)
  unfold trimBlock
  rw [hsize1]
  by_cases hlarge : size + 32 < b.size
  · rw [if_pos (by omega)]
    obtain ⟨m, hrun, htiled2, hsame2⟩ := splitBlock_spec htiled1 hpos hdvd hlarge
    refine ⟨m, _, hrun, ⟨htiled2, ?_⟩, rfl, by omega, hfresh, ⟨size, le_rfl, ?_⟩, ?_⟩
    · refine coalesced_append.mpr ⟨hl, coalesced_cons.mpr ⟨coalesced_cons.mpr ⟨hr, ?_⟩, by simp⟩,
        by simp⟩
      exact fun hand ↦ hapart' ⟨hfree, hand.2⟩
    · ext1 q
      have haddr : s.heapBegin + span l + 32 + size + 32 + (b.size - size - 32) =
          s.heapBegin + span l + 32 + b.size := by omega
      rw [used_middle, Function.update_apply, used_middle, used_cons_free rfl, haddr]
      by_cases hq : q = s.heapBegin + span l + 32
      · simp only [if_pos hq, if_false, Bool.false_eq_true]
      · simp only [if_neg hq]
    · exact (hsame1.mono (List.subset_append_left _ _)).trans
        (hsame2.mono (List.subset_append_right _ _))
  · have hrun :
        (if size < b.size then splitBlock (s.setFree (s.heapBegin + span l) 0)
      (s.heapBegin + span l) size
        else .ok (s.setFree (s.heapBegin + span l) 0)) =
          .ok (s.setFree (s.heapBegin + span l) 0) := by
      split_ifs
      · exact splitBlock_small (by rw [hsize1]; exact hle) (by rw [hsize1, hadd]; exact hlarge)
      · rfl
    refine ⟨_, _, hrun, ⟨htiled1, ?_⟩, rfl, by omega, hfresh, ⟨b.size, hle, ?_⟩, ?_⟩
    · exact coalesced_append.mpr ⟨hl, coalesced_cons.mpr ⟨hr, by simp⟩, by simp⟩
    · ext1 q
      rw [used_middle, Function.update_apply, used_middle]
      by_cases hq : q = s.heapBegin + span l + 32
      · simp only [if_pos hq, if_false, Bool.false_eq_true]
      · simp only [if_neg hq]
    · exact hsame1.mono (List.subset_append_left _ _)

/-- The cases of a request on a tiled heap: it is for nothing, it is served at the end of the heap,
or by the first block that fits. -/
theorem kmalloc_cases (h : Tiled s bs) (n : ℕ) :
    blockSize n = 0 ∧ kmalloc s n = .ok (s, 0) ∨
      blockSize n ≠ 0 ∧ (∀ b ∈ bs, ¬ Fits (blockSize n) b) ∧
        kmalloc s n = (extendHeap s (lastStart 0 s.heapBegin bs) (blockSize n) >>= fun r ↦
          if r.2 = 0 then .ok (r.1, 0)
          else .ok ({ r.1 with globalBase := if bs = [] then r.2 else r.1.globalBase },
            add64 r.2 ablockSize)) ∨
      blockSize n ≠ 0 ∧ ∃ l b r, bs = l ++ b :: r ∧ Fits (blockSize n) b ∧
        kmalloc s n = (trimBlock (s.setFree (s.heapBegin + span l) 0) (s.heapBegin + span l)
          (blockSize n) >>= fun s' ↦ .ok (s', add64 (s.heapBegin + span l) ablockSize)) := by
  have hpos := h.positive
  have hbound := h.bound
  by_cases hzero : blockSize n = 0
  · refine Or.inl ⟨hzero, ?_⟩
    unfold kmalloc
    rw [if_pos hzero]
  refine Or.inr ?_
  rcases eq_or_ne bs [] with rfl | hbs
  · refine Or.inl ⟨hzero, List.forall_mem_nil _, ?_⟩
    have hbase : s.globalBase = 0 := h.base
    unfold kmalloc
    rw [if_neg hzero, if_pos hbase]
    rfl
  · have hbase : s.globalBase = s.heapBegin := by rw [h.base, link, if_neg hbs]
    have hlink : link 0 (s.heapBegin + span []) bs = s.heapBegin := by
      rw [link, if_neg hbs, span_nil, add_zero]
    have hlength : bs.length < 2 ^ 64 := by
      have hle := length_le_span bs
      omega
    have hlast : lastStart s.heapBegin s.heapBegin bs = lastStart 0 s.heapBegin bs := by
      obtain ⟨b, r, rfl⟩ := List.exists_cons_of_ne_nil hbs
      rfl
    unfold kmalloc
    rw [if_neg hzero, if_neg (by omega), hbase]
    rcases findFreeBlock_spec (blockSize n) s.heapBegin (l := []) h hlength with
      ⟨hnone, hrun⟩ | ⟨u, b, v, rfl, hb, hrun⟩
    · refine Or.inl ⟨hzero, hnone, ?_⟩
      rw [hlink, span_nil, add_zero, hlast] at hrun
      rw [hrun, ok_bind]
      dsimp only
      rw [if_pos rfl]
      refine congrArg _ (funext fun r ↦ ?_)
      simp only [if_neg hbs]
    · refine Or.inr ⟨hzero, u, b, v, rfl, hb, ?_⟩
      rw [hlink] at hrun
      rw [hrun, ok_bind, List.nil_append]
      dsimp only
      unfold trimBlock
      have hne : ¬ s.heapBegin + span u = 0 := by omega
      rw [if_neg hne]
      by_cases hlt : blockSize n < (s.setFree (s.heapBegin + span u) 0).size (s.heapBegin + span u)
      · rw [if_pos hlt, if_pos hlt]
      · rw [if_neg hlt, if_neg hlt, ok_bind]

/-- A request of a size that is not too large. -/
theorem kmalloc_spec (h : HeapInvariant s bs) {n : ℕ} (hn : n ≤ maxRequest) :
    Yields (kmalloc s n) fun r ↦
    (blockSize n = 0 ∧ r = (s, 0)) ∨ ∃ bs', Allocates s bs (blockSize n) r.2 r.1 bs' := by
  have hbound := h.bound
  obtain ⟨-, hdvd, hle, -⟩ := blockSize_spec hn
  rcases kmalloc_cases h.toTiled n with
    ⟨hzero, hrun⟩ | ⟨hzero, -, hrun⟩ | ⟨hzero, l, b, r, rfl, hb, hrun⟩
  · rw [hrun]
    exact Yields.ok (Or.inl ⟨hzero, rfl⟩)
  · rw [hrun]
    refine Yields.bind (allocates_extend h (by omega) hdvd hle) ?_
    rintro ⟨s', block⟩ ⟨hblock, hbase, halloc⟩
    obtain rfl : block = s.heapBegin + span bs := hblock
    have hpos := h.positive
    have hbase' : (if bs = [] then s.heapBegin + span bs else s'.globalBase) = s.heapBegin := by
      rw [show s'.globalBase = _ from hbase.trans h.base]
      rcases eq_or_ne bs [] with rfl | hbs
      · rw [if_pos rfl, span_nil, add_zero]
      · rw [if_neg hbs, link, if_neg hbs]
    have hadd : add64 (s.heapBegin + span bs) ablockSize = s.heapBegin + span bs + 32 :=
      add64_eq (by unfold ablockSize; omega)
    dsimp only
    rw [if_neg (by omega), hadd, hbase']
    exact Yields.ok (Or.inr ⟨_, halloc⟩)
  · rw [hrun]
    obtain ⟨m, bs', htrim, halloc⟩ := allocates_found h (by omega) hdvd hb
    simp only [span_append, span_cons] at hbound
    have hadd : add64 (s.heapBegin + span l) ablockSize = s.heapBegin + span l + 32 :=
      add64_eq (by unfold ablockSize; omega)
    rw [htrim, ok_bind, hadd]
    exact Yields.ok (Or.inr ⟨bs', halloc⟩)

/-! ### Reallocating -/

/-- What a call does that gives `q`, of at least `size` bytes, for the block of `k` bytes at `p`:
the data is at `q`, and the payloads of the other blocks are as they were. -/
structure Reallocates (s : AllocState) (bs : List Block) (p k size q : ℕ) (s' : AllocState)
    (bs' : List Block) : Prop where
  invariant : HeapInvariant s' bs'
  heapBegin_eq : s'.heapBegin = s.heapBegin
  ne_null : q ≠ 0
  used_eq : ∃ k', size ≤ k' ∧ used s.heapBegin bs' =
    Function.update (Function.update (used s.heapBegin bs) p none) q (some k')
  fresh : q = p ∨ used s.heapBegin bs q = none
  moved : ∀ i < min k size, s'.memory (q + i) = s.memory (p + i)
  others : ∀ p' k', p' ≠ p → used s.heapBegin bs p' = some k' → ∀ x, p' ≤ x → x < p' + k' →
    s'.memory x = s.memory x

/-- The header of a block that is allocated. -/
theorem Tiled.size_used (h : Tiled s bs) {p k : ℕ} (hp : used s.heapBegin bs p = some k) :
    p ≠ 0 ∧ s.size (getBlockPtr p) = k ∧ s.free (getBlockPtr p) = 0 := by
  obtain ⟨l, r, rfl, rfl⟩ := used_eq_some.mp hp
  rw [h.getBlockPtr_eq, AllocState.size_eq, AllocState.free_eq, h.header]
  exact ⟨by omega, rfl, rfl⟩

/-- A block that is large enough stays as it is. -/
theorem reallocates_same (h : HeapInvariant s bs) {p k size : ℕ}
    (hp : used s.heapBegin bs p = some k) (hsize : size ≤ k) :
    Reallocates s bs p k size p s bs where
  invariant := h
  heapBegin_eq := rfl
  ne_null := (h.size_used hp).1
  used_eq := ⟨k, hsize, by rw [Function.update_idem, ← hp, Function.update_eq_self]⟩
  fresh := Or.inl rfl
  moved := fun _ _ ↦ rfl
  others := fun _ _ _ _ _ _ _ ↦ rfl

/-- A block grows over its free successor. -/
theorem reallocates_merge {k size : ℕ} (h : HeapInvariant s (l ++ ⟨k, false⟩ :: c :: r))
    (hc : c.free = true) (hsize : size ≤ k + 32 + c.size) :
    ∃ m, mergeBlock s (s.heapBegin + span l) = .ok { s with memory := m } ∧
      Reallocates s (l ++ ⟨k, false⟩ :: c :: r) (s.heapBegin + span l + 32) k size
        (s.heapBegin + span l + 32) { s with
          memory := m } (l ++ ⟨k + 32 + c.size, false⟩ :: r) := by
  obtain ⟨m, hrun, htiled, hsame⟩ := mergeBlock_spec h.toTiled hc
  obtain ⟨hl, hr, -⟩ := coalesced_append.mp h.coalesced
  obtain ⟨hcr, -⟩ := coalesced_cons.mp hr
  obtain ⟨hr', -⟩ := coalesced_cons.mp hcr
  have hpayload : ∀ p' k', used s.heapBegin (l ++ ⟨k, false⟩ :: c :: r) p' = some k' →
      ∀ x, p' ≤ x → x < p' + k' → m x = s.memory x := fun p' k' hp' x hx hx' ↦
    (hsame.mono (List.subset_append_left _ _)).payload hp' hp' hx hx'
  refine ⟨m, hrun, ⟨htiled, ?_⟩, rfl, by omega, ⟨_, hsize, ?_⟩, Or.inl rfl, fun i hi ↦ ?_, ?_⟩
  · exact coalesced_append.mpr ⟨hl, coalesced_cons.mpr ⟨hr', by simp⟩, by simp⟩
  · have haddr : s.heapBegin + span l + 32 + k + 32 + c.size =
        s.heapBegin + span l + 32 + (k + 32 + c.size) := by omega
    ext1 q
    rw [Function.update_idem, used_middle, Function.update_apply, used_middle,
      used_cons_free hc, haddr]
    by_cases hq : q = s.heapBegin + span l + 32
    · simp only [if_pos hq, if_false, Bool.false_eq_true]
    · simp only [if_neg hq]
  · refine hpayload (s.heapBegin + span l + 32) k
      (used_eq_some.mpr ⟨l, _, rfl, rfl⟩) _ (by omega) ?_
    have hlt := lt_of_lt_of_le hi (min_le_left k size)
    omega
  · exact fun p' k' _ ↦ hpayload p' k'

/-- A block is moved: another one is allocated, the payload is copied, and the block is freed. -/
theorem reallocates_move {p k n size q : ℕ} {s₁ : AllocState} {bs₁ : List Block}
    (hp : used s.heapBegin bs p = some k) (hk : k < n) (hn : n ≤ size)
    (halloc : Allocates s bs size q s₁ bs₁) :
    ∃ m bs', kfree { s₁ with memory := copy s₁.memory q p (s₁.size (getBlockPtr p)) } p =
        .ok { s₁ with memory := m } ∧
      Reallocates s bs p k n q { s₁ with memory := m } bs' := by
  obtain ⟨kq, hkq, hused1⟩ := halloc.used_eq
  have hbase := halloc.heapBegin_eq
  have hne : p ≠ q := by
    rintro rfl
    rw [halloc.fresh] at hp
    cases hp
  have hp1 : used s.heapBegin bs₁ p = some k := by rw [hused1, Function.update_of_ne hne, hp]
  have hq1 : used s.heapBegin bs₁ q = some kq := by rw [hused1, Function.update_self]
  have hinv1 := halloc.invariant
  have hsize1 := (hinv1.size_used (hbase ▸ hp1)).2.1
  have hapart := used_apart hp1 hq1 hne
  rw [hsize1]
  -- the copy leaves the headers and the other payloads alone
  have hcopy : HeapInvariant { s₁ with memory := copy s₁.memory q p k } bs₁ := by
    refine hinv1.store fun c hc x hx hx' ↦ copy_of_not_mem ?_
    obtain ⟨l, r, hbs, rfl⟩ := used_eq_some.mp hq1
    by_contra hmem
    have hout := starts_payload hbs (x := x) (by omega) (by show x < _ + kq; omega) (hbase ▸ hc)
    omega
  obtain ⟨m, bs', hrun, hinv, hused, hsame⟩ := kfree_spec hcopy (hbase ▸ hp1)
  have hused' : used s.heapBegin bs' =
      Function.update (Function.update (used s.heapBegin bs) p none) q (some kq) := by
    rw [Function.update_comm hne, ← hused1, ← hbase]
    exact hused
  have hfreed : ∀ p' k', p' ≠ p → used s.heapBegin bs₁ p' = some k' → ∀ x, p' ≤ x → x < p' + k' →
      m x = copy s₁.memory q p k x := by
    intro p' k' hp' hused1' x hx hx'
    have hafter : used s.heapBegin bs' p' = some k' := by
      rw [hused', Function.update_comm hne, ← hused1, Function.update_of_ne hp', hused1']
    rw [← hbase] at hused1' hafter
    exact (hsame.mono (List.subset_append_left _ _)).payload hused1' hafter hx hx'
  have halloced : ∀ p' k', used s.heapBegin bs p' = some k' → p' ≠ q → ∀ x, p' ≤ x → x < p' + k' →
      s₁.memory x = s.memory x := by
    intro p' k' hp' hne' x hx hx'
    exact halloc.same.payload hp' (by rw [hused1, Function.update_of_ne hne', hp']) hx hx'
  refine ⟨m, bs', hrun, hinv, hbase, halloc.ne_null, ⟨kq, hn.trans hkq, hused'⟩,
    Or.inr halloc.fresh, ?_, ?_⟩
  · intro i hi
    have hik : i < k := lt_of_lt_of_le hi (min_le_left k n)
    calc m (q + i) = copy s₁.memory q p k (q + i) :=
          hfreed q kq hne.symm hq1 _ (by omega) (by omega)
      _ = s₁.memory (p + i) := copy_of_mem (by omega) hik
      _ = s.memory (p + i) := halloced p k hp hne _ (by omega) (by omega)
  · intro p' k' hp' hused0 x hx hx'
    have hne' : p' ≠ q := by
      rintro rfl
      rw [halloc.fresh] at hused0
      cases hused0
    have hused1' : used s.heapBegin bs₁ p' = some k' := by
      rw [hused1, Function.update_of_ne hne', hused0]
    have hapart' := used_apart hused1' hq1 hne'
    calc m x = copy s₁.memory q p k x := hfreed p' k' hp' hused1' x hx hx'
      _ = s₁.memory x := copy_of_not_mem (by omega)
      _ = s.memory x := halloced p' k' hused0 hne' x hx hx'

/-- A reallocation of a size that is not too large. -/
theorem krealloc_spec (h : HeapInvariant s bs) {p k n : ℕ} (hp : used s.heapBegin bs p = some k)
    (hn : n ≤ maxRequest) :
    Yields (krealloc s p n) fun r ↦ ∃ bs', Reallocates s bs p k n r.2 r.1 bs' := by
  obtain ⟨hne, hsize, -⟩ := h.size_used hp
  have hbound := h.bound
  have hup := (used_bounds hp).2
  unfold krealloc
  rw [if_neg hne]
  dsimp only
  rw [hsize]
  refine Yields.ite (fun hle ↦ Yields.ok ⟨bs, reallocates_same h hp hle⟩) fun hlt ↦ ?_
  refine Yields.ite (fun hnext ↦ ?_) fun _ ↦ ?_
  · obtain ⟨l, r, rfl, rfl⟩ := used_eq_some.mp hp
    rw [h.getBlockPtr_eq] at hnext ⊢
    have hfree := h.next_free.mp ⟨hnext.1, hnext.2.1⟩
    cases r with
    | nil => cases hfree
    | cons c r =>
      have hgrown : n ≤ k + 32 + c.size := by
        have hle := hnext.2.2
        simp only [span_append, span_cons] at hbound
        rw [h.size_next, ablockSize, add64_eq (a := c.size) (by omega), add64_eq (by omega)] at hle
        omega
      obtain ⟨m, hrun, hreallocates⟩ := reallocates_merge h hfree hgrown
      rw [hrun, ok_bind]
      exact Yields.ok ⟨_, hreallocates⟩
  · obtain ⟨hle, -, hmax, -⟩ := blockSize_spec hn
    have hz : blockSize n ≤ maxRequest := by unfold maxRequest; omega
    obtain ⟨hle', -, -, hzero⟩ := blockSize_spec hz
    refine Yields.bind (kmalloc_spec h hz) ?_
    rintro ⟨s₁, q⟩ (⟨hnull, -⟩ | ⟨bs₁, halloc⟩)
    · have hblock := hzero hnull
      omega
    · dsimp only
      rw [if_neg halloc.ne_null]
      obtain ⟨m, bs', hrun, hreallocates⟩ := reallocates_move hp (by omega) (hle.trans hle') halloc
      rw [hrun, ok_bind]
      exact Yields.ok ⟨bs', hreallocates⟩

end SysresOs.Memory
