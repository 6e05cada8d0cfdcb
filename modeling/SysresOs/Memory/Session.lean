import SysresOs.Memory.Calls

/-!
# The heap and its program

A program calls the allocator and stores to what it has got. In every state that it reaches the heap
is tiled by blocks, the blocks that are not free are those whose pointers the program has got and
not given back, and each is as large as the program asked for (`HeapRun.invariant`). A reallocation
keeps the data of the block, and the data of all others (`HeapRun.krealloc_preserves`).
-/

set_option autoImplicit false
set_option relaxedAutoImplicit false

namespace SysresOs.Memory

open SysresOs.ByteMemory SysresOs.Outcome SysresOs.Trace

/-- The heap is as its program knows it. -/
structure SessionInvariant (σ : Session) (bs : List Block) :
    Prop extends HeapInvariant σ.heap bs where
  granted : ∀ p, Option.Rel (· ≤ ·) (σ.live p) (used σ.heap.heapBegin bs p)

variable {s s' : AllocState} {σ σ' : Session} {live : ℕ → Option ℕ} {bs bs' : List Block}
  {p q k n : ℕ}

/-! ### The program's view -/

/-- Giving a block for a request. -/
theorem granted_update {view : ℕ → Option ℕ} (h : ∀ p, Option.Rel (· ≤ ·) (live p) (view p))
    (hle : n ≤ k) (p : ℕ) : Option.Rel (· ≤ ·) (Function.update live q (some n) p)
    (Function.update view q (some k) p) := by
  rw [Function.update_apply, Function.update_apply]
  split_ifs
  · exact .some hle
  · exact h p

/-- Taking a block back. -/
theorem granted_erase {view : ℕ → Option ℕ} (h : ∀ p, Option.Rel (· ≤ ·) (live p) (view p))
    (p : ℕ) :
    Option.Rel (· ≤ ·) (Function.update live q none p) (Function.update view q none p) := by
  rw [Function.update_apply, Function.update_apply]
  split_ifs
  · exact .none
  · exact h p

/-- What the program has got is allocated. -/
theorem SessionInvariant.used_of_live (h : SessionInvariant σ bs) (hp : (σ.live p).isSome) :
    ∃ n k, σ.live p = some n ∧ used σ.heap.heapBegin bs p = some k ∧ n ≤ k := by
  obtain ⟨n, hn⟩ := Option.isSome_iff_exists.mp hp
  have hrel := h.granted p
  rw [hn] at hrel
  cases hk : used σ.heap.heapBegin bs p with
  | none =>
    rw [hk] at hrel
    cases hrel
  | some k =>
    rw [hk] at hrel
    cases hrel with
    | some hle => exact ⟨n, k, hn, rfl, hle⟩

/-! ### Steps -/

theorem SessionInvariant.malloc (h : SessionInvariant ⟨s, live⟩ bs) (hsize : n ≤ maxRequest)
    (hcall : kmalloc s n = .ok (s', p)) :
    ∃ bs', SessionInvariant ⟨s', Session.returned live p n⟩ bs' := by
  rcases kmalloc_spec h.toHeapInvariant hsize _ hcall with ⟨-, heq⟩ | ⟨bs', halloc⟩
  · obtain ⟨rfl, rfl⟩ := Prod.mk.inj heq
    exact ⟨bs, by rwa [Session.returned, if_pos rfl]⟩
  · obtain ⟨k, hle, hused⟩ := halloc.used_eq
    refine ⟨bs', halloc.invariant, fun q ↦ ?_⟩
    have hn := (blockSize_spec hsize).1
    rw [Session.returned, if_neg halloc.ne_null]
    show Option.Rel _ _ (used s'.heapBegin bs' q)
    rw [show s'.heapBegin = s.heapBegin from halloc.heapBegin_eq, hused]
    exact granted_update h.granted (hn.trans hle) q

theorem SessionInvariant.realloc (h : SessionInvariant ⟨s, live⟩ bs) (hsize : n ≤ maxRequest)
    (hp : (live p).isSome) (hcall : krealloc s p n = .ok (s', q)) :
    ∃ bs', SessionInvariant
      ⟨s', if q = 0 then live else Session.returned (Function.update live p none) q n⟩ bs' := by
  obtain ⟨-, k, -, hused, -⟩ := h.used_of_live hp
  obtain ⟨bs', hre⟩ := krealloc_spec h.toHeapInvariant hused hsize _ hcall
  obtain ⟨k', hle, hused'⟩ := hre.used_eq
  refine ⟨bs', hre.invariant, fun p' ↦ ?_⟩
  rw [if_neg hre.ne_null, Session.returned, if_neg hre.ne_null]
  show Option.Rel _ _ (used s'.heapBegin bs' p')
  rw [show s'.heapBegin = s.heapBegin from hre.heapBegin_eq, hused']
  exact granted_update (granted_erase h.granted) hle p'

theorem SessionInvariant.free (h : SessionInvariant ⟨s, live⟩ bs) (hp : (live p).isSome)
    (hcall : kfree s p = .ok s') :
    ∃ bs', SessionInvariant ⟨s', Function.update live p none⟩ bs' := by
  obtain ⟨-, k, -, hused, -⟩ := h.used_of_live hp
  obtain ⟨m, bs', hrun, hinv, hused', -⟩ := kfree_spec h.toHeapInvariant hused
  obtain rfl := Except.ok.inj (hcall.symm.trans hrun)
  refine ⟨bs', hinv, fun p' ↦ ?_⟩
  show Option.Rel _ _ (used s.heapBegin bs' p')
  rw [hused']
  exact granted_erase h.granted p'

/-- Stores that reach no header. -/
theorem SessionInvariant.store {m : Memory} (h : SessionInvariant ⟨s, live⟩ bs)
    (hm : ∀ c ∈ starts s.heapBegin bs, ∀ x, c ≤ x → x < c + 32 → m x = s.memory x) :
    SessionInvariant ⟨{ s with memory := m }, live⟩ bs :=
  ⟨h.toHeapInvariant.store hm, h.granted⟩

/-- Each call keeps the invariant. -/
theorem SessionInvariant.step {c : Call} (h : SessionInvariant σ bs) (hstep : CallStep σ c σ') :
    ∃ bs', SessionInvariant σ' bs' := by
  cases hstep with
  | malloc hsize hcall => exact h.malloc hsize hcall
  | reallocNull hsize hcall =>
    rw [krealloc, if_pos rfl] at hcall
    exact h.malloc hsize hcall
  | realloc hsize hold hcall => exact h.realloc hsize hold hcall
  | freeNull hcall =>
    obtain rfl := Except.ok.inj hcall
    exact ⟨bs, h⟩
  | free hold hcall => exact h.free hold hcall
  | @store s live ptr size offset bytes hptr hbytes =>
    have hlive : (live ptr).isSome := by rw [hptr, Option.isSome_some]
    obtain ⟨-, k, -, hused, -⟩ := h.used_of_live hlive
    have hsize : s.size (getBlockPtr ptr) = k := (h.size_used hused).2.1
    obtain ⟨l, r, hbs, hptr'⟩ := used_eq_some.mp hused
    change ptr = s.heapBegin + span l + 32 at hptr'
    refine ⟨bs, h.store fun c hc x hx hx' ↦ write_of_not_mem ?_⟩
    by_contra hmem
    have hout := starts_payload hbs (x := x) (by omega) (by show x < _ + k; omega) hc
    omega
  | @storeOutside s live addr bytes haddr =>
    have hend : s.endOffset = span bs := h.break_eq
    refine ⟨bs, h.store fun c hc x hx hx' ↦ write_of_not_mem ?_⟩
    have hbounds := starts_bounds hc
    omega

/-- A heap that is not used yet. -/
theorem SessionInvariant.fresh (h : FreshHeap σ) : SessionInvariant σ [] := by
  obtain ⟨memory, endAddr, hpos, hlt, hdvd, rfl⟩ := h
  exact { aligned := hdvd
          positive := hpos
          base := rfl
          chain := trivial
          break_eq := rfl
          bound := by simpa [initAlloc] using hlt
          sized := List.forall_mem_nil _
          coalesced := List.IsChain.nil
          granted := fun _ ↦ .none }

/-! ### Runs -/

theorem HeapRun.invariant {history : List (Transition Session Call)} (hrun : HeapRun history σ) :
    ∃ bs, SessionInvariant σ bs :=
  Run.state_invariant (I := fun σ ↦ ∃ bs, SessionInvariant σ bs) (fun _ h ↦ ⟨[], .fresh h⟩)
    (fun _ _ _ ⟨_, h⟩ hstep ↦ h.step hstep) hrun

/-- In every state of every run the blocks tile the heap and are linked in both directions, no two
free ones are neighbours, and the blocks that are not free are those that the program has got. Their
payloads overlap neither one another nor the headers. -/
theorem HeapRun.tiled {history : List (Transition Session Call)} (hrun : HeapRun history σ) :
    ∃ bs, SessionInvariant σ bs ∧
      (∀ p q n m, σ.live p = some n → σ.live q = some m → p ≠ q → p + n ≤ q ∨ q + m ≤ p) ∧
      ∀ p n c, σ.live p = some n → c ∈ starts σ.heap.heapBegin bs → p + n ≤ c ∨ c + 32 ≤ p := by
  obtain ⟨bs, hinv⟩ := hrun.invariant
  have hused : ∀ p n, σ.live p = some n → ∃ k, used σ.heap.heapBegin bs p = some k ∧ n ≤ k := by
    intro p n hp
    obtain ⟨n', k, hn', hk, hle⟩ := hinv.used_of_live (p := p) (by rw [hp, Option.isSome_some])
    obtain rfl := Option.some.inj (hp.symm.trans hn')
    exact ⟨k, hk, hle⟩
  refine ⟨bs, hinv, fun p q n m hp hq hne ↦ ?_, fun p n c hp hc ↦ ?_⟩
  · obtain ⟨k, hk, hle⟩ := hused p n hp
    obtain ⟨k', hk', hle'⟩ := hused q m hq
    have hapart := used_apart hk hk' hne
    omega
  · obtain ⟨k, hk, hle⟩ := hused p n hp
    obtain ⟨l, r, hbs, rfl⟩ := used_eq_some.mp hk
    by_contra hmem
    have hpos := (hinv.sized ⟨k, false⟩ (by rw [hbs]; simp)).1
    change 0 < k at hpos
    -- otherwise the first byte of the payload is in the header, or that of the header in the
    -- payload
    have hhead := starts_payload hbs (x := σ.heap.heapBegin + span l + 32) le_rfl
      (by show _ < _ + k; omega) hc
    have hinside := starts_payload hbs (x := c) (by omega) (by show _ < _ + k; omega) hc
    omega

/-- A heap of which nothing is used yet. -/
def smallSession : Session := ⟨initAlloc (fun _ ↦ 0) 0x1000, fun _ ↦ none⟩

theorem freshHeap_smallSession : FreshHeap smallSession :=
  ⟨fun _ ↦ 0, 0x1000, by decide, by decide, by decide, rfl⟩

/-- A computation whose result is known ends. -/
theorem exists_of_result {x : Except Stop (AllocState × ℕ)} (h : x.toOption.map Prod.snd = some p) :
    ∃ s, x = .ok (s, p) := by
  cases x with
  | error stop => cases h
  | ok r => exact ⟨r.1, congrArg Except.ok (Prod.ext rfl (Option.some.inj h))⟩

/-- The run of one request for a byte. -/
theorem heapRun_one : ∃ s, HeapRun
    [⟨smallSession, .malloc 1, ⟨s, Session.returned (fun _ ↦ none) 0x1020 1⟩⟩]
    ⟨s, Session.returned (fun _ ↦ none) 0x1020 1⟩ ∧
    kmalloc smallSession.heap 1 = .ok (s, 0x1020) := by
  obtain ⟨s, hcall⟩ : ∃ s, kmalloc smallSession.heap 1 = .ok (s, 0x1020) :=
    exists_of_result (by decide +kernel)
  exact ⟨s, .next (.start freshHeap_smallSession) (.malloc (by decide) hcall), hcall⟩

/-- The program's view after three requests, and the release of the second block. -/
def liveTwo : ℕ → Option ℕ :=
  Function.update
    (Session.returned
      (Session.returned (Session.returned (fun _ ↦ none) 0x1020 1) 0x1060 100) 0x1160 8)
    0x1060 none

/-- Three requests, each of which gives another block. -/
structure ThreeBlocks (s₁ s₂ s₃ s₄ : AllocState) : Prop where
  first : kmalloc smallSession.heap 1 = .ok (s₁, 0x1020)
  second : kmalloc s₁ 100 = .ok (s₂, 0x1060)
  third : kmalloc s₂ 8 = .ok (s₃, 0x1160)
  released : kfree s₃ 0x1060 = .ok s₄
  free : s₄.free (getBlockPtr 0x1060) = 1

theorem exists_threeBlocks : ∃ s₁ s₂ s₃ s₄, ThreeBlocks s₁ s₂ s₃ s₄ := by
  obtain ⟨s₁, h₁⟩ : ∃ s, kmalloc smallSession.heap 1 = .ok (s, 0x1020) :=
    exists_of_result (by decide +kernel)
  obtain ⟨s₂, h₂⟩ : ∃ s, (kmalloc smallSession.heap 1 >>= fun r ↦ kmalloc r.1 100) =
      .ok (s, 0x1060) :=
    exists_of_result (by decide +kernel)
  obtain ⟨s₃, h₃⟩ :
      ∃ s, (kmalloc smallSession.heap 1 >>= fun r ↦ kmalloc r.1 100 >>= fun r ↦ kmalloc r.1 8) =
      .ok (s, 0x1160) := exists_of_result (by decide +kernel)
  obtain ⟨s₄, h₄⟩ :
      ∃ s, (kmalloc smallSession.heap 1 >>= fun r ↦ kmalloc r.1 100 >>= fun r ↦ kmalloc r.1 8 >>=
      fun r ↦ kfree r.1 0x1060 >>= fun s ↦ .ok (s, s.free (getBlockPtr 0x1060))) = .ok (s, 1) :=
    exists_of_result (by decide +kernel)
  rw [h₁, ok_bind] at h₂ h₃ h₄
  rw [h₂, ok_bind] at h₃ h₄
  rw [h₃, ok_bind] at h₄
  obtain ⟨s, hs, hfree⟩ := bind_eq_ok.mp h₄
  exact ⟨s₁, s₂, s₃, s, h₁, h₂, h₃, hs, congrArg Prod.snd (Except.ok.inj hfree)⟩

/-- The heap has two blocks in use and a free one between them. -/
theorem HeapRun.tiled_three : ∃ history s bs, HeapRun history ⟨s, liveTwo⟩ ∧ history.length = 4 ∧
    s.free (getBlockPtr 0x1060) = 1 ∧ SessionInvariant ⟨s, liveTwo⟩ bs ∧
    (∀ p q n m, liveTwo p = some n → liveTwo q = some m → p ≠ q → p + n ≤ q ∨ q + m ≤ p) ∧
    ∀ p n c, liveTwo p = some n → c ∈ starts s.heapBegin bs → p + n ≤ c ∨ c + 32 ≤ p := by
  obtain ⟨s₁, s₂, s₃, s₄, h⟩ := exists_threeBlocks
  have hrun := Run.next (Run.next (Run.next (Run.next (Run.start freshHeap_smallSession)
    (CallStep.malloc (by decide) h.first)) (CallStep.malloc (by decide) h.second))
    (CallStep.malloc (by decide) h.third)) (CallStep.free (by decide) h.released)
  obtain ⟨bs, hinv, hblocks, hheaders⟩ := HeapRun.tiled hrun
  exact ⟨_, s₄, bs, hrun, rfl, h.free, hinv, hblocks, hheaders⟩

/-- A block at this pointer is in use. -/
def Allocated (s : AllocState) (p : ℕ) : Prop := ∃ bs, Tiled s bs ∧ (used s.heapBegin bs p).isSome

theorem Tiled.allocated_iff (h : Tiled s bs) : Allocated s p ↔ (used s.heapBegin bs p).isSome := by
  refine ⟨?_, fun hp ↦ ⟨bs, h, hp⟩⟩
  rintro ⟨bs', h', hp⟩
  rwa [h.chain.unique h.positive h'.chain (h.base.symm.trans h'.base)]

/-- A reallocation gives a block that is large enough and has the data of the old one up to the
smaller of the two sizes. It keeps the payloads of all other blocks, and it frees the old block
exactly when it gives another one. -/
theorem HeapRun.krealloc_preserves {history : List (Transition Session Call)}
    (hrun : HeapRun history σ) (hp : (σ.live p).isSome) (hn : n ≤ maxRequest)
    (hcall : krealloc σ.heap p n = .ok (s', q)) :
    (∀ i < min (σ.heap.size (getBlockPtr p)) n, s'.memory (q + i) = σ.heap.memory (p + i)) ∧
      (∀ p', (σ.live p').isSome → p' ≠ p → Allocated s' p' ∧ ∀ i < σ.heap.size (getBlockPtr p'),
        s'.memory (p' + i) = σ.heap.memory (p' + i)) ∧
      n ≤ s'.size (getBlockPtr q) ∧ Allocated s' q ∧ (Allocated s' p ↔ q = p) := by
  obtain ⟨bs, hinv⟩ := hrun.invariant
  obtain ⟨-, k, -, hused, -⟩ := hinv.used_of_live hp
  obtain ⟨bs', hre⟩ := krealloc_spec hinv.toHeapInvariant hused hn _ hcall
  obtain ⟨k', hle, hused'⟩ := hre.used_eq
  have hbase : s'.heapBegin = σ.heap.heapBegin := hre.heapBegin_eq
  have halloc : ∀ p', Allocated s' p' ↔ (used σ.heap.heapBegin bs' p').isSome := fun p' ↦ by
    rw [← hbase]
    exact hre.invariant.allocated_iff
  refine ⟨?_, fun p' hp' hne ↦ ?_, ?_, ?_, ?_⟩
  · rw [(hinv.size_used hused).2.1]
    exact hre.moved
  · obtain ⟨-, m, -, hm, -⟩ := hinv.used_of_live hp'
    rw [(hinv.size_used hm).2.1, halloc, hused', Function.update_apply, Function.update_of_ne hne,
      hm]
    refine ⟨by split_ifs <;> rfl, fun i hi ↦ hre.others p' m hne hm _ (by omega) (by omega)⟩
  · have hq : used s'.heapBegin bs' q = some k' := by rw [hbase, hused', Function.update_self]
    rw [(hre.invariant.size_used hq).2.1]
    exact hle
  · rw [halloc, hused', Function.update_self, Option.isSome_some]
  · rw [halloc, hused', Function.update_apply, Function.update_self]
    split_ifs with heq
    · simp [heq]
    · simp [Ne.symm heq]

/-- The block of one byte is moved when it is reallocated for a hundred. -/
theorem HeapRun.krealloc_preserves_moved : ∃ s s', krealloc s 0x1020 100 = .ok (s', 0x1060) ∧
    (∀ i < min (s.size (getBlockPtr 0x1020)) 100, s'.memory (0x1060 + i) = s.memory (0x1020 + i)) ∧
    100 ≤ s'.size (getBlockPtr 0x1060) ∧ ¬ Allocated s' 0x1020 := by
  obtain ⟨s, hrun, hcall⟩ := heapRun_one
  obtain ⟨s', hre⟩ : ∃ s', (kmalloc smallSession.heap 1 >>= fun r ↦ krealloc r.1 r.2 100) =
      .ok (s', 0x1060) := exists_of_result (by decide +kernel)
  rw [hcall, ok_bind] at hre
  have hlive : (Session.returned (fun _ ↦ none) 0x1020 1 0x1020).isSome := by decide
  have hne : ¬ (0x1060 : ℕ) = 0x1020 := by decide
  obtain ⟨hmoved, -, hlarge, -, hiff⟩ := HeapRun.krealloc_preserves hrun hlive (by decide) hre
  exact ⟨s, s', hre, hmoved, hlarge, fun hp ↦ hne (hiff.mp hp)⟩

end SysresOs.Memory
