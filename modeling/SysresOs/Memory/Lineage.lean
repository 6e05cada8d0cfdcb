import SysresOs.Memory.Stray

/-!
# Forks after forks

A fork keeps the bind counters exact (`Forkable.exactCounters`): the child shares the pages of the
parent, each of which is counted once more, except for those of its stack, which are new. `Settled`
is what a system relies on from fork to fork, and `ForkRun.settled` says that it holds after the
boot and any number of forks.
-/

set_option autoImplicit false
set_option relaxedAutoImplicit false

namespace SysresOs.Mmu

open SysresOs.Outcome

open SysresOs.Proc (Pid SystemState kernelPid initPid)

variable {L : Layout} {sys : SystemState} {live : Finset Pid} {pid q : Pid} {s t : MmuState}
  {p p' pa e : Word} {f v : ℕ}

/-! ### The pages of the child -/

theorem isBoundPage (hrow : L.kernelTables ≤ v / 512) (hlt : v < 512 * 505) : IsBoundPage L v := by
  by_cases htimer : v = timerPage
  · right
    rw [htimer]
    decide
  · exact .inl ⟨hrow, hlt, htimer⟩

theorem IsBoundPage.bounds (hv : IsBoundPage L v) : L.kernelTables ≤ v / 512 ∧ v < 511 * 512 := by
  obtain ⟨-, hle⟩ := L.toNat_endAddr_tables
  rcases hv with ⟨hrow, hlt, -⟩ | hperipheral
  · omega
  · rw [mem_peripheralPages] at hperipheral
    omega

namespace Forkable

/-- The pages of the child other than those of the stack are mapped as those of the parent. -/
theorem frameOf_child (h : Forkable L sys live pid s p p')
    (ht : Forked L s t pid (L.zoneRoot (getParentPid sys pid)) p p') (hv : IsBoundPage L v)
    (hstack : ¬ IsStackPage v) :
    frameOf t.words (L.zoneRoot pid) v = frameOf s.words (L.zoneRoot (getParentPid sys pid)) v := by
  rcases hv with huser | hperipheral
  · rw [frameOf, ht.leaf_eq v huser hstack, Option.map_map, frameOf]
    exact congrArg (fun g ↦ Option.map g _)
      (funext fun e ↦ by rw [Function.comp_apply, entryAddress_forkedEntry])
  · have hlt : v < 0x40000 := by
      rw [mem_peripheralPages] at hperipheral
      omega
    rw [h.exact.peripheral _ h.parent _ hperipheral, frameOf, ht.peripheral _ hperipheral,
      Option.map_some, entryAddress_peripheralEntry hlt, Nat.mul_div_cancel_left v (by decide)]

/-- The pages of the child's stack are mapped to the two pages that have been taken from the map. -/
theorem leaf_stack (h : Forkable L sys live pid s p p')
    (ht : Forked L s t pid (L.zoneRoot (getParentPid sys pid)) p p') :
    (∃ e, leaf t.words (L.zoneRoot pid) 0x3f1ff = some e ∧ entryAddress e = nextFreePage s) ∧
      ∃ e, leaf t.words (L.zoneRoot pid) 0x3f1fe = some e ∧
      entryAddress e = nextFreePage (pageTaken s) := by
  have hram := h.free.ram
  have hram' := h.free.ram'
  refine ⟨⟨_, ht.stack, ?_⟩, _, ht.stack', ?_⟩
  · rw [entryAddress_withAttributes, entryAddress_of_page h.free.aligned (by omega)]
  · rw [entryAddress_withAttributes, entryAddress_of_page h.free.aligned' (by omega)]

theorem frameOf_stack (h : Forkable L sys live pid s p p')
    (ht : Forked L s t pid (L.zoneRoot (getParentPid sys pid)) p p') :
    frameOf t.words (L.zoneRoot pid) 0x3f1ff = some ((nextFreePage s).toNat / 0x1000) ∧
      frameOf t.words (L.zoneRoot pid) 0x3f1fe =
      some ((nextFreePage (pageTaken s)).toNat / 0x1000) := by
  obtain ⟨⟨e, hleaf, he⟩, e', hleaf', he'⟩ := h.leaf_stack ht
  constructor
  · rw [frameOf, hleaf, Option.map_some, he]
  · rw [frameOf, hleaf', Option.map_some, he']

/-- A page of the child that is not of its stack is mapped to neither of the two pages that have
been taken. -/
theorem frameOf_child_ne (h : Forkable L sys live pid s p p')
    (ht : Forked L s t pid (L.zoneRoot (getParentPid sys pid)) p p') (hv : IsBoundPage L v)
    (hstack : ¬ IsStackPage v) (hframe : frameOf t.words (L.zoneRoot pid) v = some f) :
    f ≠ (nextFreePage s).toNat / 0x1000 ∧ f ≠ (nextFreePage (pageTaken s)).toNat / 0x1000 := by
  rw [h.frameOf_child ht hv hstack] at hframe
  constructor
  · rintro rfl
    exact h.freeUnbound _ h.parent v hv hframe
  · rintro rfl
    exact h.freeUnbound' _ h.parent v hv hframe

/-- The child has every physical page mapped once at most. -/
theorem once_child (h : Forkable L sys live pid s p p')
    (ht : Forked L s t pid (L.zoneRoot (getParentPid sys pid)) p p') {u : ℕ} (hu : IsBoundPage L u)
    (hv : IsBoundPage L v) (hframe : frameOf t.words (L.zoneRoot pid) u = some f)
    (hframe' : frameOf t.words (L.zoneRoot pid) v = some f) : u = v := by
  obtain ⟨hfirst, hsecond⟩ := h.frameOf_stack ht
  obtain ⟨-, -, hdistinct⟩ := h.forkReady.distinct
  by_cases hstack : IsStackPage u <;> by_cases hstack' : IsStackPage v
  · rcases hstack with rfl | rfl <;> rcases hstack' with rfl | rfl
    · rfl
    · exact absurd (Option.some.inj ((hfirst.symm.trans hframe).trans (hframe'.symm.trans hsecond)))
        hdistinct
    · exact absurd (Option.some.inj ((hfirst.symm.trans hframe').trans (hframe.symm.trans hsecond)))
        hdistinct
    · rfl
  · obtain ⟨hne, hne'⟩ := h.frameOf_child_ne ht hv hstack' hframe'
    rcases hstack with rfl | rfl
    · exact absurd (Option.some.inj (hframe.symm.trans hfirst)) hne
    · exact absurd (Option.some.inj (hframe.symm.trans hsecond)) hne'
  · obtain ⟨hne, hne'⟩ := h.frameOf_child_ne ht hu hstack hframe
    rcases hstack' with rfl | rfl
    · exact absurd (Option.some.inj (hframe'.symm.trans hfirst)) hne
    · exact absurd (Option.some.inj (hframe'.symm.trans hsecond)) hne'
  · rw [h.frameOf_child ht hu hstack] at hframe
    rw [h.frameOf_child ht hv hstack'] at hframe'
    exact h.exact.once _ h.parent u v f hu hv hframe hframe'

/-! ### The counters after the fork -/

/-- The two pages that have been taken are bound once. -/
theorem counter_taken (h : Forkable L sys live pid s p p')
    (ht : Forked L s t pid (L.zoneRoot (getParentPid sys pid)) p p') (hpa : pa.toNat / 0x1000 =
      (nextFreePage s).toNat / 0x1000 ∨
      pa.toNat / 0x1000 = (nextFreePage (pageTaken s)).toNat / 0x1000) :
    getBindCounter t pa = 1 ∧ getBindCounter s pa = 0 := by
  obtain ⟨hperipheral, hzero⟩ := h.counter_eq_zero h.free.above h.free.ram h.freeUnbound
  obtain ⟨hperipheral', hzero'⟩ := h.counter_eq_zero h.free.above' h.free.ram' h.freeUnbound'
  rw [ht.counter, if_pos (.inr (.inr hpa))]
  rcases hpa with hpa | hpa
  · rw [if_neg (hpa ▸ hperipheral), getBindCounter_congr hpa]
    exact ⟨rfl, hzero⟩
  · rw [if_neg (hpa ▸ hperipheral'), getBindCounter_congr hpa]
    exact ⟨rfl, hzero'⟩

/-- The physical pages of the parent's stack are mapped by no other page of the parent. -/
theorem frameOf_parent_ne (h : Forkable L sys live pid s p p') (hv : IsBoundPage L v)
    (hstack : ¬ IsStackPage v)
    (hframe : frameOf s.words (L.zoneRoot (getParentPid sys pid)) v = some f) :
    f ≠ p.toNat / 0x1000 ∧ f ≠ p'.toNat / 0x1000 := by
  obtain ⟨huser, huser'⟩ := isUserPage_stack L
  constructor
  · rintro rfl
    exact hstack (.inl (h.exact.once _ h.parent v _ _ hv (.inl huser) hframe
      h.forkReady.frameOf_stack))
  · rintro rfl
    exact hstack (.inr (h.exact.once _ h.parent v _ _ hv (.inl huser') hframe
      h.forkReady.frameOf_stack'))

/-- The physical pages that the child shares with its parent are neither those of the parent's stack
nor those that have been taken. -/
theorem frameOf_shared_ne (h : Forkable L sys live pid s p p') (hv : IsBoundPage L v)
    (hstack : ¬ IsStackPage v)
    (hframe : frameOf s.words (L.zoneRoot (getParentPid sys pid)) v = some f) :
    ¬ (f = p.toNat / 0x1000 ∨ f = p'.toNat / 0x1000 ∨ f = (nextFreePage s).toNat / 0x1000 ∨
      f = (nextFreePage (pageTaken s)).toNat / 0x1000) := by
  obtain ⟨hparent, hparent'⟩ := h.frameOf_parent_ne hv hstack hframe
  rintro (hf | hf | rfl | rfl)
  · exact hparent hf
  · exact hparent' hf
  · exact h.freeUnbound _ h.parent v hv hframe
  · exact h.freeUnbound' _ h.parent v hv hframe

/-- The double loop copies the entry of such a page once. -/
theorem card_copiedTo_shared (h : Forkable L sys live pid s p p') (hv : IsUserPage L v)
    (hframe : frameOf s.words (L.zoneRoot (getParentPid sys pid)) v = some f) :
    (copiedTo s.words (L.zoneRoot (getParentPid sys pid)) L.kernelTables f (512 * 505)).card = 1 :=
  card_copiedTo_of_once hv hframe fun x hx hmapped ↦
    h.exact.once _ h.parent x v _ (.inl hx) (.inl hv) hmapped hframe

/-- The physical pages that the child shares with its parent are counted once more. -/
theorem counter_child (h : Forkable L sys live pid s p p')
    (ht : Forked L s t pid (L.zoneRoot (getParentPid sys pid)) p p') (hv : IsBoundPage L v)
    (hstack : ¬ IsStackPage v)
    (hframe : frameOf t.words (L.zoneRoot pid) v = some (pa.toNat / 0x1000)) :
    getBindCounter t pa = getBindCounter s pa + 1 := by
  rw [h.frameOf_child ht hv hstack] at hframe
  rw [ht.counter, if_neg (h.frameOf_shared_ne hv hstack hframe)]
  rcases hv with huser | hmem
  · rw [h.card_copiedTo_shared huser hframe, if_neg (h.exact.frame_notMem h.parent huser hframe)]
    exact BitVec.add_zero _
  · rw [h.exact.peripheral _ h.parent _ hmem] at hframe
    have hpage : v = pa.toNat / 0x1000 := Option.some.inj hframe
    have hunbound (x : ℕ) (hx : IsUserPage L x) :
        frameOf s.words (L.zoneRoot (getParentPid sys pid)) x ≠ some (pa.toNat / 0x1000) :=
      fun hmapped ↦
      h.exact.frame_notMem h.parent hx hmapped (hpage ▸ hmem)
    rw [card_copiedTo_of_unbound hunbound, if_pos (hpage ▸ hmem)]
    exact congrArg (· + 1) (BitVec.add_zero _)

/-- Any other counter is what it was, except for those of the pages behind `GPIO_BASE`. -/
theorem counter_other (h : Forkable L sys live pid s p p')
    (ht : Forked L s t pid (L.zoneRoot (getParentPid sys pid)) p p')
    (hgpio : pa.toNat / 0x1000 ∉ gpioPages)
    (hunbound : ∀ v, L.kernelTables ≤ v / 512 → v < 512 * 505 →
      frameOf t.words (L.zoneRoot pid) v ≠ some (pa.toNat / 0x1000)) :
    getBindCounter t pa = getBindCounter s pa := by
  obtain ⟨-, hle⟩ := L.toNat_endAddr_tables
  obtain ⟨hfirst, hsecond⟩ := h.frameOf_stack ht
  have htimer : pa.toNat / 0x1000 ≠ timerPage := by
    intro hpage
    have hmem : timerPage ∈ peripheralPages := by decide
    refine hunbound timerPage (by omega) (by decide) ?_
    rw [h.frameOf_child ht (.inr hmem) (by decide), h.exact.peripheral _ h.parent _ hmem, hpage]
  have hperipheral : pa.toNat / 0x1000 ∉ peripheralPages := by
    have htimerPage : timerPage = 0x3f00b := rfl
    rw [mem_gpioPages] at hgpio
    rw [mem_peripheralPages]
    omega
  have hne : pa.toNat / 0x1000 ≠ (nextFreePage s).toNat / 0x1000 := fun hpage ↦
    hunbound _ (isUserPage_stack L).1.1 (by decide) (hpage ▸ hfirst)
  have hne' : pa.toNat / 0x1000 ≠ (nextFreePage (pageTaken s)).toNat / 0x1000 := fun hpage ↦
    hunbound _ (isUserPage_stack L).2.1 (by decide) (hpage ▸ hsecond)
  rw [ht.counter, if_neg hperipheral]
  split_ifs with hstack
  · rcases hstack with hpage | hpage | hpage | hpage
    · rw [getBindCounter_congr hpage, h.count]
      rfl
    · rw [getBindCounter_congr hpage, h.count']
      rfl
    · exact absurd hpage hne
    · exact absurd hpage hne'
  · have hnone (x : ℕ) (hx : IsUserPage L x) :
        frameOf s.words (L.zoneRoot (getParentPid sys pid)) x ≠ some (pa.toNat / 0x1000) := by
      intro hmapped
      by_cases hx' : IsStackPage x
      · rcases hx' with rfl | rfl
        · exact hstack (.inl (Option.some.inj (hmapped.symm.trans h.forkReady.frameOf_stack)))
        · exact hstack (.inr (.inl
            (Option.some.inj (hmapped.symm.trans h.forkReady.frameOf_stack'))))
      · exact hunbound x hx.1 hx.2.1 ((h.frameOf_child ht (.inl hx) hx').trans hmapped)
    rw [card_copiedTo_of_unbound hnone]
    exact (BitVec.add_zero _).trans (BitVec.add_zero _)

/-! ### Exact counters after the fork -/

/-- The frames of the live processes are what they were. -/
theorem frameOf_live (h : Forkable L sys live pid s p p')
    (ht : Forked L s t pid (L.zoneRoot (getParentPid sys pid)) p p') (hq : q ∈ live)
    (hrow : L.kernelTables ≤ v / 512) (hv : v < 511 * 512) :
    frameOf t.words (L.zoneRoot q) v = frameOf s.words (L.zoneRoot q) v := by
  have hne : L.zoneRoot q ≠ L.zoneRoot pid := fun heq ↦ h.fresh (L.zoneRoot_inj.mp heq ▸ hq)
  rw [frameOf, ht.otherLeaf _ _ hne (h.exact.tables q hq) v hrow hv]
  split_ifs
  · rw [Option.map_map, frameOf]
    exact congrArg (fun g ↦ Option.map g _)
      (funext fun e ↦ by rw [Function.comp_apply, entryAddress_forkedEntry])
  · rfl

/-- The holders of a physical page after the fork. -/
theorem mem_holders_forked (h : Forkable L sys live pid s p p')
    (ht : Forked L s t pid (L.zoneRoot (getParentPid sys pid)) p p') :
    q ∈ holders L t.words (insert pid live) f ↔ q ∈ holders L s.words live f ∨
      q = pid ∧ ∃ v, IsUserPage L v ∧ frameOf t.words (L.zoneRoot pid) v = some f := by
  have hlive (hq : q ∈ live) : (∃ v, IsUserPage L v ∧ frameOf t.words (L.zoneRoot q) v = some f) ↔
      ∃ v, IsUserPage L v ∧ frameOf s.words (L.zoneRoot q) v = some f := by
    refine exists_congr fun v ↦ and_congr_right fun huser ↦ ?_
    obtain ⟨hrow, hv⟩ := IsBoundPage.bounds (.inl huser)
    rw [h.frameOf_live ht hq hrow hv]
  rw [mem_holders, mem_holders, Finset.mem_insert]
  constructor
  · rintro ⟨rfl | hq, hframe⟩
    · exact .inr ⟨rfl, hframe⟩
    · exact .inl ⟨hq, (hlive hq).mp hframe⟩
  · rintro (⟨hq, hframe⟩ | ⟨rfl, hframe⟩)
    · exact ⟨.inr hq, (hlive hq).mpr hframe⟩
    · exact ⟨.inl rfl, hframe⟩

/-- A page that the child maps is counted once more. -/
theorem counter_held (h : Forkable L sys live pid s p p')
    (ht : Forked L s t pid (L.zoneRoot (getParentPid sys pid)) p p') (hv : IsBoundPage L v)
    (hframe : frameOf t.words (L.zoneRoot pid) v = some (pa.toNat / 0x1000)) :
    getBindCounter t pa = getBindCounter s pa + 1 := by
  by_cases hstack : IsStackPage v
  · obtain ⟨hfirst, hsecond⟩ := h.frameOf_stack ht
    have htaken : pa.toNat / 0x1000 = (nextFreePage s).toNat / 0x1000 ∨
        pa.toNat / 0x1000 = (nextFreePage (pageTaken s)).toNat / 0x1000 := by
      rcases hstack with rfl | rfl
      · exact .inl (Option.some.inj (hframe.symm.trans hfirst))
      · exact .inr (Option.some.inj (hframe.symm.trans hsecond))
    obtain ⟨hone, hzero⟩ := h.counter_taken ht htaken
    rw [hone, hzero]
    rfl
  · exact h.counter_child ht hv hstack hframe

/-- The counter of a page grows by one if the child has it mapped. -/
theorem counter_forked (h : Forkable L sys live pid s p p')
    (ht : Forked L s t pid (L.zoneRoot (getParentPid sys pid)) p p')
    (hperipheral : pa.toNat / 0x1000 ∉ peripheralPages)
    [Decidable (∃ v, IsUserPage L v ∧ frameOf t.words
    (L.zoneRoot pid) v = some (pa.toNat / 0x1000))] : getBindCounter t pa = getBindCounter s pa +
      if ∃ v, IsUserPage L v ∧ frameOf t.words (L.zoneRoot pid) v = some (pa.toNat / 0x1000) then 1
        else 0 := by
  split_ifs with hheld
  · obtain ⟨v, huser, hframe⟩ := hheld
    exact h.counter_held ht (.inl huser) hframe
  · refine (h.counter_other ht ?_ fun v hrow hlt hframe ↦ ?_).trans (BitVec.add_zero _).symm
    · rw [mem_peripheralPages] at hperipheral
      rw [mem_gpioPages]
      omega
    · by_cases htimer : v = timerPage
      · have hmem : timerPage ∈ peripheralPages := by decide
        rw [htimer, h.frameOf_child ht (.inr hmem) (by decide),
          h.exact.peripheral _ h.parent _ hmem] at hframe
        exact hperipheral (Option.some.inj hframe ▸ hmem)
      · exact hheld ⟨v, ⟨hrow, hlt, htimer⟩, hframe⟩

/-- The pages of the child are pages of the memory above `id_paging_size`. -/
theorem range_child (h : Forkable L sys live pid s p p')
    (ht : Forked L s t pid (L.zoneRoot (getParentPid sys pid)) p p') (hv : IsUserPage L v)
    {e : Word} (hleaf : leaf t.words (L.zoneRoot pid) v = some e) :
    s.idPagingSize ≤ entryAddress e ∧ (entryAddress e).toNat < 0x40000000 := by
  obtain ⟨⟨e₁, hleaf₁, he₁⟩, e₂, hleaf₂, he₂⟩ := h.leaf_stack ht
  by_cases hstack : IsStackPage v
  · rcases hstack with rfl | rfl
    · rw [← Option.some.inj (hleaf₁.symm.trans hleaf), he₁]
      exact ⟨h.free.above, h.free.ram⟩
    · rw [← Option.some.inj (hleaf₂.symm.trans hleaf), he₂]
      exact ⟨h.free.above', h.free.ram'⟩
  · rw [ht.leaf_eq v hv hstack] at hleaf
    obtain ⟨e', hleaf', rfl⟩ := Option.map_eq_some_iff.mp hleaf
    rw [entryAddress_forkedEntry]
    exact h.exact.range _ h.parent v hv e' hleaf'

/-- The bind counters are exact after the fork. -/
theorem exactCounters (h : Forkable L sys live pid s p p')
    (ht : Forked L s t pid (L.zoneRoot (getParentPid sys pid)) p p') :
    ExactCounters L t (insert pid live) := by
  have hne (q : Pid) (hq : q ∈ live) : L.zoneRoot q ≠ L.zoneRoot pid :=
    fun heq ↦ h.fresh (L.zoneRoot_inj.mp heq ▸ hq)
  have hid : t.idPagingSize = s.idPagingSize := by
    rw [ht.fixed, h.configured.idPagingSize]
    rfl
  constructor
  case tables =>
    intro q hq
    rcases Finset.mem_insert.mp hq with rfl | hq
    · exact ht.tables
    · exact ht.otherTables _ _ (hne q hq) (h.exact.tables q hq)
  case range =>
    intro q hq v hv e hleaf
    rw [hid]
    rcases Finset.mem_insert.mp hq with rfl | hq
    · exact h.range_child ht hv hleaf
    · obtain ⟨hrow, hlt⟩ := IsBoundPage.bounds (.inl hv)
      rw [ht.otherLeaf _ _ (hne q hq) (h.exact.tables q hq) v hrow hlt] at hleaf
      split_ifs at hleaf
      · obtain ⟨e', hleaf', rfl⟩ := Option.map_eq_some_iff.mp hleaf
        rw [entryAddress_forkedEntry]
        exact h.exact.range q hq v hv e' hleaf'
      · exact h.exact.range q hq v hv e hleaf
  case peripheral =>
    intro q hq v hv
    rcases Finset.mem_insert.mp hq with rfl | hq
    · rw [h.frameOf_child ht (.inr hv) (by rw [mem_peripheralPages] at hv; omega),
        h.exact.peripheral _ h.parent _ hv]
    · obtain ⟨hrow, hlt⟩ := IsBoundPage.bounds (L := L) (.inr hv)
      rw [h.frameOf_live ht hq hrow hlt, h.exact.peripheral q hq v hv]
  case once =>
    intro q hq u v f hu hv hframe hframe'
    rcases Finset.mem_insert.mp hq with rfl | hq
    · exact h.once_child ht hu hv hframe hframe'
    · obtain ⟨hrow, hlt⟩ := hu.bounds
      obtain ⟨hrow', hlt'⟩ := hv.bounds
      rw [h.frameOf_live ht hq hrow hlt] at hframe
      rw [h.frameOf_live ht hq hrow' hlt'] at hframe'
      exact h.exact.once q hq u v f hu hv hframe hframe'
  case counter =>
    classical
    intro pa habove hram hperipheral
    have hcount := h.exact.counter pa (hid ▸ habove) hram hperipheral
    rw [h.counter_forked ht hperipheral, hcount]
    split_ifs with hheld
    · have hholders : holders L t.words (insert pid live) (pa.toNat / 0x1000) =
          insert pid (holders L s.words live (pa.toNat / 0x1000)) := by
        ext q
        rw [h.mem_holders_forked ht, Finset.mem_insert, or_comm, and_iff_left hheld]
      have hnot : pid ∉ holders L s.words live (pa.toNat / 0x1000) :=
        fun hmem ↦ h.fresh (mem_holders.mp hmem).1
      rw [hholders, Finset.card_insert_of_notMem hnot, BitVec.ofNat_add]
      rfl
    · have hholders : holders L t.words (insert pid live) (pa.toNat / 0x1000) =
          holders L s.words live (pa.toNat / 0x1000) := by
        ext q
        rw [h.mem_holders_forked ht, or_iff_left fun hand ↦ hheld hand.2]
      rw [hholders]
      exact BitVec.add_zero _

end Forkable

/-! ### Runs of forks -/

/-- The stack of a live process stays its own. -/
theorem Forkable.stack_live (h : Forkable L sys live pid s p p')
    (ht : Forked L s t pid (L.zoneRoot (getParentPid sys pid)) p p') (hq : q ∈ live)
    (hv : IsStackPage v) (hleaf : leaf s.words (L.zoneRoot q) v = some e)
    (hone : getBindCounter s (entryAddress e) = 1) :
    leaf t.words (L.zoneRoot q) v = some e ∧ getBindCounter t (entryAddress e) = 1 := by
  classical
  obtain ⟨huser, huser'⟩ := isUserPage_stack L
  have hstack : IsUserPage L v := by
    rcases hv with rfl | rfl
    · exact huser
    · exact huser'
  have hne : L.zoneRoot q ≠ L.zoneRoot pid := fun heq ↦ h.fresh (L.zoneRoot_inj.mp heq ▸ hq)
  have hframe : frameOf s.words (L.zoneRoot q) v = some ((entryAddress e).toNat / 0x1000) := by
    rw [frameOf, hleaf]
    rfl
  constructor
  · rw [ht.otherLeaf _ _ hne (h.exact.tables q hq) v hstack.1 (by have := hstack.2.1; omega), hleaf,
      Option.map_some, forkedEntry, if_pos hv, ite_self]
  · rw [h.counter_forked ht (h.exact.frame_notMem hq hstack hframe), hone, if_neg]
    · rfl
    rintro ⟨x, hx, hchild⟩
    by_cases hxv : IsStackPage x
    · -- the stack of the child is new
      obtain ⟨hfirst, hsecond⟩ := h.frameOf_stack ht
      rcases hxv with rfl | rfl
      · exact h.freeUnbound q hq v (.inl hstack) (hframe.trans (hchild.symm.trans hfirst))
      · exact h.freeUnbound' q hq v (.inl hstack) (hframe.trans (hchild.symm.trans hsecond))
    · rw [h.frameOf_child ht (.inl hx) hxv] at hchild
      exact hxv ((h.exact.eq_of_counter_one hq hstack hleaf hone h.parent hx hchild).2 ▸ hv)

/-- A fork takes two pages of the pool. -/
theorem Settled.forked {n : ℕ} (h : Settled L live s n) (hready : Forkable L sys live pid s p p')
    (ht : Forked L s t pid (L.zoneRoot (getParentPid sys pid)) p p')
    (hroom : 512 * L.kernelTables + n ≤ 0x3f006) : Settled L (insert pid live) t (n + 2) := by
  have hnext := h.pool.next (by omega)
  have htaken := h.pool.taken (by omega)
  have hnext' := htaken.next (by omega)
  have hchild : L.mmuTablesStart ≠ L.zoneRoot pid := hready.forkReady.childApart.symm
  have hnone (v : ℕ) (hv : v < 511 * 512) (hleaf : leaf s.words L.mmuTablesStart v = none) :
      leaf t.words L.mmuTablesStart v = none := by
    rw [ht.otherLeaf _ 0 hchild h.kernelTables v (Nat.zero_le _) hv, hleaf,
      Option.map_none, ite_self]
  constructor
  case kernelLive => exact Finset.mem_insert_of_mem h.kernelLive
  case hardwareRoot =>
    rw [ht.fixed]
    exact h.hardwareRoot
  case pool =>
    refine (htaken.taken (by omega)).congr ?_ ?_
    · have hconf : Configured L (populated L pid s) := populated_configured hready.configured
      rw [ht.fixed]
      exact ⟨hconf.idPagingSize, hconf.bindCounter, hconf.bindCounterOffset⟩
    · rw [ht.fixed]
      rfl
  case kernelTables => exact ht.otherTables _ 0 hchild h.kernelTables
  case reserved => exact hnone _ (by decide) h.reserved
  case reserved' => exact hnone _ (by decide) h.reserved'
  case exact => exact hready.exactCounters ht
  case stack =>
    intro q hq v hv
    rcases Finset.mem_insert.mp hq with rfl | hq
    · obtain ⟨⟨e, hleaf, he⟩, e', hleaf', he'⟩ := hready.leaf_stack ht
      rcases hv with rfl | rfl
      · exact ⟨e, hleaf, (hready.counter_taken ht (.inl (by rw [he]))).1⟩
      · exact ⟨e', hleaf', (hready.counter_taken ht (.inr (by rw [he']))).1⟩
    · obtain ⟨e, hleaf, hone⟩ := h.stack q hq v hv
      exact ⟨e, hready.stack_live ht hq hv hleaf hone⟩
  case bound =>
    intro q hq v hv f hframe
    rcases Finset.mem_insert.mp hq with rfl | hq
    · by_cases hstack : IsStackPage v
      · obtain ⟨hfirst, hsecond⟩ := hready.frameOf_stack ht
        rcases hstack with rfl | rfl
        · refine ⟨n, by omega, (Option.some.inj (hframe.symm.trans hfirst)).trans ?_⟩
          rw [hnext, Nat.mul_div_cancel_left _ (by decide)]
        · refine ⟨n + 1, by omega, (Option.some.inj (hframe.symm.trans hsecond)).trans ?_⟩
          rw [hnext', Nat.mul_div_cancel_left _ (by decide)]
      · rw [hready.frameOf_child ht (.inl hv) hstack] at hframe
        obtain ⟨i, hi, hf⟩ := h.bound _ hready.parent v hv f hframe
        exact ⟨i, by omega, hf⟩
    · obtain ⟨hrow, hlt⟩ := IsBoundPage.bounds (.inl hv)
      rw [hready.frameOf_live ht hq hrow hlt] at hframe
      obtain ⟨i, hi, hf⟩ := h.bound q hq v hv f hframe
      exact ⟨i, by omega, hf⟩

/-- The memory after the boot and any number of forks that leave `n` pages of the pool taken. -/
inductive ForkRun (L : Layout) : Finset Pid → MmuState → ℕ → Prop
  | boot {sys : SystemState} {s s₁ s₂ : MmuState} (hkernel : cInitMmu L sys kernelPid s = .ok s₁)
    (hinit : cInitMmu L sys initPid s₁ = .ok s₂)
    (hhardware : s.ttbr0El1 &&& mask 47 1 = L.mmuTablesStart) : ForkRun L {kernelPid, initPid} s₂ 4
  | fork {live : Finset Pid} {sys : SystemState} {pid : Pid} {s t : MmuState} {n : ℕ}
    (run : ForkRun L live s n)
    (hchild : ChildOf L sys live pid) (hroom : 512 * L.kernelTables + n ≤ 0x3f006)
    (hinit : cInitMmu L sys pid s = .ok t) : ForkRun L (insert pid live) t (n + 2)

/-- The boot is what `exists_booted` says of it. -/
theorem booted_of_boot {s₁ s₂ : MmuState} (hkernel : cInitMmu L sys kernelPid s = .ok s₁)
    (hinit : cInitMmu L sys initPid s₁ = .ok s₂) : ∃ s₀, Booted L s s₀ s₁ s₂ := by
  obtain ⟨s₀, s₁', s₂', hkernel', hinit', h⟩ := exists_booted L sys s
  obtain rfl := Except.ok.inj (hkernel.symm.trans hkernel')
  obtain rfl := Except.ok.inj (hinit.symm.trans hinit')
  exact ⟨s₀, h⟩

/-- After the boot and any number of forks the next process can be forked. -/
theorem ForkRun.settled {n : ℕ} (h : ForkRun L live s n) : Settled L live s n := by
  induction h with
  | boot hkernel hinit hhardware =>
    obtain ⟨s₀, hbooted⟩ := booted_of_boot hkernel hinit
    exact hbooted.settled hhardware
  | fork run hchild hroom hinit ih =>
    obtain ⟨p, p', hready⟩ := ih.forkable hchild hroom
    obtain ⟨t, hinit', ht⟩ := cInitMmu_forked hready.forkReady
    obtain rfl := Except.ok.inj (hinit.symm.trans hinit')
    exact ih.forked hready ht hroom

/-- Every process has the page of the timer. -/
theorem ForkRun.counter_timer {n : ℕ} (h : ForkRun L live s n) :
    getBindCounter s timerIrqPage = BitVec.ofNat 8 live.card := by
  induction h with
  | boot hkernel hinit hhardware =>
    obtain ⟨s₀, hbooted⟩ := booted_of_boot hkernel hinit
    exact hbooted.counter_timer
  | @fork live sys pid s t n run hchild hroom hinit ih =>
    obtain ⟨p, p', hready⟩ := run.settled.forkable hchild hroom
    obtain ⟨t, hinit', ht⟩ := cInitMmu_forked hready.forkReady
    obtain rfl := Except.ok.inj (hinit.symm.trans hinit')
    have hmem : timerPage ∈ peripheralPages := by decide
    have hpage : timerPage = timerIrqPage.toNat / 0x1000 := by decide
    have hframe :
        frameOf t.words (L.zoneRoot pid) timerPage = some (timerIrqPage.toNat / 0x1000) := by
      rw [hready.frameOf_child ht (.inr hmem) (by decide),
        hready.exact.peripheral _ hready.parent _ hmem, ← hpage]
    rw [hready.counter_child ht (.inr hmem) (by decide) hframe, ih,
      Finset.card_insert_of_notMem hchild.fresh, BitVec.ofNat_add]
    rfl

theorem ForkRun.counter_timer_ne {n : ℕ} (h : ForkRun L live s n) :
    getBindCounter s timerIrqPage ≠ 0 := by
  have hpositive : 0 < live.card := Finset.card_pos.mpr ⟨_, h.settled.kernelLive⟩
  have hle : live.card ≤ 32 := (Finset.card_le_univ _).trans (by rw [Fintype.card_fin])
  have hzero : (0 : BitVec 8).toNat = 0 := rfl
  rw [h.counter_timer]
  intro heq
  have hnat := congrArg BitVec.toNat heq
  rw [BitVec.toNat_ofNat, hzero] at hnat
  omega

end SysresOs.Mmu
