import SysresOs.Memory.Heap

/-!
# The heap as a tiling

`Tiled s bs` says that the heap of the state is filled by the blocks `bs`, with their headers linked
in this order. Each function of the allocator is described by what it does to the list of blocks:
marking a block (`setFree_spec`), splitting it (`splitBlock_spec`), merging it with its successor
(`mergeBlock_spec`), looking for the first that is large enough (`findFreeBlock_spec`) and appending
one (`extendHeap_spec`). They change the memory in headers only.
-/

set_option autoImplicit false
set_option relaxedAutoImplicit false

namespace SysresOs.Memory

open SysresOs.ByteMemory SysresOs.Outcome

/-- The blocks fill the heap of the state. -/
structure Tiled (s : AllocState) (bs : List Block) : Prop where
  aligned : 32 ∣ s.heapBegin
  positive : 0 < s.heapBegin
  base : s.globalBase = link 0 s.heapBegin bs
  chain : Chain (headerAt s.memory) 0 0 s.heapBegin bs
  break_eq : s.endOffset = span bs
  bound : s.heapBegin + span bs < 2 ^ 30
  sized : Sized bs

variable {s : AllocState} {l r bs : List Block} {b c : Block}

namespace Tiled

/-- Rewriting the headers of some of the blocks, and the link back from the block behind them. -/
theorem replace (mid mid' : List Block) (h : Tiled s (l ++ (mid ++ r))) (hmid : mid ≠ [])
    (hmid' : mid' ≠ []) (hspan : span mid' = span mid) (hsized : Sized mid') {x : ℕ}
    (hx : x = s.heapBegin + span l) {m : Memory} {t : List ℕ} (hsame : SameBut t s.memory m)
    (ht : ∀ c ∈ t, 32 ∣ c ∧ x ≤ c ∧ c ≤ x + span mid)
    (hnew : Chain (headerAt m) (link 0 (x + span mid) r) (lastStart 0 s.heapBegin l) x mid')
    (hhead : r ≠ [] → headerAt m (x + span mid) =
      { headerAt s.memory (x + span mid) with prev := lastStart 0 x mid' }) :
    Tiled { s with memory := m } (l ++ (mid' ++ r)) := by
  subst hx
  obtain ⟨hl, hsized'⟩ := sized_append.mp h.sized
  obtain ⟨hm, hr⟩ := sized_append.mp hsized'
  have hdvd : 32 ∣ s.heapBegin := h.aligned
  have hdvdl := hl.dvd_span
  have hdvdm := hm.dvd_span
  refine
    { aligned := h.aligned, positive := h.positive, base := ?_, chain := ?_, break_eq := ?_,
      bound := ?_, sized := ?_ }
  · rw [h.base, link, link, if_neg (by simp [hmid]), if_neg (by simp [hmid'])]
  · show Chain (headerAt m) 0 0 s.heapBegin (l ++ (mid' ++ r))
    refine h.chain.replace hmid hmid' hspan hr (fun c hc ↦ ?_) hnew hhead fun c hc hne ↦ ?_
    · have hbounds := starts_bounds hc
      refine hsame.header (starts_dvd hdvd hl hc) fun d hd ↦ ?_
      obtain ⟨hdvdd, hlow, -⟩ := ht d hd
      exact ⟨hdvdd, by omega⟩
    · have hbounds := starts_bounds hc
      refine hsame.header (starts_dvd (by omega) hr hc) fun d hd ↦ ?_
      obtain ⟨hdvdd, -, hhigh⟩ := ht d hd
      exact ⟨hdvdd, by omega⟩
  · rw [h.break_eq, span_append, span_append, span_append, span_append, hspan]
  · have hbound := h.bound
    simp only [span_append, hspan] at hbound ⊢
    exact hbound
  · exact sized_append.mpr ⟨hl, sized_append.mpr ⟨hsized, hr⟩⟩

/-- The header of one of the blocks. -/
theorem header (h : Tiled s (l ++ b :: r)) : headerAt s.memory (s.heapBegin + span l) =
    ⟨b.size, link 0 (s.heapBegin + span l + 32 + b.size) r, lastStart 0 s.heapBegin l,
    b.free.toNat⟩ := by
  obtain ⟨-, hright⟩ := chain_append.mp h.chain
  exact hright.1

theorem size_pos (h : Tiled s (l ++ b :: r)) : 0 < b.size ∧ 32 ∣ b.size :=
  h.sized b (by simp)

/-- The address of a block is a multiple of the size of a header. -/
theorem start_dvd (h : Tiled s (l ++ r)) : 32 ∣ s.heapBegin + span l := by
  have hdvd := h.aligned
  have hspan := (sized_append.mp h.sized).1.dvd_span
  omega

end Tiled

/-- Marking a block. -/
theorem setFree_spec (h : Tiled s (l ++ b :: r)) (free : Bool) :
    Tiled (s.setFree (s.heapBegin + span l) free.toNat) (l ++ ⟨b.size, free⟩ :: r) ∧
      SameBut (starts s.heapBegin (l ++ b :: r)) s.memory
        (s.setFree (s.heapBegin + span l) free.toNat).memory := by
  have hdvd := h.start_dvd
  have hpos := h.size_pos
  have hfree : free.toNat < 2 ^ 32 := by cases free <;> decide
  have hheader : ∀ a, 32 ∣ a → headerAt (s.setFree (s.heapBegin + span l) free.toNat).memory a =
      if a = s.heapBegin + span l then { headerAt s.memory a with free := free.toNat }
      else headerAt s.memory a := fun a ha ↦ AllocState.header_setFree ha hdvd hfree
  refine ⟨?_, AllocState.sameBut_setFree (by simp [starts_append, starts])⟩
  have hspan : span [b] = 32 + b.size := by simp
  refine Tiled.replace (t := [s.heapBegin + span l])
    (m := (s.setFree (s.heapBegin + span l) free.toNat).memory) [b] [⟨b.size, free⟩] h
    (List.cons_ne_nil _ _) (List.cons_ne_nil _ _) (by simp) ?_ rfl
    (AllocState.sameBut_setFree List.mem_cons_self) ?_ ?_ ?_
  · exact sized_cons.mpr ⟨hpos, List.forall_mem_nil _⟩
  · simp only [List.mem_singleton, forall_eq]
    exact ⟨hdvd, le_rfl, by omega⟩
  · refine ⟨?_, trivial⟩
    rw [hheader _ hdvd, if_pos rfl, h.header, hspan]
    simp [Nat.add_assoc]
  · intro hr
    obtain ⟨c, r, rfl⟩ := List.exists_cons_of_ne_nil hr
    have hnext : Tiled s ((l ++ [b]) ++ c :: r) := by simpa using h
    have hheaderc := hnext.header
    rw [span_append, ← Nat.add_assoc] at hheaderc
    rw [hheader _ (by omega), if_neg (by omega), hheaderc]
    simp [lastStart]

/-- Setting the link back of the block behind, if there is one. -/
def relinkHead (s : AllocState) (z x : ℕ) (r : List Block) : AllocState :=
  if r = [] then s else s.setPrev z x

theorem header_relinkHead {z x a : ℕ} (ha : 32 ∣ a) (hz : 32 ∣ z) (hx : x < 2 ^ 64) :
    headerAt (relinkHead s z x r).memory a =
      if a = z ∧ r ≠ [] then { headerAt s.memory a with prev := x } else headerAt s.memory a := by
  unfold relinkHead
  cases r with
  | nil => simp
  | cons c r => simp [AllocState.header_setPrev ha hz hx]

theorem sameBut_relinkHead {z x : ℕ} {t : List ℕ} (hz : r ≠ [] → z ∈ t) :
    SameBut t s.memory (relinkHead s z x r).memory := by
  unfold relinkHead
  split_ifs with hr
  · exact SameBut.refl t s.memory
  · exact AllocState.sameBut_setPrev (hz hr)

/-- What `mergeBlock` does to two headers that are linked to one another. -/
theorem mergeBlock_eq {x y z v size prev free : ℕ} (hx : 32 ∣ x) (hy : 32 ∣ y) (hz : 32 ∣ z)
    (hxy : x < y) (hyz : y < z) (hz64 : z < 2 ^ 64)
    (hheadx : headerAt s.memory x = ⟨size, y, prev, free⟩)
    (hheady : headerAt s.memory y = ⟨b.size, link 0 z r, x, 1⟩)
    (hv : v = size + 32 + b.size) (hv64 : v < 2 ^ 64) :
    mergeBlock s x = .ok ((relinkHead (s.setSize x v) z x r).setNext x (link 0 z r)) := by
  have h1 : ∀ a, 32 ∣ a → headerAt (s.setSize x v).memory a = _ := fun a ha ↦
    AllocState.header_setSize ha hx hv64
  have h2 : ∀ a, 32 ∣ a → headerAt (relinkHead (s.setSize x v) z x r).memory a = _ := fun a ha ↦
    header_relinkHead ha hz (by omega)
  have hadd : add64 size (add64 ablockSize b.size) = v := by
    unfold ablockSize
    rw [add64_eq (a := 32) (by omega), add64_eq (by omega)]
    omega
  have hnext1 : (s.setSize x v).next ((s.setSize x v).next x) = link 0 z r := by
    simp only [AllocState.next_eq, h1 x hx, if_true, hheadx, h1 y hy, if_neg hxy.ne', hheady]
  have hnext2 :
      (relinkHead (s.setSize x v) z x r).next ((relinkHead (s.setSize x v) z x r).next x) =
      link 0 z r := by
    simp only [AllocState.next_eq, h2 x hx, h1 x hx, (hxy.trans hyz).ne, false_and, if_false,
      if_true, hheadx, h2 y hy, h1 y hy, hyz.ne, if_neg hxy.ne', hheady]
  have hnext0 : s.next x = y := by rw [AllocState.next_eq, hheadx]
  have hfree0 : s.free y = 1 := by rw [AllocState.free_eq, hheady]
  have hprev0 : s.prev y = x := by rw [AllocState.prev_eq, hheady]
  have hsize0 : s.size x = size ∧ s.size y = b.size := by
    rw [AllocState.size_eq, AllocState.size_eq, hheadx, hheady]
    exact ⟨rfl, rfl⟩
  unfold mergeBlock
  rw [hnext0, hfree0, hprev0, hsize0.1, hsize0.2, hadd]
  simp only [hnext1]
  unfold relinkHead at hnext2 ⊢
  cases r with
  | nil =>
    simp only [link_nil, if_true] at hnext2 ⊢
    simp [assert, hnext2]
  | cons d r =>
    have hz0 : z ≠ 0 := by omega
    simp only [link_cons, if_neg (List.cons_ne_nil d r)] at hnext2 ⊢
    simp [assert, hnext2, hz0]

/-- Merging a block with its successor. -/
theorem mergeBlock_spec (h : Tiled s (l ++ b :: c :: r)) (hc : c.free = true) :
    ∃ m, mergeBlock s (s.heapBegin + span l) = .ok { s with memory := m } ∧
      Tiled { s with memory := m } (l ++ ⟨b.size + 32 + c.size, b.free⟩ :: r) ∧
      SameBut (starts s.heapBegin (l ++ b :: c :: r)) s.memory m := by
  obtain ⟨x, hx⟩ : ∃ x, x = s.heapBegin + span l := ⟨_, rfl⟩
  obtain ⟨y, hy⟩ : ∃ y, y = x + 32 + b.size := ⟨_, rfl⟩
  obtain ⟨z, hz⟩ : ∃ z, z = y + 32 + c.size := ⟨_, rfl⟩
  have hnext : Tiled s ((l ++ [b]) ++ c :: r) := by simpa using h
  have hbound := h.bound
  have hdvdx : 32 ∣ x := hx ▸ h.start_dvd
  have hposb := h.size_pos
  have hposc := hnext.size_pos
  have hpos := h.positive
  simp only [span_append, span_cons] at hbound
  have hheadx : headerAt s.memory x = ⟨b.size, y, lastStart 0 s.heapBegin l, b.free.toNat⟩ := by
    rw [hx, h.header, link_cons, hy, hx]
  have hheady : headerAt s.memory y = ⟨c.size, link 0 z r, x, 1⟩ := by
    have hheader := hnext.header
    have haddr : s.heapBegin + span (l ++ [b]) = y := by
      simp only [span_append, span_cons, span_nil]
      omega
    rw [haddr, lastStart_concat, ← hz, ← hx, hc] at hheader
    exact hheader
  have hlink64 : link 0 z r < 2 ^ 64 := by
    unfold link
    split_ifs <;> omega
  obtain ⟨s', hs'⟩ : ∃ s', s' = (relinkHead (s.setSize x (b.size + 32 + c.size)) z x r).setNext x
      (link 0 z r) := ⟨_, rfl⟩
  have hrun : mergeBlock s x = .ok s' := hs' ▸
    mergeBlock_eq hdvdx (by omega) (by omega) (by omega) (by omega) (by omega) hheadx
    hheady rfl (by omega)
  have hmem : s' = { s with memory := s'.memory } := by
    rw [hs', relinkHead]
    split_ifs <;> rfl
  have hsame : ∀ t : List ℕ, x ∈ t → (r ≠ [] → z ∈ t) → SameBut t s.memory s'.memory :=
    fun t hxt hzt ↦
    hs' ▸ (AllocState.sameBut_setSize hxt).trans
      ((sameBut_relinkHead hzt).trans (AllocState.sameBut_setNext hxt))
  have hheader : ∀ a, 32 ∣ a → headerAt s'.memory a =
      if a = x then ⟨b.size + 32 + c.size, link 0 z r, lastStart 0 s.heapBegin l, b.free.toNat⟩
      else if a = z ∧ r ≠ [] then { headerAt s.memory a with prev := x }
        else headerAt s.memory a := by
    intro a ha
    rw [hs', AllocState.header_setNext ha hdvdx hlink64, header_relinkHead ha (by omega) (by omega),
      AllocState.header_setSize ha hdvdx (by omega)]
    split_ifs with hax haz
    · omega
    · rw [hax, hheadx]
    · rfl
    · rfl
  have hspan : x + span [b, c] = z := by
    simp only [span_cons, span_nil]
    omega
  rw [← hx, hrun, hmem]
  refine ⟨s'.memory, rfl, ?_, hsame _ ?_ ?_⟩
  · refine Tiled.replace (t := [x, z]) [b, c] [⟨b.size + 32 + c.size, b.free⟩] h (by simp)
      (by simp) ?_ ?_ hx (hsame _ (by simp) (by simp)) ?_ ⟨?_, trivial⟩ fun hr ↦ ?_
    · simp only [span_cons, span_nil]
      omega
    · have hsize : 0 < b.size + 32 + c.size ∧ 32 ∣ b.size + 32 + c.size := by omega
      exact sized_cons.mpr ⟨hsize, List.forall_mem_nil _⟩
    · simp only [hspan, List.mem_cons, List.not_mem_nil, or_false, forall_eq_or_imp, forall_eq]
      exact ⟨⟨hdvdx, le_rfl, by omega⟩, by omega, by omega, le_rfl⟩
    · rw [hheader x hdvdx, if_pos rfl, hspan, link_nil]
    · rw [hspan, hheader z (by omega), if_neg (by omega), if_pos ⟨rfl, hr⟩]
      rfl
  · simp [starts_append, starts, hx]
  · intro hr
    obtain ⟨d, r, rfl⟩ := List.exists_cons_of_ne_nil hr
    simp [starts_append, starts, hx, hy, hz]

/-- The two headers of a block that is split, before the block behind is linked back. -/
def cutBlock (s : AllocState) (x n size rest next : ℕ) : AllocState :=
  (((((s.setFree n 1).setSize n rest).setSize x size).setPrev n x).setNext n next).setNext x n

theorem header_cutBlock {x n size rest next a : ℕ} (ha : 32 ∣ a) (hx : 32 ∣ x)
    (hn : 32 ∣ n) (hne : x ≠ n) (hx64 : x < 2 ^ 64) (hn64 : n < 2 ^ 64) (hsize : size < 2 ^ 64)
    (hrest : rest < 2 ^ 64) (hnext : next < 2 ^ 64) :
    headerAt (cutBlock s x n size rest next).memory a =
      if a = x then { headerAt s.memory a with size := size, next := n }
      else if a = n then ⟨rest, next, x, 1⟩ else headerAt s.memory a := by
  unfold cutBlock
  rw [AllocState.header_setNext ha hx hn64, AllocState.header_setNext ha hn hnext,
    AllocState.header_setPrev ha hn hx64, AllocState.header_setSize ha hx hsize,
    AllocState.header_setSize ha hn hrest, AllocState.header_setFree ha hn (by decide)]
  split_ifs with hax han
  · exact absurd (hax.symm.trans han) hne
  · rfl
  · rfl
  · rfl

theorem sameBut_cutBlock {x n size rest next : ℕ} {t : List ℕ} (hx : x ∈ t) (hn : n ∈ t) :
    SameBut t s.memory (cutBlock s x n size rest next).memory :=
  (AllocState.sameBut_setFree hn).trans <| (AllocState.sameBut_setSize hn).trans <|
    (AllocState.sameBut_setSize hx).trans <| (AllocState.sameBut_setPrev hn).trans <|
      (AllocState.sameBut_setNext hn).trans (AllocState.sameBut_setNext hx)

/-- What `splitBlock` does to the header of a block that is much larger than needed. -/
theorem splitBlock_eq {x n z size whole prev free : ℕ} (hx : 32 ∣ x) (hn : n = x + 32 + size)
    (hz : z = x + 32 + whole) (hsize : 32 ∣ size) (hwhole : size + 32 < whole) (hz64 : z < 2 ^ 64)
    (hheadx : headerAt s.memory x = ⟨whole, link 0 z r, prev, free⟩) :
    splitBlock s x size =
      .ok (relinkHead (cutBlock s x n size (whole - size - 32) (link 0 z r)) z n r) := by
  have hlink : link 0 z r < 2 ^ 64 := by
    unfold link
    split_ifs <;> omega
  have hcut : ∀ a, 32 ∣ a →
      headerAt (cutBlock s x n size (whole - size - 32) (link 0 z r)).memory a = _ := fun a ha ↦
    header_cutBlock ha hx (by omega) (by omega) (by omega) (by omega) (by omega) (by omega) hlink
  have hnext : (cutBlock s x n size (whole - size - 32) (link 0 z r)).next n = link 0 z r := by
    rw [AllocState.next_eq, hcut n (by omega), if_neg (by omega), if_pos rfl]
  have hsize0 : s.size x = whole := by rw [AllocState.size_eq, hheadx]
  have hsize1 : (s.setFree n 1).size x = whole := by
    rw [AllocState.size_eq, AllocState.header_setFree hx (by omega) (by decide),
      if_neg (by omega), hheadx]
  have hnext4 :
      ((((s.setFree n 1).setSize n (whole - size - 32)).setSize x size).setPrev n x).next x =
      link 0 z r := by
    rw [AllocState.next_eq, AllocState.header_setPrev hx (by omega) (by omega), if_neg (by omega),
      AllocState.header_setSize hx hx (by omega), if_pos rfl,
      AllocState.header_setSize hx (by omega) (by omega), if_neg (by omega),
      AllocState.header_setFree hx (by omega) (by decide), if_neg (by omega), hheadx]
  have hnew : add64 (add64 x ablockSize) size = n := by
    unfold ablockSize
    rw [add64_eq (b := 32) (by omega), add64_eq (by omega), hn]
  have hrest : sub64 (sub64 whole size) ablockSize = whole - size - 32 := by
    unfold ablockSize
    rw [sub64_eq (a := whole) (by omega) (by omega), sub64_eq (by omega) (by omega)]
  have hlarge : add64 size ablockSize < whole := by
    unfold ablockSize
    rw [add64_eq (by omega)]
    exact hwhole
  unfold splitBlock
  rw [hsize0, if_pos hlarge, hnew]
  simp only [hsize1, hrest, hnext4]
  unfold cutBlock at hnext
  simp only [hnext]
  unfold relinkHead cutBlock
  cases r with
  | nil => simp [assert, show size ≤ whole by omega]
  | cons d r => simp [assert, show size ≤ whole by omega, show z ≠ 0 by omega]

/-- Splitting a block that is much larger than needed. -/
theorem splitBlock_spec {size : ℕ} (h : Tiled s (l ++ b :: r)) (hpos : 0 < size) (hdvd : 32 ∣ size)
    (hlarge : size + 32 < b.size) :
    ∃ m, splitBlock s (s.heapBegin + span l) size = .ok { s with memory := m } ∧
      Tiled { s with memory := m } (l ++ ⟨size, b.free⟩ :: ⟨b.size - size - 32, true⟩ :: r) ∧
      SameBut (starts s.heapBegin (l ++ ⟨size, b.free⟩ :: ⟨b.size - size - 32, true⟩ :: r))
      s.memory m := by
  obtain ⟨x, hx⟩ : ∃ x, x = s.heapBegin + span l := ⟨_, rfl⟩
  obtain ⟨n, hn⟩ : ∃ n, n = x + 32 + size := ⟨_, rfl⟩
  obtain ⟨z, hz⟩ : ∃ z, z = x + 32 + b.size := ⟨_, rfl⟩
  have hbound := h.bound
  have hdvdx : 32 ∣ x := hx ▸ h.start_dvd
  have hposb := h.size_pos
  have hposx := h.positive
  simp only [span_append, span_cons] at hbound
  have hheadx : headerAt s.memory x =
      ⟨b.size, link 0 z r, lastStart 0 s.heapBegin l, b.free.toNat⟩ := by
    rw [hx, h.header, hz, hx]
  have hlink64 : link 0 z r < 2 ^ 64 := by
    unfold link
    split_ifs <;> omega
  obtain ⟨s', hs'⟩ :
      ∃ s', s' = relinkHead (cutBlock s x n size (b.size - size - 32) (link 0 z r)) z n r :=
    ⟨_, rfl⟩
  have hrun : splitBlock s x size = .ok s' := hs' ▸
    splitBlock_eq hdvdx hn hz hdvd hlarge (by omega) hheadx
  have hmem : s' = { s with memory := s'.memory } := by
    rw [hs', relinkHead]
    split_ifs <;> rfl
  have hsame : ∀ t : List ℕ, x ∈ t → n ∈ t → (r ≠ [] → z ∈ t) → SameBut t s.memory s'.memory :=
    fun t hxt hnt hzt ↦ hs' ▸ (sameBut_cutBlock hxt hnt).trans (sameBut_relinkHead hzt)
  have hheader : ∀ a, 32 ∣ a → headerAt s'.memory a =
      if a = x then ⟨size, n, lastStart 0 s.heapBegin l, b.free.toNat⟩
      else if a = n then ⟨b.size - size - 32, link 0 z r, x, 1⟩
      else if a = z ∧ r ≠ [] then { headerAt s.memory a with prev := n }
        else headerAt s.memory a := by
    intro a ha
    rw [hs', header_relinkHead ha (by omega) (by omega),
      header_cutBlock ha hdvdx (by omega) (by omega)
      (by omega) (by omega) (by omega) (by omega) hlink64]
    split_ifs with haz hax han hax han
    · omega
    · omega
    · rfl
    · rw [hax, hheadx]
    · rfl
    · rfl
  have hspan : x + span [b] = z := by
    simp only [span_cons, span_nil]
    omega
  rw [← hx, hrun, hmem]
  refine ⟨s'.memory, rfl, ?_, hsame _ ?_ ?_ ?_⟩
  · refine Tiled.replace (t := [x, n, z]) [b] [⟨size, b.free⟩,
      ⟨b.size - size - 32, true⟩] h (by simp) (by simp) ?_ ?_ hx
      (hsame _ (by simp) (by simp) (by simp)) ?_ ⟨?_, ?_, trivial⟩ fun hr ↦ ?_
    · simp only [span_cons, span_nil]
      omega
    · have hrest : 0 < b.size - size - 32 ∧ 32 ∣ b.size - size - 32 := by omega
      exact sized_cons.mpr ⟨⟨hpos, hdvd⟩, sized_cons.mpr ⟨hrest, List.forall_mem_nil _⟩⟩
    · simp only [hspan, List.mem_cons, List.not_mem_nil, or_false, forall_eq_or_imp, forall_eq]
      exact ⟨⟨hdvdx, le_rfl, by omega⟩, ⟨by omega, by omega, by omega⟩, by omega, by omega, le_rfl⟩
    · rw [hheader x hdvdx, if_pos rfl, link_cons, hn]
    · show headerAt s'.memory (x + 32 + size) = _
      rw [← hn, hheader n (by omega), if_neg (by omega), if_pos rfl, hspan]
      rfl
    · rw [hspan, hheader z (by omega), if_neg (by omega), if_neg (by omega), if_pos ⟨rfl, hr⟩]
      show _ = { headerAt s.memory z with prev := x + 32 + size }
      rw [hn]
  · simp [starts_append, starts, hx]
  · simp [starts_append, starts, hx, hn]
  · intro hr
    obtain ⟨d, r, rfl⟩ := List.exists_cons_of_ne_nil hr
    have haddr : z = s.heapBegin + span l + 32 + size + 32 + (b.size - size - 32) := by omega
    simp [starts_append, starts, haddr]

/-- A block that is not much larger than needed is not split. -/
theorem splitBlock_small {x size : ℕ} (hle : size ≤ s.size x)
    (hsmall : ¬ add64 size ablockSize < s.size x) : splitBlock s x size = .ok s := by
  unfold splitBlock
  rw [if_neg hsmall]
  simp [assert, hle]

/-- A block that a request can get. -/
def Fits (size : ℕ) (b : Block) : Prop := b.free = true ∧ size ≤ b.size

instance (size : ℕ) (b : Block) : Decidable (Fits size b) :=
  inferInstanceAs (Decidable (_ ∧ _))

/-- The search from one of the blocks on: it ends at the first block that fits, or behind the
last. -/
theorem findFreeBlock_spec (size last : ℕ) {bound : ℕ} (h : Tiled s (l ++ r))
    (hbound : r.length < bound) :
    ((∀ b ∈ r, ¬ Fits size b) ∧ findFreeBlock s size bound last (link 0 (s.heapBegin + span l) r) =
        .ok (lastStart last (s.heapBegin + span l) r, 0)) ∨
      ∃ u b v, r = u ++ b :: v ∧ Fits size b ∧
        findFreeBlock s size bound last (link 0 (s.heapBegin + span l) r) =
          .ok (lastStart last (s.heapBegin + span l) u, s.heapBegin + span (l ++ u)) := by
  induction r generalizing l bound last with
  | nil =>
    obtain ⟨bound, rfl⟩ : ∃ k, bound = k + 1 := ⟨bound - 1, by simp at hbound; omega⟩
    refine Or.inl ⟨List.forall_mem_nil _, ?_⟩
    rw [link_nil, findFreeBlock, if_neg (by simp)]
    rfl
  | cons b r ih =>
    obtain ⟨bound, rfl⟩ : ∃ k, bound = k + 1 := ⟨bound - 1, by simp at hbound; omega⟩
    have hpos := h.positive
    have haddr : s.heapBegin + span (l ++ [b]) = s.heapBegin + span l + 32 + b.size := by
      rw [span_append, span_cons, span_nil]
      omega
    have hcond : s.free (s.heapBegin + span l) ≠ 0 ∧ size ≤ s.size (s.heapBegin + span l) ↔
        Fits size b := by
      rw [AllocState.free_eq, AllocState.size_eq, h.header, Fits]
      cases b.free <;> simp
    have hnext : s.next (s.heapBegin + span l) = link 0 (s.heapBegin + span (l ++ [b])) r := by
      rw [AllocState.next_eq, h.header, haddr]
    rw [link_cons, findFreeBlock]
    by_cases hfits : Fits size b
    · refine Or.inr ⟨[], b, r, rfl, hfits, ?_⟩
      rw [if_neg fun hgo ↦ hgo.2 (hcond.mpr hfits), List.append_nil]
      rfl
    · have hrest : Tiled s ((l ++ [b]) ++ r) := by simpa using h
      rw [if_pos ⟨by omega, fun hstop ↦ hfits (hcond.mp hstop)⟩, hnext]
      rcases ih (s.heapBegin + span l) hrest (Nat.lt_of_succ_lt_succ hbound) with
        ⟨hnone, hrun⟩ | ⟨u, c, v, rfl, hc, hrun⟩
      · refine Or.inl ⟨List.forall_mem_cons.mpr ⟨hfits, hnone⟩, ?_⟩
        rw [hrun, haddr]
        rfl
      · refine Or.inr ⟨b :: u, c, v, rfl, hc, ?_⟩
        rw [hrun, haddr, List.append_assoc]
        rfl

/-! ### The end of the heap -/

/-- `ksbrk` when the break is not moved down. -/
theorem ksbrk_grow (h : Tiled s bs) {increment : ℤ} (hinc : 0 ≤ increment) :
    ksbrk s increment =
      if heapMax < toInt32 ((s.heapBegin + span bs : ℕ) + increment)
        then .error (.assertion .heapOverflow)
      else .ok ({ s with endOffset := toInt32 (span bs + increment) }, s.heapBegin + span bs) := by
  have hbound := h.bound
  have hres : toInt32 (s.endOffset + s.heapBegin) = (s.heapBegin + span bs : ℕ) := by
    rw [h.break_eq, toInt32_eq (by omega) (by omega)]
    omega
  unfold ksbrk
  simp only [hres, gt_iff_lt, if_neg (not_lt.mpr hinc)]
  rw [ofInt32_natCast (by omega), h.break_eq]

/-- `ksbrk(0)` returns the end of the heap. -/
theorem ksbrk_zero (h : Tiled s bs) : ksbrk s 0 =
    if heapMax < (s.heapBegin + span bs : ℕ) then .error (.assertion .heapOverflow)
    else .ok (s, s.heapBegin + span bs) := by
  have hbound := h.bound
  rw [ksbrk_grow h le_rfl, add_zero, add_zero, toInt32_eq (by omega) (by omega),
    toInt32_eq (by omega) (by omega), ← h.break_eq]

/-- Linking a new block at the end to the last one. -/
def linkLast (s : AllocState) (last block : ℕ) : AllocState :=
  if last ≠ 0 then ((s.setPrev block 0).setNext last block).setPrev block last
    else s.setPrev block 0

/-- The headers that `extendHeap` writes for a new block at the end. -/
def appendBlock (s : AllocState) (last block size : ℕ) : AllocState :=
  (((linkLast s last block).setSize block size).setNext block 0).setFree block 0

theorem header_linkLast {last block a : ℕ} (ha : 32 ∣ a) (hlast : 32 ∣ last) (hblock : 32 ∣ block)
    (hne : last ≠ block) (hlast64 : last < 2 ^ 64) (hblock64 : block < 2 ^ 64) :
    headerAt (linkLast s last block).memory a =
      if a = block then { headerAt s.memory a with prev := last }
      else if a = last ∧ last ≠ 0 then { headerAt s.memory a with next := block }
        else headerAt s.memory a := by
  unfold linkLast
  by_cases h0 : last = 0
  · rw [if_neg (not_not.mpr h0), AllocState.header_setPrev ha hblock (by decide)]
    simp only [h0, ne_eq, not_true_eq_false, and_false, if_false]
  · rw [if_pos h0, AllocState.header_setPrev ha hblock hlast64,
      AllocState.header_setNext ha hlast hblock64, AllocState.header_setPrev ha hblock (by decide)]
    simp only [h0, ne_eq, not_false_eq_true, and_true]
    split_ifs with hb hl
    · exact absurd (hl.symm.trans hb) hne
    · rfl
    · rfl
    · rfl

theorem header_appendBlock {last block size a : ℕ} (ha : 32 ∣ a) (hlast : 32 ∣ last)
    (hblock : 32 ∣ block) (hne : last ≠ block) (hlast64 : last < 2 ^ 64) (hblock64 : block < 2 ^ 64)
    (hsize : size < 2 ^ 64) : headerAt (appendBlock s last block size).memory a =
      if a = block then ⟨size, 0, last, 0⟩
      else if a = last ∧ last ≠ 0 then { headerAt s.memory a with next := block }
        else headerAt s.memory a := by
  unfold appendBlock
  rw [AllocState.header_setFree ha hblock (by decide),
    AllocState.header_setNext ha hblock (by decide),
    AllocState.header_setSize ha hblock hsize, header_linkLast ha hlast hblock hne hlast64 hblock64]
  split_ifs <;> rfl

theorem sameBut_appendBlock {last block size : ℕ} {t : List ℕ} (hlast : last ≠ 0 → last ∈ t)
    (hblock : block ∈ t) : SameBut t s.memory (appendBlock s last block size).memory := by
  have hlink : SameBut t s.memory (linkLast s last block).memory := by
    unfold linkLast
    split_ifs with h0
    · exact (AllocState.sameBut_setPrev hblock).trans
        ((AllocState.sameBut_setNext (hlast h0)).trans (AllocState.sameBut_setPrev hblock))
    · exact AllocState.sameBut_setPrev hblock
  exact hlink.trans ((AllocState.sameBut_setSize hblock).trans
    ((AllocState.sameBut_setNext hblock).trans (AllocState.sameBut_setFree hblock)))

/-- The new headers are all that `appendBlock` changes. -/
theorem appendBlock_memory {last block size : ℕ} :
    appendBlock s last block size = { s with
      memory := (appendBlock s last block size).memory } := by
  unfold appendBlock linkLast
  split_ifs <;> rfl

theorem appendBlock_fields (s : AllocState) (last block size : ℕ) :
    (appendBlock s last block size).heapBegin = s.heapBegin ∧
      (appendBlock s last block size).endOffset = s.endOffset := by
  rw [appendBlock_memory]
  exact ⟨rfl, rfl⟩

/-- The last block of the heap is linked to nothing behind it. -/
theorem Tiled.next_last (h : Tiled s bs) (hbs : bs ≠ []) :
    s.next (lastStart 0 s.heapBegin bs) = 0 := by
  obtain ⟨l, b, rfl⟩ := (List.eq_nil_or_concat' bs).resolve_left hbs
  rw [lastStart_concat, AllocState.next_eq, h.header]
  rfl

theorem Tiled.last_dvd (h : Tiled s bs) : 32 ∣ lastStart 0 s.heapBegin bs := by
  rcases List.eq_nil_or_concat' bs with rfl | ⟨l, b, rfl⟩
  · exact dvd_zero 32
  · rw [lastStart_concat]
    exact h.start_dvd

/-- What `extendHeap` does when the break is not moved down, whatever the size. -/
theorem extendHeap_eq (h : Tiled s bs) {size : ℕ} {increment : ℤ}
    (hincrement : toInt32 (add64 size ablockSize) = increment) (hpos : 0 ≤ increment) :
    extendHeap s (lastStart 0 s.heapBegin bs) size =
      if heapMax < (s.heapBegin + span bs : ℕ) ∨
        heapMax < toInt32 ((s.heapBegin + span bs : ℕ) + increment)
      then .error (.assertion .heapOverflow)
      else .ok (appendBlock { s with endOffset := toInt32 (span bs + increment) }
        (lastStart 0 s.heapBegin bs) (s.heapBegin + span bs) size, s.heapBegin + span bs) := by
  have hbound := h.bound
  have hpos0 := h.positive
  have hlast : lastStart 0 s.heapBegin bs = 0 ∨ lastStart 0 s.heapBegin bs ≠ 0 ∧
      s.next (lastStart 0 s.heapBegin bs) = 0 ∧
      lastStart 0 s.heapBegin bs + 32 ≤ s.heapBegin + span bs := by
    rcases eq_or_ne bs [] with rfl | hbs
    · exact Or.inl rfl
    · have hbounds := lastStart_bounds 0 s.heapBegin hbs
      exact Or.inr ⟨by omega, h.next_last hbs, hbounds.2⟩
  obtain ⟨last, hlasteq⟩ : ∃ last, last = lastStart 0 s.heapBegin bs := ⟨_, rfl⟩
  obtain ⟨block, hblock⟩ : ∃ block, block = s.heapBegin + span bs := ⟨_, rfl⟩
  have hdvd : 32 ∣ last := hlasteq ▸ h.last_dvd
  have hdvdb : 32 ∣ block := by
    have ha := h.aligned
    have hs := h.sized.dvd_span
    omega
  rw [← hlasteq, ← hblock] at hlast ⊢
  unfold extendHeap
  rw [ksbrk_zero h, hincrement, ← hblock]
  rw [assert_pos hpos0, ok_bind]
  by_cases hmax : heapMax < (block : ℤ)
  · rw [if_pos hmax, if_pos (Or.inl hmax), error_bind]
  rw [if_neg hmax, ok_bind]
  dsimp only
  rw [ksbrk_grow h hpos, ← hblock]
  by_cases hmax' : heapMax < toInt32 (block + increment)
  · rw [if_pos hmax', if_pos (Or.inr hmax'), error_bind]
  rw [if_neg hmax', if_neg (not_or.mpr ⟨hmax, hmax'⟩), ok_bind]
  dsimp only
  have hne : ¬ block = 2 ^ 64 - 1 := by omega
  rw [assert_pos rfl, ok_bind, if_neg hne]
  have hadd : add64 last ablockSize ≤ block := by
    unfold ablockSize
    rw [add64_eq (by omega)]
    omega
  rcases hlast with hlast | ⟨hlast, hnext, hle⟩
  · rw [if_neg (by omega), ok_bind]
    rw [assert_pos hadd, ok_bind, appendBlock, linkLast, if_neg (by omega)]
  · have hlastNext : ({ s with endOffset := toInt32 (span bs + increment) }.setPrev block 0).next
        last = 0 := by
      rw [AllocState.next_eq, AllocState.header_setPrev hdvd hdvdb (by decide), if_neg (by omega)]
      exact hnext
    rw [if_pos hlast, assert_pos hlastNext, ok_bind, ok_bind]
    rw [assert_pos hadd, ok_bind, appendBlock, linkLast, if_pos hlast]

/-- Appending a block. -/
theorem extendHeap_spec (h : Tiled s bs) {size : ℕ} (hpos : 0 < size) (hdvd : 32 ∣ size)
    (hsize : size + 32 ≤ 2 ^ 30) :
    Yields (extendHeap s (lastStart 0 s.heapBegin bs) size) fun r ↦
      r.2 = s.heapBegin + span bs ∧ ∃ m e, r.1 = { s with memory := m, endOffset := e } ∧
        Tiled { r.1 with globalBase := s.heapBegin } (bs ++ [⟨size, false⟩]) ∧
        SameBut (starts s.heapBegin (bs ++ [⟨size, false⟩])) s.memory m := by
  have hbound := h.bound
  have hpos0 := h.positive
  have hadd : toInt32 (add64 size ablockSize) = (size + 32 : ℕ) := by
    unfold ablockSize
    rw [add64_eq (by omega), toInt32_eq (by omega) (by omega)]
  rw [extendHeap_eq h hadd (by omega)]
  refine Yields.ite (fun _ ↦ Yields.error) fun hmax ↦ Yields.ok ?_
  have hmax' := not_or.mp hmax
  rw [toInt32_eq (by omega) (by omega)] at hmax'
  have hend : toInt32 (span bs + (size + 32 : ℕ)) = (span bs + (size + 32) : ℕ) := by
    rw [toInt32_eq (by omega) (by omega)]
    rfl
  have hheapMax : heapMax = 0x3f00b000 := rfl
  have hdvdb : 32 ∣ s.heapBegin + span bs := by
    have ha := h.aligned
    have hs := h.sized.dvd_span
    omega
  have hlast : lastStart 0 s.heapBegin bs < s.heapBegin + span bs := by
    rcases eq_or_ne bs [] with rfl | hbs
    · exact Nat.lt_of_lt_of_le hpos0 (Nat.le_add_right _ _)
    · have hbounds := lastStart_bounds 0 s.heapBegin hbs
      omega
  obtain ⟨s', hs'⟩ : ∃ s', s' = appendBlock { s with endOffset := (span bs + (size + 32) : ℕ) }
      (lastStart 0 s.heapBegin bs) (s.heapBegin + span bs) size := ⟨_, rfl⟩
  have hheader : ∀ a, 32 ∣ a → headerAt s'.memory a = _ := fun a ha ↦
    hs' ▸ header_appendBlock ha h.last_dvd hdvdb hlast.ne (by omega) (by omega) (by omega)
  have hmem : s' = { s with memory := s'.memory, endOffset := (span bs + (size + 32) : ℕ) } := by
    rw [hs']
    exact appendBlock_memory
  rw [hend, ← hs']
  have hnew : headerAt s'.memory (s.heapBegin + span bs) =
      ⟨size, 0, lastStart 0 s.heapBegin bs, 0⟩ := by
    rw [hheader _ hdvdb, if_pos rfl]
  have hchain : Chain (headerAt s'.memory) (s.heapBegin + span bs) 0 s.heapBegin bs := by
    rcases List.eq_nil_or_concat' bs with rfl | ⟨l, b, rfl⟩
    · trivial
    have hdvdl := h.start_dvd
    have hl := (sized_append.mp h.sized).1
    simp only [lastStart_concat] at hheader hlast
    rw [chain_append]
    refine ⟨(chain_append.mp h.chain).1.congr fun c hc ↦ ?_, ?_, trivial⟩
    · have hbounds := starts_bounds hc
      simp only [span_append, span_cons] at hheader
      rw [hheader c (starts_dvd h.aligned hl hc), if_neg (by omega), if_neg (by omega)]
    · rw [hheader _ hdvdl, if_neg hlast.ne, if_pos ⟨rfl, by omega⟩, h.header, link_nil, link_nil]
  refine ⟨rfl, s'.memory, _, hmem, ?_, ?_⟩
  · rw [hmem]
    exact { aligned := h.aligned
            positive := hpos0
            base := by rw [link, if_neg (by simp)]
            chain := chain_append.mpr ⟨hchain, hnew, trivial⟩
            break_eq := by simp [Nat.add_comm]
            bound := by simp only [span_append, span_cons, span_nil]; omega
            sized :=
              sized_append.mpr ⟨h.sized, sized_cons.mpr ⟨⟨hpos, hdvd⟩, List.forall_mem_nil _⟩⟩ }
  · rw [hs']
    refine sameBut_appendBlock (s := { s with endOffset := _ }) (fun h0 ↦ ?_) ?_
    · rcases List.eq_nil_or_concat' bs with rfl | ⟨l, b, rfl⟩
      · exact absurd rfl h0
      · simp [starts_append, starts]
    · simp [starts_append, starts]

end SysresOs.Memory
