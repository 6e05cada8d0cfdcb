import Mathlib.Data.List.Chain
import Mathlib.Tactic.Ring

/-!
# Blocks side by side

The heap is a sequence of blocks, each with its header in front of it, that fill a range of
addresses without a gap. Their headers are the nodes of a doubly linked list (`Chain`). The order of
the links is the order of the addresses, so that a chain of `l ++ r` is a chain of `l` whose last
link leads to the chain of `r` (`chain_append`), and a change of headers in one part leaves the
other part alone (`Chain.congr`).

What the users of the heap see is the map `used` from the pointers that are allocated to the sizes
of their blocks.
-/

set_option autoImplicit false
set_option relaxedAutoImplicit false

namespace SysresOs.Memory

/-- `struct alloc_block`. -/
@[ext] structure Header where
  size : ℕ
  next : ℕ
  prev : ℕ
  free : ℕ

/-- A block: the size of its payload, and whether it is free. -/
structure Block where
  size : ℕ
  free : Bool
  deriving DecidableEq

/-- The bytes that blocks take, with their headers. -/
def span : List Block → ℕ
  | [] => 0
  | b :: bs => 32 + b.size + span bs

/-- The address of the last of the blocks from `a` on, or `prev` if there is none. -/
def lastStart : ℕ → ℕ → List Block → ℕ
  | prev, _, [] => prev
  | _, a, b :: bs => lastStart a (a + 32 + b.size) bs

/-- The link to the blocks from `a` on, or `stop` if there are none. -/
def link (stop a : ℕ) (bs : List Block) : ℕ := if bs = [] then stop else a

/-- The headers of the blocks from `a` on are a doubly linked list, after a block at `prev` and
before one at `stop`. -/
def Chain (H : ℕ → Header) (stop : ℕ) : ℕ → ℕ → List Block → Prop
  | _, _, [] => True
  | prev, a, b :: bs =>
    H a = ⟨b.size, link stop (a + 32 + b.size) bs, prev, b.free.toNat⟩ ∧
      Chain H stop a (a + 32 + b.size) bs

/-- The payloads are not empty, and they are multiples of the size of a header. -/
def Sized (bs : List Block) : Prop := ∀ b ∈ bs, 0 < b.size ∧ 32 ∣ b.size

/-- No two neighbours are both free. -/
def Coalesced (bs : List Block) : Prop := bs.IsChain fun b c ↦ ¬ (b.free = true ∧ c.free = true)

/-- The addresses of the headers of the blocks from `a` on. -/
def starts : ℕ → List Block → List ℕ
  | _, [] => []
  | a, b :: bs => a :: starts (a + 32 + b.size) bs

/-- The map from the pointers to the payloads of the blocks that are not free to their sizes. -/
def used : ℕ → List Block → ℕ → Option ℕ
  | _, [], _ => none
  | a, b :: bs, p =>
    if p = a + 32 ∧ b.free = false then some b.size else used (a + 32 + b.size) bs p

/-! ### Sizes and addresses -/

@[simp] theorem span_nil : span [] = 0 := rfl

@[simp] theorem span_cons (b : Block) (bs : List Block) :
    span (b :: bs) = 32 + b.size + span bs := rfl

@[simp] theorem span_append (l r : List Block) : span (l ++ r) = span l + span r := by
  induction l with
  | nil => simp
  | cons b l ih =>
    simp only [List.cons_append, span_cons, ih]
    omega

@[simp] theorem link_nil (stop a : ℕ) : link stop a [] = stop := rfl

@[simp] theorem link_cons (stop a : ℕ) (b : Block) (bs : List Block) :
    link stop a (b :: bs) = a := rfl

theorem link_append (stop a : ℕ) (l r : List Block) :
    link stop a (l ++ r) = link (link stop (a + span l) r) a l := by
  cases l with
  | nil => simp
  | cons b l => rfl

theorem lastStart_append (prev a : ℕ) (l r : List Block) :
    lastStart prev a (l ++ r) = lastStart (lastStart prev a l) (a + span l) r := by
  induction l generalizing prev a with
  | nil => rfl
  | cons b l ih =>
    show lastStart a (a + 32 + b.size) (l ++ r) = _
    rw [ih, span_cons, show a + 32 + b.size + span l = a + (32 + b.size + span l) by omega]
    rfl

@[simp] theorem lastStart_concat (prev a : ℕ) (l : List Block) (b : Block) :
    lastStart prev a (l ++ [b]) = a + span l := by
  rw [lastStart_append]
  rfl

theorem Sized.dvd_span {bs : List Block} (h : Sized bs) : 32 ∣ span bs := by
  induction bs with
  | nil => exact dvd_zero 32
  | cons b bs ih =>
    have hb := (h b List.mem_cons_self).2
    have hbs := ih fun c hc ↦ h c (List.mem_cons_of_mem b hc)
    rw [span_cons]
    omega

theorem sized_append {l r : List Block} : Sized (l ++ r) ↔ Sized l ∧ Sized r :=
  List.forall_mem_append

theorem sized_cons {b : Block} {bs : List Block} :
    Sized (b :: bs) ↔ (0 < b.size ∧ 32 ∣ b.size) ∧ Sized bs := List.forall_mem_cons

theorem length_le_span (bs : List Block) : bs.length ≤ span bs := by
  induction bs with
  | nil => exact le_rfl
  | cons b bs ih =>
    rw [List.length_cons, span_cons]
    omega

/-- The last of the blocks is one of them, and nothing is behind it. -/
theorem lastStart_bounds (prev a : ℕ) {bs : List Block} (h : bs ≠ []) :
    a ≤ lastStart prev a bs ∧ lastStart prev a bs + 32 ≤ a + span bs := by
  obtain ⟨l, b, rfl⟩ := (List.eq_nil_or_concat' bs).resolve_left h
  rw [lastStart_concat, span_append, span_cons]
  omega

/-! ### Chains -/

variable {H H' : ℕ → Header} {stop prev a : ℕ} {l r bs : List Block} {b : Block}

/-- The seam of a chain. -/
theorem chain_append : Chain H stop prev a (l ++ r) ↔
    Chain H (link stop (a + span l) r) prev a l ∧ Chain H stop (lastStart prev a l)
    (a + span l) r := by
  induction l generalizing prev a with
  | nil => simp [Chain, lastStart]
  | cons b l ih =>
    have hadd : a + 32 + b.size + span l = a + span (b :: l) := by
      rw [span_cons]
      omega
    simp only [List.cons_append, Chain, ih, link_append, hadd, lastStart, and_assoc]

/-- A chain depends on the headers of its blocks only. -/
theorem Chain.congr (h : Chain H stop prev a bs) (hbs : ∀ c ∈ starts a bs, H' c = H c) :
    Chain H' stop prev a bs := by
  induction bs generalizing prev a with
  | nil => trivial
  | cons b bs ih =>
    refine ⟨(hbs a List.mem_cons_self).trans h.1, ih h.2 fun c hc ↦ ?_⟩
    exact hbs c (List.mem_cons_of_mem a hc)

/-- The headers determine the blocks. -/
theorem Chain.unique (ha : 0 < a) (h : Chain H 0 prev a bs) {bs' : List Block}
    (h' : Chain H 0 prev a bs') (hlink : link 0 a bs = link 0 a bs') : bs = bs' := by
  induction bs generalizing prev a bs' with
  | nil =>
    cases bs' with
    | nil => rfl
    | cons b' bs' =>
      rw [link_nil, link_cons] at hlink
      omega
  | cons b bs ih =>
    cases bs' with
    | nil =>
      rw [link_nil, link_cons] at hlink
      omega
    | cons b' bs' =>
      obtain ⟨hhead, htail⟩ := h
      obtain ⟨hhead', htail'⟩ := h'
      obtain ⟨hsize, hnext, -, hfree⟩ := Header.mk.inj (hhead.symm.trans hhead')
      have hb : b = b' := by
        obtain ⟨size, free⟩ := b
        obtain ⟨size', free'⟩ := b'
        obtain rfl : size = size' := hsize
        cases free <;> cases free' <;> first | rfl | cases hfree
      subst hb
      rw [ih (by omega) htail htail' hnext]

/-- The headers are between the beginning and the end. -/
theorem starts_bounds {c : ℕ} (hc : c ∈ starts a bs) : a ≤ c ∧ c + 32 ≤ a + span bs := by
  induction bs generalizing a with
  | nil => cases hc
  | cons b bs ih =>
    rw [span_cons]
    rcases List.mem_cons.mp hc with rfl | hc
    · omega
    · have hrest := ih hc
      omega

theorem starts_dvd {c : ℕ} (ha : 32 ∣ a) (hbs : Sized bs) (hc : c ∈ starts a bs) : 32 ∣ c := by
  induction bs generalizing a with
  | nil => cases hc
  | cons b bs ih =>
    obtain ⟨⟨-, hdvd⟩, hrest⟩ := sized_cons.mp hbs
    rcases List.mem_cons.mp hc with rfl | hc
    · exact ha
    · exact ih (by omega) hrest hc

theorem starts_append (a : ℕ) (l r : List Block) :
    starts a (l ++ r) = starts a l ++ starts (a + span l) r := by
  induction l generalizing a with
  | nil => rfl
  | cons b l ih =>
    rw [List.cons_append, starts, ih, span_cons,
      show a + 32 + b.size + span l = a + (32 + b.size + span l) by omega]
    rfl

/-- A header that is changed in its link back only. -/
theorem Chain.relink {q : ℕ} (h : Chain H stop prev a bs) (hbs : Sized bs)
    (hhead : bs ≠ [] → H' a = { H a with prev := q })
    (hrest : ∀ c ∈ starts a bs, c ≠ a → H' c = H c) : Chain H' stop q a bs := by
  cases bs with
  | nil => trivial
  | cons b bs =>
    obtain ⟨hfirst, hlater⟩ := h
    refine ⟨?_, hlater.congr fun c hc ↦ ?_⟩
    · rw [hhead (List.cons_ne_nil b bs), hfirst]
    · have hlow := (starts_bounds hc).1
      exact hrest c (List.mem_cons_of_mem a hc) (by omega)

/-- Putting other blocks of the same extent in the middle of a chain: the blocks before keep their
headers, and the first block behind is linked back to the last of the new blocks. -/
theorem Chain.replace {mid mid' : List Block} (hmid : mid ≠ []) (hmid' : mid' ≠ [])
    (hspan : span mid' = span mid) (hr : Sized r)
    (h : Chain H 0 0 a (l ++ (mid ++ r)))
    (hl : ∀ c ∈ starts a l, H' c = H c)
    (hnew : Chain H' (link 0 (a + span l + span mid) r) (lastStart 0 a l) (a + span l) mid')
    (hhead : r ≠ [] → H' (a + span l + span mid) =
      { H (a + span l + span mid) with prev := lastStart 0 (a + span l) mid' })
    (hrest : ∀ c ∈ starts (a + span l + span mid) r, c ≠ a + span l + span mid → H' c = H c) :
    Chain H' 0 0 a (l ++ (mid' ++ r)) := by
  rw [chain_append, chain_append] at h ⊢
  obtain ⟨hleft, -, hright⟩ := h
  have hlink : ∀ m : List Block, m ≠ [] → link 0 (a + span l) (m ++ r) = a + span l := by
    intro m hm
    rw [link, if_neg (by simp [hm])]
  have hlast : ∀ p q : ℕ, lastStart p (a + span l) mid' = lastStart q (a + span l) mid' := by
    intro p q
    cases mid' with
    | nil => exact absurd rfl hmid'
    | cons b m => rfl
  rw [hlink mid hmid] at hleft
  rw [hlink mid' hmid', hspan]
  refine ⟨hleft.congr hl, hnew, ?_⟩
  rw [hlast (lastStart 0 a l) 0]
  exact hright.relink hr hhead hrest

/-! ### The map of what is allocated -/

variable {p m : ℕ}

/-- What is allocated are the blocks that are not free. -/
theorem used_eq_some : used a bs p = some m ↔
    ∃ l r, bs = l ++ ⟨m, false⟩ :: r ∧ p = a + span l + 32 := by
  induction bs generalizing a with
  | nil => simp [used]
  | cons b bs ih =>
    rw [used]
    split_ifs with h
    · obtain ⟨rfl, hfree⟩ := h
      constructor
      · intro heq
        cases b
        obtain rfl := Option.some.inj heq
        obtain rfl := hfree
        exact ⟨[], bs, rfl, rfl⟩
      · rintro ⟨l, r, heq, hp⟩
        cases l with
        | nil =>
          obtain ⟨rfl, -⟩ := List.cons.inj heq
          rfl
        | cons c l =>
          rw [span_cons] at hp
          omega
    · rw [ih]
      constructor
      · rintro ⟨l, r, rfl, rfl⟩
        refine ⟨b :: l, r, rfl, ?_⟩
        rw [span_cons]
        omega
      · rintro ⟨l, r, heq, rfl⟩
        cases l with
        | nil =>
          obtain ⟨rfl, -⟩ := List.cons.inj heq
          exact absurd ⟨rfl, rfl⟩ h
        | cons c l =>
          obtain ⟨rfl, rfl⟩ := List.cons.inj heq
          refine ⟨l, r, rfl, ?_⟩
          rw [span_cons]
          omega

/-- What is allocated is inside the heap, behind a header. -/
theorem used_bounds (h : used a bs p = some m) : a + 32 ≤ p ∧ p + m ≤ a + span bs := by
  obtain ⟨l, r, rfl, rfl⟩ := used_eq_some.mp h
  simp only [span_append, span_cons]
  omega

/-- Nothing is allocated where there are no blocks. -/
theorem used_eq_none (h : p < a + 32 ∨ a + span bs < p) : used a bs p = none := by
  cases hused : used a bs p with
  | none => rfl
  | some m =>
    have hbounds := used_bounds hused
    omega

theorem used_append : used a (l ++ r) p = (used a l p).or (used (a + span l) r p) := by
  induction l generalizing a with
  | nil => rfl
  | cons b l ih =>
    have hadd : a + 32 + b.size + span l = a + span (b :: l) := by
      rw [span_cons]
      omega
    rw [List.cons_append, used, used, ih, hadd]
    split_ifs <;> rfl

/-- The payloads that are allocated do not overlap, and there is a header between any two of
them. -/
theorem used_apart {q k : ℕ} (hp : used a bs p = some m) (hq : used a bs q = some k) (hne : p ≠ q) :
    p + m + 32 ≤ q ∨ q + k + 32 ≤ p := by
  induction bs generalizing a with
  | nil => cases hp
  | cons b bs ih =>
    rw [used] at hp hq
    split_ifs at hp hq with hfirst hfirst' hfirst'
    · exact absurd (hfirst.1.trans hfirst'.1.symm) hne
    · have hbounds := used_bounds hq
      obtain rfl := Option.some.inj hp
      omega
    · have hbounds := used_bounds hp
      obtain rfl := Option.some.inj hq
      omega
    · exact ih hp hq

/-- No header is in a payload of a block. -/
theorem starts_payload {c x : ℕ} (hbs : bs = l ++ b :: r) (hx : a + span l + 32 ≤ x)
    (hx' : x < a + span l + 32 + b.size) (hc : c ∈ starts a bs) : c + 32 ≤ x ∨ x < c := by
  subst hbs
  rw [starts_append, List.mem_append, starts, List.mem_cons] at hc
  rcases hc with hc | rfl | hc
  · have hle := (starts_bounds hc).2
    omega
  · omega
  · have hle := (starts_bounds hc).1
    omega

/-- The blocks before and behind a block do not share its pointer. -/
theorem used_middle : used a (l ++ b :: r) p =
    if p = a + span l + 32 then (if b.free = true then none else some b.size)
    else (used a l p).or (used (a + span l + 32 + b.size) r p) := by
  rw [used_append, used]
  by_cases hp : p = a + span l + 32
  · have hleft : used a l p = none := used_eq_none (by omega)
    have hright : used (a + span l + 32 + b.size) r p = none := used_eq_none (by omega)
    rw [hleft, hright, if_pos hp, Option.none_or]
    cases b.free <;> simp [hp]
  · rw [if_neg hp, if_neg fun h ↦ hp h.1]

/-- A free block is not allocated. -/
theorem used_cons_free (hb : b.free = true) : used a (b :: bs) p = used (a + 32 + b.size) bs p := by
  rw [used, if_neg fun h ↦ by simp [hb] at h]

/-! ### Neighbours -/

/-- The first of the blocks is free. -/
def headFree (bs : List Block) : Bool := bs.head?.any Block.free

/-- The last of the blocks is free. -/
def lastFree (bs : List Block) : Bool := bs.getLast?.any Block.free

@[simp] theorem headFree_nil : headFree [] = false := rfl

@[simp] theorem headFree_cons : headFree (b :: bs) = b.free := rfl

@[simp] theorem lastFree_nil : lastFree [] = false := rfl

@[simp] theorem lastFree_concat : lastFree (bs ++ [b]) = b.free := by simp [lastFree]

theorem coalesced_append : Coalesced (l ++ r) ↔
    Coalesced l ∧ Coalesced r ∧ ¬ (lastFree l = true ∧ headFree r = true) := by
  unfold Coalesced lastFree headFree
  rw [List.isChain_append]
  cases l.getLast? with
  | none => simp
  | some b =>
    cases r.head? with
    | none => simp
    | some c => simp

theorem coalesced_cons :
    Coalesced (b :: bs) ↔ Coalesced bs ∧ ¬ (b.free = true ∧ headFree bs = true) := by
  have happend := coalesced_append (l := [b]) (r := bs)
  simpa [lastFree, Coalesced] using happend

end SysresOs.Memory
