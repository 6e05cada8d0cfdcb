import Mathlib.Data.List.Chain
import Mathlib.Data.List.Nodup
import Mathlib.Data.List.Rotate
import Mathlib.Logic.Function.Basic

/-!
# Cyclic doubly linked lists

Two pointer maps `next` and `prev` over a type of nodes, and the lists they hold. `IsRing next prev
l` says that following `next` from the first element of `l` visits the elements of `l` once each and
returns to the first, and that `prev` is the inverse. The edits of a cyclic list are pointer
assignments, and each has its meaning on the list: `IsRing.insert` puts a node in front of the first
one, `IsRing.remove` drops a node and keeps the order of the others, `isRing_rotate` moves the first
node to the end. `readRing` reads a ring back from its entry pointer with a bound on its length;
`IsRing.readRing_eq` is its correctness.
-/

set_option autoImplicit false
set_option relaxedAutoImplicit false

namespace SysresOs.Ring

variable {α : Type*}

/-! ### Chains -/

/-- A chain relation may be replaced along the list when the replacement holds for pairs whose first
element is not the last of the list and whose second is not the first. -/
theorem isChain_imp_inner {R S : α → α → Prop} {l : List α}
    (himp : ∀ a b, a ∈ l.dropLast → b ∈ l.tail → R a b → S a b) (h : List.IsChain R l) :
    List.IsChain S l := by
  induction h with
  | nil => exact .nil
  | singleton a => exact .singleton a
  | @cons_cons a b l hab hl ih =>
    refine .cons_cons (himp a b (by simp) (by simp) hab) (ih fun c d hc hd hcd ↦ ?_)
    refine himp c d ?_ (List.mem_of_mem_tail hd) hcd
    rw [List.dropLast_cons_cons]
    exact List.mem_cons_of_mem a hc

/-- The relation holds between neighbours of the list closed up at its first element. -/
def Closed (R : α → α → Prop) : List α → Prop
  | [] => True
  | a :: l => List.IsChain R (a :: (l ++ [a]))

theorem closed_cons_iff (R : α → α → Prop) (a : α) (l : List α) :
    Closed R (a :: l) ↔ Closed R (l ++ [a]) := by
  cases l with
  | nil => rfl
  | cons b m =>
    simp only [Closed, List.cons_append, List.append_assoc, List.nil_append]
    rw [List.isChain_cons_cons, List.isChain_cons_append_cons_cons]
    constructor
    · rintro ⟨hab, hchain⟩
      exact ⟨hchain, hab, .singleton b⟩
    · rintro ⟨hchain, hab, -⟩
      exact ⟨hab, hchain⟩

theorem closed_append_comm (R : α → α → Prop) (l m : List α) :
    Closed R (l ++ m) ↔ Closed R (m ++ l) := by
  induction l generalizing m with
  | nil => simp
  | cons a l ih =>
    rw [List.cons_append, closed_cons_iff, List.append_assoc, ih, List.append_assoc]
    rfl

/-! ### Rings -/

/-- `b` follows `a`, in both pointer maps. -/
def Link (next prev : α → Option α) (a b : α) : Prop :=
  next a = some b ∧ prev b = some a

/-- The nodes of `l` form one cycle of `next`, in the order of `l`, with inverse `prev`. -/
structure IsRing (next prev : α → Option α) (l : List α) : Prop where
  nodup : l.Nodup
  closed : Closed (Link next prev) l

theorem isRing_nil (next prev : α → Option α) : IsRing next prev [] :=
  ⟨List.nodup_nil, trivial⟩

theorem isRing_singleton {next prev : α → Option α} {a : α} (hnext : next a = some a)
    (hprev : prev a = some a) : IsRing next prev [a] :=
  ⟨List.nodup_singleton a, .cons_cons ⟨hnext, hprev⟩ (.singleton a)⟩

theorem isRing_append_comm {next prev : α → Option α} {l m : List α} :
    IsRing next prev (l ++ m) ↔ IsRing next prev (m ++ l) := by
  constructor <;> rintro ⟨hnodup, hclosed⟩ <;>
    exact ⟨List.nodup_append_comm.mp hnodup, (closed_append_comm _ _ _).mp hclosed⟩

/-- Moving the entry of a ring to its second element rotates the list by one. -/
theorem isRing_rotate {next prev : α → Option α} {a : α} {l : List α} :
    IsRing next prev (a :: l) ↔ IsRing next prev (l ++ [a]) :=
  isRing_append_comm (l := [a]) (m := l)

/-- Pointer maps that agree on the nodes of a ring have the same ring. -/
theorem IsRing.congr {next prev next' prev' : α → Option α} {l : List α}
    (h : IsRing next prev l) (hnext : ∀ a ∈ l, next' a = next a)
    (hprev : ∀ a ∈ l, prev' a = prev a) : IsRing next' prev' l := by
  refine ⟨h.nodup, ?_⟩
  cases l with
  | nil => trivial
  | cons a l =>
    refine List.IsChain.imp_of_mem_imp (fun b c hb hc hbc ↦ ?_) h.closed
    have hmem : ∀ d, d ∈ a :: (l ++ [a]) → d ∈ a :: l := by
      intro d hd
      simp only [List.mem_cons, List.mem_append, List.not_mem_nil, or_false] at hd ⊢
      tauto
    exact ⟨(hnext b (hmem b hb)).trans hbc.1, (hprev c (hmem c hc)).trans hbc.2⟩

/-- The second element follows the first, and the first follows the last. -/
theorem IsRing.head_links {next prev : α → Option α} {a : α} {l : List α}
    (h : IsRing next prev (a :: l)) :
    Link next prev a ((l ++ [a]).head (by simp)) ∧
      Link next prev ((a :: l).getLast (by simp)) a := by
  constructor
  · have hclosed := h.closed
    cases l with
    | nil => exact (List.isChain_cons_cons.mp hclosed).1
    | cons b m => exact (List.isChain_cons_cons.mp hclosed).1
  · have hclosed : List.IsChain (Link next prev) ((a :: l) ++ [a]) := h.closed
    have hsplit := List.isChain_append.mp hclosed
    exact hsplit.2.2 _ (by simp [List.getLast?_eq_getLast_of_ne_nil]) _ (by simp)

/-- Every node of a ring has a successor and a predecessor in it. -/
theorem IsRing.links_of_mem {next prev : α → Option α} {l : List α} (h : IsRing next prev l)
    {a : α} (ha : a ∈ l) :
    (∃ b ∈ l, Link next prev a b) ∧ ∃ c ∈ l, Link next prev c a := by
  obtain ⟨left, right, rfl⟩ := List.append_of_mem ha
  have hrot : IsRing next prev (a :: (right ++ left)) := isRing_append_comm.mp h
  obtain ⟨hfirst, hlast⟩ := hrot.head_links
  have hperm : ∀ d, d ∈ a :: (right ++ left) → d ∈ left ++ a :: right := by
    intro d hd
    simp only [List.mem_cons, List.mem_append] at hd ⊢
    tauto
  refine ⟨⟨_, hperm _ ?_, hfirst⟩, ⟨_, hperm _ (List.getLast_mem _), hlast⟩⟩
  have hhead := List.head_mem (l := right ++ left ++ [a]) (by simp)
  simp only [List.mem_append, List.mem_cons, List.not_mem_nil, or_false] at hhead ⊢
  tauto

/-! ### Edits -/

section Edits

variable [DecidableEq α]

/-- Inserting `x` before the first node `a` of a ring: `x` gets `a` as successor and the old
predecessor of `a` as predecessor, which both point back at `x`. -/
theorem IsRing.insert {next prev : α → Option α} {a : α} {l : List α}
    (h : IsRing next prev (a :: l)) {x w : α} (hx : x ∉ a :: l) (hw : prev a = some w) :
    IsRing (Function.update (Function.update next x (some a)) w (some x))
      (Function.update (Function.update prev x (some w)) a (some x)) (x :: a :: l) := by
  have hlast := h.head_links.2
  have hw' : (a :: l).getLast (by simp) = w := Option.some.inj (hlast.2.symm.trans hw)
  have hwmem : w ∈ a :: l := hw' ▸ List.getLast_mem _
  have hxw : x ≠ w := fun heq ↦ hx (heq ▸ hwmem)
  have hxa : x ≠ a := fun heq ↦ hx (heq ▸ List.mem_cons_self)
  refine ⟨List.nodup_cons.mpr ⟨hx, h.nodup⟩, ?_⟩
  have hsplit : (a :: l).dropLast ++ [w] = a :: l := hw' ▸ List.dropLast_append_getLast _
  have hwdrop : w ∉ (a :: l).dropLast := by
    have hnodup : ((a :: l).dropLast ++ [w]).Nodup := hsplit.symm ▸ h.nodup
    intro hmem
    exact List.disjoint_of_nodup_append hnodup hmem (List.mem_singleton_self w)
  have hclosed : List.IsChain (Link next prev) ((a :: l) ++ [a]) := h.closed
  have hinner := hclosed.left_of_append
  -- Neighbours inside the old list are away from both edited pointers.
  have hkeep : List.IsChain (Link (Function.update (Function.update next x (some a)) w (some x))
      (Function.update (Function.update prev x (some w)) a (some x))) (a :: l) := by
    refine isChain_imp_inner (fun b c hb hc hbc ↦ ⟨?_, ?_⟩) hinner
    · have hbw : b ≠ w := fun heq ↦ hwdrop (heq ▸ hb)
      have hbx : b ≠ x := fun heq ↦ hx (heq ▸ List.mem_of_mem_dropLast hb)
      rw [Function.update_of_ne hbw, Function.update_of_ne hbx]
      exact hbc.1
    · have hca : c ≠ a := fun heq ↦ (List.nodup_cons.mp h.nodup).1 (heq ▸ hc)
      have hcx : c ≠ x := fun heq ↦ hx (heq ▸ List.mem_of_mem_tail hc)
      rw [Function.update_of_ne hca, Function.update_of_ne hcx]
      exact hbc.2
  refine List.IsChain.cons_cons ⟨?_, ?_⟩ ?_
  · rw [Function.update_of_ne hxw, Function.update_self]
  · rw [Function.update_self]
  · change List.IsChain _ ((a :: l) ++ [x])
    rw [← hsplit] at hkeep ⊢
    rw [List.append_assoc]
    refine List.isChain_split.mpr ⟨hkeep, .cons_cons ⟨?_, ?_⟩ (.singleton x)⟩
    · rw [Function.update_self]
    · rw [Function.update_of_ne hxa, Function.update_self]

/-- Removing the first node of a ring: its neighbours are linked to each other. -/
theorem IsRing.remove_head {next prev : α → Option α} {a w z : α} {l : List α}
    (h : IsRing next prev (a :: l)) (hw : prev a = some w) (hz : next a = some z) :
    IsRing (Function.update next w (some z)) (Function.update prev z (some w)) l := by
  refine ⟨(List.nodup_cons.mp h.nodup).2, ?_⟩
  cases l with
  | nil => trivial
  | cons b m =>
    obtain ⟨hfirst, hlast⟩ := h.head_links
    have hzb : z = b := Option.some.inj (hz.symm.trans hfirst.1)
    have hwlast : (b :: m).getLast (by simp) = w := by
      have hget : (a :: b :: m).getLast (by simp) = (b :: m).getLast (by simp) :=
        List.getLast_cons (by simp)
      exact hget ▸ Option.some.inj (hlast.2.symm.trans hw)
    have hnodup := (List.nodup_cons.mp h.nodup).2
    have hsplit : (b :: m).dropLast ++ [w] = b :: m := hwlast ▸ List.dropLast_append_getLast _
    have hwdrop : w ∉ (b :: m).dropLast := by
      intro hmem
      have hnodup' : ((b :: m).dropLast ++ [w]).Nodup := hsplit.symm ▸ hnodup
      exact List.disjoint_of_nodup_append hnodup' hmem (List.mem_singleton_self w)
    have hclosed : List.IsChain (Link next prev) ((b :: m) ++ [a]) :=
      (List.isChain_cons_cons.mp h.closed).2
    have hinner := hclosed.left_of_append
    have hkeep : List.IsChain (Link (Function.update next w (some z))
        (Function.update prev z (some w))) (b :: m) := by
      refine isChain_imp_inner (fun c d hc hd hcd ↦ ⟨?_, ?_⟩) hinner
      · have hcw : c ≠ w := fun heq ↦ hwdrop (heq ▸ hc)
        rw [Function.update_of_ne hcw]
        exact hcd.1
      · have hdz : d ≠ z := fun heq ↦ (List.nodup_cons.mp hnodup).1 (hzb ▸ heq ▸ hd)
        rw [Function.update_of_ne hdz]
        exact hcd.2
    change List.IsChain _ ((b :: m) ++ [b])
    rw [← hsplit] at hkeep ⊢
    rw [List.append_assoc]
    refine List.isChain_split.mpr ⟨hkeep, .cons_cons ⟨?_, ?_⟩ (.singleton b)⟩
    · rw [Function.update_self, hzb]
    · rw [← hzb, Function.update_self]

/-- Removing any node of a ring erases it from the list. -/
theorem IsRing.remove {next prev : α → Option α} {a w z : α} {l : List α}
    (h : IsRing next prev l) (ha : a ∈ l) (hw : prev a = some w) (hz : next a = some z) :
    IsRing (Function.update next w (some z)) (Function.update prev z (some w)) (l.erase a) := by
  obtain ⟨left, right, rfl⟩ := List.append_of_mem ha
  have hrot : IsRing next prev (a :: (right ++ left)) := isRing_append_comm.mp h
  have hnot : a ∉ left := by
    intro hmem
    exact List.disjoint_of_nodup_append h.nodup hmem List.mem_cons_self
  rw [List.erase_append_right _ hnot, List.erase_cons_head]
  exact isRing_append_comm.mp (hrot.remove_head hw hz)

/-- The entry pointer after a removal: it moves on when it was the removed node. -/
theorem IsRing.head?_erase {next prev : α → Option α} {a z : α} {l : List α}
    (h : IsRing next prev l) (hz : next a = some z) :
    (l.erase a).head? = if l.head? = some a then (if z = a then none else some z) else l.head? := by
  cases l with
  | nil => simp
  | cons b l =>
    by_cases hb : b = a
    · subst hb
      have hfirst := h.head_links.1
      have hhead : z = (l ++ [b]).head (by simp) := Option.some.inj (hz.symm.trans hfirst.1)
      rw [List.erase_cons_head, List.head?_cons, if_pos rfl]
      cases l with
      | nil => simp [hhead]
      | cons c m =>
        have hne : c ≠ b := fun heq ↦ (List.nodup_cons.mp h.nodup).1 (by simp [heq])
        simp [hhead, hne]
    · rw [List.erase_cons_tail (by simpa using hb), List.head?_cons, List.head?_cons,
        if_neg (by simpa using hb)]

end Edits

/-! ### Reading a ring -/

section Reading

variable [DecidableEq α]

/-- Follow `next` from a node until it would return to `stop`, for at most `bound` nodes. -/
def follow (next : α → Option α) (stop : α) : ℕ → α → List α
  | 0, _ => []
  | bound + 1, a =>
    match next a with
    | none => [a]
    | some b => if b = stop then [a] else a :: follow next stop bound b

/-- Read the ring with a given entry pointer. -/
def readRing (next : α → Option α) (bound : ℕ) : Option α → List α
  | none => []
  | some a => follow next a bound a

theorem follow_eq {next prev : α → Option α} {stop a : α} {l : List α} {bound : ℕ}
    (hchain : List.IsChain (Link next prev) (a :: (l ++ [stop]))) (hstop : stop ∉ l)
    (hbound : l.length < bound) : follow next stop bound a = a :: l := by
  induction l generalizing a bound with
  | nil =>
    obtain ⟨bound, rfl⟩ : ∃ n, bound = n + 1 := ⟨bound - 1, by simp at hbound; omega⟩
    have hnext : next a = some stop := (List.isChain_cons_cons.mp hchain).1.1
    simp [follow, hnext]
  | cons b m ih =>
    obtain ⟨bound, rfl⟩ : ∃ n, bound = n + 1 := ⟨bound - 1, by simp at hbound; omega⟩
    obtain ⟨hab, hrest⟩ := List.isChain_cons_cons.mp hchain
    have hne : b ≠ stop := fun heq ↦ hstop (heq ▸ List.mem_cons_self)
    have hm : stop ∉ m := fun hmem ↦ hstop (List.mem_cons_of_mem b hmem)
    simp only [follow, hab.1, if_neg hne]
    rw [ih hrest hm (by simpa using hbound)]

/-- Reading a ring from its first node gives its list. -/
theorem IsRing.readRing_eq {next prev : α → Option α} {l : List α} (h : IsRing next prev l)
    {bound : ℕ} (hbound : l.length ≤ bound) : readRing next bound l.head? = l := by
  cases l with
  | nil => rfl
  | cons a l =>
    exact follow_eq h.closed (List.nodup_cons.mp h.nodup).1 hbound

end Reading

end SysresOs.Ring
