import Mathlib.Data.Fintype.Card
import Mathlib.Logic.Function.Iterate

/-!
# Parents that lead to a root

Nodes that name a parent form a tree if the parents of every node lead to one root. `Climbs parent
live root c` says that the parents of `c` lead to the root and that every node between them is live.
`Climbs.mono` is the rule for an edit of the parents: a node on the way keeps its live parent, or
gets the root as its parent. `Climbs.iterate` and `Climbs.iterate_ne` say what it means for the
parent function: the root is reached after fewer steps than there are nodes, and no node comes back
to itself.
-/

set_option autoImplicit false
set_option relaxedAutoImplicit false

namespace SysresOs.Forest

variable {α : Type*} {parent parent' : α → α} {live live' : α → Prop} {root c : α}

/-- The parents of a node lead to the root by live nodes. -/
inductive Climbs (parent : α → α) (live : α → Prop) (root : α) : α → Prop
  | last {c : α} (hroot : parent c = root) : Climbs parent live root c
  | up {c : α} (hlive : live (parent c)) (h : Climbs parent live root (parent c)) :
      Climbs parent live root c

/-- An edit in which every node on the way keeps its parent, which is still live, or gets the root
as its parent. -/
theorem Climbs.mono (h : Climbs parent live root c)
    (hedit : ∀ d, d = c ∨ live d → parent' d = parent d ∨ parent' d = root)
    (hkept : ∀ d, d = c ∨ live d → live (parent d) → parent' d ≠ root → live' (parent d)) :
    Climbs parent' live' root c := by
  induction h with
  | @last c hroot => exact .last ((hedit c (.inl rfl)).elim (fun hsame ↦ hsame.trans hroot) id)
  | @up c hlive h ih =>
    by_cases hroot : parent' c = root
    · exact .last hroot
    · have hsame : parent' c = parent c := (hedit c (.inl rfl)).resolve_right hroot
      have hway : ∀ d, d = parent c ∨ live d → d = c ∨ live d := by
        rintro d (rfl | hd)
        · exact .inr hlive
        · exact .inr hd
      have hclimbs := ih (fun d hd ↦ hedit d (hway d hd)) fun d hd ↦ hkept d (hway d hd)
      rw [← hsame] at hclimbs
      refine .up ?_ hclimbs
      rw [hsame]
      exact hkept c (.inl rfl) hlive hroot

/-- The root is reached after some steps, by live nodes. -/
theorem Climbs.exists_iterate (h : Climbs parent live root c) :
    ∃ n, parent^[n + 1] c = root ∧ ∀ m < n, live (parent^[m + 1] c) := by
  induction h with
  | last hroot => exact ⟨0, hroot, fun m hm ↦ absurd hm (Nat.not_lt_zero m)⟩
  | up hlive h ih =>
    obtain ⟨n, hn, hway⟩ := ih
    refine ⟨n + 1, hn, fun m hm ↦ ?_⟩
    cases m with
    | zero => exact hlive
    | succ m => exact hway m (Nat.lt_of_succ_lt_succ hm)

/-- A node that is not the root does not come back to itself. -/
theorem Climbs.iterate_ne (h : Climbs parent live root c) (hroot : parent root = root)
    (hc : c ≠ root) (m : ℕ) : parent^[m + 1] c ≠ c := by
  intro hcycle
  obtain ⟨n, hn, -⟩ := h.exists_iterate
  -- The cycle is still at the node when the way has long been at the root.
  have hagain : parent^[(m + 1) * (n + 1)] c = c := by
    rw [Function.iterate_mul]
    exact Function.iterate_fixed hcycle (n + 1)
  refine hc (hagain.symm.trans ?_)
  rw [Nat.succ_mul, Function.iterate_add_apply, hn]
  exact Function.iterate_fixed hroot _

/-- The root is reached after fewer steps than there are nodes, by live nodes that are not the
root. -/
theorem Climbs.iterate [Fintype α] (h : Climbs parent live root c) :
    ∃ n < Fintype.card α, parent^[n] c = root ∧
      ∀ m < n, parent^[m] c ≠ root ∧ (0 < m → live (parent^[m] c)) := by
  classical
  obtain ⟨n, hn, hway⟩ := h.exists_iterate
  have hex : ∃ n, parent^[n] c = root := ⟨n + 1, hn⟩
  have hfind : Nat.find hex ≤ n + 1 := Nat.find_min' hex hn
  refine ⟨Nat.find hex, ?_, Nat.find_spec hex, fun m hm ↦ ⟨Nat.find_min hex hm, fun hpos ↦ ?_⟩⟩
  · -- The nodes of the way are distinct: from the second of two equal ones the root would be
    -- reached too early.
    have hinjective : Function.Injective fun i : Fin (Nat.find hex + 1) ↦ parent^[i.val] c := by
      have hne : ∀ i j : ℕ, i < j → j ≤ Nat.find hex → parent^[i] c ≠ parent^[j] c := by
        intro i j hij hj heq
        refine Nat.find_min hex (m := Nat.find hex - j + i) (by omega) ?_
        rw [Function.iterate_add_apply, heq, ← Function.iterate_add_apply, Nat.sub_add_cancel hj]
        exact Nat.find_spec hex
      intro i j heq
      rcases lt_trichotomy i.val j.val with hlt | hval | hlt
      · exact absurd heq (hne _ _ hlt (Nat.le_of_lt_succ j.isLt))
      · exact Fin.ext hval
      · exact absurd heq.symm (hne _ _ hlt (Nat.le_of_lt_succ i.isLt))
    have hcard := Fintype.card_le_of_injective _ hinjective
    rw [Fintype.card_fin] at hcard
    omega
  · obtain ⟨j, rfl⟩ : ∃ j, m = j + 1 := ⟨m - 1, by omega⟩
    exact hway j (by omega)

end SysresOs.Forest
