import Mathlib.Algebra.BigOperators.Group.List.Basic
import Mathlib.Algebra.GroupWithZero.Nat
import Mathlib.Data.List.Rotate
import SysresOs.Lib.Trace

/-!
# Waiting in a rotating queue

A queue is a list of distinct elements. Its head is served and goes to the end, elements enter at
the head, and any element may leave. An element that is in the queue and is not served has one place
less to go after each service (`idxOf_rotate`), and at most as many places more as elements have
entered (`idxOf_append_le`). `sum_cost_le` adds this up over a stretch of a run: what a potential
pays for is at most what it starts with and what is added to it.
-/

set_option autoImplicit false
set_option relaxedAutoImplicit false

namespace SysresOs.Rotation

open SysresOs.Trace

variable {α : Type*} [DecidableEq α] {l ins rest : List α} {a : α}

/-- The elements behind the head come one place nearer when the head goes to the end. -/
theorem idxOf_rotate (ha : a ∈ l) (hhead : l.head? ≠ some a) :
    (l.rotate 1).idxOf a + 1 = l.idxOf a := by
  cases l with
  | nil => exact absurd ha List.not_mem_nil
  | cons b l =>
    have hne : b ≠ a := fun heq ↦ hhead (congrArg some heq)
    have hmem : a ∈ l := (List.mem_cons.mp ha).resolve_left hne.symm
    rw [List.rotate_cons_succ, List.rotate_zero, List.idxOf_append_of_mem hmem,
      List.idxOf_cons_ne l hne]

/-- No element is further back in a part of the queue. -/
theorem idxOf_le_of_sublist (hrest : rest.Sublist l) (hnodup : l.Nodup) (ha : a ∈ rest) :
    rest.idxOf a ≤ l.idxOf a := by
  induction hrest with
  | slnil => exact le_refl _
  | @cons rest l b hrest ih =>
    have hne : b ≠ a := by
      rintro rfl
      exact (List.nodup_cons.mp hnodup).1 (hrest.subset ha)
    rw [List.idxOf_cons_ne l hne]
    exact (ih (List.nodup_cons.mp hnodup).2 ha).trans (Nat.le_succ _)
  | @cons_cons rest l b hrest ih =>
    by_cases hne : b = a
    · rw [hne, List.idxOf_cons_self]
      exact Nat.zero_le _
    · rw [List.idxOf_cons_ne rest hne, List.idxOf_cons_ne l hne]
      have hmem : a ∈ rest := (List.mem_cons.mp ha).resolve_left fun heq ↦ hne heq.symm
      exact Nat.succ_le_succ (ih (List.nodup_cons.mp hnodup).2 hmem)

/-- When elements enter at the head and others leave, an element goes back by at most the number of
those that enter. -/
theorem idxOf_append_le (hrest : rest.Sublist l) (hnodup : l.Nodup) (ha : a ∈ ins ++ rest) :
    (ins ++ rest).idxOf a ≤ l.idxOf a + ins.length := by
  by_cases hins : a ∈ ins
  · rw [List.idxOf_append_of_mem hins]
    exact (List.idxOf_lt_length_of_mem hins).le.trans (Nat.le_add_left _ _)
  · have hmem : a ∈ rest := (List.mem_append.mp ha).resolve_left hins
    have hle := idxOf_le_of_sublist hrest hnodup hmem
    rw [List.idxOf_append_of_notMem hins]
    omega

/-- If every step of a stretch of a run pays its cost from a potential and from what it adds to it,
the costs of the stretch are at most the potential at its start and the additions. The steps may
rely on a property of the states that they keep. -/
theorem sum_cost_le {σ β : Type*} {init : σ → Prop} {step : σ → β → σ → Prop} {P : σ → Prop}
    (potential : σ → ℕ) (cost gain : Transition σ β → ℕ) {later past : List (Transition σ β)}
    {t : Transition σ β} {s : σ} (hrun : Run init step (later ++ t :: past) s) (hpost : P t.post)
    (hpay : ∀ u ∈ later, ∀ before, Run init step before u.pre → step u.pre u.label u.post →
      P u.pre →
      P u.post ∧ potential u.post + cost u ≤ potential u.pre + gain u) :
    P s ∧ potential s + (later.map cost).sum ≤ potential t.post + (later.map gain).sum := by
  induction later generalizing s with
  | nil =>
    obtain ⟨rfl, -, -⟩ := hrun.last
    exact ⟨hpost, le_refl _⟩
  | cons u later ih =>
    obtain ⟨rfl, hstep, hpast⟩ := hrun.last
    obtain ⟨hpre, hbefore⟩ := ih hpast fun v hv ↦ hpay v (List.mem_cons_of_mem u hv)
    obtain ⟨hnext, hlast⟩ := hpay u List.mem_cons_self _ hpast hstep hpre
    refine ⟨hnext, ?_⟩
    rw [List.map_cons, List.map_cons, List.sum_cons, List.sum_cons]
    omega

end SysresOs.Rotation
