import SysresOs.Lib.Outcome
import Mathlib.Data.Nat.Notation

/-!
# Counted loops

`forUpTo n body` runs `body 0`, `body 1`, up to `body (n - 1)`; `forUpToM` does so for a body that
may stop. `forUpTo_invariant` and `forUpToM_total` are the rules of a loop invariant that mentions
the counter.
-/

set_option autoImplicit false
set_option relaxedAutoImplicit false

namespace SysresOs.Loop

open SysresOs.Outcome

universe u v

variable {σ : Type u} {ε : Type v}

/-- A loop of `n` rounds whose body cannot stop. -/
def forUpTo : ℕ → (ℕ → σ → σ) → σ → σ
  | 0, _, s => s
  | n + 1, body, s => body n (forUpTo n body s)

/-- A loop of `n` rounds whose body may stop. -/
def forUpToM : ℕ → (ℕ → σ → Except ε σ) → σ → Except ε σ
  | 0, _, s => .ok s
  | n + 1, body, s => do
    let s ← forUpToM n body s
    body n s

variable {n : ℕ} {s : σ} {I : ℕ → σ → Prop}

/-- What holds before the first round and is kept by every round holds after the last one. -/
theorem forUpTo_invariant {body : ℕ → σ → σ} (hstart : I 0 s)
    (hround : ∀ i < n, ∀ t, I i t → I (i + 1) (body i t)) : I n (forUpTo n body s) := by
  induction n with
  | zero => exact hstart
  | succ n ih =>
    have hbefore := ih fun i hi ↦ hround i (by omega)
    exact hround n (by omega) _ hbefore

variable {body : ℕ → σ → Except ε σ}

/-- The rule for a loop each of whose rounds ends. -/
theorem forUpToM_total (hstart : I 0 s)
    (hround : ∀ i < n, ∀ t, I i t → ∃ t', body i t = .ok t' ∧ I (i + 1) t') :
    ∃ t, forUpToM n body s = .ok t ∧ I n t := by
  induction n with
  | zero => exact ⟨s, rfl, hstart⟩
  | succ n ih =>
    obtain ⟨t, ht, hI⟩ := ih fun i hi ↦ hround i (by omega)
    obtain ⟨t', ht', hI'⟩ := hround n (by omega) t hI
    refine ⟨t', ?_, hI'⟩
    rw [forUpToM, ht]
    exact ht'

/-- A loop whose rounds change nothing. -/
theorem forUpToM_const (hround : ∀ i < n, body i s = .ok s) : forUpToM n body s = .ok s := by
  have hloop : ∃ t, forUpToM n body s = .ok t ∧ t = s := by
    refine forUpToM_total (I := fun _ t ↦ t = s) rfl fun i hi t ht ↦ ?_
    subst ht
    exact ⟨t, hround i hi, rfl⟩
  obtain ⟨t, ht, rfl⟩ := hloop
  exact ht

/-- The rule for a loop that may stop: if it ends, the invariant holds. -/
theorem forUpToM_yields (hstart : I 0 s)
    (hround : ∀ i < n, ∀ t, I i t → Yields (body i t) (I (i + 1))) :
    Yields (forUpToM n body s) (I n) := by
  induction n with
  | zero => exact .ok hstart
  | succ n ih =>
    have hbefore := ih fun i hi ↦ hround i (by omega)
    exact hbefore.bind fun t hI ↦ hround n (by omega) t hI

end SysresOs.Loop
