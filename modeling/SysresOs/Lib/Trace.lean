import Mathlib.Data.List.Basic

/-!
# Runs of a labelled transition system

A run is kept with its history, the most recent transition first, so that a property may speak about
what happened before a state as well as about the state. `Run.invariant` is the induction rule: a
property of histories and states that holds at the start and is kept by every step holds of every
run. `Run.segment` is the rule for a stretch of a run: what holds after one of its transitions and
is kept by the later ones holds at its end.
-/

set_option autoImplicit false
set_option relaxedAutoImplicit false

namespace SysresOs.Trace

variable {σ α : Type*}

/-- One step of a run: the states before and after it, and its label. -/
structure Transition (σ α : Type*) where
  pre : σ
  label : α
  post : σ

/-- The runs of a transition system, with their histories. -/
inductive Run (init : σ → Prop) (step : σ → α → σ → Prop) : List (Transition σ α) → σ → Prop
  | start {s : σ} (hinit : init s) : Run init step [] s
  | next {history : List (Transition σ α)} {s s' : σ} {a : α} (hrun : Run init step history s)
      (hstep : step s a s') : Run init step (⟨s, a, s'⟩ :: history) s'

variable {init : σ → Prop} {step : σ → α → σ → Prop}

/-- The induction rule for properties of histories and states. -/
theorem Run.invariant {I : List (Transition σ α) → σ → Prop} (hstart : ∀ s, init s → I [] s)
    (hnext : ∀ history s a s', Run init step history s → I history s → step s a s' →
      I (⟨s, a, s'⟩ :: history) s')
    {history : List (Transition σ α)} {s : σ} (hrun : Run init step history s) : I history s := by
  induction hrun with
  | start hinit => exact hstart _ hinit
  | next hrun hstep ih => exact hnext _ _ _ _ hrun ih hstep

/-- The induction rule for properties of states. -/
theorem Run.state_invariant {I : σ → Prop} (hstart : ∀ s, init s → I s)
    (hnext : ∀ s a s', I s → step s a s' → I s') {history : List (Transition σ α)} {s : σ}
    (hrun : Run init step history s) : I s :=
  hrun.invariant (I := fun _ s ↦ I s) hstart fun _ s a s' _ hs hstep ↦ hnext s a s' hs hstep

/-- A run from one of some states is a run from one of more states. -/
theorem Run.mono {init' : σ → Prop} (hinit : ∀ s, init s → init' s)
    {history : List (Transition σ α)} {s : σ} (hrun : Run init step history s) :
    Run init' step history s := by
  induction hrun with
  | start h => exact .start (hinit _ h)
  | next hrun hstep ih => exact .next ih hstep

/-- A run is a run of a system with more steps. -/
theorem Run.mono_step {step' : σ → α → σ → Prop} (hstep' : ∀ s a s', step s a s' → step' s a s')
    {history : List (Transition σ α)} {s : σ} (hrun : Run init step history s) :
    Run init step' history s := by
  induction hrun with
  | start h => exact .start h
  | next hrun hstep ih => exact .next ih (hstep' _ _ _ hstep)

/-- The last transition of a run is a step that ends in its state, after a shorter run. -/
theorem Run.last {history : List (Transition σ α)} {t : Transition σ α} {s : σ}
    (hrun : Run init step (t :: history) s) :
    t.post = s ∧ step t.pre t.label t.post ∧ Run init step history t.pre := by
  cases hrun with
  | next hrun hstep => exact ⟨rfl, hstep, hrun⟩

/-- The part of a run up to one of its transitions is a run. -/
theorem Run.upTo {later history : List (Transition σ α)} {t : Transition σ α} {s : σ}
    (hrun : Run init step (later ++ t :: history) s) : Run init step (t :: history) t.post := by
  induction later generalizing s with
  | nil =>
    obtain ⟨rfl, -, -⟩ := hrun.last
    exact hrun
  | cons u later ih => exact ih hrun.last.2.2

/-- Every transition of a run is a step from a state that a run reaches. -/
theorem Run.of_mem {history : List (Transition σ α)} {t : Transition σ α} {s : σ}
    (hrun : Run init step history s) (ht : t ∈ history) :
    (∃ past, past ⊆ history ∧ Run init step past t.pre) ∧ step t.pre t.label t.post := by
  obtain ⟨later, past, rfl⟩ := List.append_of_mem ht
  obtain ⟨-, hstep, hpast⟩ := hrun.upTo.last
  refine ⟨⟨past, fun u hu ↦ ?_, hpast⟩, hstep⟩
  exact List.mem_append_right later (List.mem_cons_of_mem t hu)

/-- What holds after a transition and is kept by every later one holds at the end of the run. -/
theorem Run.segment {P : σ → Prop} {later history : List (Transition σ α)} {t : Transition σ α}
    {s : σ} (hrun : Run init step (later ++ t :: history) s) (hpost : P t.post)
    (hkeep : ∀ u ∈ later, ∀ past, Run init step past u.pre → step u.pre u.label u.post →
      P u.pre → P u.post) : P s := by
  induction later generalizing s with
  | nil =>
    obtain ⟨rfl, -, -⟩ := hrun.last
    exact hpost
  | cons u later ih =>
    obtain ⟨rfl, hstep, hpast⟩ := hrun.last
    have hpre := ih hpast fun v hv ↦ hkeep v (List.mem_cons_of_mem u hv)
    exact hkeep u List.mem_cons_self _ hpast hstep hpre

/-- Of the transitions of a stretch with a property, there is a first one. -/
theorem exists_first {Q : Transition σ α → Prop} {later : List (Transition σ α)}
    (h : ∃ u ∈ later, Q u) :
    ∃ after u before, later = after ++ u :: before ∧ Q u ∧ ∀ v ∈ before, ¬ Q v := by
  induction later with
  | nil => exact absurd h (by simp)
  | cons u later ih =>
    by_cases hlater : ∃ v ∈ later, Q v
    · obtain ⟨after, v, before, rfl, hv, hnone⟩ := ih hlater
      exact ⟨u :: after, v, before, rfl, hv, hnone⟩
    · obtain ⟨v, hmem, hv⟩ := h
      rcases List.mem_cons.mp hmem with rfl | hmem
      · exact ⟨[], v, later, rfl, hv, fun w hw hQ ↦ hlater ⟨w, hw, hQ⟩⟩
      · exact absurd ⟨v, hmem, hv⟩ hlater

end SysresOs.Trace
