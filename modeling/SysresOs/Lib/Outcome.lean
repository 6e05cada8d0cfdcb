import Mathlib.Logic.Basic
import Mathlib.Tactic.SplitIfs

/-!
# Computations that may stop

Rules for computations in `Except`: a bind ends well exactly when both parts do (`bind_eq_ok`),
partial correctness, `Yields x P`: if the computation `x` ends in a value, the value satisfies `P`,
and totality, `Ends x`: it ends in a value. `Avoids x E` says that it does not stop with an error of
a given kind, and `after x f` collects what a computation leads to.
-/

set_option autoImplicit false
set_option relaxedAutoImplicit false

namespace SysresOs.Outcome

universe u v

variable {ε : Type v} {α β : Type u}

theorem bind_eq_ok {x : Except ε α} {f : α → Except ε β} {b : β} :
    x >>= f = .ok b ↔ ∃ a, x = .ok a ∧ f a = .ok b := by
  cases x <;> simp [bind, Except.bind]

theorem bind_eq_error {x : Except ε α} {f : α → Except ε β} {e : ε} :
    x >>= f = .error e ↔ x = .error e ∨ ∃ a, x = .ok a ∧ f a = .error e := by
  cases x <;> simp [bind, Except.bind]

@[simp] theorem ok_bind (a : α) (f : α → Except ε β) : (Except.ok a >>= f) = f a := rfl

@[simp] theorem error_bind (e : ε) (f : α → Except ε β) :
    ((Except.error e : Except ε α) >>= f) = .error e := rfl

/-- If the computation ends in a value, the value satisfies `P`. -/
def Yields (x : Except ε α) (P : α → Prop) : Prop :=
  ∀ a, x = .ok a → P a

theorem Yields.ok {P : α → Prop} {a : α} (h : P a) : Yields (.ok a : Except ε α) P := by
  rintro _ ⟨⟩
  exact h

theorem Yields.error {P : α → Prop} {e : ε} : Yields (.error e : Except ε α) P := by
  rintro _ ⟨⟩

theorem Yields.bind {x : Except ε α} {f : α → Except ε β} {P : α → Prop} {Q : β → Prop}
    (hx : Yields x P) (hf : ∀ a, P a → Yields (f a) Q) : Yields (x >>= f) Q := by
  intro b hb
  obtain ⟨a, ha, hab⟩ := bind_eq_ok.mp hb
  exact hf a (hx a ha) b hab

/-- The bind rule when nothing need be known about the intermediate value. -/
theorem Yields.bind_any {x : Except ε α} {f : α → Except ε β} {Q : β → Prop}
    (hf : ∀ a, Yields (f a) Q) : Yields (x >>= f) Q :=
  Yields.bind (P := fun _ ↦ True) (fun _ _ ↦ trivial) fun a _ ↦ hf a

theorem Yields.ite {c : Prop} [Decidable c] {x y : Except ε α} {P : α → Prop}
    (hx : c → Yields x P) (hy : ¬ c → Yields y P) : Yields (if c then x else y) P := by
  split_ifs with hc
  · exact hx hc
  · exact hy hc

theorem Yields.mono {x : Except ε α} {P Q : α → Prop} (hx : Yields x P) (hPQ : ∀ a, P a → Q a) :
    Yields x Q := fun a ha ↦ hPQ a (hx a ha)

/-- A list that depends on the value of a computation, empty if there is none. -/
def after (x : Except ε α) (f : α → List β) : List β :=
  match x with
  | .ok a => f a
  | .error _ => []

@[simp] theorem after_ok (a : α) (f : α → List β) : after (Except.ok a : Except ε α) f = f a := rfl

theorem mem_after {x : Except ε α} {f : α → List β} {b : β} :
    b ∈ after x f ↔ ∃ a, x = .ok a ∧ b ∈ f a := by
  cases x <;> simp [after]

/-- A value that satisfies `P` is followed by elements that satisfy `Q`. -/
theorem Yields.after {x : Except ε α} {f : α → List β} {P : α → Prop} {Q : β → Prop}
    (hx : Yields x P) (hf : ∀ a, P a → ∀ b ∈ f a, Q b) : ∀ b ∈ after x f, Q b := by
  intro b hb
  obtain ⟨a, ha, hmem⟩ := mem_after.mp hb
  exact hf a (hx a ha) b hmem

/-- The computation ends in a value. -/
def Ends (x : Except ε α) : Prop := ∃ a, x = .ok a

theorem Ends.ok {a : α} : Ends (.ok a : Except ε α) := ⟨a, rfl⟩

theorem Ends.bind {x : Except ε α} {f : α → Except ε β} (hx : Ends x)
    (hf : ∀ a, x = .ok a → Ends (f a)) : Ends (x >>= f) := by
  obtain ⟨a, ha⟩ := hx
  obtain ⟨b, hb⟩ := hf a ha
  exact ⟨b, bind_eq_ok.mpr ⟨a, ha, hb⟩⟩

theorem Ends.ite {c : Prop} [Decidable c] {x y : Except ε α} (hx : c → Ends x)
    (hy : ¬ c → Ends y) : Ends (if c then x else y) := by
  split_ifs with hc
  · exact hx hc
  · exact hy hc

/-- The rule for a loop over a list. -/
theorem Ends.forM {γ : Type*} {f : γ → Except ε PUnit} {l : List γ} (hf : ∀ c ∈ l, Ends (f c)) :
    Ends (l.forM f) := by
  induction l with
  | nil => exact .ok
  | cons c l ih =>
    exact Ends.bind (hf c List.mem_cons_self) fun _ _ ↦ ih fun d hd ↦
      hf d (List.mem_cons_of_mem c hd)

/-- The computation does not stop with an error of the kind `E`. -/
def Avoids (x : Except ε α) (E : ε → Prop) : Prop := ∀ e, x = .error e → ¬ E e

theorem Avoids.ok {E : ε → Prop} {a : α} : Avoids (.ok a : Except ε α) E := by
  rintro e ⟨⟩

theorem Avoids.error {E : ε → Prop} {e : ε} (he : ¬ E e) : Avoids (.error e : Except ε α) E := by
  rintro _ ⟨⟩
  exact he

theorem Avoids.bind {x : Except ε α} {f : α → Except ε β} {E : ε → Prop} (hx : Avoids x E)
    (hf : ∀ a, x = .ok a → Avoids (f a) E) : Avoids (x >>= f) E := by
  intro e he
  rcases bind_eq_error.mp he with herror | ⟨a, ha, herror⟩
  · exact hx e herror
  · exact hf a ha e herror

theorem Avoids.ite {c : Prop} [Decidable c] {x y : Except ε α} {E : ε → Prop}
    (hx : c → Avoids x E) (hy : ¬ c → Avoids y E) : Avoids (if c then x else y) E := by
  split_ifs with hc
  · exact hx hc
  · exact hy hc

/-- The rule for a loop over a list. -/
theorem Avoids.forM {γ : Type*} {E : ε → Prop} {f : γ → Except ε PUnit} (hf : ∀ c, Avoids (f c) E)
    {l : List γ} : Avoids (l.forM f) E := by
  induction l with
  | nil => exact .ok
  | cons c l ih => exact Avoids.bind (hf c) fun _ _ ↦ ih

/-- A computation that stops with no error ends. -/
theorem Avoids.ends {x : Except ε α} (h : Avoids x fun _ ↦ True) : Ends x := by
  cases x with
  | ok a => exact .ok
  | error e => exact absurd trivial (h e rfl)

/-! ### Assertions -/

/-- `assert(cond)`: the computation goes on if the condition holds, and stops with `e` if it does
not. -/
def assert (e : ε) (cond : Bool) : Except ε Unit :=
  if cond then .ok () else .error e

section Assert

variable {e : ε} {cond : Bool} {p : Prop} [Decidable p]

theorem assert_eq_ok (h : cond = true) : assert e cond = .ok () := by
  rw [assert, if_pos h]

theorem assert_pos (h : p) : assert e (decide p) = .ok () := assert_eq_ok (decide_eq_true h)

theorem assert_neg (h : ¬ p) : assert e (decide p) = .error e := by
  rw [assert, decide_eq_false h, if_neg Bool.false_ne_true]

theorem of_assert_ok {u : Unit} (h : assert e cond = .ok u) : cond = true := by
  cases cond with
  | true => rfl
  | false => exact nomatch h

theorem assert_ends (h : cond = true) : Ends (assert e cond) := ⟨(), assert_eq_ok h⟩

theorem assert_avoids {E : ε → Prop} (h : E e → cond = true) : Avoids (assert e cond) E :=
  Avoids.ite (fun _ ↦ .ok) fun hcond ↦ .error fun he ↦ hcond (h he)

end Assert

end SysresOs.Outcome
