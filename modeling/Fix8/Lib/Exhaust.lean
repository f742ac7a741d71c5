import Mathlib.Data.Option.Basic

/-!
# A step until it does nothing

A partial step that makes its argument smaller is repeated until it is not defined. The fuel is the
size of the argument.

* `exhaust_done`: the step is not defined on the result;
* `exhaust_invariant`: what every step keeps;
* `exhaust_or`: nothing was done, or the result is smaller;
* `exhaust_map`: a function that commutes with the step.
-/

namespace Lib

variable {α β : Type}

/-- `step`, at most as often as the fuel. -/
def exhaust (step : α → Option α) : Nat → α → α
  | 0, a => a
  | n + 1, a =>
    match step a with
    | none => a
    | some b => exhaust step n b

section
variable {step : α → Option α} {a : α} {n m : Nat}

theorem exhaust_of_none (h : step a = none) : exhaust step n a = a := by
  cases n with
  | zero => rfl
  | succ n => rw [exhaust, h]

theorem exhaust_of_some {b : α} (h : step a = some b) :
    exhaust step (n + 1) a = exhaust step n b := by
  rw [exhaust, h]

theorem exhaust_invariant {p : α → Prop} (hstep : ∀ a b, p a → step a = some b → p b) (ha : p a) :
    p (exhaust step n a) := by
  induction n generalizing a with
  | zero => exact ha
  | succ n ih =>
    cases h : step a with
    | none => rwa [exhaust_of_none h]
    | some b =>
      rw [exhaust_of_some h]
      exact ih (hstep a b ha h)

/-- A function that commutes with the steps. -/
theorem exhaust_map {step' : β → Option β} {f : α → β}
    (hf : ∀ a, step' (f a) = (step a).map f) : exhaust step' n (f a) = f (exhaust step n a) := by
  induction n generalizing a with
  | zero => rfl
  | succ n ih =>
    cases h : step a with
    | none =>
      have h' : step' (f a) = none := by rw [hf, h]; rfl
      rw [exhaust_of_none h, exhaust_of_none h']
    | some b =>
      have h' : step' (f a) = some (f b) := by rw [hf, h]; rfl
      rw [exhaust_of_some h, exhaust_of_some h', ih]

section
variable {size : α → Nat} (hsize : ∀ a b, step a = some b → size b < size a)
include hsize

theorem exhaust_done (hn : size a ≤ n) : step (exhaust step n a) = none := by
  induction n generalizing a with
  | zero =>
    cases h : step a with
    | none => rwa [exhaust_of_none h]
    | some b => exact absurd (hsize a b h) (by omega)
  | succ n ih =>
    cases h : step a with
    | none => rwa [exhaust_of_none h]
    | some b =>
      have hb := hsize a b h
      rw [exhaust_of_some h]
      exact ih (by omega)

/-- More fuel than that changes nothing. -/
theorem exhaust_add (hn : size a ≤ n) (m : Nat) : exhaust step (n + m) a = exhaust step n a := by
  induction n generalizing a with
  | zero =>
    cases h : step a with
    | none => rw [exhaust_of_none h, exhaust_of_none h]
    | some b => exact absurd (hsize a b h) (by omega)
  | succ n ih =>
    cases h : step a with
    | none => rw [exhaust_of_none h, exhaust_of_none h]
    | some b =>
      have hb := hsize a b h
      rw [Nat.add_right_comm, exhaust_of_some h, exhaust_of_some h, ih (by omega)]

theorem exhaust_le : size (exhaust step n a) ≤ size a := by
  induction n generalizing a with
  | zero => exact Nat.le_refl _
  | succ n ih =>
    cases h : step a with
    | none => exact Nat.le_of_eq (congrArg size (exhaust_of_none h))
    | some b =>
      have hb := hsize a b h
      have hle := ih (a := b)
      rw [exhaust_of_some h]
      omega

/-- There is no step to do, or the result is smaller. -/
theorem exhaust_or (hn : size a ≤ n) :
    step a = none ∧ exhaust step n a = a ∨ size (exhaust step n a) < size a := by
  cases h : step a with
  | none => exact .inl ⟨rfl, exhaust_of_none h⟩
  | some b =>
    have hb := hsize a b h
    obtain ⟨k, rfl⟩ : ∃ k, n = k + 1 := ⟨n - 1, by omega⟩
    rw [exhaust_of_some h]
    exact .inr (Nat.lt_of_le_of_lt (exhaust_le hsize) hb)

end

end

end Lib
