import Mathlib.Order.Defs.Unbundled
import Mathlib.Tactic.Common

/-!
# Actions that keep their state across exceptions

`Act σ ε α` is a computation on a state `σ` that returns an `α` or throws an `ε` and leaves a
state either way: what was written before a throw stays written, as in an object's method. The
rules are those of a small program logic:

* `Moves R m`: `m` takes the state along the preorder `R`, however it ends; `Keeps f m`, where `R`
  leaves the projection `f` of the state unchanged, is the frame rule of a state record;
* `Throws P m`: an exception that leaves `m` satisfies `P`;
* `Returns P m`: a value that `m` returns satisfies `P`.
-/

namespace Lib

/-- How an action ends; both ends leave a state. -/
inductive Res (σ ε α : Type) where
  | ok (a : α) (s : σ)
  | throw (e : ε) (s : σ)
deriving DecidableEq, Repr

namespace Res

variable {σ ε α β : Type}

/-- The state an end leaves. -/
def state : Res σ ε α → σ
  | ok _ s => s
  | throw _ s => s

@[simp] theorem state_ok (a : α) (s : σ) : (ok a s : Res σ ε α).state = s := rfl
@[simp] theorem state_throw (e : ε) (s : σ) : (throw e s : Res σ ε α).state = s := rfl

end Res

/-- An action on a state `σ` with exceptions `ε`. -/
def Act (σ ε α : Type) : Type := σ → Res σ ε α

namespace Act

variable {σ ε α β γ : Type}

/-- `k` on the value and state of a normal end; an exception passes through. -/
def bind (m : Act σ ε α) (k : α → Act σ ε β) : Act σ ε β := fun s =>
  match m s with
  | .ok a s' => k a s'
  | .throw e s' => .throw e s'

instance : Monad (Act σ ε) where
  pure a := fun s => .ok a s
  bind := bind

/-- The state. -/
def get : Act σ ε σ := fun s => .ok s s

/-- A write. -/
def modify (f : σ → σ) : Act σ ε Unit := fun s => .ok () (f s)

def throw (e : ε) : Act σ ε α := fun s => .throw e s

/-- `h` on an exception, from the state the throw left. -/
def tryCatch (m : Act σ ε α) (h : ε → Act σ ε α) : Act σ ε α := fun s =>
  match m s with
  | .ok a s' => .ok a s'
  | .throw e s' => h e s'

@[simp] theorem pure_apply (a : α) (s : σ) : (pure a : Act σ ε α) s = .ok a s := rfl
@[simp] theorem get_apply (s : σ) : (get : Act σ ε σ) s = .ok s s := rfl
@[simp] theorem modify_apply (f : σ → σ) (s : σ) :
    (modify f : Act σ ε Unit) s = .ok () (f s) := rfl
@[simp] theorem throw_apply (e : ε) (s : σ) : (throw e : Act σ ε α) s = .throw e s := rfl

theorem bind_apply (m : Act σ ε α) (k : α → Act σ ε β) (s : σ) :
    (m >>= k) s = match m s with
      | .ok a s' => k a s'
      | .throw e s' => .throw e s' := rfl

theorem bind_ok {m : Act σ ε α} {s s' : σ} {a : α} (h : m s = .ok a s') (k : α → Act σ ε β) :
    (m >>= k) s = k a s' := by
  rw [bind_apply, h]

theorem bind_throw {m : Act σ ε α} {s s' : σ} {e : ε} (h : m s = .throw e s')
    (k : α → Act σ ε β) : (m >>= k) s = .throw e s' := by
  rw [bind_apply, h]

/-- What has happened when a sequence returns. -/
theorem bind_eq_ok {m : Act σ ε α} {k : α → Act σ ε β} {s s' : σ} {b : β}
    (h : (m >>= k) s = .ok b s') : ∃ a s₁, m s = .ok a s₁ ∧ k a s₁ = .ok b s' := by
  rw [bind_apply] at h
  cases hm : m s with
  | ok a s₁ =>
    rw [hm] at h
    exact ⟨a, s₁, rfl, h⟩
  | throw e s₁ =>
    rw [hm] at h
    cases h

@[simp] theorem pure_bind_apply (a : α) (k : α → Act σ ε β) (s : σ) :
    ((pure a : Act σ ε α) >>= k) s = k a s := rfl
@[simp] theorem get_bind_apply (k : σ → Act σ ε β) (s : σ) :
    ((get : Act σ ε σ) >>= k) s = k s s := rfl
@[simp] theorem modify_bind_apply (f : σ → σ) (k : Unit → Act σ ε β) (s : σ) :
    ((modify f : Act σ ε Unit) >>= k) s = k () (f s) := rfl
@[simp] theorem throw_bind_apply (e : ε) (k : α → Act σ ε β) (s : σ) :
    ((throw e : Act σ ε α) >>= k) s = .throw e s := rfl

/-! ## Moves and frames -/

/-- `m` moves the state along `R`, whether it returns or throws. -/
def Moves (R : σ → σ → Prop) (m : Act σ ε α) : Prop := ∀ s, R s (m s).state

/-- `m` leaves `f` of the state as it is. -/
abbrev Keeps (f : σ → γ) (m : Act σ ε α) : Prop := Moves (fun s s' => f s' = f s) m

instance (f : σ → γ) : IsPreorder σ (fun s s' => f s' = f s) where
  refl _ := rfl
  trans _ _ _ h h' := h'.trans h

section Moves
variable {R : σ → σ → Prop} [IsPreorder σ R]

theorem moves_pure (a : α) : Moves R (pure a : Act σ ε α) := fun s => refl_of R s
theorem moves_get : Moves R (get : Act σ ε σ) := fun s => refl_of R s
theorem moves_throw (e : ε) : Moves R (throw e : Act σ ε α) := fun s => refl_of R s

omit [IsPreorder σ R] in
theorem moves_modify {g : σ → σ} (h : ∀ s, R s (g s)) : Moves R (modify g : Act σ ε Unit) := h

theorem moves_bind {m : Act σ ε α} {k : α → Act σ ε β} (hm : Moves R m)
    (hk : ∀ a, Moves R (k a)) : Moves R (m >>= k) := by
  intro s
  rw [bind_apply]
  have h := hm s
  cases hs : m s with
  | ok a s' =>
    rw [hs] at h
    exact trans_of R h (hk a s')
  | throw e s' =>
    rw [hs] at h
    exact h

omit [IsPreorder σ R] in
theorem moves_ite {p : Prop} [Decidable p] {m m' : Act σ ε α} (h : Moves R m)
    (h' : Moves R m') : Moves R (if p then m else m') := by
  split
  · exact h
  · exact h'

end Moves

/-! ## Exceptions -/

/-- Every exception that leaves `m` satisfies `P`. -/
def Throws (P : ε → Prop) (m : Act σ ε α) : Prop := ∀ s e s', m s = .throw e s' → P e

section Throws
variable {P : ε → Prop}

theorem throws_pure (a : α) : Throws P (pure a : Act σ ε α) := by
  intro s e s' h
  cases h

theorem throws_get : Throws P (get : Act σ ε σ) := by
  intro s e s' h
  cases h

theorem throws_modify (g : σ → σ) : Throws P (modify g : Act σ ε Unit) := by
  intro s e s' h
  cases h

theorem throws_throw {e : ε} (h : P e) : Throws P (throw e : Act σ ε α) := by
  intro s e' s' he
  cases he
  exact h

theorem throws_bind {m : Act σ ε α} {k : α → Act σ ε β} (hm : Throws P m)
    (hk : ∀ a, Throws P (k a)) : Throws P (m >>= k) := by
  intro s e s' h
  rw [bind_apply] at h
  cases hs : m s with
  | ok a s1 =>
    rw [hs] at h
    exact hk a s1 e s' h
  | throw e1 s1 =>
    rw [hs] at h
    cases h
    exact hm s e s' hs

theorem throws_ite {p : Prop} [Decidable p] {m m' : Act σ ε α} (h : Throws P m)
    (h' : Throws P m') : Throws P (if p then m else m') := by
  split
  · exact h
  · exact h'

end Throws

/-! ## Values -/

/-- Every value that `m` returns satisfies `P`. -/
def Returns (P : α → Prop) (m : Act σ ε α) : Prop := ∀ s a s', m s = .ok a s' → P a

theorem returns_pure {P : α → Prop} {a : α} (h : P a) : Returns P (pure a : Act σ ε α) := by
  intro s a' s' ha
  cases ha
  exact h

theorem returns_throw {P : α → Prop} (e : ε) : Returns P (throw e : Act σ ε α) := by
  intro s a s' h
  cases h

theorem returns_bind {P : β → Prop} {m : Act σ ε α} {k : α → Act σ ε β}
    (hk : ∀ a, Returns P (k a)) : Returns P (m >>= k) := by
  intro s b s' h
  rw [bind_apply] at h
  cases hs : m s with
  | ok a s1 =>
    rw [hs] at h
    exact hk a s1 b s' h
  | throw e s1 =>
    rw [hs] at h
    cases h

theorem returns_ite {P : α → Prop} {p : Prop} [Decidable p] {m m' : Act σ ε α}
    (h : Returns P m) (h' : Returns P m') : Returns P (if p then m else m') := by
  split
  · exact h
  · exact h'

end Act

end Lib
