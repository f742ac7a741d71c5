import Mathlib.Tactic.Common

/-!
# Machines that stop

A machine is a step function on its states: a step fails, goes on from another state, or is done
with a result. `Reaches` is a run up to some state, `Yields` a run up to a result.

* `yields_iff_run`: a run with a bound on its steps;
* `Reaches.yields_iff`: a machine has one run;
* `Reaches.invariant`, `Yields.invariant`: what every step keeps;
* **`Yields.simulate`**: a machine that can follow every step of another one yields what it yields.
-/

namespace Lib.Machine

/-- What a step comes to. -/
inductive Progress (σ τ : Type) where
  | more (s : σ)
  | done (t : τ)

variable {σ σ' τ τ' ε ε' : Type}

/-- At most `fuel` steps. -/
def run (step : σ → Except ε (Progress σ τ)) : Nat → σ → Option (Except ε τ)
  | 0, _ => none
  | fuel + 1, s =>
    match step s with
    | .error e => some (.error e)
    | .ok (.done t) => some (.ok t)
    | .ok (.more s') => run step fuel s'

/-- The state after some steps, or after as many of them as go on. -/
def after (step : σ → Except ε (Progress σ τ)) : Nat → σ → σ
  | 0, s => s
  | n + 1, s =>
    match step s with
    | .ok (.more s') => after step n s'
    | _ => s

/-- A run up to some state. -/
inductive Reaches (step : σ → Except ε (Progress σ τ)) (s : σ) : σ → Prop
  | here : Reaches step s s
  | next {s₁ s₂ : σ} : Reaches step s s₁ → step s₁ = .ok (.more s₂) → Reaches step s s₂

/-- A run up to a result. -/
inductive Yields (step : σ → Except ε (Progress σ τ)) : σ → τ → Prop
  | done {s : σ} {t : τ} : step s = .ok (.done t) → Yields step s t
  | more {s s' : σ} {t : τ} : step s = .ok (.more s') → Yields step s' t → Yields step s t

variable {step : σ → Except ε (Progress σ τ)} {s s' : σ} {t t' : τ}

theorem yields_of_run {fuel : Nat} (h : run step fuel s = some (.ok t)) : Yields step s t := by
  induction fuel generalizing s with
  | zero => cases h
  | succ fuel ih =>
    rw [run] at h
    split at h
    · cases h
    · next hstep =>
      cases h
      exact .done hstep
    · next hstep => exact .more hstep (ih h)

theorem Yields.run (h : Yields step s t) : ∃ fuel, run step fuel s = some (.ok t) := by
  induction h with
  | done hstep => exact ⟨1, by rw [Machine.run, hstep]⟩
  | more hstep _ ih =>
    obtain ⟨fuel, hfuel⟩ := ih
    exact ⟨fuel + 1, by simp only [Machine.run, hstep, hfuel]⟩

/-- Fuel is a bound on the run, and nothing else. -/
theorem yields_iff_run : Yields step s t ↔ ∃ fuel, Machine.run step fuel s = some (.ok t) :=
  ⟨Yields.run, fun ⟨_, h⟩ => yields_of_run h⟩

/-- A run that fails yields nothing. -/
theorem not_yields_of_run {fuel : Nat} {e : ε} (h : Machine.run step fuel s = some (.error e)) :
    ¬Yields step s t := by
  intro hyields
  induction hyields generalizing fuel with
  | done hstep =>
    cases fuel with
    | zero => cases h
    | succ fuel =>
      rw [Machine.run, hstep] at h
      cases h
  | more hstep _ ih =>
    cases fuel with
    | zero => cases h
    | succ fuel =>
      rw [Machine.run, hstep] at h
      exact ih h

/-! ## One run -/

theorem yields_of_more (hstep : step s = .ok (.more s')) : Yields step s t ↔ Yields step s' t := by
  constructor
  · intro h
    cases h with
    | done hdone =>
      rw [hstep] at hdone
      cases hdone
    | more hmore h =>
      rw [hstep] at hmore
      cases hmore
      exact h
  · exact .more hstep

theorem Reaches.yields_iff (h : Reaches step s s') : Yields step s t ↔ Yields step s' t := by
  induction h with
  | here => rfl
  | next _ hstep ih => exact ih.trans (yields_of_more hstep)

theorem Reaches.trans {s'' : σ} (h : Reaches step s s') (h' : Reaches step s' s'') :
    Reaches step s s'' := by
  induction h' with
  | here => exact h
  | next _ hstep ih => exact ih.next hstep

theorem reaches_after (n : Nat) : Reaches step s (after step n s) := by
  induction n generalizing s with
  | zero => exact .here
  | succ n ih =>
    rw [after]
    split
    · next hstep => exact (Reaches.here.next hstep).trans ih
    · exact .here

/-! ## Invariants -/

theorem Reaches.invariant {P : σ → Prop} (h : Reaches step s s') (hs : P s)
    (hstep : ∀ s s', P s → step s = .ok (.more s') → P s') : P s' := by
  induction h with
  | here => exact hs
  | next _ hnext ih => exact hstep _ _ ih hnext

theorem Yields.invariant {P : σ → Prop} {Q : τ → Prop} (h : Yields step s t) (hs : P s)
    (hmore : ∀ s s', P s → step s = .ok (.more s') → P s')
    (hdone : ∀ s t, P s → step s = .ok (.done t) → Q t) : Q t := by
  induction h with
  | done hstep => exact hdone _ _ hs hstep
  | more hstep _ ih => exact ih (hmore _ _ hs hstep)

/-! ## Simulation -/

/-- A step that follows another one. -/
def Follows (R : σ → σ' → Prop) (S : τ → τ' → Prop) :
    Progress σ τ → Progress σ' τ' → Prop
  | .more s, .more s' => R s s'
  | .done t, .done t' => S t t'
  | _, _ => False

/-- **Simulation**: every step that does not fail is followed. -/
theorem Yields.simulate {step' : σ' → Except ε' (Progress σ' τ')} {R : σ → σ' → Prop}
    {S : τ → τ' → Prop}
    (hstep : ∀ s s' o, R s s' → step s = .ok o → ∃ o', step' s' = .ok o' ∧ Follows R S o o')
    {s' : σ'} (h : Yields step s t) (hR : R s s') : ∃ t', Yields step' s' t' ∧ S t t' := by
  induction h generalizing s' with
  | done hdone =>
    obtain ⟨o', hstep', hfollows⟩ := hstep _ _ _ hR hdone
    cases o' with
    | more => exact hfollows.elim
    | done t' => exact ⟨t', .done hstep', hfollows⟩
  | more hmore _ ih =>
    obtain ⟨o', hstep', hfollows⟩ := hstep _ _ _ hR hmore
    cases o' with
    | more s'' =>
      obtain ⟨t', hyields, hS⟩ := ih hfollows
      exact ⟨t', .more hstep' hyields, hS⟩
    | done => exact hfollows.elim

end Lib.Machine
