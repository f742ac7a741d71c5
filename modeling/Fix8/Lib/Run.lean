import Mathlib.Tactic.Common

/-!
# Runs of a deterministic system

A system is a step function `step : σ → ι → σ`: the state after the system took an input. A run
is a list of inputs. `Along` is a condition on every step of a run, `Throughout` a property of
every state a run reaches, and `throughout_of_step` the induction rule between the two.
-/

namespace Lib

variable {σ ι : Type}

/-- The state after the inputs of a run. -/
def runFrom (step : σ → ι → σ) (s : σ) (is : List ι) : σ := is.foldl step s

/-- Every step of the run meets `C`, read at the state before the step. -/
def Along (step : σ → ι → σ) (C : σ → ι → Prop) : σ → List ι → Prop
  | _, [] => True
  | s, i :: is => C s i ∧ Along step C (step s i) is

instance Along.decidable (step : σ → ι → σ) (C : σ → ι → Prop) [∀ s i, Decidable (C s i)] :
    ∀ (s : σ) (is : List ι), Decidable (Along step C s is)
  | _, [] => inferInstanceAs (Decidable True)
  | s, i :: is =>
    have := Along.decidable step C (step s i) is
    inferInstanceAs (Decidable (C s i ∧ Along step C (step s i) is))

/-- `P` holds of the first state of the run and of every state it reaches. -/
def Throughout (step : σ → ι → σ) (P : σ → Prop) : σ → List ι → Prop
  | s, [] => P s
  | s, i :: is => P s ∧ Throughout step P (step s i) is

variable {step : σ → ι → σ} {C : σ → ι → Prop} {P Q : σ → Prop}

theorem Throughout.head : ∀ {is : List ι} {s : σ}, Throughout step P s is → P s
  | [], _, h => h
  | _ :: _, _, h => h.1

@[simp] theorem runFrom_nil (s : σ) : runFrom step s [] = s := rfl

@[simp] theorem runFrom_cons (s : σ) (i : ι) (is : List ι) :
    runFrom step s (i :: is) = runFrom step (step s i) is := rfl

theorem runFrom_append (s : σ) (is js : List ι) :
    runFrom step s (is ++ js) = runFrom step (runFrom step s is) js := List.foldl_append

/-- The invariant rule: what every step that meets `C` keeps, a run of such steps keeps. -/
theorem throughout_of_step (hstep : ∀ s i, P s → C s i → P (step s i)) :
    ∀ {is : List ι} {s : σ}, P s → Along step C s is → Throughout step P s is
  | [], _, hs, _ => hs
  | _ :: _, _, hs, hc =>
    ⟨hs, throughout_of_step hstep (hstep _ _ hs hc.1) hc.2⟩

/-- What every step keeps, a run keeps. -/
theorem runFrom_of_step (hstep : ∀ s i, P s → P (step s i)) {s : σ} (hs : P s) :
    ∀ is : List ι, P (runFrom step s is)
  | [] => hs
  | i :: is => runFrom_of_step hstep (hstep s i hs) is

/-- Two conditions that an invariant makes the same are the same along a run, when the steps that
meet them keep it. -/
theorem along_congr_of_step {C' : σ → ι → Prop} (hC : ∀ s i, P s → (C s i ↔ C' s i))
    (hstep : ∀ s i, P s → C s i → P (step s i)) :
    ∀ {is : List ι} {s : σ}, P s → (Along step C s is ↔ Along step C' s is)
  | [], _, _ => Iff.rfl
  | i :: _, s, hs => by
    constructor
    · rintro ⟨hc, hrest⟩
      exact ⟨(hC s i hs).1 hc, (along_congr_of_step hC hstep (hstep s i hs hc)).1 hrest⟩
    · rintro ⟨hc', hrest⟩
      have hc := (hC s i hs).2 hc'
      exact ⟨hc, (along_congr_of_step hC hstep (hstep s i hs hc)).2 hrest⟩

/-- Two conditions that an invariant makes the same are the same along a run. -/
theorem along_congr {C' : σ → ι → Prop} (hC : ∀ s i, P s → (C s i ↔ C' s i))
    (hstep : ∀ s i, P s → P (step s i)) {is : List ι} {s : σ} (hs : P s) :
    Along step C s is ↔ Along step C' s is :=
  along_congr_of_step hC (fun s i hs _ => hstep s i hs) hs

/-- Where a step comes to `P` exactly from a state and an input that meet `C`, and an invariant is
kept, a run that begins in `P` stays there exactly when all its steps meet `C`. -/
theorem throughout_iff_along {I : σ → Prop} (hstep : ∀ s i, I s → I (step s i))
    (hiff : ∀ s i, I s → (P (step s i) ↔ C s i)) :
    ∀ {is : List ι} {s : σ}, I s → P s → (Throughout step P s is ↔ Along step C s is)
  | [], _, _, hp => iff_of_true hp trivial
  | i :: _, s, hs, hp => by
    constructor
    · rintro ⟨-, hrest⟩
      have hp' : P (step s i) := hrest.head
      exact ⟨(hiff s i hs).1 hp', (throughout_iff_along hstep hiff (hstep s i hs) hp').1 hrest⟩
    · rintro ⟨hc, hrest⟩
      have hp' := (hiff s i hs).2 hc
      exact ⟨hp, (throughout_iff_along hstep hiff (hstep s i hs) hp').2 hrest⟩

theorem Throughout.mono (hpq : ∀ s, P s → Q s) :
    ∀ {is : List ι} {s : σ}, Throughout step P s is → Throughout step Q s is
  | [], _, h => hpq _ h
  | _ :: _, _, h => ⟨hpq _ h.1, h.2.mono hpq⟩

theorem Throughout.last : ∀ {is : List ι} {s : σ}, Throughout step P s is →
    P (runFrom step s is)
  | [], _, h => h
  | _ :: _, _, h => h.2.last

end Lib
