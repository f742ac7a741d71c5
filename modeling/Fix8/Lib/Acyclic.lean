import Mathlib.Order.WellFoundedSet

/-!
# Relations without a cycle

A relation in which nothing leads back to where it started, and what follows where only finitely
many points lead on: an induction along it.

* `Acyclic.wellFounded`: it is well founded backwards;
* `acyclic_of_rank`: a rank that decreases along it excludes a cycle.
-/

namespace Lib

variable {α : Type} {r : α → α → Prop}

/-- Nothing leads back to itself. -/
def Acyclic (r : α → α → Prop) : Prop := ∀ a, ¬ Relation.TransGen r a a

/-- Without a cycle, and with finitely many points that lead on, every way comes to an end. -/
theorem Acyclic.wellFounded (h : Acyclic r) (hfin : {a | ∃ b, r a b}.Finite) :
    WellFounded (flip r) := by
  have hstrict : IsStrictOrder α (flip (Relation.TransGen r)) :=
    { irrefl := fun a => h a, trans := fun a b c hab hbc => Relation.TransGen.trans hbc hab }
  have hon : Set.WellFoundedOn {a | ∃ b, r a b} (flip (Relation.TransGen r)) := hfin.wellFoundedOn
  have hwf := Set.wellFoundedOn_iff.1 hon
  refine ⟨fun a => ?_⟩
  induction a using hwf.induction with
  | _ a ih =>
    refine ⟨a, fun b hab => ?_⟩
    by_cases hb : ∃ c, r b c
    · exact ih b ⟨Relation.TransGen.single hab, hb, ⟨b, hab⟩⟩
    · exact ⟨b, fun c hbc => absurd ⟨c, hbc⟩ hb⟩

/-- A rank that decreases at each step excludes a cycle. -/
theorem acyclic_of_rank (rank : α → Nat) (h : ∀ a b, r a b → rank b < rank a) : Acyclic r := by
  have hdec : ∀ {a b}, Relation.TransGen r a b → rank b < rank a := by
    intro a b hab
    induction hab with
    | single hab => exact h _ _ hab
    | tail _ hbc ih => exact (h _ _ hbc).trans ih
  exact fun a haa => lt_irrefl _ (hdec haa)

end Lib
