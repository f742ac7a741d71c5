import Mathlib.Tactic.Common
import Mathlib.Data.Nat.Basic

/-!
# Tilings

`Tiles p rs q` says that the half-open ranges `rs` are not empty, ascending and contiguous, from
`p` to `q`: nothing between the two is left out and nothing is covered twice.
-/

namespace Lib

/-- The ranges `[lo, hi)` of the list lie end to end from `p` to `q`. -/
def Tiles : Nat → List (Nat × Nat) → Nat → Prop
  | p, [], q => p = q
  | p, r :: rs, q => r.1 = p ∧ p < r.2 ∧ Tiles r.2 rs q

variable {p q t : Nat} {r x : Nat × Nat} {rs rs' : List (Nat × Nat)}

@[simp] theorem tiles_nil : Tiles p [] q ↔ p = q := Iff.rfl

@[simp] theorem tiles_cons : Tiles p (r :: rs) q ↔ r.1 = p ∧ p < r.2 ∧ Tiles r.2 rs q := Iff.rfl

/-- No range of a tiling starts below it. -/
theorem Tiles.le_of_mem : ∀ {p : Nat} {rs : List (Nat × Nat)}, Tiles p rs q → x ∈ rs → p ≤ x.1
  | p, r :: rs, h, hx => by
    rcases List.mem_cons.1 hx with rfl | hx
    · exact le_of_eq h.1.symm
    · exact le_of_lt (lt_of_lt_of_le h.2.1 (Tiles.le_of_mem h.2.2 hx))

/-- The ranges of a tiling are not empty. -/
theorem Tiles.lt_of_mem : ∀ {p : Nat} {rs : List (Nat × Nat)}, Tiles p rs q → x ∈ rs → x.1 < x.2
  | p, r :: rs, h, hx => by
    rcases List.mem_cons.1 hx with rfl | hx
    · exact lt_of_eq_of_lt h.1 h.2.1
    · exact Tiles.lt_of_mem h.2.2 hx

/-- No range of a tiling ends beyond it. -/
theorem Tiles.le_end : ∀ {p : Nat} {rs : List (Nat × Nat)}, Tiles p rs q → p ≤ q ∧
    ∀ x ∈ rs, x.2 ≤ q
  | _, [], h => ⟨le_of_eq h, by simp⟩
  | p, r :: rs, h => by
    obtain ⟨h1, h2⟩ := Tiles.le_end h.2.2
    have := h.2.1
    refine ⟨by omega, fun x hx => ?_⟩
    rcases List.mem_cons.1 hx with rfl | hx
    · exact h1
    · exact h2 x hx

end Lib
