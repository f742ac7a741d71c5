import Mathlib.Algebra.BigOperators.Group.Finset.Basic
import Mathlib.Algebra.BigOperators.Group.List.Lemmas
import Mathlib.Algebra.BigOperators.ModEq
import Mathlib.Algebra.Order.BigOperators.Group.Finset
import Mathlib.Data.Nat.ModEq
import Mathlib.Tactic.Ring

/-!
# Sums of lanes

Words of `n` lanes in base `b`, added as whole numbers: what the sum of the lanes of a sum is
(`laneSum_sum`), with the carries that run from lane to lane counted (`laneCarry`), and what is left
of the counts when they are packed into the lanes of one word (`laneSum_pack`).
-/

namespace Lib

open Finset

/-- The sum of the first `n` shifts of a word: modulo `b`, the sum of its lanes. -/
def laneSum (b n x : Nat) : Nat := ∑ k ∈ range n, x / b ^ k

/-- The carries into lane `k` when the words are added up. -/
def laneCarry (b : Nat) (xs : List Nat) (k : Nat) : Nat := (xs.map (· % b ^ k)).sum / b ^ k

/-- One word with a count in each of its first `n` lanes. -/
def pack (b : Nat) (c : Nat → Nat) (n : Nat) : Nat := ∑ k ∈ range n, c k * b ^ k

/-- What the counts below lane `k` carry into it. -/
def spill (b : Nat) (c : Nat → Nat) (k : Nat) : Nat := pack b c k / b ^ k

variable {b n k : Nat}

/-! ## A word cut to its lanes -/

theorem mod_pow_div_modEq (x : Nat) (h : k < n) : x % b ^ n / b ^ k ≡ x / b ^ k [MOD b] := by
  obtain ⟨d, rfl⟩ : ∃ d, n = k + (d + 1) := ⟨n - k - 1, by omega⟩
  rw [pow_add, Nat.mod_mul_right_div_self]
  exact Nat.mod_mod_of_dvd _ (dvd_pow_self b d.succ_ne_zero)

theorem laneSum_mod (x : Nat) : laneSum b n (x % b ^ n) ≡ laneSum b n x [MOD b] := by
  apply Nat.ModEq.sum
  intro k hk
  exact mod_pow_div_modEq x (mem_range.mp hk)

/-! ## The carries of a sum -/

theorem laneCarry_nil (k : Nat) : laneCarry b [] k = 0 := by
  simp [laneCarry]

theorem sum_div_pow (hb : 0 < b) (xs : List Nat) (k : Nat) :
    xs.sum / b ^ k = (xs.map (· / b ^ k)).sum + laneCarry b xs k := by
  have hpos : 0 < b ^ k := Nat.pow_pos hb
  have hsplit : xs.sum = b ^ k * (xs.map (· / b ^ k)).sum + (xs.map (· % b ^ k)).sum := by
    induction xs with
    | nil => simp
    | cons x xs ih =>
      rw [List.sum_cons, List.map_cons, List.sum_cons, List.map_cons, List.sum_cons, ih]
      have hx := Nat.div_add_mod x (b ^ k)
      rw [mul_add]
      omega
  rw [laneCarry, hsplit, Nat.mul_add_div hpos]

/-- **The lanes of a sum**: the lanes of the words and one for each carry. -/
theorem laneSum_sum (hb : 0 < b) (xs : List Nat) :
    laneSum b n xs.sum =
      (xs.map (laneSum b n)).sum + ∑ k ∈ range n, laneCarry b xs k := by
  have hlanes : ∀ ys : List Nat,
      ∑ k ∈ range n, (ys.map (· / b ^ k)).sum = (ys.map (laneSum b n)).sum := by
    intro ys
    induction ys with
    | nil => simp
    | cons y ys ih => simp only [List.map_cons, List.sum_cons, sum_add_distrib, ih, laneSum]
  rw [laneSum, sum_congr rfl fun k _ => sum_div_pow hb xs k, sum_add_distrib, hlanes]

theorem sum_map_mod (xs : List Nat) (m : Nat) : (xs.map (· % m)).sum % m = xs.sum % m := by
  induction xs with
  | nil => rfl
  | cons x xs ih =>
    rw [List.map_cons, List.sum_cons, List.sum_cons, Nat.add_mod, Nat.mod_mod, ih, ← Nat.add_mod]

/-- One more word carries into lane `k` when its lower lanes and those of the sum overflow. -/
theorem laneCarry_append (hb : 0 < b) (xs : List Nat) (x k : Nat) :
    laneCarry b (xs ++ [x]) k = laneCarry b xs k + (xs.sum % b ^ k + x % b ^ k) / b ^ k := by
  have hpos : 0 < b ^ k := Nat.pow_pos hb
  rw [laneCarry, laneCarry, List.map_append, List.sum_append, ← sum_map_mod xs (b ^ k)]
  generalize (xs.map (· % b ^ k)).sum = s
  have hs := Nat.div_add_mod s (b ^ k)
  calc (s + (List.map (· % b ^ k) [x]).sum) / b ^ k
      = (b ^ k * (s / b ^ k) + (s % b ^ k + x % b ^ k)) / b ^ k := by
        rw [← add_assoc, hs]
        simp
    _ = s / b ^ k + (s % b ^ k + x % b ^ k) / b ^ k := Nat.mul_add_div hpos _ _

theorem laneCarry_lt (hb : 0 < b) (xs : List Nat) (h : xs ≠ []) :
    laneCarry b xs k < xs.length := by
  have hpos : 0 < b ^ k := Nat.pow_pos hb
  have hsum : (xs.map (· % b ^ k)).sum < xs.length * b ^ k := by
    induction xs with
    | nil => exact absurd rfl h
    | cons x xs ih =>
      have hx := Nat.mod_lt x hpos
      rw [List.map_cons, List.sum_cons, List.length_cons, Nat.succ_mul]
      by_cases hnil : xs = []
      · subst hnil
        simpa using hx
      · have := ih hnil
        omega
  exact Nat.div_lt_of_lt_mul (by rwa [mul_comm] at hsum)

/-! ## Counts in the lanes of one word -/

theorem pack_succ (c : Nat → Nat) (n : Nat) : pack b c (n + 1) = pack b c n + c n * b ^ n :=
  sum_range_succ _ _

theorem pack_congr {c d : Nat → Nat} (h : ∀ k < n, c k = d k) : pack b c n = pack b d n :=
  sum_congr rfl fun k hk => by rw [h k (mem_range.mp hk)]

theorem pack_add (c d : Nat → Nat) (n : Nat) :
    pack b (fun k => c k + d k) n = pack b c n + pack b d n := by
  rw [pack, pack, pack, ← sum_add_distrib]
  exact sum_congr rfl fun k _ => add_mul _ _ _

theorem pack_div_modEq (hb : 0 < b) (c : Nat → Nat) (h : k < n) :
    pack b c n / b ^ k ≡ c k + spill b c k [MOD b] := by
  have hpos : 0 < b ^ k := Nat.pow_pos hb
  induction n, h using Nat.le_induction with
  | base =>
    rw [pack_succ, Nat.add_mul_div_right _ _ hpos, add_comm]
    rfl
  | succ n hn ih =>
    obtain ⟨d, rfl⟩ : ∃ d, n = k + 1 + d := ⟨n - (k + 1), by omega⟩
    have hlane : c (k + 1 + d) * b ^ (k + 1 + d) = c (k + 1 + d) * b ^ d * b * b ^ k := by ring
    rw [pack_succ, hlane, Nat.add_mul_div_right _ _ hpos]
    exact Nat.ModEq.trans (Nat.add_mul_mod_self_right _ _ _) ih

/-- **The lanes of packed counts**: the counts and what the lanes spill into each other. -/
theorem laneSum_pack (hb : 0 < b) (c : Nat → Nat) :
    laneSum b n (pack b c n) ≡
      ∑ k ∈ range n, c k + ∑ k ∈ range n, spill b c k [MOD b] := by
  rw [← sum_add_distrib]
  apply Nat.ModEq.sum
  intro k hk
  exact pack_div_modEq hb c (mem_range.mp hk)

theorem pack_lt (c : Nat → Nat) (h : ∀ j < n, c j < b) : pack b c n < b ^ n := by
  induction n with
  | zero => simp [pack]
  | succ n ih =>
    have hlow := ih fun j hj => h j (by omega)
    have hlane : c n * b ^ n + b ^ n ≤ b ^ (n + 1) := by
      rw [pow_succ, mul_comm (b ^ n), ← Nat.succ_mul]
      exact Nat.mul_le_mul_right _ (h n (by omega))
    rw [pack_succ]
    omega

/-- Counts that fit in their lanes spill nothing. -/
theorem spill_eq_zero (c : Nat → Nat) (h : ∀ j < k, c j < b) : spill b c k = 0 :=
  Nat.div_eq_of_lt (pack_lt c h)

end Lib
