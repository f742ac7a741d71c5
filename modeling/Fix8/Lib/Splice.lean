import Mathlib.Data.List.Basic

/-!
# Insertions into a list

`splice l ins` has `u` inserted in front of the element at `n` of `l` for each `(n, u)` of `ins`,
where the places come in order.

* `length_splice`, **`take_splice`**: what stands in front of the insertions;
* **`drop_splice`**: what stands behind the first of them;
* **`drop_splice_cons`**, `drop_splice_same`: an insertion stands at its place.
-/

namespace Lib

variable {α : Type}

/-- The list with the insertions, of which the later ones are made first. -/
def splice (l : List α) : List (Nat × List α) → List α
  | [] => l
  | (n, u) :: ins => (splice l ins).take n ++ u ++ (splice l ins).drop n

/-- What is inserted. -/
def inserted (ins : List (Nat × List α)) : List α := ins.flatMap (·.2)

section
variable {l u : List α} {ins done todo : List (Nat × List α)} {n x : Nat}

@[simp] theorem inserted_nil : inserted ([] : List (Nat × List α)) = [] := rfl

@[simp] theorem inserted_cons {i : Nat × List α} :
    inserted (i :: ins) = i.2 ++ inserted ins := List.flatMap_cons

@[simp] theorem inserted_append :
    inserted (done ++ todo) = inserted done ++ inserted todo := List.flatMap_append

theorem length_splice : (splice l ins).length = l.length + (inserted ins).length := by
  induction ins with
  | nil => rfl
  | cons i ins ih =>
    obtain ⟨n, u⟩ := i
    simp only [splice, inserted_cons, List.length_append, List.length_take, List.length_drop]
    omega

theorem le_length_splice : l.length ≤ (splice l ins).length := by
  rw [length_splice]
  exact Nat.le_add_right _ _

/-- In front of all insertions stands the list. -/
theorem take_splice (hx : x ≤ l.length) (h : ∀ i ∈ ins, x ≤ i.1) :
    (splice l ins).take x = l.take x := by
  induction ins with
  | nil => rfl
  | cons i ins ih =>
    obtain ⟨n, u⟩ := i
    have hn : x ≤ n := h _ List.mem_cons_self
    have hlength : l.length ≤ (splice l ins).length := le_length_splice
    rw [splice, List.append_assoc, List.take_append_of_le_length
      (by rw [List.length_take]; omega), List.take_take, Nat.min_eq_left hn]
    exact ih fun i hi => h i (List.mem_cons_of_mem _ hi)

/-- An insertion, with what stands behind it. -/
theorem drop_splice_cons (hn : n ≤ l.length) :
    (splice l ((n, u) :: ins)).drop n = u ++ (splice l ins).drop n := by
  have hlength : ((splice l ins).take n).length = n := by
    rw [List.length_take]
    exact Nat.min_eq_left (Nat.le_trans hn le_length_splice)
  rw [splice, List.append_assoc]
  conv_lhs => enter [1]; rw [← hlength]
  exact List.drop_left

/-- Behind the first insertions the list goes on with the others. -/
theorem drop_splice (h : ∀ i ∈ done, i.1 ≤ x ∧ i.1 ≤ l.length) :
    (splice l (done ++ todo)).drop (x + (inserted done).length) = (splice l todo).drop x := by
  induction done with
  | nil => rfl
  | cons i done ih =>
    obtain ⟨n, u⟩ := i
    have hx : n ≤ x := (h _ List.mem_cons_self).1
    have hn : n ≤ l.length := (h _ List.mem_cons_self).2
    have hrest := ih fun i hi => h i (List.mem_cons_of_mem _ hi)
    have hoffset : x + (inserted ((n, u) :: done)).length =
        n + (u.length + (x + (inserted done).length - n)) := by
      simp only [inserted_cons, List.length_append]
      omega
    rw [hoffset, ← List.drop_drop, List.cons_append, drop_splice_cons hn, ← List.drop_drop,
      List.drop_left, List.drop_drop, ← hrest]
    congr 1
    omega

/-- Insertions at one place stand there one behind the other. -/
theorem drop_splice_same (hn : n ≤ l.length) (h : ∀ i ∈ ins, i.1 = n) :
    (splice l ins).drop n = inserted ins ++ l.drop n := by
  induction ins with
  | nil => rfl
  | cons i ins ih =>
    obtain ⟨k, u⟩ := i
    obtain rfl : k = n := h _ List.mem_cons_self
    rw [drop_splice_cons hn, ih fun i hi => h i (List.mem_cons_of_mem _ hi), inserted_cons,
      List.append_assoc]

end

end Lib
