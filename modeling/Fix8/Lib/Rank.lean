import Mathlib.Data.List.Nodup
import Mathlib.Order.Lattice

/-!
# Places in a sorted list

Of two elements of a list one stands before the other. A list without duplicates has its elements at
the places from 0 on, and a stable sort of a list that ascends by one key has them in the order of
another key, and where these are the same in that of the first.
-/

namespace Lib

section
variable {α : Type} {l : List α} {a b : α}

/-- Of two elements one stands before the other. -/
theorem pair_sublist_or (ha : a ∈ l) (hb : b ∈ l) (hne : a ≠ b) :
    [a, b].Sublist l ∨ [b, a].Sublist l := by
  induction l with
  | nil => cases ha
  | cons x l ih =>
    rcases List.mem_cons.1 ha with rfl | ha'
    · rcases List.mem_cons.1 hb with rfl | hb'
      · exact absurd rfl hne
      · exact .inl ((List.singleton_sublist.2 hb').cons_cons a)
    · rcases List.mem_cons.1 hb with rfl | hb'
      · exact .inr ((List.singleton_sublist.2 ha').cons_cons b)
      · exact (ih ha' hb').imp (·.cons x) (·.cons x)

theorem pairwise_of_sublist {r : α → α → Prop} (h : l.Pairwise r) (hpair : [a, b].Sublist l) :
    r a b := List.pairwise_pair.1 (h.sublist hpair)

variable [DecidableEq α]

/-- What stands before has the lower place. -/
theorem idxOf_lt_of_sublist (hnodup : l.Nodup) (hpair : [a, b].Sublist l) :
    l.idxOf a < l.idxOf b := by
  obtain ⟨front, rest, rfl, ha, hb⟩ := List.cons_sublist_iff.1 hpair
  have hb' : b ∈ rest := List.singleton_sublist.1 hb
  have hnot : b ∉ front := fun hmem => (List.nodup_append.1 hnodup).2.2 b hmem b hb' rfl
  rw [List.idxOf_append_of_mem ha, List.idxOf_append_of_notMem hnot]
  have hlt : front.idxOf a < front.length := List.idxOf_lt_length_of_mem ha
  omega

/-- The places of the elements are those from 0 on. -/
theorem map_idxOf (hnodup : l.Nodup) : l.map l.idxOf = List.range l.length := by
  refine List.ext_getElem (by simp) fun i h _ => ?_
  rw [List.getElem_map, List.getElem_range]
  exact hnodup.idxOf_getElem i (by simpa using h)

end

section
variable {α κ ν : Type} [LinearOrder κ] [LinearOrder ν] {key : α → κ} {value : α → ν} {l : List α}
  {a b : α}

/-- Before in the order of a value, and of the key where the value is the same. -/
def Precedes (key : α → κ) (value : α → ν) (a b : α) : Prop :=
  value a < value b ∨ value a = value b ∧ key a < key b

instance : Decidable (Precedes key value a b) := inferInstanceAs (Decidable (_ ∨ _))

theorem precedes_or (value : α → ν) (hne : key a ≠ key b) :
    Precedes key value a b ∨ Precedes key value b a := by
  rcases lt_trichotomy (value a) (value b) with hlt | heq | hgt
  · exact .inl (.inl hlt)
  · rcases lt_or_gt_of_ne hne with hkey | hkey
    · exact .inl (.inr ⟨heq, hkey⟩)
    · exact .inr (.inr ⟨heq.symm, hkey⟩)
  · exact .inr (.inl hgt)

/-- **A stable sort** of what ascends by its key. -/
theorem sublist_mergeSort_of_precedes (hsorted : l.Pairwise fun a b => key a < key b) (ha : a ∈ l)
    (hb : b ∈ l) (h : Precedes key value a b) :
    [a, b].Sublist (l.mergeSort fun a b => value a ≤ value b) := by
  have htrans : ∀ a b c : α, decide (value a ≤ value b) = true →
      decide (value b ≤ value c) = true → decide (value a ≤ value c) = true := by
    intro a b c hab hbc
    rw [decide_eq_true_eq] at hab hbc ⊢
    exact hab.trans hbc
  have htotal : ∀ a b : α, (decide (value a ≤ value b) || decide (value b ≤ value a)) = true := by
    intro a b
    rw [Bool.or_eq_true, decide_eq_true_eq, decide_eq_true_eq]
    exact le_total _ _
  have hne : a ≠ b := by
    rintro rfl
    rcases h with hlt | ⟨-, hlt⟩
    · exact lt_irrefl _ hlt
    · exact lt_irrefl _ hlt
  rcases pair_sublist_or (List.mem_mergeSort.2 ha) (List.mem_mergeSort.2 hb) hne with hpair | hpair
  · exact hpair
  · have hordered := List.pairwise_mergeSort htrans htotal l
    have hdecide := pairwise_of_sublist hordered hpair
    have hle : value b ≤ value a := of_decide_eq_true hdecide
    obtain ⟨heq, hkey⟩ := h.resolve_left (not_lt.2 hle)
    rcases pair_sublist_or ha hb hne with hpair' | hpair'
    · exact List.pair_sublist_mergeSort htrans htotal (decide_eq_true heq.le) hpair'
    · exact absurd (pairwise_of_sublist hsorted hpair') (not_lt.2 hkey.le)

end

end Lib
