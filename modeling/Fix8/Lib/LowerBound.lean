import Fix8.Lib.OrdMap
import Mathlib.Data.List.TakeWhile

/-!
# Searches in sorted tables

A lower bound is found by halving a range of indices, and a key is looked up by testing the entry at
the lower bound.

* `lowerBound_spec`: what is below the index that is found, and what is not;
* **`findSorted_eq_some`**: in a table that is sorted by its keys, what a look-up finds;
* **`partitionPoint_eq`**: in a list that begins with what has a property, where that ends;
  `partitionPointM_eq`: the same search where an element has to be read;
* **`binarySearch_iff`**, `getElem?_lowerBoundOf_of_mem`: the searches for an element.
-/

namespace Lib

/-- The halving loop over the `len` indices from `first`. -/
def lowerBoundFrom (below : Nat → Bool) : Nat → Nat → Nat → Nat
  | 0, first, _ => first
  | fuel + 1, first, len =>
    if len = 0 then first
    else
      let half := len / 2
      if below (first + half) then lowerBoundFrom below fuel (first + half + 1) (len - half - 1)
      else lowerBoundFrom below fuel first half

/-- The first of `n` indices that is not `below`, or `n`. -/
def lowerBound (below : Nat → Bool) (n : Nat) : Nat := lowerBoundFrom below n 0 n

/-- `i` is where the indices from `first` to `last` stop being `below`. -/
structure IsLowerBound (below : Nat → Bool) (first last i : Nat) : Prop where
  ge : first ≤ i
  le : i ≤ last
  before : ∀ j, first ≤ j → j < i → below j = true
  behind : ∀ j, i ≤ j → j < last → below j = false

section
variable {below : Nat → Bool} {fuel first len : Nat}

theorem lowerBoundFrom_spec (hmono : ∀ i j, i ≤ j → below j = true → below i = true)
    (hfuel : len ≤ fuel) :
    IsLowerBound below first (first + len) (lowerBoundFrom below fuel first len) := by
  induction fuel generalizing first len with
  | zero =>
    obtain rfl := Nat.le_zero.1 hfuel
    exact ⟨Nat.le_refl _, Nat.le_refl _, fun j hge hlt => by simp only [lowerBoundFrom] at hlt; omega,
      fun j hge hlt => by simp only [lowerBoundFrom] at hge; omega⟩
  | succ fuel ih =>
    unfold lowerBoundFrom
    split
    · subst_vars
      exact ⟨Nat.le_refl _, Nat.le_refl _, fun j hge hlt => by omega, fun j hge hlt => by omega⟩
    · rename_i hlen
      dsimp only
      have hhalf : len / 2 < len := Nat.div_lt_self (Nat.pos_of_ne_zero hlen) (by decide)
      split
      · rename_i hmid
        have hrec : IsLowerBound below (first + len / 2 + 1) _ _ :=
          ih (by omega : len - len / 2 - 1 ≤ fuel)
        obtain ⟨hge, hle, hbefore, hbehind⟩ := hrec
        refine ⟨by omega, by omega, fun j hj hlt => ?_, fun j hj hlt => hbehind j hj (by omega)⟩
        rcases Nat.lt_or_ge (first + len / 2) j with hgt | hle'
        · exact hbefore j (by omega) hlt
        · exact hmono j _ hle' hmid
      · rename_i hmid
        have hrec : IsLowerBound below first _ _ := ih (by omega : len / 2 ≤ fuel)
        obtain ⟨hge, hle, hbefore, hbehind⟩ := hrec
        refine ⟨hge, by omega, hbefore, fun j hj hlt => ?_⟩
        rcases Nat.lt_or_ge j (first + len / 2) with hlt' | hge'
        · exact hbehind j hj hlt'
        · exact Bool.eq_false_iff.2 fun h => hmid (hmono _ j hge' h)

theorem lowerBound_spec {n : Nat} (hmono : ∀ i j, i ≤ j → below j = true → below i = true) :
    IsLowerBound below 0 n (lowerBound below n) := by
  have hspec : IsLowerBound below 0 (0 + n) (lowerBoundFrom below n 0 n) :=
    lowerBoundFrom_spec hmono (Nat.le_refl n)
  rwa [Nat.zero_add] at hspec

end

/-! ## Tables -/

section
variable {κ α : Type} [LinearOrder κ] {key : κ} {xs : List (κ × α)} {e : κ × α}

/-- The entry at an index has a key that is less. -/
def keyBelow (key : κ) (xs : List (κ × α)) (i : Nat) : Bool := xs[i]?.any fun e => e.1 < key

/-- The entry at the lower bound of a key, if the key is not less than that entry's. -/
def findSorted (key : κ) (xs : List (κ × α)) : Option (κ × α) :=
  match xs[lowerBound (keyBelow key xs) xs.length]? with
  | none => none
  | some e => if key < e.1 then none else some e

theorem keyBelow_iff {i : Nat} (hi : i < xs.length) : keyBelow key xs i = true ↔ xs[i].1 < key := by
  simp [keyBelow, hi]

theorem sorted_getElem (h : xs.Pairwise fun a b => a.1 < b.1) {i j : Nat} (hj : j < xs.length)
    (hij : i < j) : xs[i].1 < xs[j].1 :=
  List.pairwise_iff_getElem.1 h i j (by omega) hj hij

theorem keyBelow_mono (h : xs.Pairwise fun a b => a.1 < b.1) :
    ∀ i j, i ≤ j → keyBelow key xs j = true → keyBelow key xs i = true := by
  intro i j hij hbelow
  rcases Nat.lt_or_ge j xs.length with hj | hj
  · rw [keyBelow_iff hj] at hbelow
    rw [keyBelow_iff (by omega)]
    rcases Nat.lt_or_eq_of_le hij with hlt | rfl
    · exact (sorted_getElem h hj hlt).trans hbelow
    · exact hbelow
  · simp [keyBelow, hj] at hbelow

/-- In a sorted table the look-up finds the entry with the key. -/
theorem findSorted_eq_some (h : xs.Pairwise fun a b => a.1 < b.1) :
    findSorted key xs = some e ↔ e ∈ xs ∧ e.1 = key := by
  have hspec : IsLowerBound (keyBelow key xs) 0 xs.length _ := lowerBound_spec (keyBelow_mono h)
  generalize hn : lowerBound (keyBelow key xs) xs.length = n at hspec
  obtain ⟨-, hle, hbefore, hbehind⟩ := hspec
  unfold findSorted
  rw [hn]
  constructor
  · intro hfind
    split at hfind
    · cases hfind
    · rename_i e' he'
      split at hfind
      · cases hfind
      · rename_i hnot
        obtain rfl := Option.some.inj hfind
        obtain ⟨hlt, rfl⟩ := List.getElem?_eq_some_iff.1 he'
        have hge : ¬ xs[n].1 < key := by
          rw [← keyBelow_iff hlt, hbehind n (Nat.le_refl n) hlt]
          simp
        exact ⟨List.getElem_mem hlt, le_antisymm (not_lt.1 hnot) (not_lt.1 hge)⟩
  · rintro ⟨hmem, rfl⟩
    obtain ⟨i, hi, rfl⟩ := List.getElem_of_mem hmem
    have hin : i = n := by
      rcases Nat.lt_trichotomy i n with hlt | rfl | hgt
      · have hbelow := hbefore i (Nat.zero_le _) hlt
        rw [keyBelow_iff hi] at hbelow
        exact absurd hbelow (lt_irrefl _)
      · rfl
      · have hbelow := hbehind n (Nat.le_refl n) (by omega)
        have hlt := sorted_getElem h hi hgt
        rw [← keyBelow_iff (by omega), hbelow] at hlt
        cases hlt
    subst hin
    rw [List.getElem?_eq_getElem hi]
    exact if_neg (lt_irrefl _)

end

/-! ## Lists -/

/-- The first index of an element without the property, in a list that begins with those with it. -/
def partitionPoint {α : Type} (p : α → Bool) (xs : List α) : Nat :=
  lowerBound (fun i => xs[i]?.any p) xs.length

/-- The elements with the property stand before the others. -/
def Partitioned {α : Type} (p : α → Bool) (xs : List α) : Prop :=
  xs.Pairwise fun a b => p b = true → p a = true

section
variable {α : Type} {p : α → Bool} {xs : List α}

theorem any_mono (h : Partitioned p xs) :
    ∀ i j : Nat, i ≤ j → xs[j]?.any p = true → xs[i]?.any p = true := by
  intro i j hij hj
  obtain ⟨b, hb, hp⟩ := (Option.any_eq_true _ _).1 hj
  obtain ⟨hlt, rfl⟩ := List.getElem?_eq_some_iff.1 hb
  have hi : i < xs.length := by omega
  rw [List.getElem?_eq_getElem hi, Option.any_some]
  rcases Nat.lt_or_eq_of_le hij with hlt' | rfl
  · exact List.pairwise_iff_getElem.1 h i j hi hlt hlt' hp
  · exact hp

/-- **Where the elements with the property end.** -/
theorem partitionPoint_eq (h : Partitioned p xs) :
    partitionPoint p xs = (xs.takeWhile p).length := by
  have hspec : IsLowerBound (fun i => xs[i]?.any p) 0 xs.length (partitionPoint p xs) :=
    lowerBound_spec (any_mono h)
  generalize partitionPoint p xs = n at hspec
  obtain ⟨-, hle, hbefore, hbehind⟩ := hspec
  have hall : ∀ x ∈ xs.take n, p x = true := by
    intro x hx
    obtain ⟨i, hi, rfl⟩ := List.getElem_of_mem hx
    rw [List.length_take] at hi
    have hany := hbefore i (Nat.zero_le i) (by omega)
    rwa [List.getElem?_eq_getElem (by omega), Option.any_some, ← List.getElem_take] at hany
  have hnone : (xs.drop n).takeWhile p = [] := by
    cases hdrop : xs.drop n with
    | nil => rfl
    | cons x rest =>
      have hlt : n < xs.length := by
        by_contra hge
        rw [List.drop_eq_nil_of_le (by omega)] at hdrop
        cases hdrop
      have hx : xs[n] = x := by
        rw [List.drop_eq_getElem_cons hlt] at hdrop
        exact (List.cons.inj hdrop).1
      have hany := hbehind n (Nat.le_refl n) hlt
      rw [List.getElem?_eq_getElem hlt, Option.any_some, hx] at hany
      exact List.takeWhile_cons_of_neg (by rw [hany]; exact Bool.false_ne_true)
  rw [← List.take_append_drop n xs, List.takeWhile_append_of_pos hall, hnone, List.append_nil,
    List.length_take, Nat.min_eq_left hle]

theorem getElem?_partitionPoint (h : Partitioned p xs) :
    xs[partitionPoint p xs]? = (xs.dropWhile p).head? := by
  rw [partitionPoint_eq h]
  clear h
  induction xs with
  | nil => rfl
  | cons x xs ih =>
    cases hx : p x with
    | true => simpa [List.takeWhile_cons, List.dropWhile_cons, hx] using ih
    | false => simp [hx]

end

/-! ## Membership -/

section
variable {α : Type} [LinearOrder α] {key : α} {xs : List α}

/-- The index of the first element that is not less than `key`. -/
def lowerBoundOf (key : α) (xs : List α) : Nat := partitionPoint (· < key) xs

/-- There is an element at the lower bound, and `key` is not less. -/
def binarySearch (key : α) (xs : List α) : Bool :=
  xs[lowerBoundOf key xs]?.any fun x => ¬ key < x

theorem partitioned_lt (h : xs.Pairwise (· < ·)) : Partitioned (· < key) xs := by
  refine h.imp fun hab hb => ?_
  rw [decide_eq_true_eq] at hb ⊢
  exact hab.trans hb

theorem lowerBoundOf_le (h : xs.Pairwise (· < ·)) : lowerBoundOf key xs ≤ xs.length := by
  rw [lowerBoundOf, partitionPoint_eq (partitioned_lt h)]
  exact (List.takeWhile_sublist _).length_le

/-- What stands at the lower bound is the first element that is not less. -/
theorem getElem?_lowerBoundOf (h : xs.Pairwise (· < ·)) :
    xs[lowerBoundOf key xs]? = (xs.dropWhile (· < key)).head? := by
  rw [lowerBoundOf, getElem?_partitionPoint (partitioned_lt h)]

theorem getElem?_lowerBoundOf_of_mem (h : xs.Pairwise (· < ·)) (hmem : key ∈ xs) :
    xs[lowerBoundOf key xs]? = some key := by
  obtain ⟨before, behind, rfl⟩ := List.append_of_mem hmem
  have hless : ∀ x ∈ before, decide (x < key) = true := fun x hx =>
    decide_eq_true ((List.pairwise_append.1 h).2.2 x hx key List.mem_cons_self)
  rw [getElem?_lowerBoundOf h, List.dropWhile_append_of_pos hless, List.dropWhile_cons_of_neg]
  · rfl
  · simp

/-- Where there is no element at the lower bound, all are less. -/
theorem getElem?_lowerBoundOf_eq_none_iff (h : xs.Pairwise (· < ·)) :
    xs[lowerBoundOf key xs]? = none ↔ ∀ x ∈ xs, x < key := by
  rw [getElem?_lowerBoundOf h, List.head?_eq_none_iff, List.dropWhile_eq_nil_iff]
  simp only [decide_eq_true_eq]

/-- **The search finds what is there.** -/
theorem binarySearch_iff (h : xs.Pairwise (· < ·)) : binarySearch key xs = true ↔ key ∈ xs := by
  unfold binarySearch
  constructor
  · intro hfound
    obtain ⟨x, hx, hle⟩ := (Option.any_eq_true _ _).1 hfound
    have hge : ¬ x < key := by
      have hhead := List.head?_dropWhile_not (fun y => decide (y < key)) xs
      rw [← getElem?_lowerBoundOf h, hx] at hhead
      simpa using hhead
    obtain rfl : x = key := le_antisymm (not_lt.1 (of_decide_eq_true hle)) (not_lt.1 hge)
    exact List.mem_of_getElem? hx
  · intro hmem
    rw [getElem?_lowerBoundOf_of_mem h hmem, Option.any_some]
    exact decide_eq_true (lt_irrefl key)

end

/-! ## Reads -/

/-- The halving loop, where a look at an index may fail. -/
def lowerBoundFromM (below : Nat → Option Bool) : Nat → Nat → Nat → Option Nat
  | 0, first, _ => some first
  | fuel + 1, first, len =>
    if len = 0 then some first
    else do
      let half := len / 2
      if ← below (first + half) then lowerBoundFromM below fuel (first + half + 1) (len - half - 1)
      else lowerBoundFromM below fuel first half

/-- `partitionPoint` of the `n` elements that `read` gets. -/
def partitionPointM {α : Type} (read : Nat → Option α) (p : α → Bool) (n : Nat) : Option Nat :=
  lowerBoundFromM (fun i => (read i).map p) n 0 n

section
variable {α : Type} {p : α → Bool} {xs : List α} {read : Nat → Option α}

theorem lowerBoundFromM_eq {look : Nat → Option Bool} {below : Nat → Bool} {fuel first len : Nat}
    (h : ∀ i, first ≤ i → i < first + len → look i = some (below i)) :
    lowerBoundFromM look fuel first len = some (lowerBoundFrom below fuel first len) := by
  induction fuel generalizing first len with
  | zero => rfl
  | succ fuel ih =>
    unfold lowerBoundFromM lowerBoundFrom
    split
    · rfl
    · rename_i hlen
      have hhalf : len / 2 < len := Nat.div_lt_self (Nat.pos_of_ne_zero hlen) (by decide)
      dsimp only
      rw [h _ (by omega) (by omega)]
      show (if below (first + len / 2) = true then _ else _) = _
      split
      · exact ih fun i hge hlt => h i (by omega) (by omega)
      · exact ih fun i hge hlt => h i (by omega) (by omega)

/-- **A search that reads only elements of the list** is that of the list. -/
theorem partitionPointM_eq (h : ∀ i, i < xs.length → read i = xs[i]?) :
    partitionPointM read p xs.length = some (partitionPoint p xs) := by
  refine lowerBoundFromM_eq fun i _ hlt => ?_
  rw [h i (by omega), List.getElem?_eq_getElem (by omega)]
  rfl

end

end Lib
