import Fix8.Codec.Realm

/-!
# The index of a value in its realm

The index is that of the first value which is not less, whether or not it is the same.

* `Indexed`: the index of a value is that of its own place, and so is its description;
* **`indexed_iff`**: which values it is right for.
-/

namespace Fix8.Codec

open Lib

/-- The index of the value is that of its place in the realm, and there is one iff it is valid; what
is printed for it is its own description. -/
structure Indexed {T : Type} [LinearOrder T] (rlm : RealmBase T) (what : T) : Prop where
  valid : 0 ≤ rlm.getRlmIdx what ↔ rlm.isValid what = true
  element : 0 ≤ rlm.getRlmIdx what → rlm.range[(rlm.getRlmIdx what).toNat]? = some what
  described : ∀ description, printedDescription (some rlm) what = some description →
    ∃ i : Nat, rlm.range[i]? = some what ∧ rlm.descriptions[i]? = some description

section
variable {T : Type} [LinearOrder T] {rlm : RealmBase T} {what : T}

theorem getRlmIdx_of_getElem? {x : T} (hset : rlm.dtype = .dtSet)
    (h : rlm.range[lowerBoundOf what rlm.range]? = some x) :
    rlm.getRlmIdx what = lowerBoundOf what rlm.range := by
  obtain ⟨hlt, -⟩ := List.getElem?_eq_some_iff.1 h
  unfold RealmBase.getRlmIdx
  rw [hset]
  exact if_pos (Nat.ne_of_lt hlt)

theorem getRlmIdx_of_none (hset : rlm.dtype = .dtSet)
    (h : rlm.range[lowerBoundOf what rlm.range]? = none)
    (hle : lowerBoundOf what rlm.range ≤ rlm.range.length) : rlm.getRlmIdx what = -1 := by
  unfold RealmBase.getRlmIdx
  rw [hset]
  exact if_neg (not_not.2 (Nat.le_antisymm hle (List.getElem?_eq_none_iff.1 h)))

theorem isValid_iff (hset : rlm.dtype = .dtSet) (hsorted : rlm.range.Pairwise (· < ·)) :
    rlm.isValid what = true ↔ what ∈ rlm.range := by
  unfold RealmBase.isValid
  rw [hset]
  exact binarySearch_iff hsorted

/-- The index of a value of the realm. -/
theorem indexed_of_mem (hset : rlm.dtype = .dtSet) (hsorted : rlm.range.Pairwise (· < ·))
    (hmem : what ∈ rlm.range) : Indexed rlm what := by
  have hget := getElem?_lowerBoundOf_of_mem hsorted hmem
  have hidx := getRlmIdx_of_getElem? hset hget
  refine ⟨⟨fun _ => (isValid_iff hset hsorted).2 hmem, fun _ => ?_⟩, fun _ => ?_, ?_⟩
  · rw [hidx]
    exact Int.natCast_nonneg _
  · rw [hidx, Int.toNat_natCast]
    exact hget
  · intro description hd
    refine ⟨lowerBoundOf what rlm.range, hget, ?_⟩
    simpa [printedDescription, fieldRlmIdx, hidx] using hd

/-- A value above the realm has no index. -/
theorem indexed_of_above (hset : rlm.dtype = .dtSet) (hsorted : rlm.range.Pairwise (· < ·))
    (habove : ∀ x ∈ rlm.range, x < what) : Indexed rlm what := by
  have hidx := getRlmIdx_of_none hset ((getElem?_lowerBoundOf_eq_none_iff hsorted).2 habove)
    (lowerBoundOf_le hsorted)
  have hnot : ¬ 0 ≤ rlm.getRlmIdx what := by
    rw [hidx]
    decide
  refine ⟨⟨fun h => absurd h hnot, fun hvalid => ?_⟩, fun h => absurd h hnot, ?_⟩
  · exact absurd (habove what ((isValid_iff hset hsorted).1 hvalid)) (lt_irrefl what)
  · intro description hd
    simp [printedDescription, fieldRlmIdx, hidx] at hd

/-- **The index is right** for the values of the realm and those above it. -/
theorem indexed_iff (hset : rlm.dtype = .dtSet) (hsorted : rlm.range.Pairwise (· < ·)) :
    Indexed rlm what ↔ what ∈ rlm.range ∨ ∀ x ∈ rlm.range, x < what := by
  constructor
  · intro h
    cases hget : rlm.range[lowerBoundOf what rlm.range]? with
    | none => exact .inr ((getElem?_lowerBoundOf_eq_none_iff hsorted).1 hget)
    | some x =>
      have hidx : 0 ≤ rlm.getRlmIdx what := by
        rw [getRlmIdx_of_getElem? hset hget]
        exact Int.natCast_nonneg _
      exact .inl ((isValid_iff hset hsorted).1 (h.valid.1 hidx))
  · rintro (hmem | habove)
    · exact indexed_of_mem hset hsorted hmem
    · exact indexed_of_above hset hsorted habove

end

/-! ## Sides of an order -/

/-- Side, with Buy, Sell and Undisclosed. -/
def sideRealm : RealmBase Nat where
  range := [49, 50, 55]
  dtype := .dtSet
  descriptions := [ascii "BUY", ascii "SELL", ascii "UNDISCLOSED"]

theorem indexed_sell : Indexed sideRealm 50 :=
  (indexed_iff rfl (by decide)).2 (.inl (by decide))

/-- A value between those of the realm is described as the next one. -/
theorem indexed_between : ¬ ∀ (rlm : RealmBase Nat), rlm.dtype = .dtSet →
    rlm.range.Pairwise (· < ·) → ∀ what, Indexed rlm what := by
  intro h
  have hvalid := (h sideRealm rfl (by decide) 51).valid
  exact absurd (hvalid.1 (by decide)) (by decide)

end Fix8.Codec
