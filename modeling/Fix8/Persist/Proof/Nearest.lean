import Fix8.Persist.Persister
import Mathlib.Order.Bounds.Basic
import Mathlib.Order.Nat

/-!
# The nearest stored number

`find_nearest_highest_seqnum` probes one number after the other. It stops at the control record when
it begins at 0, and it never ends when `last` is the largest number and nothing is stored: its
counter wraps.

* `IsNearest`: the least number of a message in a range, or 0;
* `search_skip`: numbers without a record are passed over;
* **`nearest_iff`**: when the function returns the nearest number.
-/

namespace Fix8.Persist

open Lib Codec

section
variable {α : Type} {m : OrdMap Nat α} {found : Nat → Bool} {requested last n k j fuel : Nat}

/-- A message is stored under the number, which is in the range. -/
def MessageIn (m : OrdMap Nat α) (requested last k : Nat) : Prop :=
  k ≠ 0 ∧ (m.get? k).isSome ∧ requested ≤ k ∧ k ≤ last

/-- The least number of a message in the range, or 0 if there is none. -/
def IsNearest (m : OrdMap Nat α) (requested last n : Nat) : Prop :=
  IsLeast {k | MessageIn m requested last k} n ∨ n = 0 ∧ ∀ k, ¬ MessageIn m requested last k

/-- The function returns, and what it returns is the nearest number. -/
def FindsNearest (m : OrdMap Nat α) (requested last : Nat) : Prop :=
  ∃ n, findNearestHighestSeqnum m requested last = some n ∧ IsNearest m requested last n

/-- The search begins at the control record, and there is a message behind it. -/
def CutShort (m : OrdMap Nat α) (requested last : Nat) : Prop :=
  requested = 0 ∧ (m.get? 0).isSome ∧ ∃ k, MessageIn m requested last k

/-- The range is up to the largest number, and has no message; there is no control record that would
stop the search where its counter has wrapped. -/
def Wraps (m : OrdMap Nat α) (requested last : Nat) : Prop :=
  last = 4294967295 ∧ m.get? 0 = none ∧ ∀ k, ¬ MessageIn m requested last k

/-! ## The probes -/

/-- Numbers up to `last` without a record are passed over. -/
theorem search_skip : ∀ {j n : Nat}, (∀ k, n ≤ k → k < n + j → found k = false) →
    n + j ≤ last + 1 → n + j < 4294967296 →
    search found last (j + fuel) n = search found last fuel (n + j)
  | 0, n, _, _, _ => by rw [Nat.zero_add, Nat.add_zero]
  | j + 1, n, hnone, hlast, hlt => by
    have hstep : search found last (j + 1 + fuel) n = search found last (j + fuel) (n + 1) := by
      rw [Nat.add_right_comm, search, if_pos (by omega), hnone n le_rfl (by omega),
        if_neg Bool.false_ne_true, Nat.mod_eq_of_lt (by omega)]
    rw [hstep, search_skip (fun k hk hk' => hnone k (by omega) (by omega)) (by omega) (by omega)]
    congr 1
    omega

/-- The last number without a record. -/
theorem search_wrap (hlast : last = 4294967295) (hnone : found last = false) :
    search found last (fuel + 1) last = search found last fuel 0 := by
  rw [search, if_pos le_rfl, hnone, if_neg Bool.false_ne_true, hlast]

/-- The search ends at the first record. -/
theorem search_found (hle : n ≤ k) (hlast : k ≤ last) (hlt : k < 4294967296)
    (hk : found k = true) (hnone : ∀ j, n ≤ j → j < k → found j = false) (hfuel : k < n + fuel) :
    search found last fuel n = some k := by
  obtain ⟨rest, rfl⟩ : ∃ rest, fuel = k - n + (rest + 1) := ⟨fuel - (k - n) - 1, by omega⟩
  have hn : n + (k - n) = k := by omega
  rw [search_skip (fun j hj hj' => hnone j hj (by omega)) (by omega) (by omega), hn, search,
    if_pos hlast, if_pos hk]

/-- Without a record the search ends behind `last`, if there is a number behind it. -/
theorem search_ended (hle : n ≤ last + 1) (hlast : last < 4294967295)
    (hnone : ∀ j, n ≤ j → j ≤ last → found j = false) (hfuel : last + 1 < n + fuel) :
    search found last fuel n = some 0 := by
  obtain ⟨rest, rfl⟩ : ∃ rest, fuel = last + 1 - n + (rest + 1) :=
    ⟨fuel - (last + 1 - n) - 1, by omega⟩
  rw [search_skip (fun j hj hj' => hnone j hj (by omega)) (by omega) (by omega), search,
    if_neg (by omega)]

/-- A search that finds nothing up to the largest number goes on with 0. -/
theorem search_from_zero (hn : n ≤ 4294967295)
    (hnone : ∀ j, n ≤ j → j ≤ 4294967295 → found j = false) :
    search found 4294967295 4294967296 n = search found 4294967295 n 0 := by
  have hfuel : 4294967296 = 4294967295 - n + (n + 1) := by omega
  have hbehind : n + (4294967295 - n) = 4294967295 := by omega
  conv_lhs => rw [hfuel]
  rw [search_skip (fun j hj hj' => hnone j hj (by omega)) (by omega) (by omega), hbehind,
    search_wrap rfl (hnone _ hn le_rfl)]

/-- A search with too little fuel to come to a record. -/
theorem search_none (hnone : ∀ j, n ≤ j → j < n + fuel → found j = false)
    (hlast : n + fuel ≤ last + 1) (hlt : n + fuel < 4294967296) :
    search found last fuel n = none := by
  have hskip : search found last (fuel + 0) n = search found last 0 (n + fuel) :=
    search_skip hnone hlast hlt
  rw [Nat.add_zero] at hskip
  rw [hskip]
  rfl

/-! ## The result -/

theorem IsNearest.unique (h : IsNearest m requested last n) (h' : IsNearest m requested last k) :
    n = k := by
  rcases h with h | ⟨rfl, hnone⟩
  · rcases h' with h' | ⟨rfl, hnone⟩
    · exact h.unique h'
    · exact absurd h.1 (hnone n)
  · rcases h' with h' | ⟨rfl, -⟩
    · exact absurd h'.1 (hnone k)
    · rfl

/-- The least number of a message, where there is one. -/
theorem exists_least (h : ∃ k, MessageIn m requested last k) :
    ∃ k, IsLeast {k | MessageIn m requested last k} k := by
  classical
  exact ⟨Nat.find h, Nat.find_spec h, fun j hj => Nat.find_min' h hj⟩

theorem not_isSome_of_least (h : IsLeast {k | MessageIn m requested last k} k) (hj0 : j ≠ 0)
    (hj : requested ≤ j) (hlt : j < k) : (m.get? j).isSome = false := by
  refine Bool.eq_false_iff.2 fun hs => ?_
  have hle := h.2 (show MessageIn m requested last j from
    ⟨hj0, hs, hj, hlt.le.trans h.1.2.2.2⟩)
  omega

theorem not_isSome_of_none (h : ∀ k, ¬ MessageIn m requested last k) (hj0 : j ≠ 0)
    (hj : requested ≤ j) (hle : j ≤ last) : (m.get? j).isSome = false :=
  Bool.eq_false_iff.2 fun hs => h j ⟨hj0, hs, hj, hle⟩

/-- The search that begins at the control record. -/
theorem search_control (hcontrol : (m.get? 0).isSome) (hlast : last ≠ 0) :
    findNearestHighestSeqnum m 0 last = some 0 := by
  rw [findNearestHighestSeqnum, if_pos hlast]
  exact search_found le_rfl (Nat.zero_le _) (by decide) hcontrol
    (fun j _ hj => absurd hj (Nat.not_lt_zero j)) (by decide)

/-- There is a message in the range. -/
theorem findsNearest_of_message (hlast : last < 4294967296)
    (h : ∃ k, MessageIn m requested last k) :
    FindsNearest m requested last ↔ ¬ CutShort m requested last := by
  obtain ⟨k, hk⟩ := exists_least h
  obtain ⟨hk0, hs, hle, hkl⟩ := hk.1
  have hl0 : last ≠ 0 := by omega
  by_cases hcut : CutShort m requested last
  · refine iff_of_false ?_ (not_not.2 hcut)
    obtain ⟨rfl, hcontrol, -⟩ := hcut
    rintro ⟨n, hn, hnearest⟩
    rw [search_control hcontrol hl0] at hn
    obtain rfl := Option.some.inj hn
    exact hk0 (IsNearest.unique (.inl hk) hnearest)
  · refine iff_of_true ⟨k, ?_, .inl hk⟩ hcut
    rw [findNearestHighestSeqnum, if_pos hl0]
    refine search_found hle hkl (by omega) hs (fun j hj hjk => ?_) (by omega)
    by_cases hj0 : j = 0
    · subst hj0
      exact Bool.eq_false_iff.2 fun hcontrol => hcut ⟨by omega, hcontrol, h⟩
    · exact not_isSome_of_least hk hj0 hj hjk

/-- There is none, and the counter does not wrap. -/
theorem search_empty (hlast : last < 4294967295) (h : ∀ k, ¬ MessageIn m requested last k) :
    findNearestHighestSeqnum m requested last = some 0 := by
  unfold findNearestHighestSeqnum
  split
  · rename_i hl0
    by_cases hcontrol : requested = 0 ∧ (m.get? 0).isSome
    · obtain ⟨rfl, hcontrol⟩ := hcontrol
      have hfound := search_control hcontrol hl0
      rwa [findNearestHighestSeqnum, if_pos hl0] at hfound
    · rcases Nat.lt_or_ge last requested with hlt | hge
      · rw [search, if_neg (by omega)]
      · refine search_ended (by omega) hlast (fun j hj hjl => ?_) (by omega)
        by_cases hj0 : j = 0
        · subst hj0
          simpa using not_and.1 hcontrol (by omega)
        · exact not_isSome_of_none h hj0 hj hjl
  · rfl

/-- There is none, and the counter wraps: it comes to the control record, or to a message below the
range, or to nothing. -/
theorem search_wrapped (hreq : requested < 4294967296)
    (h : ∀ k, ¬ MessageIn m requested 4294967295 k) :
    FindsNearest m requested 4294967295 ↔ (m.get? 0).isSome := by
  constructor
  · rintro ⟨n, hn, hnearest⟩
    obtain rfl : n = 0 := IsNearest.unique hnearest (.inr ⟨rfl, h⟩)
    by_contra hcontrol
    have hcontrol : (m.get? 0).isSome = false := Bool.eq_false_iff.2 hcontrol
    rw [findNearestHighestSeqnum, if_pos (by decide), search_from_zero (by omega)
      fun j hj hjl => by
        by_cases hj0 : j = 0
        · rw [hj0]
          exact hcontrol
        · exact not_isSome_of_none h hj0 hj hjl] at hn
    -- of the numbers below the range the search returns the first, which is not 0
    by_cases hbelow : ∃ j, j < requested ∧ (m.get? j).isSome
    · classical
      obtain ⟨hlt, hs⟩ := Nat.find_spec hbelow
      have hfirst : search (fun k => (m.get? k).isSome) 4294967295 requested 0 =
          some (Nat.find hbelow) := by
        refine search_found (Nat.zero_le _) (by omega) (by omega) hs (fun j _ hj => ?_) (by omega)
        have hmin := Nat.find_min hbelow hj
        simpa [show j < requested by omega] using hmin
      rw [hfirst] at hn
      rw [Option.some.inj hn] at hs
      exact absurd hs (by simp [hcontrol])
    · have hnone : search (fun k => (m.get? k).isSome) 4294967295 requested 0 = none := by
        refine search_none (fun j _ hj => ?_) (by omega) (by omega)
        exact Bool.eq_false_iff.2 fun hs => hbelow ⟨j, by omega, hs⟩
      rw [hnone] at hn
      cases hn
  · intro hcontrol
    refine ⟨0, ?_, .inr ⟨rfl, h⟩⟩
    rcases Nat.eq_zero_or_pos requested with rfl | hpos
    · exact search_control hcontrol (by decide)
    · rw [findNearestHighestSeqnum, if_pos (by decide), search_from_zero (by omega)
        fun j hj hjl => not_isSome_of_none h (by omega) hj hjl]
      exact search_found le_rfl (Nat.zero_le _) (by decide) hcontrol
        (fun j _ hj => absurd hj (Nat.not_lt_zero j)) (by omega)

/-- **When `find_nearest_highest_seqnum` returns the nearest number**: unless the search begins at a
control record with a message behind it, and unless its counter wraps with no control record to stop
it. -/
theorem nearest_iff (hreq : requested < 4294967296) (hlast : last < 4294967296) :
    FindsNearest m requested last ↔ ¬ CutShort m requested last ∧ ¬ Wraps m requested last := by
  by_cases h : ∃ k, MessageIn m requested last k
  · rw [findsNearest_of_message hlast h]
    refine (and_iff_left ?_).symm
    obtain ⟨k, hk⟩ := h
    exact fun hwraps => hwraps.2.2 k hk
  · have hnone : ∀ k, ¬ MessageIn m requested last k := not_exists.1 h
    have hcut : ¬ CutShort m requested last := fun hcut => h hcut.2.2
    rw [and_iff_right hcut]
    by_cases hl : last = 4294967295
    · subst hl
      rw [search_wrapped hreq hnone]
      simp [Wraps, hnone, Option.isSome_iff_ne_none]
    · exact iff_of_true ⟨0, search_empty (by omega) hnone, .inr ⟨rfl, hnone⟩⟩ fun hwraps => hl hwraps.1

end

/-- A store with a control record and the message 1. -/
def demoStore : OrdMap Nat F8String :=
  (OrdMap.empty.insert 0 (wordBytes 2 ++ wordBytes 1)).insert 1 (ascii "one")

theorem nearest_iff_demo : FindsNearest demoStore 1 4294967295 ↔
    ¬ CutShort demoStore 1 4294967295 ∧ ¬ Wraps demoStore 1 4294967295 :=
  nearest_iff (by decide) (by decide)

/-- From 0 on, the search ends at the control record. -/
theorem control_cuts_short : ¬ ∀ (m : OrdMap Nat F8String) (requested last : Nat),
    requested < 4294967296 → last < 4294967296 → FindsNearest m requested last := by
  intro h
  obtain ⟨n, hn, hnearest⟩ := h demoStore 0 1 (by decide) (by decide)
  rw [search_control rfl (by decide)] at hn
  obtain rfl := Option.some.inj hn
  rcases hnearest with hleast | ⟨-, hnone⟩
  · exact hleast.1.1 rfl
  · exact hnone 1 ⟨by decide, rfl, by decide, le_rfl⟩

end Fix8.Persist
