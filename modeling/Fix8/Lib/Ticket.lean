import Mathlib.Logic.Function.Basic
import Mathlib.Tactic.Common

/-!
# Tickets

Tickets are handed out in order from a counter, and each belongs to one of `n` lanes, in turn. A
lane calls its tickets up one after the other; who takes a ticket has seen before that it is up.

* `Ok`: the invariant; `Ok.aim`, `Ok.claim`, `Ok.finish`: what can be done;
* **`Ok.exclusive`**: at most one holder in a lane;
* **`Ok.finished_or_held`**: a ticket that has been handed out is finished, or somebody has it.
-/

namespace Lib

/-- A counter of tickets, what is up in each lane, and who has or has looked at which ticket. -/
structure Tickets (τ : Type) where
  next : Nat
  seq : Nat → Nat
  holds : τ → Option Nat
  aims : τ → Option Nat

namespace Tickets

variable {τ : Type} {n t : Nat} {T : Tickets τ} {th : τ}

/-- The tickets of `n` lanes are in order. -/
structure Ok (n : Nat) (T : Tickets τ) : Prop where
  lane : ∀ i, i < n → T.seq i % n = i
  near : ∀ i, i < n → T.seq i < T.next + n ∧ T.next ≤ T.seq i + n
  turn : ∀ th t, T.holds th = some t → T.seq (t % n) = t ∧ t < T.next
  unique : ∀ th th' t, T.holds th = some t → T.holds th' = some t → th = th'
  claimed : ∀ i, i < n → T.seq i < T.next → ∃ th, T.holds th = some (T.seq i)
  aimed : ∀ th t, T.aims th = some t → t ≤ T.next ∧ (t = T.next → T.seq (t % n) = t)

/-- At most one holder is in a lane. -/
theorem Ok.exclusive (h : Ok n T) {th' : τ} {t' : Nat} (ht : T.holds th = some t)
    (ht' : T.holds th' = some t') (hlane : t % n = t' % n) : th = th' ∧ t = t' := by
  have heq : t = t' := by
    rw [← (h.turn th t ht).1, ← (h.turn th' t' ht').1, hlane]
  subst heq
  exact ⟨h.unique th th' t ht ht', rfl⟩

/-- Two tickets of one lane are the same, or a round apart. -/
theorem lane_eq_or {a b n : Nat} (h : a % n = b % n) (hlt : a < b + n) (hle : b < a + n) :
    a = b := by
  have ha := Nat.div_add_mod a n
  have hb := Nat.div_add_mod b n
  rcases Nat.lt_trichotomy (a / n) (b / n) with hd | hd | hd
  · have hmul := Nat.mul_le_mul_left n (Nat.succ_le_of_lt hd)
    rw [Nat.mul_succ] at hmul
    omega
  · rw [hd] at ha
    omega
  · have hmul := Nat.mul_le_mul_left n (Nat.succ_le_of_lt hd)
    rw [Nat.mul_succ] at hmul
    omega

/-- A ticket that has been handed out is finished, or somebody has it. -/
theorem Ok.finished_or_held (h : Ok n T) (hn : 0 < n) (ht : t < T.next) :
    t < T.seq (t % n) ∨ ∃ th, T.holds th = some t := by
  have hi : t % n < n := Nat.mod_lt t hn
  obtain ⟨hlow, hhigh⟩ := h.near (t % n) hi
  rcases Nat.lt_or_ge t (T.seq (t % n)) with hlt | hge
  · exact .inl hlt
  · have heq : T.seq (t % n) = t :=
      lane_eq_or (h.lane (t % n) hi) (by omega) (by omega)
    obtain ⟨th, hth⟩ := h.claimed (t % n) hi (by omega)
    exact .inr ⟨th, heq ▸ hth⟩

/-- Only a ticket that has been handed out is finished. -/
theorem Ok.lt_next (h : Ok n T) (hn : 0 < n) (ht : t < T.seq (t % n)) : t < T.next := by
  have hi : t % n < n := Nat.mod_lt t hn
  obtain ⟨hlow, -⟩ := h.near (t % n) hi
  by_contra hge
  have heq : T.seq (t % n) = t := lane_eq_or (h.lane (t % n) hi) (by omega) (by omega)
  omega

variable [DecidableEq τ]

/-- Somebody has seen that a ticket is up. -/
theorem Ok.aim (h : Ok n T) (ht : t ≤ T.next) (hup : T.seq (t % n) = t) :
    Ok n { T with aims := Function.update T.aims th (some t) } where
  lane := h.lane
  near := h.near
  turn := h.turn
  unique := h.unique
  claimed := h.claimed
  aimed th' t' h' := by
    by_cases he : th' = th
    · subst he
      simp only [Function.update_self, Option.some.injEq] at h'
      subst h'
      exact ⟨ht, fun _ => hup⟩
    · simp only [Function.update_of_ne he] at h'
      exact h.aimed th' t' h'

/-- Somebody gives up. -/
theorem Ok.giveUp (h : Ok n T) (th : τ) : Ok n { T with aims := Function.update T.aims th none } where
  lane := h.lane
  near := h.near
  turn := h.turn
  unique := h.unique
  claimed := h.claimed
  aimed th' t' h' := by
    by_cases he : th' = th
    · subst he
      simp at h'
    · simp only [Function.update_of_ne he] at h'
      exact h.aimed th' t' h'

/-- Somebody takes the next ticket, which was up as they looked. -/
theorem Ok.claim (h : Ok n T) (haim : T.aims th = some T.next)
    (hfree : T.holds th = none) :
    Ok n { T with
      next := T.next + 1
      holds := Function.update T.holds th (some T.next)
      aims := Function.update T.aims th none } := by
  have hup : T.seq (T.next % n) = T.next := (h.aimed th _ haim).2 rfl
  have hnobody : ∀ th', T.holds th' ≠ some T.next := by
    intro th' h'
    exact absurd (h.turn th' _ h').2 (Nat.lt_irrefl _)
  refine ⟨h.lane, fun i hi => ?_, fun th' t' h' => ?_, fun th₁ th₂ t' h₁ h₂ => ?_,
    fun i hi hlt => ?_, fun th' t' h' => ?_⟩
  · obtain ⟨hlow, hhigh⟩ := h.near i hi
    show T.seq i < T.next + 1 + n ∧ T.next + 1 ≤ T.seq i + n
    refine ⟨by omega, ?_⟩
    by_contra hlt
    have hround : T.next = T.seq i + n := by omega
    have hlane : T.next % n = i := by rw [hround, Nat.add_mod_right, h.lane i hi]
    rw [hlane] at hup
    omega
  · by_cases he : th' = th
    · subst he
      simp only [Function.update_self, Option.some.injEq] at h'
      subst h'
      exact ⟨hup, Nat.lt_succ_self _⟩
    · simp only [Function.update_of_ne he] at h'
      obtain ⟨hturn, hlt⟩ := h.turn th' t' h'
      exact ⟨hturn, Nat.lt_succ_of_lt hlt⟩
  · by_cases he₁ : th₁ = th
    · by_cases he₂ : th₂ = th
      · rw [he₁, he₂]
      · simp only [he₁, Function.update_self, Option.some.injEq] at h₁
        simp only [Function.update_of_ne he₂] at h₂
        exact absurd (h₁ ▸ h₂) (hnobody th₂)
    · simp only [Function.update_of_ne he₁] at h₁
      by_cases he₂ : th₂ = th
      · simp only [he₂, Function.update_self, Option.some.injEq] at h₂
        exact absurd (h₂ ▸ h₁) (hnobody th₁)
      · simp only [Function.update_of_ne he₂] at h₂
        exact h.unique th₁ th₂ t' h₁ h₂
  · have hlt : T.seq i < T.next + 1 := hlt
    rcases Nat.lt_or_ge (T.seq i) T.next with hold | hnew
    · obtain ⟨th', h'⟩ := h.claimed i hi hold
      refine ⟨th', ?_⟩
      have hne : th' ≠ th := by
        intro he
        rw [he, hfree] at h'
        cases h'
      simp only [Function.update_of_ne hne]
      exact h'
    · refine ⟨th, ?_⟩
      have heq : T.seq i = T.next := by omega
      simp only [Function.update_self, heq]
  · by_cases he : th' = th
    · subst he
      simp at h'
    · simp only [Function.update_of_ne he] at h'
      obtain ⟨hle, -⟩ := h.aimed th' t' h'
      refine ⟨Nat.le_succ_of_le hle, fun heq => ?_⟩
      have heq : t' = T.next + 1 := heq
      omega

/-- A holder finishes its ticket: the next one of the lane is up. -/
theorem Ok.finish (h : Ok n T) (ht : T.holds th = some t) :
    Ok n { T with
      seq := Function.update T.seq (t % n) (t + n)
      holds := Function.update T.holds th none } := by
  obtain ⟨hturn, hlt⟩ := h.turn th t ht
  refine ⟨fun i hi => ?_, fun i hi => ?_, fun th' t' h' => ?_, fun th₁ th₂ t' h₁ h₂ => ?_,
    fun i hi hi' => ?_, fun th' t' h' => ?_⟩
  · by_cases he : i = t % n
    · subst he
      simp
    · simp only [Function.update_of_ne he]
      exact h.lane i hi
  · by_cases he : i = t % n
    · subst he
      obtain ⟨-, hhigh⟩ := h.near (t % n) hi
      rw [hturn] at hhigh
      simp only [Function.update_self]
      omega
    · simp only [Function.update_of_ne he]
      exact h.near i hi
  · by_cases he : th' = th
    · subst he
      simp at h'
    · simp only [Function.update_of_ne he] at h'
      obtain ⟨hturn', hlt'⟩ := h.turn th' t' h'
      have hlane : t' % n ≠ t % n := fun hl => he (h.exclusive h' ht hl).1
      simp only [Function.update_of_ne hlane]
      exact ⟨hturn', hlt'⟩
  · by_cases he₁ : th₁ = th
    · simp [he₁] at h₁
    · by_cases he₂ : th₂ = th
      · simp [he₂] at h₂
      · simp only [Function.update_of_ne he₁] at h₁
        simp only [Function.update_of_ne he₂] at h₂
        exact h.unique th₁ th₂ t' h₁ h₂
  · by_cases he : i = t % n
    · subst he
      obtain ⟨-, hhigh⟩ := h.near (t % n) hi
      rw [hturn] at hhigh
      simp only [Function.update_self] at hi'
      omega
    · simp only [Function.update_of_ne he] at hi' ⊢
      obtain ⟨th', h'⟩ := h.claimed i hi hi'
      refine ⟨th', ?_⟩
      have hne : th' ≠ th := by
        rintro rfl
        rw [ht, Option.some.injEq] at h'
        exact he (by rw [h', h.lane i hi])
      simp only [Function.update_of_ne hne]
      exact h'
  · obtain ⟨hle, hup⟩ := h.aimed th' t' h'
    refine ⟨hle, fun heq => ?_⟩
    have hne : t' % n ≠ t % n := by
      intro hl
      have := hup heq
      rw [hl, hturn] at this
      have heq : t' = T.next := heq
      omega
    simp only [Function.update_of_ne hne]
    exact hup heq

end Tickets

end Lib
