import Fix8.Codec.Number
import Mathlib.Data.List.TakeWhile

/-!
# C strings

What a function that takes a `const char *` sees of a text: the bytes up to the first NUL.
-/

namespace Fix8.Codec

variable {s t : F8String}

theorem cstr_begins (s : F8String) : cstr s <+: s := List.takeWhile_prefix _

theorem not_mem_cstr : 0 ∉ cstr s := fun hmem => by
  simpa using List.mem_takeWhile_imp hmem

/-- What stands before the first NUL is the whole text when there is none. -/
theorem cstr_eq_self : cstr s = s ↔ 0 ∉ s := by
  rw [cstr, List.takeWhile_eq_self_iff]
  constructor
  · intro h hmem
    exact absurd (h 0 hmem) (by decide)
  · intro h c hc
    exact decide_eq_true fun hzero => h (hzero ▸ hc)

theorem cstr_of_not_mem (h : 0 ∉ s) : cstr s = s := cstr_eq_self.2 h

/-- What is not seen begins with a NUL. -/
theorem dropWhile_nul (s : F8String) :
    s.dropWhile (· ≠ 0) = [] ∨ (s.dropWhile (· ≠ 0)).head? = some 0 := by
  cases hrest : s.dropWhile (· ≠ 0) with
  | nil => exact .inl rfl
  | cons c rest =>
    have hne : s.dropWhile (· ≠ 0) ≠ [] := by
      rw [hrest]
      exact List.cons_ne_nil _ _
    have hhead := List.head_dropWhile_not (· ≠ (0 : UInt8)) hne
    simp only [hrest, List.head_cons, decide_eq_false_iff_not, not_not] at hhead
    exact .inr (congrArg some hhead)

/-- What stands behind a NUL is not seen. -/
theorem cstr_append (ht : t = [] ∨ t.head? = some 0) : cstr (s ++ t) = cstr s := by
  have hnil : cstr t = [] := by
    cases t with
    | nil => rfl
    | cons c t =>
      obtain ht | ht := ht
      · cases ht
      · obtain rfl : c = 0 := Option.some.inj ht
        rfl
  induction s with
  | nil => exact hnil
  | cons c s ih =>
    unfold cstr at ih ⊢
    rw [List.cons_append, List.takeWhile_cons, List.takeWhile_cons, ih]

end Fix8.Codec
