import Fix8.Codec.Number

/-!
# Decimal numerals

On a text of digits `fast_atoi` computes the number that the text denotes, cut to the width of its
result; `itoa` writes a text of digits that denotes its argument.

* **`fastAtoi_digits`**, `fastAtoiU16_digits`, `fastAtoiU32_digits`;
* **`decimal_itoa`**, `isdigit_itoa`; `fastAtoiU16_itoa`, `fastAtoiU32_itoa`, `fastAtoiInt_itoa`.
-/

namespace Fix8.Codec

/-- The number that a text of decimal digits denotes. -/
def decimal (s : F8String) : Nat := s.foldl (fun n c => n * 10 + (c.toNat - 48)) 0

section
variable {s t : F8String} {c : UInt8} {n : Nat}

theorem isdigit_iff : isdigit c = true ↔ 48 ≤ c.toNat ∧ c.toNat ≤ 57 := by
  simp [isdigit, UInt8.le_iff_toNat_le]

theorem cstr_digits (h : ∀ c ∈ s, isdigit c = true) : cstr s = s := by
  induction s with
  | nil => rfl
  | cons c s ih =>
    have hne : c ≠ 0 := by
      rintro rfl
      exact absurd (h 0 (List.mem_cons_self ..)) (by decide)
    rw [cstr, List.takeWhile_cons_of_pos (by simpa using hne)]
    exact congrArg (c :: ·) (ih fun c hc => h c (List.mem_cons_of_mem _ hc))

theorem charVal_digit (h : isdigit c = true) : charVal c - 48 = ((c.toNat - 48 : Nat) : Int) := by
  obtain ⟨hle, hge⟩ := isdigit_iff.1 h
  have hval : charVal c = c.toNat := by
    unfold charVal
    rw [Int.bmod_def]
    split <;> omega
  rw [hval]
  omega

theorem foldl_digits (h : ∀ c ∈ s, isdigit c = true) : ∀ n : Nat,
    s.foldl (fun retval c => retval * 10 + (charVal c - 48)) (n : Int) =
      ((s.foldl (fun n c => n * 10 + (c.toNat - 48)) n : Nat) : Int) := by
  induction s with
  | nil => exact fun _ => rfl
  | cons c s ih =>
    intro n
    have hstep : (n : Int) * 10 + (charVal c - 48) = ((n * 10 + (c.toNat - 48) : Nat) : Int) := by
      rw [charVal_digit (h c (List.mem_cons_self ..))]
      push_cast
      rfl
    rw [List.foldl_cons, List.foldl_cons, hstep]
    exact ih (fun c hc => h c (List.mem_cons_of_mem _ hc)) _

theorem fastAtoi_digits (h : ∀ c ∈ s, isdigit c = true) : fastAtoi s = decimal s := by
  unfold fastAtoi decimal
  rw [cstr_digits h]
  exact foldl_digits h 0

theorem fastAtoiU16_digits (h : ∀ c ∈ s, isdigit c = true) :
    fastAtoiU16 s = decimal s % 65536 := by
  unfold fastAtoiU16
  rw [fastAtoi_digits h]
  omega

theorem fastAtoiU32_digits (h : ∀ c ∈ s, isdigit c = true) :
    fastAtoiU32 s = decimal s % 4294967296 := by
  unfold fastAtoiU32
  rw [fastAtoi_digits h]
  omega

theorem decimal_append_singleton : decimal (s ++ [c]) = decimal s * 10 + (c.toNat - 48) := by
  simp [decimal, List.foldl_append]

/-! ## `itoa` -/

theorem digitChar_toNat (h : n < 10) : (UInt8.ofNat n.digitChar.toNat).toNat = n + 48 := by
  rw [Nat.toNat_digitChar_of_lt_ten h, UInt8.toNat_ofNat']
  omega

theorem itoa_of_lt (h : n < 10) : itoa n = [UInt8.ofNat n.digitChar.toNat] := by
  rw [itoa, Nat.toDigits_of_lt_base h]
  rfl

theorem itoa_of_le (h : 10 ≤ n) :
    itoa n = itoa (n / 10) ++ [UInt8.ofNat (n % 10).digitChar.toNat] := by
  rw [itoa, Nat.toDigits_of_base_le (by decide) h, List.map_append]
  rfl

theorem isdigit_itoa : ∀ c ∈ itoa n, isdigit c = true := by
  induction n using Nat.strongRecOn with
  | _ n ih =>
    have hdigit : ∀ k, k < 10 → isdigit (UInt8.ofNat k.digitChar.toNat) = true := by
      intro k hk
      rw [isdigit_iff, digitChar_toNat hk]
      omega
    intro c hc
    rcases Nat.lt_or_ge n 10 with hlt | hge
    · rw [itoa_of_lt hlt] at hc
      obtain rfl := List.mem_singleton.1 hc
      exact hdigit n hlt
    · rw [itoa_of_le hge] at hc
      rcases List.mem_append.1 hc with hc | hc
      · exact ih (n / 10) (by omega) c hc
      · obtain rfl := List.mem_singleton.1 hc
        exact hdigit _ (Nat.mod_lt _ (by decide))

theorem decimal_itoa : decimal (itoa n) = n := by
  induction n using Nat.strongRecOn with
  | _ n ih =>
    rcases Nat.lt_or_ge n 10 with hlt | hge
    · rw [itoa_of_lt hlt, ← List.nil_append [_], decimal_append_singleton, digitChar_toNat hlt]
      simp [decimal]
    · rw [itoa_of_le hge, decimal_append_singleton, ih (n / 10) (by omega),
        digitChar_toNat (Nat.mod_lt _ (by decide))]
      omega

theorem fastAtoiU16_itoa (hn : n < 65536) : fastAtoiU16 (itoa n) = n := by
  rw [fastAtoiU16_digits isdigit_itoa, decimal_itoa, Nat.mod_eq_of_lt hn]

theorem fastAtoiU32_itoa (hn : n < 4294967296) : fastAtoiU32 (itoa n) = n := by
  rw [fastAtoiU32_digits isdigit_itoa, decimal_itoa, Nat.mod_eq_of_lt hn]

theorem itoaInt_natCast : itoaInt n = itoa n := by simp [itoaInt]

theorem fastAtoiInt_itoa (hn : n < 2147483648) : fastAtoiInt (itoa n) = n := by
  rw [fastAtoiInt, fastAtoi_digits isdigit_itoa, decimal_itoa, Int.bmod_def]
  split <;> omega

end

end Fix8.Codec
