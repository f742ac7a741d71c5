import Fix8.Codec.IntText
import Fix8.Codec.Proof.Numeral
import Mathlib.Data.List.Induction
import Mathlib.Data.List.TakeWhile
import Mathlib.Tactic.IntervalCases

/-!
# Integers through their text

`itoa<int>` prints every `int` without an intermediate result out of range. `fast_atoi<int>` takes
the sign for a digit, and adds a character before it subtracts `'0'`, so that exactly the values
from 0 to 2147483599 come back.

* **`itoaInt32_eq`**: the text that `itoa` writes;
* `fastAtoiTurn_digit`: one turn of `fast_atoi` on a digit;
* **`int_roundTrips_iff`**.
-/

namespace Fix8.Codec

variable {n : Nat} {v r : Int} {s : F8String} {c : UInt8}

theorem toInt32_pos (h : -2147483648 ≤ v ∧ v ≤ 2147483647) : toInt32 v = some v := if_pos h

theorem toInt32_iff : toInt32 v = some r ↔ r = v ∧ -2147483648 ≤ v ∧ v ≤ 2147483647 := by
  unfold toInt32
  split <;> grind

/-! ## The printer -/

theorem itoa_ne_nil : itoa n ≠ [] := by
  rcases Nat.lt_or_ge n 10 with hlt | hge
  · simp [itoa_of_lt hlt]
  · simp [itoa_of_le hge]

/-- The byte of a digit. -/
def digitByte (n : Nat) : UInt8 := UInt8.ofNat n.digitChar.toNat

/-- The table is symmetric about the digit 0. -/
theorem itoaTable_digits : (itoaTable.drop 26).take 19 =
    [57, 56, 55, 54, 53, 52, 51, 50, 49, 48, 49, 50, 51, 52, 53, 54, 55, 56, 57] := by
  decide +kernel

theorem itoaChar_eq (h : v.natAbs < 10) : itoaChar v = some (digitByte v.natAbs) := by
  have hindex : (35 + v).toNat = 26 + (9 + v).toNat := by omega
  have hin : (9 + v).toNat < 19 := by omega
  unfold itoaChar
  rw [toInt32_pos (by omega), Option.bind_eq_bind, Option.bind_some, if_neg (by omega), hindex,
    ← List.getElem?_drop, ← List.getElem?_take_of_lt hin, itoaTable_digits]
  have hlo : -9 ≤ v := by omega
  have hhi : v ≤ 9 := by omega
  interval_cases v <;> rfl

/-- What the loop writes: the digits from the last to the first, and the sign. -/
theorem itoaLoop_eq (h : -2147483648 ≤ v ∧ v ≤ 2147483647) :
    itoaLoop v = some ((itoa v.natAbs).reverse ++ if v < 0 then [45] else []) := by
  induction hn : v.natAbs using Nat.strongRecOn generalizing v with
  | _ n ih =>
    subst hn
    have habs : (v.tdiv 10).natAbs = v.natAbs / 10 := Int.natAbs_tdiv v 10
    have hsplit := Int.mul_tdiv_add_tmod v 10
    have hmod : (v.tmod 10).natAbs = v.natAbs % 10 := Int.natAbs_tmod v 10
    have hrem : (v - v.tdiv 10 * 10).natAbs = v.natAbs % 10 := by omega
    unfold itoaLoop
    simp only [toInt32_pos (v := v.tdiv 10 * 10) (by omega),
      toInt32_pos (v := v - v.tdiv 10 * 10) (by omega),
      itoaChar_eq (v := v - v.tdiv 10 * 10) (by omega), Option.bind_eq_bind, Option.bind_some, hrem]
    rcases Nat.lt_or_ge v.natAbs 10 with hlt | hge
    · rw [dif_pos (by omega), itoa_of_lt hlt, Nat.mod_eq_of_lt hlt]
      rfl
    · have hneg : v.tdiv 10 < 0 ↔ v < 0 := by omega
      rw [dif_neg (by omega), ih (v.natAbs / 10) (by omega) (by omega) habs, itoa_of_le hge]
      simp [hneg, digitByte]

/-- The two pointers reverse what stands between them. -/
theorem itoaSwap_eq (mid : F8String) : ∀ pre suf : F8String, mid ≠ [] →
    itoaSwap (pre ++ mid ++ suf) pre.length (pre.length + (mid.length - 1)) =
      pre ++ mid.reverse ++ suf := by
  induction mid using List.bidirectionalRec with
  | nil => exact fun _ _ h => absurd rfl h
  | singleton a =>
    intro pre suf _
    unfold itoaSwap
    rw [if_neg (by simp)]
    rfl
  | cons_append a mid b ih =>
    intro pre suf _
    have hlen : (a :: (mid ++ [b])).length - 1 = mid.length + 1 := by simp
    have hget : (pre ++ a :: (mid ++ [b]) ++ suf).getD pre.length 0 = a := by simp [List.getD]
    have hget' : (pre ++ a :: (mid ++ [b]) ++ suf).getD (pre.length + (mid.length + 1)) 0 = b := by
      simp [List.getD]
    have hset : ((pre ++ a :: (mid ++ [b]) ++ suf).set (pre.length + (mid.length + 1)) a).set
        pre.length b = (pre ++ [b]) ++ mid ++ (a :: suf) := by simp
    unfold itoaSwap
    rw [hlen, if_pos (by omega), hget, hget', hset]
    rcases List.eq_nil_or_concat mid with rfl | ⟨_, _, hmid⟩
    · unfold itoaSwap
      rw [if_neg (by simp)]
      simp
    · have hne : mid ≠ [] := by simp [hmid]
      have hpos : 0 < mid.length := List.length_pos_iff.2 hne
      have hrun := ih (pre ++ [b]) (a :: suf) hne
      rw [List.length_append, List.length_singleton] at hrun
      rw [show pre.length + (mid.length + 1) - 1 = pre.length + 1 + (mid.length - 1) by omega, hrun]
      simp

/-- `itoa<int>` computes the text of every `int`. -/
theorem itoaInt32_eq (h : -2147483648 ≤ v ∧ v ≤ 2147483647) : itoaInt32 v = some (itoaInt v) := by
  have hne : (itoa v.natAbs).reverse ++ (if v < 0 then [45] else []) ≠ [] := by
    simp [itoa_ne_nil]
  have hswap := itoaSwap_eq _ [] [] hne
  simp only [List.nil_append, List.append_nil, List.length_nil, Nat.zero_add] at hswap
  unfold itoaInt32
  rw [itoaLoop_eq h, Option.bind_eq_bind, Option.bind_some, hswap]
  unfold itoaInt
  split <;> simp

/-! ## The parser -/

/-- One turn, on any character. -/
theorem fastAtoiTurn_iff : fastAtoiTurn v c = some r ↔
    r = v * 10 + (charVal c - 48) ∧ (-2147483648 ≤ v * 8 ∧ v * 8 ≤ 2147483647) ∧
      (-2147483648 ≤ v * 10 ∧ v * 10 ≤ 2147483647) ∧
      (-2147483648 ≤ v * 10 + charVal c ∧ v * 10 + charVal c ≤ 2147483647) ∧
      (-2147483648 ≤ r ∧ r ≤ 2147483647) := by
  simp only [fastAtoiTurn, Option.bind_eq_bind, Option.bind_eq_some_iff, toInt32_iff]
  constructor
  · rintro ⟨_, ⟨rfl, h8⟩, _, ⟨rfl, h2⟩, _, ⟨rfl, hsum⟩, _, ⟨rfl, hadd⟩, rfl, hsub⟩
    omega
  · rintro ⟨rfl, h8, h10, hadd, hsub⟩
    exact ⟨_, ⟨rfl, h8⟩, _, ⟨rfl, by omega⟩, _, ⟨rfl, by omega⟩, _, ⟨rfl, by omega⟩, by omega⟩

theorem charVal_digitByte (h : n < 10) : charVal (digitByte n) = n + 48 := by
  have hnat : (digitByte n).toNat = n + 48 := digitChar_toNat h
  have hval := charVal_digit (isdigit_iff.2 ⟨by omega, by omega⟩ : isdigit (digitByte n) = true)
  omega

/-- On the digits of `n` the loop adds `'0'` to `n` before it subtracts it. -/
theorem foldlM_itoa_iff :
    (itoa n).foldlM fastAtoiTurn 0 = some r ↔ r = n ∧ n + 48 ≤ 2147483647 := by
  induction n using Nat.strongRecOn generalizing r with
  | _ n ih =>
    rcases Nat.lt_or_ge n 10 with hlt | hge
    · have hc := charVal_digitByte hlt
      rw [itoa_of_lt hlt, List.foldlM_cons]
      simp only [Option.bind_eq_bind, Option.bind_eq_some_iff, List.foldlM_nil]
      show (∃ a, fastAtoiTurn 0 (digitByte n) = some a ∧ some a = some r) ↔ _
      simp only [fastAtoiTurn_iff, hc, Option.some.injEq]
      constructor
      · rintro ⟨_, ⟨rfl, -⟩, rfl⟩
        omega
      · rintro ⟨rfl, -⟩
        exact ⟨_, ⟨by omega, by omega⟩, rfl⟩
    · have hc := charVal_digitByte (Nat.mod_lt n (by decide : 0 < 10))
      rw [itoa_of_le hge, List.foldlM_append]
      simp only [Option.bind_eq_bind, Option.bind_eq_some_iff, List.foldlM_cons, List.foldlM_nil]
      show (∃ a, _ ∧ ∃ b, fastAtoiTurn a (digitByte (n % 10)) = some b ∧ some b = some r) ↔ _
      simp only [ih (n / 10) (by omega), fastAtoiTurn_iff, hc, Option.some.injEq]
      constructor
      · rintro ⟨_, ⟨rfl, -⟩, _, ⟨rfl, h8, h10, hadd, -⟩, rfl⟩
        omega
      · rintro ⟨rfl, hle⟩
        exact ⟨_, ⟨rfl, by omega⟩, n, ⟨by omega, by omega, by omega, by omega, by omega⟩, rfl⟩

/-- Behind a sign the result stays far below the value: what the loop makes of `-` counts for three
units of the place in front of the digits. -/
theorem foldlM_digits_le (hs : ∀ c ∈ s, isdigit c = true) : ∀ (m : Nat) (v : Int),
    v + 2 * m + 3 ≤ 0 → s.foldlM fastAtoiTurn v = some r →
    r + 2 * (s.foldl (fun n c => n * 10 + (c.toNat - 48)) m : Nat) + 3 ≤ 0 := by
  induction s with
  | nil =>
    intro m v hv h
    obtain rfl := Option.some.inj h
    exact hv
  | cons c s ih =>
    intro m v hv h
    obtain ⟨hlo, hhi⟩ := isdigit_iff.1 (hs c (List.mem_cons_self ..))
    have hval := charVal_digit (hs c (List.mem_cons_self ..))
    rw [List.foldlM_cons, Option.bind_eq_bind, Option.bind_eq_some_iff] at h
    obtain ⟨v', hturn, h⟩ := h
    obtain ⟨rfl, -⟩ := fastAtoiTurn_iff.1 hturn
    exact ih (fun c hc => hs c (List.mem_cons_of_mem _ hc)) (m * 10 + (c.toNat - 48)) _ (by omega) h

/-- No negative value comes back. -/
theorem fastAtoi_neg (hv : v < 0) (h : fastAtoiInt32 (itoaInt v) = some r) : r < v := by
  have hsign : fastAtoiTurn 0 45 = some (-3) := by decide
  have hdigits : ∀ c ∈ itoa v.natAbs, isdigit c = true := isdigit_itoa
  have hcstr : cstr (itoaInt v) = 45 :: itoa v.natAbs := by
    rw [itoaInt, if_pos hv, cstr, List.takeWhile_cons_of_pos (by decide)]
    exact congrArg (45 :: ·) (cstr_digits hdigits)
  rw [fastAtoiInt32, hcstr, List.foldlM_cons, hsign, Option.bind_eq_bind, Option.bind_some] at h
  have hle := foldlM_digits_le hdigits 0 (-3) (by decide) h
  have hdec : (itoa v.natAbs).foldl (fun n c => n * 10 + (c.toNat - 48)) 0 = v.natAbs :=
    decimal_itoa
  rw [hdec] at hle
  omega

/-! ## The round trip -/

theorem fastAtoiInt32_itoa_iff :
    fastAtoiInt32 (itoaInt v) = some v ↔ 0 ≤ v ∧ v ≤ 2147483599 := by
  rcases Int.lt_or_le v 0 with hneg | hpos
  · constructor
    · intro h
      have := fastAtoi_neg hneg h
      omega
    · omega
  · obtain ⟨n, rfl⟩ := Int.eq_ofNat_of_zero_le hpos
    rw [itoaInt_natCast, fastAtoiInt32, cstr_digits isdigit_itoa, foldlM_itoa_iff]
    omega

/-- A value of type `int` comes back from the text that `Field<int>` prints for it, with all
intermediate results in the range of `int`, exactly when it is at least 0 and at most
2147483599. -/
theorem int_roundTrips_iff (v : Int32) :
    IntRoundTrips v.toInt ↔ 0 ≤ v.toInt ∧ v.toInt ≤ 2147483599 := by
  have hlo := v.le_toInt
  have hhi := v.toInt_lt
  unfold IntRoundTrips
  rw [itoaInt32_eq (by omega)]
  simp only [Option.some.injEq, exists_eq_left', fastAtoiInt32_itoa_iff]

/-- The text `-5` is read as -25. -/
theorem minus_five : ¬∀ v : Int32, IntRoundTrips v.toInt := by
  intro h
  obtain ⟨text, htext, hread⟩ := h (-5)
  have hprint : itoaInt32 (-5) = some (ascii "-5") := itoaInt32_eq (by decide)
  obtain rfl := Option.some.inj (hprint.symm.trans htext)
  exact absurd hread (by decide +kernel)

/-! ## The codec of `Field<int>` -/

theorem foldlM_fastAtoiTurn : ∀ (s : F8String) (v : Int), -2147483648 ≤ v ∧ v ≤ 2147483647 →
    s.foldlM fastAtoiTurn v = some r →
    s.foldl (fun retval c => retval * 10 + (charVal c - 48)) v = r ∧
      -2147483648 ≤ r ∧ r ≤ 2147483647
  | [], _, hv, h => by
    obtain rfl := Option.some.inj h
    exact ⟨rfl, hv⟩
  | c :: s, v, _, h => by
    rw [List.foldlM_cons, Option.bind_eq_bind, Option.bind_eq_some_iff] at h
    obtain ⟨v', hturn, h⟩ := h
    obtain ⟨rfl, -, -, -, hrange⟩ := fastAtoiTurn_iff.1 hturn
    exact foldlM_fastAtoiTurn s _ hrange h

/-- Where the intermediate results stay in range, they are those of the wrapping `fast_atoi`. -/
theorem fastAtoiInt32_some (h : fastAtoiInt32 s = some r) : fastAtoiInt s = r := by
  obtain ⟨hfold, hlo, hhi⟩ := foldlM_fastAtoiTurn (cstr s) 0 (by decide) h
  rw [fastAtoiInt, fastAtoi, hfold, Int.bmod_def]
  split <;> omega

/-- A field that is constructed from the text of another has its value. -/
theorem create_print_int {D : Type} [FpType D] (now : Ticks)
    (hv : -2147483648 ≤ v ∧ v ≤ 2147483647) (h : IntRoundTrips v) :
    (Value.create now .int (Value.int v : Value D).print : Value D) = .int v := by
  obtain ⟨text, hprint, hread⟩ := h
  obtain rfl := Option.some.inj ((itoaInt32_eq hv).symm.trans hprint)
  have hcstr : ∀ t : F8String, cstr (cstr t) = cstr t :=
    fun t => List.takeWhile_idem
  show Value.int (fastAtoiInt (cstr (itoaInt v))) = _
  rw [fastAtoiInt, fastAtoi, hcstr]
  exact congrArg Value.int (fastAtoiInt32_some hread)

end Fix8.Codec
