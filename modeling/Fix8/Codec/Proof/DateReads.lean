import Fix8.Codec.DateReads
import Fix8.Codec.Proof.Numeral

/-!
# Reading a date or time in bounds

`parse_decimal` stays in the text as long as the text goes on, and the month is looked up in the
table as it stands in the text. So `date_time_parse` needs 16 characters before it looks at the
length, and a month of 1 to 13 where the length is one of the two it knows; `date_parse` needs 5
characters and such a month.

* `dateTimeParseAt_eq`, `dateParseAt_eq`: in bounds the ticks are those of `dateTimeParse` and
  `dateParse`;
* **`date_reads_iff`**: when they stay in bounds.
-/

namespace Fix8.Codec

variable {s : F8String} {now : Ticks}

/-! ## Characters and digits -/

/-- The digits from `begin` on are read from the text, or its terminator is the last of them. -/
theorem parseDecimalAt_foldl {len : Nat} : ∀ {begin : Nat} {val : Int},
    begin + len ≤ s.length + 1 →
    parseDecimalAt s begin len val =
      some (((s.drop begin ++ List.replicate len 0).take len).foldl
        (fun val c => val * 10 + (charVal c - 48)) val) := by
  induction len with
  | zero => exact fun _ => rfl
  | succ len ih =>
    intro begin val h
    rcases Nat.lt_or_ge begin s.length with hlt | hge
    · have hc : charAt s begin = some s[begin] := by
        rw [charAt, List.getElem?_append_left hlt, List.getElem?_eq_getElem hlt]
      -- one more NUL behind the text is not among the characters taken
      have hpad : (s.drop (begin + 1) ++ List.replicate (len + 1) 0).take len =
          (s.drop (begin + 1) ++ List.replicate len 0).take len := by
        rw [List.replicate_succ', ← List.append_assoc,
          List.take_append_of_le_length (by simp)]
      rw [parseDecimalAt, hc, Option.bind_eq_bind, Option.bind_some, ih (by omega),
        List.drop_eq_getElem_cons hlt, List.cons_append, List.take_succ_cons, List.foldl_cons, hpad]
    · obtain rfl : len = 0 := by omega
      have hc : charAt s begin = some 0 := by
        obtain rfl : begin = s.length := by omega
        rw [charAt, List.getElem?_append_right (Nat.le_refl _), Nat.sub_self]
        rfl
      rw [parseDecimalAt, hc, List.drop_eq_nil_of_le hge]
      rfl

theorem parseDecimalAt_eq {begin len : Nat} (h : begin + len ≤ s.length + 1) :
    parseDecimalAt s begin len 0 = some (parseDecimal (s.drop begin) len) :=
  parseDecimalAt_foldl h

/-- Behind the terminator nothing is read. -/
theorem parseDecimalAt_none {len : Nat} : ∀ {begin : Nat} {val : Int},
    0 < len → s.length + 1 < begin + len → parseDecimalAt s begin len val = none := by
  induction len with
  | zero => exact fun h => absurd h (Nat.lt_irrefl 0)
  | succ len ih =>
    intro begin val _ h
    rw [parseDecimalAt]
    cases hc : charAt s begin with
    | none => rfl
    | some c =>
      have hb : begin < (s ++ [0]).length := (List.getElem?_eq_some_iff.1 hc).1
      rw [List.length_append, List.length_singleton] at hb
      rw [Option.bind_eq_bind, Option.bind_some, ih (by omega) (by omega)]

/-! ## The table -/

theorem monDaysAt_eq {mon : Int} (h : 0 ≤ mon ∧ mon ≤ 12) : monDaysAt mon = some (monDays mon) := by
  obtain ⟨n, rfl⟩ := Int.eq_ofNat_of_zero_le h.1
  have hn : n < 13 := by omega
  rw [monDaysAt, if_neg (by omega), monDays, if_neg (by omega), Int.toNat_natCast,
    List.getD_eq_getElem?_getD, List.getElem?_eq_getElem hn]
  rfl

theorem monDaysAt_none {mon : Int} (h : ¬(0 ≤ mon ∧ mon ≤ 12)) : monDaysAt mon = none := by
  rw [monDaysAt]
  split
  · rfl
  · exact List.getElem?_eq_none (show 13 ≤ mon.toNat by omega)

theorem timeToEpochAt_eq {ltm : Tm} (h : 0 ≤ ltm.mon ∧ ltm.mon ≤ 12) :
    timeToEpochAt ltm = some (timeToEpoch ltm) := by
  rw [timeToEpochAt, monDaysAt_eq h]
  rfl

theorem timeToEpochAt_none {ltm : Tm} (h : ¬(0 ≤ ltm.mon ∧ ltm.mon ≤ 12)) :
    timeToEpochAt ltm = none := by
  rw [timeToEpochAt, monDaysAt_none h]
  rfl

/-! ## The texts that are read in bounds -/

/-- The characters at 4 and 5, as the month in two digits, are one of 1 to 13; behind a text of five
characters stands a NUL. -/
def MonthInTable (s : F8String) : Prop :=
  529 ≤ charVal (s.getD 4 0) * 10 + charVal (s.getD 5 0) ∧
    charVal (s.getD 4 0) * 10 + charVal (s.getD 5 0) ≤ 541

instance : Decidable (MonthInTable s) := by
  unfold MonthInTable
  infer_instance

theorem monthInTable_iff (h : 5 ≤ s.length) : MonthInTable s ↔
    0 ≤ parseDecimal (s.drop 4) 2 - 1 ∧ parseDecimal (s.drop 4) 2 - 1 ≤ 12 := by
  have hmonth : parseDecimal (s.drop 4) 2 =
      charVal (s.getD 4 0) * 10 + charVal (s.getD 5 0) - 528 := by
    match s, h with
    | [_, _, _, _, c], _ =>
      show (0 * 10 + (charVal c - 48)) * 10 + (charVal 0 - 48) = charVal c * 10 + charVal 0 - 528
      omega
    | _ :: _ :: _ :: _ :: c :: d :: _, _ =>
      show (0 * 10 + (charVal c - 48)) * 10 + (charVal d - 48) = charVal c * 10 + charVal d - 528
      omega
  rw [hmonth, MonthInTable]
  omega

/-- The month is looked up only for the two lengths of a timestamp. -/
def TimestampInBounds (s : F8String) : Prop :=
  isNow s = true ∨ 16 ≤ s.length ∧ (s.length = 17 ∨ s.length = 21 → MonthInTable s)

def DateInBounds (s : F8String) : Prop :=
  isNow s = true ∨ 5 ≤ s.length ∧ MonthInTable s

instance : Decidable (TimestampInBounds s) := by
  unfold TimestampInBounds
  infer_instance

instance : Decidable (DateInBounds s) := by
  unfold DateInBounds
  infer_instance

/-- In bounds the ticks are those of `dateTimeParse`. -/
theorem dateTimeParseAt_eq (h : TimestampInBounds s) :
    dateTimeParseAt now s = some (dateTimeParse now s) := by
  unfold dateTimeParseAt dateTimeParse
  rcases h with hnow | ⟨hlen, hmon⟩
  · rw [if_pos hnow, if_pos hnow]
  split
  · rfl
  rw [parseDecimalAt_eq (by omega), parseDecimalAt_eq (by omega), parseDecimalAt_eq (by omega),
    parseDecimalAt_eq (by omega), parseDecimalAt_eq (by omega), parseDecimalAt_eq (by omega)]
  simp only [Option.bind_eq_bind, Option.bind_some, List.drop_zero]
  by_cases h21 : s.length = 21
  · have hm := (monthInTable_iff (by omega)).1 (hmon (.inr h21))
    simp only [h21]
    rw [parseDecimalAt_eq (by omega), timeToEpochAt_eq hm]
    rfl
  by_cases h17 : s.length = 17
  · have hm := (monthInTable_iff (by omega)).1 (hmon (.inl h17))
    simp only [h17]
    rw [timeToEpochAt_eq hm]
    rfl
  simp

theorem dateTimeParseAt_none (h : ¬TimestampInBounds s) : dateTimeParseAt now s = none := by
  simp only [TimestampInBounds, not_or, not_and, Classical.not_imp] at h
  obtain ⟨hnow, h⟩ := h
  rw [dateTimeParseAt, if_neg hnow]
  rcases Nat.lt_or_ge s.length 16 with hlt | hge
  · -- the second of the two digits of the seconds, if none before it
    have hsec : parseDecimalAt s 15 2 0 = none := parseDecimalAt_none (by omega) (by omega)
    rw [hsec]
    simp
  obtain ⟨hl, hm⟩ := h hge
  rw [parseDecimalAt_eq (by omega), parseDecimalAt_eq (by omega), parseDecimalAt_eq (by omega),
    parseDecimalAt_eq (by omega), parseDecimalAt_eq (by omega), parseDecimalAt_eq (by omega)]
  rw [monthInTable_iff (by omega)] at hm
  simp only [Option.bind_eq_bind, Option.bind_some, List.drop_zero]
  rcases hl with hl | hl
  · simp only [hl]
    rw [timeToEpochAt_none hm]
    rfl
  · simp only [hl]
    rw [timeToEpochAt_none hm]
    simp

/-- In bounds the ticks are those of `dateParse`. -/
theorem dateParseAt_eq (h : DateInBounds s) : dateParseAt now s = some (dateParse now s) := by
  unfold dateParseAt dateParse
  rcases h with hnow | ⟨hlen, hm⟩
  · rw [if_pos hnow, if_pos hnow]
  split
  · rfl
  rw [monthInTable_iff hlen] at hm
  have hday : (if s.length = 8 then parseDecimalAt s 6 2 0 else some 1) =
      some (if s.length = 8 then parseDecimal (s.drop 6) 2 else 1) := by
    split
    · exact parseDecimalAt_eq (by omega)
    · rfl
  rw [parseDecimalAt_eq (by omega), parseDecimalAt_eq (by omega), hday]
  simp only [Option.bind_eq_bind, Option.bind_some, List.drop_zero]
  rw [timeToEpochAt_eq hm]
  rfl

theorem dateParseAt_none (h : ¬DateInBounds s) : dateParseAt now s = none := by
  simp only [DateInBounds, not_or, not_and] at h
  obtain ⟨hnow, h⟩ := h
  rw [dateParseAt, if_neg hnow]
  rcases Nat.lt_or_ge s.length 5 with hlt | hge
  · -- the second of the two digits of the month, if none before it
    have hmon : parseDecimalAt s 4 2 0 = none := parseDecimalAt_none (by omega) (by omega)
    rw [hmon]
    simp
  have hm := h hge
  rw [monthInTable_iff hge] at hm
  have hepoch : ∀ mday, timeToEpochAt
      { year := parseDecimal s 4 - 1900, mon := parseDecimal (s.drop 4) 2 - 1, mday := mday,
        hour := 0, min := 0, sec := 0 } = none :=
    fun mday => timeToEpochAt_none hm
  rw [parseDecimalAt_eq (by omega), parseDecimalAt_eq (by omega)]
  simp only [Option.bind_eq_bind, Option.bind_some, List.drop_zero, hepoch]
  simp

/-- `date_time_parse` and `date_parse` read the text and the table of months in bounds exactly when
the text is one of these. -/
theorem date_reads_iff (now : Ticks) (s : F8String) :
    ((dateTimeParseAt now s).isSome ↔ TimestampInBounds s) ∧
      ((dateParseAt now s).isSome ↔ DateInBounds s) := by
  constructor
  · by_cases h : TimestampInBounds s
    · simp [dateTimeParseAt_eq h, h]
    · simp [dateTimeParseAt_none h, h]
  · by_cases h : DateInBounds s
    · simp [dateParseAt_eq h, h]
    · simp [dateParseAt_none h, h]

/-- A month of `99` in a timestamp of the right length. -/
theorem date_reads_out_of_bounds :
    ¬∀ (now : Ticks) (s : F8String), (dateTimeParseAt now s).isSome ∧ (dateParseAt now s).isSome := by
  intro h
  exact absurd (h 0 (ascii "20249901-00:00:00")).1 (by decide +kernel)

end Fix8.Codec
