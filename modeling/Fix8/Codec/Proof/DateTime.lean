import Fix8.Codec.DateTime
import Fix8.Codec.Proof.Numeral
import Mathlib.Tactic.IntervalCases

/-!
# Dates and times through their text

`format0` and `parse_decimal` are inverse on fixed widths, and `time_to_epoch` inverts `gmtime` for
the years 1970 to 2099, except that it computes in 32 bits. So a timestamp comes back from its text
exactly up to 03:14:07 on 19 January 2038; a time of day always does.

* **`timeToEpoch_gmtime`**: the calendar;
* `dateTimeParse_format`, `dateParse_format`, `timeParse_format`: what is read back;
* **`date_time_roundTrips_iff`**.
-/

namespace Fix8.Codec

/-! ## Fixed widths -/

section
variable {data : Int} {width n : Nat}

theorem charVal_ofNat (h : n < 128) : charVal (UInt8.ofNat n) = n := by
  have hn : (UInt8.ofNat n).toNat = n := by
    rw [UInt8.toNat_ofNat']
    omega
  unfold charVal
  rw [hn, Int.bmod_def]
  split <;> omega

/-- The byte that `format0` writes for a digit. -/
theorem charVal_format0 (h0 : 0 ≤ data) :
    charVal (UInt8.ofNat ((data.tmod 10 + 48) % 256).toNat) = data % 10 + 48 := by
  obtain ⟨d, hd, hlt⟩ : ∃ d : Nat, data % 10 = d ∧ d < 10 := ⟨(data % 10).toNat, by omega⟩
  have hbyte : ((data.tmod 10 + 48) % 256).toNat = d + 48 := by
    rw [Int.tmod_eq_emod_of_nonneg h0]
    omega
  rw [hbyte, hd, charVal_ofNat (by omega)]
  rfl

theorem format0_length (data : Int) (width : Nat) : (format0 data width).length = width := by
  induction width generalizing data with
  | zero => rfl
  | succ width ih => rw [format0, List.length_append, ih, List.length_singleton]

theorem foldl_format0 (h0 : 0 ≤ data) (h : data < 10 ^ width) :
    (format0 data width).foldl (fun val c => val * 10 + (charVal c - 48)) 0 = data := by
  induction width generalizing data with
  | zero =>
    rw [Int.pow_zero] at h
    show (0 : Int) = data
    omega
  | succ width ih =>
    rw [Int.pow_succ] at h
    have hdiv : data.tdiv 10 = data / 10 := Int.tdiv_eq_ediv_of_nonneg h0
    rw [format0, List.foldl_append, hdiv, ih (by omega) (by omega), List.foldl_cons, List.foldl_nil,
      charVal_format0 h0]
    omega

/-- `parse_decimal` reads what `format0` has written, whatever follows. -/
theorem parseDecimal_format0 (h0 : 0 ≤ data) (h : data < 10 ^ width) (rest : F8String) :
    parseDecimal (format0 data width ++ rest) width = data := by
  have htake : (format0 data width ++ rest ++ List.replicate width 0).take width =
      format0 data width := by
    rw [List.append_assoc, List.take_left' (format0_length data width)]
  rw [parseDecimal, htake]
  exact foldl_format0 h0 h

theorem isNow_of_length {s : F8String} (h : 3 < s.length) : isNow s = false := by
  have hne : s ≠ ascii "now" := by
    rintro rfl
    exact absurd h (by decide)
  have hnil : s ≠ [] := by
    rintro rfl
    exact absurd h (by decide)
  simp [isNow, hne, hnil]

end

/-! ## The calendar -/

/-- The day `doy` of the year `y` that begins on 1 March, and the seconds `rem` of that day. -/
def civil (y doy rem : Int) : Tm :=
  let mp := (5 * doy + 2) / 153
  let month := if mp < 10 then mp + 3 else mp - 9
  { year := y + (if month ≤ 2 then 1 else 0) - 1900, mon := month - 1,
    mday := doy - (153 * mp + 2) / 5 + 1,
    hour := rem / 3600, min := rem % 3600 / 60, sec := rem % 60 }

/-- A day since the epoch in the cycles of four years from 1 March of the year `base`: it is the day
`doy` of the year `b` of the cycle `q`. -/
structure Cycle (days base q b doy : Int) : Prop where
  base : base = 1900 ∧ days = 1461 * q + 365 * b + doy - 25508 ∨
    base = 2000 ∧ days = 1461 * q + 365 * b + doy + 11017
  cycle : 0 ≤ q ∧ q ≤ 24
  year : 0 ≤ b ∧ b ≤ 3
  day : 0 ≤ doy ∧ doy ≤ 365
  leap : doy = 365 → b = 3

/-- The year of the cycles. Their days are counted from `s` days into a period of 1460, so that the
leap days are left out in front of the right one. -/
theorem yearOfCycle {x q b doy s : Int} (hx : x = 1461 * q + 365 * b + doy) (hq : 0 ≤ q ∧ q ≤ 24)
    (hb : 0 ≤ b ∧ b ≤ 3) (hd : 0 ≤ doy ∧ doy ≤ 365) (hl : doy = 365 → b = 3)
    (hs : 0 ≤ s ∧ s ≤ 72) : (x - (x + s) / 1460) / 365 = 4 * q + b := by
  have hcases : (x + s) / 1460 = q ∧ 365 * b + doy + q + s < 1460 ∨
      (x + s) / 1460 = q + 1 ∧ 1460 ≤ 365 * b + doy + q + s := by omega
  rcases hcases with ⟨hk, hlt⟩ | ⟨hk, hge⟩
  · omega
  · omega

theorem exists_cycle {x : Int} (h0 : 0 ≤ x) (h : x < 36525) :
    ∃ q b doy : Int, x = 1461 * q + 365 * b + doy ∧ (0 ≤ q ∧ q ≤ 24) ∧ (0 ≤ b ∧ b ≤ 3) ∧
      (0 ≤ doy ∧ doy ≤ 365) ∧ (doy = 365 → b = 3) := by
  rcases Int.lt_or_le (x % 1461) 1095 with hlt | hge
  · exact ⟨x / 1461, x % 1461 / 365, x % 1461 % 365, by omega⟩
  · exact ⟨x / 1461, 3, x % 1461 - 1095, by omega⟩

theorem gmtime_cycle {t : Int} (h0 : 0 ≤ t) (h1 : t < 4102444800) :
    ∃ base q b doy, Cycle (t / 86400) base q b doy ∧
      gmtime t = civil (base + 4 * q + b) doy (t % 86400) := by
  have hdays : 0 ≤ t / 86400 ∧ t / 86400 ≤ 47481 := by omega
  have hgm : ∀ era doe yoe : Int, (t / 86400 + 719468) / 146097 = era →
      (t / 86400 + 719468) % 146097 = doe →
      (doe - doe / 1460 + doe / 36524 - doe / 146096) / 365 = yoe →
      gmtime t = civil (yoe + era * 400) (doe - (365 * yoe + yoe / 4 - yoe / 100))
        (t % 86400) := by
    intro era doe yoe hera hdoe hyoe
    subst hera hdoe hyoe
    rfl
  generalize t / 86400 = days at hdays hgm ⊢
  -- The range lies in the last century of one era and the first of the next.
  rcases Int.lt_or_le days 11017 with hlt | hge
  · obtain ⟨q, b, doy, hx, hq, hb, hd, hl⟩ :=
      exists_cycle (x := days + 25508) (by omega) (by omega)
    have hyoe := yearOfCycle (s := 72) hx hq hb hd hl (by omega)
    have hcenturies : (days + 25508 + 109572) / 36524 - (days + 25508 + 109572) / 146096 = 3 := by
      omega
    have h4 : (300 + 4 * q + b) / 4 = 75 + q := by omega
    have h100 : (300 + 4 * q + b) / 100 = 3 := by omega
    refine ⟨1900, q, b, doy, ⟨.inl ⟨rfl, by omega⟩, hq, hb, hd, hl⟩, ?_⟩
    rw [hgm 4 (days + 25508 + 109572) (300 + 4 * q + b) (by omega) (by omega) (by omega), h4, h100]
    congr 1
    · omega
    · omega
  · obtain ⟨q, b, doy, hx, hq, hb, hd, hl⟩ :=
      exists_cycle (x := days - 11017) (by omega) (by omega)
    have hyoe := yearOfCycle (s := 0) hx hq hb hd hl (by omega)
    have h4 : (4 * q + b) / 4 = q := by omega
    have h100 : (4 * q + b) / 100 = 0 := by omega
    refine ⟨2000, q, b, doy, ⟨.inr ⟨rfl, by omega⟩, hq, hb, hd, hl⟩, ?_⟩
    rw [hgm 5 (days - 11017) (4 * q + b) (by omega) (by omega) (by omega), h4, h100]
    congr 1
    · omega
    · omega

/-- The members of a `struct tm` that `format0` writes in full. -/
structure Tm.Shown (tm : Tm) : Prop where
  year : 70 ≤ tm.year ∧ tm.year < 8100
  mon : 0 ≤ tm.mon ∧ tm.mon < 12
  mday : 1 ≤ tm.mday ∧ tm.mday < 32
  hour : 0 ≤ tm.hour ∧ tm.hour < 24
  min : 0 ≤ tm.min ∧ tm.min < 60
  sec : 0 ≤ tm.sec ∧ tm.sec < 60

theorem Cycle.shown {days base q b doy : Int} (h : Cycle days base q b doy) (h0 : 0 ≤ days)
    (rem : Int) (hrem : 0 ≤ rem ∧ rem < 86400) : (civil (base + 4 * q + b) doy rem).Shown := by
  obtain ⟨hbase, hq, hb, hd, hl⟩ := h
  obtain ⟨mp, hmp⟩ : ∃ mp, (5 * doy + 2) / 153 = mp := ⟨_, rfl⟩
  constructor <;> simp only [civil, hmp]
  · split <;> split <;> omega
  · split <;> omega
  · omega
  · omega
  · omega
  · omega

theorem timeToEpoch_eq {tm : Tm} (hy : 70 ≤ tm.year) (hd : 1 ≤ tm.mday) :
    timeToEpoch tm = ((monDays tm.mon + (tm.mday - 1) + (tm.year - 70) * 365 + (tm.year - 68) / 4 -
      if tm.year % 4 = 0 ∧ tm.mon < 2 then 1 else 0) * 86400 + tm.hour * 3600 + tm.min * 60 +
        tm.sec).bmod 4294967296 := by
  have htmod : tm.year.tmod 4 = tm.year % 4 := Int.tmod_eq_emod_of_nonneg (by omega)
  have htdiv : (tm.year - 70 + 2).tdiv 4 = (tm.year - 68) / 4 := by
    rw [Int.tdiv_eq_ediv_of_nonneg (by omega)]
    omega
  have hy0 : tm.year ≠ 0 := by omega
  have hd0 : tm.mday ≠ 0 := by omega
  simp only [timeToEpoch, ne_eq, hy0, hd0, not_false_eq_true, if_true, true_and, htmod, htdiv]
  congr 1
  split <;> omega

theorem Cycle.timeToEpoch {t base q b doy : Int} (h : Cycle (t / 86400) base q b doy)
    (h0 : 0 ≤ t) :
    timeToEpoch (civil (base + 4 * q + b) doy (t % 86400)) = t.bmod 4294967296 := by
  have hshown := h.shown (by omega) (t % 86400) (by omega)
  obtain ⟨hbase, hq, hb, hd, hl⟩ := h
  obtain ⟨mp, hmp⟩ : ∃ mp, (5 * doy + 2) / 153 = mp := ⟨_, rfl⟩
  have hmp0 : 0 ≤ mp := by omega
  have hmp1 : mp ≤ 11 := by omega
  rw [timeToEpoch_eq hshown.year.1 hshown.mday.1]
  congr 1
  simp only [civil, hmp]
  -- January and February belong to the year before, and its leap day is the last.
  interval_cases mp
  all_goals
    simp [monDays]
    omega

/-- The hand-made calendar inverts the library's, at the width of its arithmetic. -/
theorem timeToEpoch_gmtime {t : Int} (h0 : 0 ≤ t) (h1 : t < 4102444800) :
    (gmtime t).Shown ∧ timeToEpoch (gmtime t) = t.bmod 4294967296 := by
  obtain ⟨base, q, b, doy, hcycle, hgm⟩ := gmtime_cycle h0 h1
  rw [hgm]
  exact ⟨hcycle.shown (by omega) _ (by omega), hcycle.timeToEpoch h0⟩

/-! ## The texts -/

section
variable {t now : Ticks} {tm : Tm} {ms : Int}

def dateText (tm : Tm) : F8String :=
  format0 (tm.year + 1900) 4 ++ format0 (tm.mon + 1) 2 ++ format0 tm.mday 2

def timeText (tm : Tm) : F8String :=
  format0 tm.hour 2 ++ ascii ":" ++ format0 tm.min 2 ++ ascii ":" ++ format0 tm.sec 2

theorem dateText_length : (dateText tm).length = 8 := rfl

/-- The date, with whatever follows. -/
theorem parse_dateText (h : tm.Shown) (rest : F8String) :
    parseDecimal (dateText tm ++ rest) 4 = tm.year + 1900 ∧
      parseDecimal ((dateText tm ++ rest).drop 4) 2 = tm.mon + 1 ∧
      parseDecimal ((dateText tm ++ rest).drop 6) 2 = tm.mday := by
  obtain ⟨hyear, hmon, hmday, -, -, -⟩ := h
  exact ⟨parseDecimal_format0 (by omega) (by omega) _,
    parseDecimal_format0 (by omega) (by omega) _, parseDecimal_format0 (by omega) (by omega) _⟩

/-- The time of day, with whatever follows. -/
theorem parse_timeText (h : tm.Shown) (rest : F8String) :
    parseDecimal (timeText tm ++ rest) 2 = tm.hour ∧
      parseDecimal ((timeText tm ++ rest).drop 3) 2 = tm.min ∧
      parseDecimal ((timeText tm ++ rest).drop 6) 2 = tm.sec := by
  obtain ⟨-, -, -, hhour, hmin, hsec⟩ := h
  exact ⟨parseDecimal_format0 (by omega) (by omega) _,
    parseDecimal_format0 (by omega) (by omega) _, parseDecimal_format0 (by omega) (by omega) _⟩

theorem parse_msecs (tm : Tm) (h : 0 ≤ ms ∧ ms < 1000) :
    parseDecimal ((timeText tm ++ (ascii "." ++ format0 ms 3)).drop 9) 3 = ms :=
  parseDecimal_format0 h.1 h.2 []

/-- What is read from a full timestamp. -/
theorem dateTimeParse_format (h : (gmtime (Tickval.secs t)).Shown)
    (hms : 0 ≤ Tickval.msecs t ∧ Tickval.msecs t < 1000) :
    dateTimeParse now (dateTimeFormat t .withMs) = Tickval.msecs t * Tickval.million +
      timeToEpoch (gmtime (Tickval.secs t)) * Tickval.billion := by
  generalize hgm : gmtime (Tickval.secs t) = tm at h
  generalize htime : timeText tm ++ (ascii "." ++ format0 (Tickval.msecs t) 3) = time
  have htext : dateTimeFormat t .withMs = dateText tm ++ (ascii "-" ++ time) := by
    subst hgm htime
    simp only [dateTimeFormat, dateText, timeText, List.append_assoc]
  have hlen : (dateText tm ++ (ascii "-" ++ time)).length = 21 := by
    rw [← htime]
    rfl
  have hdrop : ∀ k, (dateText tm ++ (ascii "-" ++ time)).drop (9 + k) = time.drop k := by
    intro k
    rw [← List.drop_drop]
    rfl
  obtain ⟨hyear, hmon, hmday⟩ := parse_dateText h (ascii "-" ++ time)
  obtain ⟨hhour, hmin, hsec⟩ := parse_timeText h (ascii "." ++ format0 (Tickval.msecs t) 3)
  have hmsecs := parse_msecs tm hms
  rw [htime] at hhour hmin hsec hmsecs
  rw [dateTimeParse, htext, isNow_of_length (by omega), hlen]
  simp only [Bool.false_eq_true, if_false]
  rw [hyear, hmon, hmday, hdrop 0, hdrop 3, hdrop 6, hdrop 9, List.drop_zero, hhour, hmin, hsec,
    hmsecs, Int.add_sub_cancel, Int.add_sub_cancel]

theorem dateParse_format (h : (gmtime (Tickval.secs t)).Shown) :
    dateParse now (dateTimeFormat t .dateOnly) =
      timeToEpoch { gmtime (Tickval.secs t) with hour := 0, min := 0, sec := 0 } *
        Tickval.billion := by
  have htext : dateTimeFormat t .dateOnly = dateText (gmtime (Tickval.secs t)) := rfl
  generalize gmtime (Tickval.secs t) = tm at h htext
  obtain ⟨hyear, hmon, hmday⟩ := parse_dateText h []
  rw [List.append_nil] at hyear hmon hmday
  have hlen : (dateText tm).length = 8 := dateText_length
  rw [dateParse, htext, isNow_of_length (by omega)]
  simp only [Bool.false_eq_true, if_false]
  rw [hyear, hmon, if_pos hlen, hmday, Int.add_sub_cancel, Int.add_sub_cancel]

theorem timeParse_format (h : (gmtime (Tickval.secs t)).Shown)
    (hms : 0 ≤ Tickval.msecs t ∧ Tickval.msecs t < 1000) :
    timeParse now (dateTimeFormat t .timeWithMs) = Tickval.msecs t * Tickval.million +
      ((gmtime (Tickval.secs t)).hour * 3600 + (gmtime (Tickval.secs t)).min * 60 +
        (gmtime (Tickval.secs t)).sec) * Tickval.billion := by
  have htext : dateTimeFormat t .timeWithMs = timeText (gmtime (Tickval.secs t)) ++
      (ascii "." ++ format0 (Tickval.msecs t) 3) := by
    simp only [dateTimeFormat, timeText, List.append_assoc]
  generalize gmtime (Tickval.secs t) = tm at h htext ⊢
  obtain ⟨hhour, hmin, hsec⟩ := parse_timeText h (ascii "." ++ format0 (Tickval.msecs t) 3)
  have hmsecs := parse_msecs tm hms
  have hlen : (timeText tm ++ (ascii "." ++ format0 (Tickval.msecs t) 3)).length = 12 := rfl
  rw [timeParse, htext, isNow_of_length (by omega), hlen]
  simp only [Bool.false_eq_true, if_false]
  rw [hhour, hmin, hsec, hmsecs]

end

/-! ## The round trips -/

section
variable {now v : Ticks}

/-- What a value must come back as from its three texts. -/
structure DateTimeRoundTrips (now v : Ticks) : Prop where
  dateTime : dateTimeParse now (dateTimeFormat v .withMs) = v
  date : dateParse now (dateTimeFormat v .dateOnly) = v / Tickval.day * Tickval.day
  time : timeParse now (dateTimeFormat v .timeWithMs) = v % Tickval.day

/-- The values from 1 January 1970 to the end of 2099, to the millisecond. -/
structure InRange (v : Int) : Prop where
  first : 0 ≤ v
  last : v < 4102444800 * 1000000000
  millisecond : v % 1000000 = 0

theorem bmod_iff {u : Int} (h0 : 0 ≤ u) (h1 : u < 4294967296) :
    u.bmod 4294967296 = u ↔ u < 2147483648 := by
  rw [Int.bmod_def]
  split <;> omega

theorem million_eq : Tickval.million = (1000000 : Int) := rfl

theorem billion_eq : Tickval.billion = (1000000000 : Int) := rfl

namespace InRange

theorem secs_eq {v : Int} (h : InRange v) : Tickval.secs v = v / 1000000000 :=
  Int.tdiv_eq_ediv_of_nonneg h.first

theorem msecs_eq {v : Int} (h : InRange v) : Tickval.msecs v = v / 1000000 % 1000 := by
  have hfirst := h.first
  have hmillis : v.tdiv Tickval.million = v / 1000000 := Int.tdiv_eq_ediv_of_nonneg hfirst
  rw [Tickval.msecs, hmillis, Int.tmod_eq_emod_of_nonneg (by omega)]

theorem msecs_range {v : Int} (h : InRange v) :
    0 ≤ Tickval.msecs v ∧ Tickval.msecs v < 1000 := by
  rw [h.msecs_eq]
  omega

theorem gmtime {v : Int} (h : InRange v) : (gmtime (Tickval.secs v)).Shown ∧
    timeToEpoch (Codec.gmtime (Tickval.secs v)) = (v / 1000000000).bmod 4294967296 := by
  have hfirst := h.first
  have hlast := h.last
  rw [h.secs_eq]
  exact timeToEpoch_gmtime (by omega) (by omega)

/-- A timestamp comes back where its seconds fit into an `int`. -/
theorem dateTime_iff {v : Int} (h : InRange v) :
    dateTimeParse now (dateTimeFormat v .withMs) = v ↔ v < 2147483648 * 1000000000 := by
  obtain ⟨hshown, hepoch⟩ := h.gmtime
  have hfirst := h.first
  have hlast := h.last
  have hmilli := h.millisecond
  have hiff := bmod_iff (u := v / 1000000000) (by omega) (by omega)
  rw [dateTimeParse_format hshown h.msecs_range, hepoch, h.msecs_eq, million_eq, billion_eq]
  generalize (v / 1000000000).bmod 4294967296 = epoch at hiff ⊢
  show (v / 1000000 % 1000 * 1000000 + epoch * 1000000000 : Int) = v ↔ _
  constructor
  · intro heq
    have hlt := hiff.1 (by omega)
    omega
  · intro hlt
    have heq := hiff.2 (by omega)
    omega

/-- A date comes back as its midnight where the seconds of that fit into an `int`. -/
theorem date_iff {v : Int} (h : InRange v) :
    dateParse now (dateTimeFormat v .dateOnly) = v / 86400000000000 * 86400000000000 ↔
      v < 24856 * 86400000000000 := by
  have hfirst := h.first
  have hlast := h.last
  obtain ⟨hshown, -⟩ := h.gmtime
  have hmidnight : ({ Codec.gmtime (Tickval.secs v) with hour := 0, min := 0, sec := 0 } : Tm) =
      Codec.gmtime (Tickval.secs v / 86400 * 86400) := by
    have hday : Tickval.secs v / 86400 * 86400 / 86400 = Tickval.secs v / 86400 := by omega
    have hrem : Tickval.secs v / 86400 * 86400 % 86400 = 0 := by omega
    simp only [Codec.gmtime, hday, hrem]
    rfl
  rw [h.secs_eq] at hmidnight
  obtain ⟨-, hepoch⟩ := timeToEpoch_gmtime (t := v / 1000000000 / 86400 * 86400) (by omega)
    (by omega)
  have hiff := bmod_iff (u := v / 1000000000 / 86400 * 86400) (by omega) (by omega)
  rw [dateParse_format hshown, h.secs_eq, hmidnight, hepoch, billion_eq]
  generalize (v / 1000000000 / 86400 * 86400).bmod 4294967296 = epoch at hiff ⊢
  show (epoch * 1000000000 : Int) = v / 86400000000000 * 86400000000000 ↔ _
  constructor
  · intro heq
    have hlt := hiff.1 (by omega)
    omega
  · intro hlt
    have heq := hiff.2 (by omega)
    omega

/-- A time of day always comes back. -/
theorem time_eq {v : Int} (h : InRange v) :
    timeParse now (dateTimeFormat v .timeWithMs) = v % 86400000000000 := by
  have hfirst := h.first
  have hmilli := h.millisecond
  obtain ⟨hshown, -⟩ := h.gmtime
  have hsecs : (Codec.gmtime (Tickval.secs v)).hour * 3600 +
      (Codec.gmtime (Tickval.secs v)).min * 60 + (Codec.gmtime (Tickval.secs v)).sec =
        v / 1000000000 % 86400 := by
    rw [h.secs_eq]
    simp only [Codec.gmtime]
    omega
  rw [timeParse_format hshown h.msecs_range, hsecs, h.msecs_eq, million_eq, billion_eq]
  show (v / 1000000 % 1000 * 1000000 + v / 1000000000 % 86400 * 1000000000 : Int) = _
  omega

end InRange

/-- Between 1970 and 2099 a value comes back from its texts exactly until its seconds since the
epoch no longer fit into an `int`, from 03:14:08 on 19 January 2038. -/
theorem date_time_roundTrips_iff (now : Ticks) (v : Int) (h : InRange v) :
    DateTimeRoundTrips now v ↔ v < 2147483648 * 1000000000 := by
  have hday : Tickval.day = (86400000000000 : Int) := rfl
  constructor
  · intro hround
    exact h.dateTime_iff.1 hround.dateTime
  · intro hlt
    refine ⟨h.dateTime_iff.2 hlt, ?_, ?_⟩
    · rw [hday]
      exact h.date_iff.2 (by omega)
    · rw [hday]
      exact h.time_eq

/-- A leap day. -/
theorem date_time_roundTrips_iff_leapDay : InRange 951782400123000000 ∧
    DateTimeRoundTrips 0 951782400123000000 :=
  have h : InRange 951782400123000000 := ⟨by decide, by decide, by decide⟩
  ⟨h, (date_time_roundTrips_iff 0 951782400123000000 h).2 (by decide)⟩

/-- The first second that is out of range. -/
theorem year_2038 : ¬∀ (now : Ticks) (v : Int), InRange v → DateTimeRoundTrips now v := by
  intro hall
  have h : InRange 2147483648000000000 := ⟨by decide, by decide, by decide⟩
  exact absurd (h.dateTime_iff.1 (hall 0 _ h).dateTime) (by decide)

end

end Fix8.Codec
