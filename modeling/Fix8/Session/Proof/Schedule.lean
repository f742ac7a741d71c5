import Fix8.Session.Schedule

/-!
# The window of a schedule

What the time of day and the weekday say of a schedule, and when `test` says the same. It does not
for a schedule without an end, whose error value is added to the current day; for a single day,
which neither condition of a weekly schedule admits; and for a session that is still active on a
day outside its range, which goes off only after the end time and, unless the range wraps, only
late in the week. Before the epoch the remainders are truncated.

* **`schedule_test_iff`**: when `test` is right;
* `createSchedule_sound`: what a configured schedule is like.
-/

namespace Fix8.Session

open Codec

/-! ## What a schedule means -/

/-- The time of day, from the midnight before. -/
def timeOfDay (n : Int) : Int := n % Codec.Tickval.day

/-- The weekday, from Sunday; 1 January 1970 is a Thursday. -/
def weekday (n : Int) : Int := (n / Codec.Tickval.day + 4) % 7

namespace Schedule

variable (s : Schedule)

/-- The window of a time of day, open at the end where there is none. -/
def InWindow (t : Int) : Prop := s.start ≤ t ∧ (s.end_ = Tickval.errorticks ∨ t ≤ s.end_)

/-- The cyclic range of days, a single one where the two are equal. -/
def OnDay (w : Int) : Prop :=
  if s.startDay ≤ s.endDay then s.startDay ≤ w ∧ w ≤ s.endDay else s.startDay ≤ w ∨ w ≤ s.endDay

instance (t : Int) : Decidable (s.InWindow t) := by
  unfold InWindow
  infer_instance

instance (w : Int) : Decidable (s.OnDay w) := by
  unfold OnDay
  infer_instance

/-- What the state should be at the local time `n`. -/
def Right (n : Int) (active : Bool) : Prop :=
  if s.startDay < 0 then active = true ↔ s.InWindow (timeOfDay n)
  else (s.OnDay (weekday n) → s.InWindow (timeOfDay n) → active = true) ∧
    (¬s.OnDay (weekday n) → active = false)

/-- `test` has a result, and that is right. -/
def Meets (clock : Int) (prev : Bool) : Prop :=
  ∃ active, s.test clock prev = some active ∧ s.Right (clock + s.toffset) active

end Schedule

/-! ## The time and the day that the code sees -/

/-- The time since midnight, before the epoch that until midnight. -/
def timeSeen (n : Int) : Int :=
  if n < 0 ∧ timeOfDay n ≠ 0 then timeOfDay n - Codec.Tickval.day else timeOfDay n

/-- The weekday, before the epoch of the next full second. -/
def daySeen (n : Int) : Int :=
  if n < 0 ∧ Codec.Tickval.day - Codec.Tickval.billion < timeOfDay n then (weekday n + 1) % 7
  else weekday n

theorem tmod_day (n : Int) : n.tmod Codec.Tickval.day = timeSeen n := by
  have hday : Codec.Tickval.day = 86400000000000 := rfl
  unfold timeSeen timeOfDay
  have habs : (86400000000000 : Int).natAbs = 86400000000000 := rfl
  rw [hday, Int.tmod_eq_emod, habs]
  split <;> split <;> omega

theorem ediv_of_rest {d k m : Int} (h0 : 0 ≤ k) (h : k < m) : (d * m + k) / m = d := by
  rw [Int.add_comm, Int.add_mul_ediv_right _ _ (by omega), Int.ediv_eq_zero_of_lt h0 h,
    Int.zero_add]

theorem gmtimeWday_secs (n : Int) : gmtimeWday (Codec.Tickval.secs n) = daySeen n := by
  -- `d` days, `k` seconds and `r` nanoseconds
  obtain ⟨d, k, r, hn, hk, hr⟩ : ∃ d k r : Int, n = (d * 86400 + k) * 1000000000 + r ∧
      (0 ≤ k ∧ k < 86400) ∧ 0 ≤ r ∧ r < 1000000000 :=
    ⟨n / 1000000000 / 86400, n / 1000000000 % 86400, n % 1000000000, by omega, by omega, by omega⟩
  have hsecs : n / 1000000000 = d * 86400 + k := by omega
  have hdays : n / 86400000000000 = d := by omega
  have htime : n % 86400000000000 = k * 1000000000 + r := by omega
  have hday : Codec.Tickval.day = 86400000000000 := rfl
  have hbillion : Codec.Tickval.billion = 1000000000 := rfl
  have hsign : Int.sign 1000000000 = 1 := rfl
  unfold gmtimeWday Codec.Tickval.secs daySeen weekday timeOfDay
  rw [hday, hbillion, Int.tdiv_eq_ediv, hsign, hsecs, hdays, htime]
  clear hsecs hdays htime
  split
  · have hin : ¬(n < 0 ∧ 86400000000000 - 1000000000 < k * 1000000000 + r) := by omega
    rw [Int.add_zero, ediv_of_rest hk.1 hk.2, if_neg hin]
  · by_cases hlast : k = 86399
    · have hin : n < 0 ∧ 86400000000000 - 1000000000 < k * 1000000000 + r := by omega
      have hnext : d * 86400 + k + 1 = (d + 1) * 86400 + 0 := by omega
      rw [hnext, ediv_of_rest (by omega) (by omega), if_pos hin]
      omega
    · have hin : ¬(n < 0 ∧ 86400000000000 - 1000000000 < k * 1000000000 + r) := by omega
      rw [Int.add_assoc, ediv_of_rest (by omega) (by omega), if_neg hin]

theorem timeSeen_of_nonneg {n : Int} (h : 0 ≤ n) : timeSeen n = timeOfDay n :=
  if_neg fun hn => absurd hn.1 (Int.not_lt.2 h)

theorem daySeen_of_nonneg {n : Int} (h : 0 ≤ n) : daySeen n = weekday n :=
  if_neg fun hn => absurd hn.1 (Int.not_lt.2 h)

theorem timeSeen_bounds (n : Int) :
    -86400000000000 < timeSeen n ∧ timeSeen n < 86400000000000 := by
  have hday : Codec.Tickval.day = 86400000000000 := rfl
  unfold timeSeen timeOfDay
  rw [hday]
  split <;> omega

/-- The midnight that the window is counted from. -/
def midnight (n : Int) : Int := n - timeSeen n

theorem sub_tmod_day (n : Int) : n - n.tmod Codec.Tickval.day = midnight n := by
  rw [tmod_day, midnight]

/-! ## Sums and ranges -/

theorem toTicks_eq {x : Int} (h : InTicks x) : toTicks x = some x := if_pos h

theorem toTicks_none {x : Int} (h : ¬InTicks x) : toTicks x = none := if_neg h

namespace Schedule

variable {s : Schedule} {n clock : Int} {w : Int} {prev active : Bool}

/-- Both ends of the window fit on the day. -/
def Fits (s : Schedule) (n : Int) : Prop :=
  InTicks (midnight n + s.start) ∧ InTicks (midnight n + s.end_)

/-- On the day the range is the window, with or without an end. -/
theorem inRange_iff (hn : InTicks n) :
    inRange n (midnight n + s.start) (midnight n + s.end_) = true ↔ s.InWindow (timeSeen n) := by
  have ht := timeSeen_bounds n
  have herr : Tickval.errorticks = (9223372036854775807 : Int) := rfl
  unfold InTicks at hn
  unfold inRange InWindow midnight
  rw [herr] at hn ⊢
  split <;> simp only [Bool.and_eq_true, decide_eq_true_eq] <;> omega

/-! ## The two conditions on the day -/

/-- The days on which an inactive session may become active: no single day is one. -/
def Joins (s : Schedule) (w : Int) : Prop := s.startDay ≠ s.endDay ∧ s.OnDay w

/-- The days on which an active session may become inactive: from the last day on, unless the range
wraps. -/
def Leaves (s : Schedule) (w : Int) : Prop :=
  if s.startDay ≤ s.endDay then s.startDay < s.endDay ∧ s.endDay ≤ w else ¬s.OnDay w

theorem joins_iff : ((s.startDay > s.endDay && (w ≥ s.startDay || w ≤ s.endDay))
      || (s.startDay < s.endDay && w ≥ s.startDay && w ≤ s.endDay)) = true ↔ s.Joins w := by
  unfold Joins OnDay
  simp only [Bool.or_eq_true, Bool.and_eq_true, decide_eq_true_eq]
  split <;> omega

theorem leaves_iff : ((s.startDay > s.endDay && (w < s.startDay && w > s.endDay))
      || (s.startDay < s.endDay && w ≥ s.endDay)) = true ↔ s.Leaves w := by
  unfold Leaves OnDay
  simp only [Bool.or_eq_true, Bool.and_eq_true, decide_eq_true_eq]
  split <;> omega

/-! ## What `test` returns -/

/-- The two sums and the comparison with them. -/
theorem window_iff (hn : InTicks n) :
    ((toTicks (midnight n + s.start)).bind fun start =>
      (toTicks (midnight n + s.end_)).bind fun stop => some (inRange n start stop)) = some active ↔
      s.Fits n ∧ (active = true ↔ s.InWindow (timeSeen n)) := by
  by_cases h1 : InTicks (midnight n + s.start)
  · by_cases h2 : InTicks (midnight n + s.end_)
    · rw [toTicks_eq h1, toTicks_eq h2, Option.bind_some, Option.bind_some, Option.some_inj,
        ← inRange_iff hn, ← Bool.eq_iff_iff]
      exact ⟨fun h => ⟨⟨h1, h2⟩, h.symm⟩, fun h => h.2.symm⟩
    · simp [toTicks_none h2, Fits, h2]
  · simp [toTicks_none h1, Fits, h1]

theorem test_daily (hd : s.startDay < 0) (hn : InTicks (clock + s.toffset)) :
    s.test clock prev = some active ↔ s.Fits (clock + s.toffset) ∧
      (active = true ↔ s.InWindow (timeSeen (clock + s.toffset))) := by
  have hsame : ∀ b : Bool, (if b = true then some true else some false) = some b := by decide
  rw [← window_iff hn, test, toTicks_eq hn, Option.bind_eq_bind, Option.bind_some, if_pos hd,
    sub_tmod_day]
  cases prev <;> simp [hsame]

theorem test_inactive (hd : ¬s.startDay < 0) (hn : InTicks (clock + s.toffset)) :
    s.test clock false = some active ↔
      (s.Joins (daySeen (clock + s.toffset)) → s.Fits (clock + s.toffset)) ∧
      (active = true ↔ s.Joins (daySeen (clock + s.toffset)) ∧
        s.InWindow (timeSeen (clock + s.toffset))) := by
  rw [test, toTicks_eq hn, Option.bind_eq_bind, Option.bind_some, if_neg hd, gmtimeWday_secs,
    sub_tmod_day]
  by_cases hj : s.Joins (daySeen (clock + s.toffset))
  · simp [joins_iff.2 hj, hj, window_iff hn]
  · simp [mt joins_iff.1 hj, hj, eq_comm]

theorem test_active (hd : ¬s.startDay < 0) (hn : InTicks (clock + s.toffset)) :
    s.test clock true = some active ↔
      (s.Leaves (daySeen (clock + s.toffset)) →
        InTicks (midnight (clock + s.toffset) + s.end_)) ∧
      (active = false ↔ s.Leaves (daySeen (clock + s.toffset)) ∧
        s.end_ < timeSeen (clock + s.toffset)) := by
  rw [test, toTicks_eq hn, Option.bind_eq_bind, Option.bind_some, if_neg hd, gmtimeWday_secs,
    sub_tmod_day]
  by_cases hl : s.Leaves (daySeen (clock + s.toffset))
  · by_cases h2 : InTicks (midnight (clock + s.toffset) + s.end_)
    · have hlater : clock + s.toffset > midnight (clock + s.toffset) + s.end_ ↔
          s.end_ < timeSeen (clock + s.toffset) := by
        unfold midnight
        omega
      by_cases hlt : s.end_ < timeSeen (clock + s.toffset)
      · simp [leaves_iff.2 hl, hl, h2, toTicks_eq h2, hlater.2 hlt, hlt, eq_comm]
      · simp [leaves_iff.2 hl, hl, h2, toTicks_eq h2, mt hlater.1 hlt, hlt, eq_comm]
    · simp [leaves_iff.2 hl, hl, h2, toTicks_none h2]
  · simp [mt leaves_iff.1 hl, hl, eq_comm]

/-! ## When that is right -/

/-- A daily schedule: the ends of the window fit on the day, so that without an end the day is no
later than the first. -/
def HoldsDaily (s : Schedule) (n : Int) : Prop :=
  s.Fits n ∧ (n < 0 → (s.InWindow (timeSeen n) ↔ s.InWindow (timeOfDay n)))

/-- An inactive session of a weekly schedule: it is not in the window of a single day. -/
def HoldsInactive (s : Schedule) (n : Int) : Prop :=
  (s.Joins (daySeen n) → s.Fits n) ∧
    if 0 ≤ n then
      ¬(s.startDay = s.endDay ∧ weekday n = s.startDay ∧ s.InWindow (timeOfDay n))
    else
      (s.OnDay (weekday n) → s.InWindow (timeOfDay n) →
        s.Joins (daySeen n) ∧ s.InWindow (timeSeen n)) ∧
      (s.Joins (daySeen n) → s.InWindow (timeSeen n) → s.OnDay (weekday n))

/-- An active session of a weekly schedule: it is in the range of days, or in the evening of a day
on which it goes off. -/
def HoldsActive (s : Schedule) (n : Int) : Prop :=
  (s.Leaves (daySeen n) → InTicks (midnight n + s.end_)) ∧
    if 0 ≤ n then s.OnDay (weekday n) ∨ s.Leaves (weekday n) ∧ s.end_ < timeOfDay n
    else
      (s.OnDay (weekday n) → s.InWindow (timeOfDay n) →
        ¬(s.Leaves (daySeen n) ∧ s.end_ < timeSeen n)) ∧
      (¬s.OnDay (weekday n) → s.Leaves (daySeen n) ∧ s.end_ < timeSeen n)

def HoldsWhen (s : Schedule) (clock : Int) (prev : Bool) : Prop :=
  InTicks (clock + s.toffset) ∧
    if s.startDay < 0 then s.HoldsDaily (clock + s.toffset)
    else if prev then s.HoldsActive (clock + s.toffset)
    else s.HoldsInactive (clock + s.toffset)

theorem daily_iff (hd : s.startDay < 0) (hn : InTicks (clock + s.toffset)) :
    s.Meets clock prev ↔ s.HoldsDaily (clock + s.toffset) := by
  simp only [Meets, Right, if_pos hd, test_daily hd hn, HoldsDaily]
  constructor
  · rintro ⟨active, ⟨hfits, hseen⟩, hright⟩
    exact ⟨hfits, fun _ => hseen.symm.trans hright⟩
  · rintro ⟨hfits, hneg⟩
    refine ⟨decide (s.InWindow (timeSeen (clock + s.toffset))), ⟨hfits, decide_eq_true_iff⟩, ?_⟩
    rw [decide_eq_true_iff]
    rcases Int.lt_or_le (clock + s.toffset) 0 with hlt | hge
    · exact hneg hlt
    · rw [timeSeen_of_nonneg hge]

/-- In a weekly schedule, the result being known. -/
theorem meets_iff {P F : Prop} [Decidable P] (hd : ¬s.startDay < 0)
    (h : ∀ active, s.test clock prev = some active ↔ F ∧ (active = true ↔ P)) :
    s.Meets clock prev ↔ F ∧
      (s.OnDay (weekday (clock + s.toffset)) → s.InWindow (timeOfDay (clock + s.toffset)) → P) ∧
      (¬s.OnDay (weekday (clock + s.toffset)) → ¬P) := by
  simp only [Meets, Right, if_neg hd, h]
  constructor
  · rintro ⟨active, ⟨hfits, hseen⟩, hon, hoff⟩
    refine ⟨hfits, fun hday hwin => hseen.1 (hon hday hwin), fun hday hp => ?_⟩
    rw [hoff hday] at hseen
    exact absurd (hseen.2 hp) Bool.false_ne_true
  · rintro ⟨hfits, hon, hoff⟩
    exact ⟨decide P, ⟨hfits, decide_eq_true_iff⟩, fun hday hwin => decide_eq_true (hon hday hwin),
      fun hday => decide_eq_false (hoff hday)⟩

/-- A single day is the only one of the range. -/
theorem onDay_single (h : s.startDay = s.endDay) : s.OnDay w ↔ w = s.startDay := by
  rw [OnDay, if_pos (Int.le_of_eq h)]
  omega

theorem inactive_iff (hd : ¬s.startDay < 0) (hn : InTicks (clock + s.toffset)) :
    s.Meets clock false ↔ s.HoldsInactive (clock + s.toffset) := by
  classical
  rw [meets_iff hd fun active => test_inactive hd hn, HoldsInactive, and_congr_right_iff]
  intro _
  split
  · next hge =>
    rw [timeSeen_of_nonneg hge, daySeen_of_nonneg hge]
    constructor
    · rintro ⟨hon, -⟩ ⟨hsame, hday, hwin⟩
      exact (hon ((onDay_single hsame).2 hday) hwin).1.1 hsame
    · intro hsingle
      refine ⟨fun hday hwin => ⟨⟨fun hsame => ?_, hday⟩, hwin⟩, fun hday hj => hday hj.1.2⟩
      exact hsingle ⟨hsame, (onDay_single hsame).1 hday, hwin⟩
  · refine and_congr_right fun _ => ⟨fun h hj hwin => ?_, fun h hday hj => hday (h hj.1 hj.2)⟩
    exact Decidable.by_contra fun hday => h hday ⟨hj, hwin⟩

theorem active_iff (hd : ¬s.startDay < 0) (hn : InTicks (clock + s.toffset)) :
    s.Meets clock true ↔ s.HoldsActive (clock + s.toffset) := by
  classical
  have htest : ∀ active, s.test clock true = some active ↔
      (s.Leaves (daySeen (clock + s.toffset)) →
        InTicks (midnight (clock + s.toffset) + s.end_)) ∧
      (active = true ↔ ¬(s.Leaves (daySeen (clock + s.toffset)) ∧
        s.end_ < timeSeen (clock + s.toffset))) := by
    intro active
    rw [test_active hd hn]
    cases active <;> simp
  rw [meets_iff hd htest, HoldsActive, and_congr_right_iff]
  intro _
  rw [not_not]
  split
  · next hge =>
    rw [timeSeen_of_nonneg hge, daySeen_of_nonneg hge]
    constructor
    · rintro ⟨-, hoff⟩
      by_cases hday : s.OnDay (weekday (clock + s.toffset))
      · exact .inl hday
      · exact .inr (hoff hday)
    · intro h
      refine ⟨fun hday hwin hl => ?_, fun hday => h.resolve_left hday⟩
      -- with an end the time is not behind it, without one nothing is
      have ht := timeSeen_bounds (clock + s.toffset)
      rw [timeSeen_of_nonneg hge] at ht
      rcases hwin.2 with herr | hle
      · rw [herr] at hl
        exact absurd hl.2 (by unfold Tickval.errorticks; omega)
      · omega
  · exact Iff.rfl

/-- **`test` is right** at a time and with a previous state exactly when these are as the conditions
say. -/
theorem schedule_test_iff (s : Schedule) (clock : Int) (prev : Bool) :
    s.Meets clock prev ↔ s.HoldsWhen clock prev := by
  unfold HoldsWhen
  by_cases hn : InTicks (clock + s.toffset)
  · rw [and_iff_right hn]
    by_cases hd : s.startDay < 0
    · rw [if_pos hd, daily_iff hd hn]
    · rw [if_neg hd]
      cases prev with
      | false => exact inactive_iff hd hn
      | true => exact active_iff hd hn
  · refine iff_of_false ?_ fun h => hn h.1
    rintro ⟨active, htest, -⟩
    rw [test, toTicks_none hn] at htest
    cases htest

end Schedule

/-! ## Schedules from the configuration -/

theorem daymap_range : ∀ d ∈ daymap, d.2 ≤ 6 := by decide

theorem decodeDow_range (text : F8String) : -1 ≤ decodeDow text ∧ decodeDow text ≤ 6 := by
  unfold decodeDow
  split
  · omega
  next c source _ =>
  split
  · next hdigit =>
    have hlo := UInt8.le_iff_toNat_le.1 hdigit.2.1
    have hhi := UInt8.le_iff_toNat_le.1 hdigit.2.2
    have h48 : (48 : UInt8).toNat = 48 := rfl
    have h54 : (54 : UInt8).toNat = 54 := rfl
    omega
  · have hmem : ∀ d ∈ daymap.filter (·.1 = c), d.2 ≤ 6 :=
      fun d hd => daymap_range d (List.mem_filter.1 hd).1
    split
    · next day heq _ _ =>
      have h := hmem (_, day) (heq ▸ List.mem_singleton.2 rfl)
      omega
    · next first _ second _ _ _ heq _ _ =>
      have h1 := hmem (_, first) (heq ▸ List.mem_cons_self)
      have h2 := hmem (_, second) (heq ▸ List.mem_cons_of_mem _ List.mem_cons_self)
      split
      · omega
      · split <;> omega
    · omega

theorem dayField_range {attr : Option F8String} {dflt : Int} (h : -1 ≤ dflt ∧ dflt ≤ 6) :
    -1 ≤ dayField attr dflt ∧ dayField attr dflt ≤ 6 := by
  cases attr with
  | none => exact h
  | some text => exact decodeDow_range text

theorem ticksOf_ok {x : Int} {t : Int} (h : ticksOf x = .ok t) : t = x := by
  unfold ticksOf toTicks at h
  split at h
  · next heq =>
    split at heq
    · cases heq
      cases h
      rfl
    · cases heq
  · cases h

/-- The end is behind the start, where there is one. -/
theorem stopTime_ok {which : ScheduleAttrs} {start stop : Int}
    (h : createSchedule.stopTime which start = .ok stop) :
    stop = Tickval.errorticks ∨ start < stop := by
  unfold createSchedule.stopTime at h
  dsimp only at h
  split at h
  · next hnone =>
    split at h
    · next hduration =>
      cases hspan : ticksOf (which.duration * Tickval.minute) with
      | error e =>
        rw [hspan] at h
        cases h
      | ok span =>
        rw [hspan] at h
        have hminute : Tickval.minute = 60000000000 := rfl
        have h1 := ticksOf_ok hspan
        have h2 := ticksOf_ok h
        rw [hminute] at h1
        exact .inr (by omega)
    · cases h
      exact .inl hnone
  · split at h
    · cases h
    · next hlt =>
      cases h
      exact .inr (Int.not_le.1 hlt)

/-- What a configured schedule is like: its window is not empty and its days are days. -/
structure Schedule.Configured (s : Schedule) : Prop where
  window : s.end_ = Tickval.errorticks ∨ s.start < s.end_
  startDay : -1 ≤ s.startDay ∧ s.startDay ≤ 6
  endDay : -1 ≤ s.endDay ∧ s.endDay ≤ 6

theorem createSchedule_sound {which : ScheduleAttrs} {s : Schedule}
    (h : createSchedule which = .ok s) : s.Configured := by
  unfold createSchedule at h
  dsimp only at h
  split at h
  · cases hstop : createSchedule.stopTime which (getTimeField which.startTime) with
    | error e =>
      rw [hstop] at h
      cases h
    | ok stop =>
      cases htoffset : ticksOf (which.utcOffsetMins * Tickval.minute) with
      | error e =>
        rw [hstop, htoffset] at h
        cases h
      | ok toffset =>
        rw [hstop, htoffset] at h
        cases h
        have hday : -1 ≤ dayField which.startDay (-1) ∧ dayField which.startDay (-1) ≤ 6 :=
          dayField_range (by decide)
        refine ⟨stopTime_ok hstop, hday, dayField_range ?_⟩
        split <;> omega
  · cases h
    exact ⟨.inl rfl, by decide, by decide⟩

/-- A schedule of one day, at noon of that day. -/
theorem schedule_single_day : ¬∀ (which : ScheduleAttrs) (s : Schedule) (clock : Int) (prev : Bool),
    createSchedule which = .ok s → s.isValid = true → s.Meets clock prev := by
  intro h
  let which : ScheduleAttrs :=
    { startTime := some (ascii "09:00:00"), endTime := some (ascii "17:00:00"), utcOffsetMins := 0,
      duration := 0, startDay := some (ascii "wed"), endDay := none }
  let s : Schedule :=
    { start := 32400000000000, end_ := 61200000000000, duration := 0, utcOffset := 0, startDay := 3,
      endDay := 3, toffset := 0 }
  have hcreate : createSchedule which = .ok s := by decide +kernel
  obtain ⟨active, htest, hright⟩ := h which s 561600000000000 false hcreate (by decide)
  have hfalse : s.test 561600000000000 false = some false := by decide +kernel
  obtain rfl : false = active := Option.some_inj.1 (hfalse.symm.trans htest)
  rw [Schedule.Right, if_neg (by decide)] at hright
  exact absurd (hright.1 (by decide) (by decide)) Bool.false_ne_true

end Fix8.Session
