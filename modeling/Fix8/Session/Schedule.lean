import Fix8.Codec.DateTime
import Fix8.Compiler.Load

/-!
# Schedules

When a session is active: daily between two times of day, or from a time on a first weekday to one
on a last weekday. Sums of ticks are 64-bit; one that leaves the range has no result.
-/

namespace Fix8.Session

open Codec

/-! ## Ticks -/

namespace Tickval

def minute : Int := 60 * Codec.Tickval.billion

/-- `errorticks`, the greatest value of the clock. -/
def errorticks : Int := 9223372036854775807

end Tickval

/-- The range of `ticks`. -/
def InTicks (x : Int) : Prop := -9223372036854775808 ≤ x ∧ x ≤ Tickval.errorticks

instance (x : Int) : Decidable (InTicks x) := by
  unfold InTicks
  infer_instance

/-- A result of type `ticks`. -/
def toTicks (x : Int) : Option Int := if InTicks x then some x else none

/-- `Tickval::in_range`: with an error value there is no upper boundary. -/
def inRange (now a b : Int) : Bool :=
  if b ≠ Tickval.errorticks then a ≤ now && now ≤ b else a ≤ now

/-- `tm_wday` of `gmtime_r`; 1 January 1970 is a Thursday. -/
def gmtimeWday (t : Int) : Int := (t / 86400 + 4) % 7

/-! ## Schedules -/

/-- `Schedule`; the end is an error value where there is none, the days are negative. -/
structure Schedule where
  start : Int
  end_ : Int
  duration : Int
  utcOffset : Int
  startDay : Int
  endDay : Int
  toffset : Int
deriving DecidableEq, Repr

/-- `is_valid`. -/
def Schedule.isValid (s : Schedule) : Bool := s.start ≠ Tickval.errorticks

/-- `Schedule::test` at the time `clock`, with the previous state `prev`. -/
def Schedule.test (s : Schedule) (clock : Int) (prev : Bool) : Option Bool := do
  let now ← toTicks (clock + s.toffset)
  let today := now - now.tmod Codec.Tickval.day
  if s.startDay < 0 then
    let start ← toTicks (today + s.start)
    let stop ← toTicks (today + s.end_)
    if inRange now start stop then
      return if !prev then true else prev
    else return if prev then false else prev
  else
    let wday := gmtimeWday (Codec.Tickval.secs now)
    if !prev then
      if (s.startDay > s.endDay && (wday ≥ s.startDay || wday ≤ s.endDay))
          || (s.startDay < s.endDay && wday ≥ s.startDay && wday ≤ s.endDay) then
        let start ← toTicks (today + s.start)
        let stop ← toTicks (today + s.end_)
        return if inRange now start stop then true else prev
      else return prev
    else
      if (s.startDay > s.endDay && (wday < s.startDay && wday > s.endDay))
          || (s.startDay < s.endDay && wday ≥ s.endDay) then
        let stop ← toTicks (today + s.end_)
        return if now > stop then false else prev
      else return prev

/-! ## Schedules from the configuration -/

def dayNames : List F8String := ["su", "mo", "tu", "we", "th", "fr", "sa"].map ascii

/-- `daymap`, in the order of a multimap's equal range. -/
def daymap : List (UInt8 × Nat) :=
  [(115, 0), (109, 1), (116, 2), (119, 3), (116, 4), (102, 5), (115, 6)]

/-- `decode_dow`. -/
def decodeDow (text : F8String) : Int :=
  match text.map Compiler.tolower with
  | [] => -1
  | c :: source =>
    if source.isEmpty ∧ 48 ≤ c ∧ c ≤ 54 then (c.toNat : Int) - 48 else
      match daymap.filter (·.1 = c), source with
      | [(_, day)], _ => day
      | (_, first) :: (_, second) :: _, letter :: _ =>
        if (dayNames.getD first []).getD 1 0 = letter then first
        else if (dayNames.getD second []).getD 1 0 = letter then second
        else -1
      | _, _ => -1

/-- The attributes that `create_schedule` reads, the numbers with their default. -/
structure ScheduleAttrs where
  startTime : Option F8String
  endTime : Option F8String
  utcOffsetMins : Int
  duration : Nat
  startDay : Option F8String
  endDay : Option F8String
deriving DecidableEq, Repr

/-- `get_time_field` with `timeonly` set; no text of eight characters stands for the current time. -/
def getTimeField (attr : Option F8String) : Int :=
  match attr with
  | some text =>
    if text.length = 8 then timeParse Codec.Tickval.noticks text else Tickval.errorticks
  | none => Tickval.errorticks

inductive ScheduleError where
  | configurationError (text : String)
  | overflow
deriving DecidableEq, Repr

/-- A sum or product of ticks in `create_schedule`. -/
def ticksOf (x : Int) : Except ScheduleError Int :=
  match toTicks x with
  | some t => pure t
  | none => throw .overflow

/-- A weekday attribute, or `dflt` without one. -/
def dayField (attr : Option F8String) (dflt : Int) : Int :=
  match attr with
  | some text => decodeDow text
  | none => dflt

/-- `create_schedule`; without a start time the schedule is the default one. -/
def createSchedule (which : ScheduleAttrs) : Except ScheduleError Schedule :=
  let start := getTimeField which.startTime
  if start ≠ Tickval.errorticks then do
    let stop ← stopTime start
    let startDay := dayField which.startDay (-1)
    let endDay := dayField which.endDay (if startDay < 0 then -1 else startDay)
    let toffset ← ticksOf (which.utcOffsetMins * Tickval.minute)
    pure { start := start, end_ := stop, duration := which.duration,
           utcOffset := which.utcOffsetMins, startDay := startDay, endDay := endDay,
           toffset := toffset }
  else
    pure { start := Tickval.errorticks, end_ := Tickval.errorticks, duration := 0, utcOffset := 0,
           startDay := -1, endDay := -1, toffset := 0 }
where
  /-- The end time, or the duration in minutes after the start. -/
  stopTime (start : Int) : Except ScheduleError Int := do
    let stop := getTimeField which.endTime
    if stop = Tickval.errorticks then
      if which.duration ≠ 0 then
        let span ← ticksOf (which.duration * Tickval.minute)
        ticksOf (start + span)
      else pure stop
    else if stop ≤ start then
      throw (.configurationError
        "Schedule end time cannot be equal to or before session start time")
    else pure stop

end Fix8.Session
