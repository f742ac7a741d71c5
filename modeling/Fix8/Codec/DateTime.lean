import Fix8.Codec.Number

/-!
# Dates and times

The conversions between the text of a date or time and `Tickval` ticks, nanoseconds since the
epoch. `time_to_epoch` computes in 32-bit integers; `gmtime` is the C library's.
-/

namespace Fix8.Codec

/-- `Tickval::ticks`. -/
abbrev Ticks := Int

namespace Tickval

def noticks : Ticks := 0
def million : Ticks := 1000000
def billion : Ticks := 1000000000
def day : Ticks := 86400 * billion

/-- `secs`, rounded towards zero. -/
def secs (t : Ticks) : Int := t.tdiv billion

/-- `msecs`, as the `int` that `format0` takes it for. -/
def msecs (t : Ticks) : Int := (t.tdiv million).tmod 1000

end Tickval

/-- The members of `struct tm` that the codec reads. -/
structure Tm where
  year : Int
  mon : Int
  mday : Int
  hour : Int
  min : Int
  sec : Int
deriving DecidableEq, Repr

/-- `gmtime_r`: the Gregorian calendar, in eras of 400 years from 1 March of the year 0. -/
def gmtime (t : Int) : Tm :=
  let days := t / 86400
  let rem := t % 86400
  let z := days + 719468
  let era := z / 146097
  let doe := z % 146097
  let yoe := (doe - doe / 1460 + doe / 36524 - doe / 146096) / 365
  let doy := doe - (365 * yoe + yoe / 4 - yoe / 100)
  let mp := (5 * doy + 2) / 153
  let mday := doy - (153 * mp + 2) / 5 + 1
  let month := if mp < 10 then mp + 3 else mp - 9
  let year := yoe + era * 400 + (if month ≤ 2 then 1 else 0)
  { year := year - 1900, mon := month - 1, mday := mday,
    hour := rem / 3600, min := rem % 3600 / 60, sec := rem % 60 }

/-- `mon_days`: the days before a month; the source reads past the table for other months. -/
def monDays (mon : Int) : Int :=
  if mon < 0 then 0 else
    [0, 31, 59, 90, 120, 151, 181, 212, 243, 273, 304, 334, 365].getD mon.toNat 0

/-- `time_to_epoch`. -/
def timeToEpoch (ltm : Tm) : Int :=
  let tyears := if ltm.year ≠ 0 then ltm.year - 70 else 0
  let tdays := monDays ltm.mon + (if ltm.mday ≠ 0 then ltm.mday - 1 else 0) + tyears * 365 +
    (tyears + 2).tdiv 4
  let tdays := if ltm.year ≠ 0 ∧ ltm.year.tmod 4 = 0 ∧ ltm.mon < 2 then tdays - 1 else tdays
  (tdays * 86400 + ltm.hour * 3600 + ltm.min * 60 + ltm.sec).bmod 4294967296

inductive TimeIndicator where
  | timeOnly
  | timeWithMs
  | shortDateOnly
  | dateOnly
  | secOnly
  | withMs
deriving DecidableEq, Repr

/-- `date_time_format`. -/
def dateTimeFormat (t : Ticks) (ind : TimeIndicator) : F8String :=
  let result := gmtime (Tickval.secs t)
  let month := format0 (result.year + 1900) 4 ++ format0 (result.mon + 1) 2
  let date := month ++ format0 result.mday 2
  let time := format0 result.hour 2 ++ ascii ":" ++ format0 result.min 2 ++ ascii ":" ++
    format0 result.sec 2
  let ms := ascii "." ++ format0 (Tickval.msecs t) 3
  match ind with
  | .shortDateOnly => month
  | .dateOnly => date
  | .secOnly => date ++ ascii "-" ++ time
  | .withMs => date ++ ascii "-" ++ time ++ ms
  | .timeOnly => time
  | .timeWithMs => time ++ ms

/-- An empty text and `now` stand for the current time. -/
def isNow (s : F8String) : Bool := s.isEmpty || s == ascii "now"

/-- `date_time_parse`. -/
def dateTimeParse (now : Ticks) (s : F8String) : Ticks :=
  if isNow s then now else
    let tms : Tm :=
      { year := parseDecimal s 4 - 1900, mon := parseDecimal (s.drop 4) 2 - 1,
        mday := parseDecimal (s.drop 6) 2, hour := parseDecimal (s.drop 9) 2,
        min := parseDecimal (s.drop 12) 2, sec := parseDecimal (s.drop 15) 2 }
    match s.length with
    | 21 => parseDecimal (s.drop 18) 3 * Tickval.million + timeToEpoch tms * Tickval.billion
    | 17 => timeToEpoch tms * Tickval.billion
    | _ => Tickval.noticks

/-- `time_parse` with `timeonly` set. -/
def timeParse (now : Ticks) (s : F8String) : Ticks :=
  if isNow s then now else
    let hour := parseDecimal s 2
    let min := parseDecimal (s.drop 3) 2
    let sec := parseDecimal (s.drop 6) 2
    let ofDay := (hour * 3600 + min * 60 + sec) * Tickval.billion
    match s.length with
    | 12 => parseDecimal (s.drop 9) 3 * Tickval.million + ofDay
    | 8 => ofDay
    | _ => Tickval.noticks

/-- `date_parse`. -/
def dateParse (now : Ticks) (s : F8String) : Ticks :=
  if isNow s then now else
    timeToEpoch
      { year := parseDecimal s 4 - 1900, mon := parseDecimal (s.drop 4) 2 - 1,
        mday := if s.length = 8 then parseDecimal (s.drop 6) 2 else 1,
        hour := 0, min := 0, sec := 0 } * Tickval.billion

end Fix8.Codec
