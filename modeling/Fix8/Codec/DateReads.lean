import Fix8.Codec.DateTime

/-!
# What the conversions from text to ticks read

`date_time_parse` and `date_parse` once more, with every character that they fetch and the entry of
`mon_days` that they look up: `none` where the one lies behind the terminator of the text or the
other outside the table.
-/

namespace Fix8.Codec

/-- The character at `i`: those of the text, and the terminator behind them. -/
def charAt (s : F8String) (i : Nat) : Option UInt8 := (s ++ [0])[i]?

/-- `parse_decimal` from `begin` on. -/
def parseDecimalAt (s : F8String) : (begin len : Nat) → (val : Int) → Option Int
  | _, 0, val => some val
  | begin, len + 1, val => do
    let c ← charAt s begin
    parseDecimalAt s (begin + 1) len (val * 10 + (charVal c - 48))

/-- `mon_days[mon]`. -/
def monDaysAt (mon : Int) : Option Int :=
  if mon < 0 then none else
    [0, 31, 59, 90, 120, 151, 181, 212, 243, 273, 304, 334, 365][mon.toNat]?

/-- `time_to_epoch`. -/
def timeToEpochAt (ltm : Tm) : Option Int := do
  let tyears := if ltm.year ≠ 0 then ltm.year - 70 else 0
  let days ← monDaysAt ltm.mon
  let tdays := days + (if ltm.mday ≠ 0 then ltm.mday - 1 else 0) + tyears * 365 +
    (tyears + 2).tdiv 4
  let tdays := if ltm.year ≠ 0 ∧ ltm.year.tmod 4 = 0 ∧ ltm.mon < 2 then tdays - 1 else tdays
  return (tdays * 86400 + ltm.hour * 3600 + ltm.min * 60 + ltm.sec).bmod 4294967296

/-- `date_time_parse`: the length is looked at behind the seconds. -/
def dateTimeParseAt (now : Ticks) (s : F8String) : Option Ticks :=
  if isNow s then some now else do
    let year ← parseDecimalAt s 0 4 0
    let mon ← parseDecimalAt s 4 2 0
    let mday ← parseDecimalAt s 6 2 0
    let hour ← parseDecimalAt s 9 2 0
    let min ← parseDecimalAt s 12 2 0
    let sec ← parseDecimalAt s 15 2 0
    let tms : Tm :=
      { year := year - 1900, mon := mon - 1, mday := mday, hour := hour, min := min, sec := sec }
    match s.length with
    | 21 =>
      let millisecond ← parseDecimalAt s 18 3 0
      let epoch ← timeToEpochAt tms
      return millisecond * Tickval.million + epoch * Tickval.billion
    | 17 =>
      let epoch ← timeToEpochAt tms
      return epoch * Tickval.billion
    | _ => return Tickval.noticks

/-- `date_parse`. -/
def dateParseAt (now : Ticks) (s : F8String) : Option Ticks :=
  if isNow s then some now else do
    let year ← parseDecimalAt s 0 4 0
    let mon ← parseDecimalAt s 4 2 0
    let mday ← (if s.length = 8 then parseDecimalAt s 6 2 0 else some 1)
    let epoch ← timeToEpochAt
      { year := year - 1900, mon := mon - 1, mday := mday, hour := 0, min := 0, sec := 0 }
    return epoch * Tickval.billion

end Fix8.Codec
