import Fix8.Lib.Pattern
import Fix8.Codec.Number

/-!
# Session ids

The text that a `SessionID` prints, and the three parts that it takes out of a text with a regular
expression. `regexec` sees a C string.
-/

namespace Fix8.Session

open Lib Codec

/-- `_sid`: `([^:]+):([^-]+)->(.+)`. -/
def sidPattern : Pattern UInt8 :=
  [.run (· ≠ 58) 1, .char 58, .run (· ≠ 45) 1, .char 45, .char 62, .run (fun _ => true) 1]

/-- `SessionID`. -/
structure SessionID where
  beginString : F8String
  senderCompID : F8String
  targetCompID : F8String
  id : F8String
deriving DecidableEq, Repr

namespace SessionID

/-- The text that `make_id` prints. -/
def idOf (beginString senderCompID targetCompID : F8String) : F8String :=
  beginString ++ ascii ":" ++ senderCompID ++ ascii "->" ++ targetCompID

/-- `make_id`. -/
def makeId (sid : SessionID) : SessionID :=
  { sid with id := idOf sid.beginString sid.senderCompID sid.targetCompID }

/-- `SessionID()`. -/
def default : SessionID := ⟨[], [], [], []⟩

/-- `from_string`: the parts stay where the text does not match. -/
def fromString (sid : SessionID) (source : F8String) : SessionID :=
  match Pattern.search [sidPattern] (cstr source) with
  | some found =>
    { sid with
      beginString := found.parts.getD 0 []
      senderCompID := found.parts.getD 2 []
      targetCompID := found.parts.getD 5 [] }.makeId
  | none => sid

/-- `SessionID(from)`. -/
def ofString (source : F8String) : SessionID := default.fromString source

end SessionID

end Fix8.Session
