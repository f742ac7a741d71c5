import Fix8.Codec.Field
import Fix8.Lib.LowerBound

/-!
# Realms

`RealmBase`: the values that the schema gives for a field, with their descriptions, and which of
these `MessageBase::print` finds for a value.
-/

namespace Fix8.Codec

open Lib

/-- `RealmType`. -/
inductive RealmType where
  | dtRange
  | dtSet
deriving DecidableEq, Repr

/-- `RealmBase`, for values of type `T`; `range` has the `_sz` values of a set, or both bounds of a
range. -/
structure RealmBase (T : Type) where
  range : List T
  dtype : RealmType
  descriptions : List F8String

namespace RealmBase

variable {T : Type} [LinearOrder T]

/-- `is_valid`. -/
def isValid (rlm : RealmBase T) (what : T) : Bool :=
  match rlm.dtype with
  | .dtSet => binarySearch what rlm.range
  | .dtRange => rlm.range[0]?.any (· ≤ what) && rlm.range[1]?.any (what ≤ ·)

/-- `get_rlm_idx`. -/
def getRlmIdx (rlm : RealmBase T) (what : T) : Int :=
  match rlm.dtype with
  | .dtSet =>
    let res := lowerBoundOf what rlm.range
    if res ≠ rlm.range.length then res else -1
  | .dtRange => 0

end RealmBase

/-! ## Printing -/

section
variable {T : Type} [LinearOrder T]

/-- `get_rlm_idx` of a field with this value, which may have no realm. -/
def fieldRlmIdx (rlm : Option (RealmBase T)) (value : T) : Int :=
  rlm.elim (-1) fun r => r.getRlmIdx value

/-- The description that `MessageBase::print` finds for a field with this value. -/
def printedDescription (rlm : Option (RealmBase T)) (value : T) : Option F8String :=
  rlm.bind fun r =>
    let idx := fieldRlmIdx rlm value
    if 0 ≤ idx then r.descriptions[idx.toNat]? else none

end

end Fix8.Codec
