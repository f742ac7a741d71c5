import Fix8.Codec.DateTime

/-!
# Fields

The partial specialisations of `Field`: what each constructs from a C string and what it prints
into an encoded message. `fast_atof` and `modp_dtoa` are parameters, in `FpType`.
-/

namespace Fix8.Codec

/-- `fp_type` with its conversions. -/
class FpType (D : Type) where
  /-- `fast_atof` -/
  fastAtof : F8String → D
  /-- `modp_dtoa`, with the number of decimals -/
  modpDtoa : D → Nat → F8String

/-- `FIX8_DEFAULT_PRECISION`. -/
def defaultPrecision : Nat := 2

/-- The specialisation a field is an instance of; `Length`, `TagNum`, `SeqNum`, `NumInGroup` and
`DayOfMonth` derive from that of `int`. -/
inductive FieldClass where
  | int
  | string
  | char
  | boolean
  | fp
  | utcTimestamp
  | utcTimeOnly
  | utcDateOnly
  | localMktDate
  | monthYear
  | tzTimeOnly
  | tzTimestamp
deriving DecidableEq, Repr

/-- The value of a field of each class. -/
inductive Value (D : Type) where
  | int (value : Int)
  | string (value : F8String)
  | char (value : UInt8)
  | boolean (value : Bool)
  | fp (value : D) (precision : Nat)
  | utcTimestamp (value : Ticks)
  | utcTimeOnly (value : Ticks)
  | utcDateOnly (value : Ticks)
  | localMktDate (value : Ticks)
  | monthYear (sz : Nat) (value : Ticks)
  | tzTimeOnly (value : Ticks)
  | tzTimestamp (value : Ticks)
deriving DecidableEq, Repr

namespace Value

variable {D : Type} [FpType D]

/-- The constructor from a `const char *`. -/
def create (now : Ticks) (cls : FieldClass) (str : F8String) : Value D :=
  let s := cstr str
  match cls with
  | .int => int (fastAtoiInt s)
  | .string => string s
  | .char => char (s.headD 0)
  | .boolean => boolean (s.headD 0 == 89 || s.headD 0 == 121)
  | .fp => fp (FpType.fastAtof s) defaultPrecision
  | .utcTimestamp => utcTimestamp (dateTimeParse now s)
  | .utcTimeOnly => utcTimeOnly (timeParse now s)
  | .utcDateOnly => utcDateOnly (dateParse now s)
  | .localMktDate => localMktDate (dateParse now s)
  | .monthYear => monthYear s.length (dateParse now s)
  | .tzTimeOnly => tzTimeOnly Tickval.noticks
  | .tzTimestamp => tzTimestamp Tickval.noticks

/-- `print` to a buffer. -/
def print : Value D → F8String
  | int value => itoaInt value
  | string value => value
  | char value => [value]
  | boolean value => if value then ascii "Y" else ascii "N"
  | fp value precision => FpType.modpDtoa value precision
  | utcTimestamp value => dateTimeFormat value .withMs
  | utcTimeOnly value => dateTimeFormat value .timeWithMs
  | utcDateOnly value => dateTimeFormat value .dateOnly
  | localMktDate value => dateTimeFormat value .dateOnly
  | monthYear sz value => dateTimeFormat value (if sz = 6 then .shortDateOnly else .dateOnly)
  | tzTimeOnly _ => []
  | tzTimestamp _ => []

end Value

/-- The identity of a field object: the call that made it, and which of the objects made there. -/
structure ObjId where
  call : Nat
  nth : Nat
deriving DecidableEq, Repr

/-- `BaseField`, with the identity of the object. -/
structure BaseField (D : Type) where
  id : ObjId
  fnum : Nat
  value : Value D
deriving DecidableEq, Repr

namespace BaseField

variable {D : Type}

/-- `BaseField::encode`. -/
def encode [FpType D] (f : BaseField D) : F8String :=
  itoa f.fnum ++ assignmentSeparator :: (f.value.print ++ [fieldSeparator])

/-- `has_group_count`. -/
def hasGroupCount (f : BaseField D) : Bool :=
  match f.value with
  | .int value => 0 < value
  | _ => false

end BaseField

end Fix8.Codec
