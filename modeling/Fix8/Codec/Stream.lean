import Fix8.Codec.Encode

/-!
# Encoding into a stream

Each layer of the encoder exists for a `char *` and for a `std::ostream`. They differ in the field
at the bottom, so the layers above are one definition over the encoder of a field: `encodeVia`.
What is written to is a `Sink`, and a count is how far an encoder has moved it.

* `MessageBase.encodeChars`: `encode(char *)`;
* `MessageBase.encodeStream`: `encode(std::ostream&)`.
-/

namespace Fix8.Codec

open Lib

/-! ## What is written to -/

/-- An action on what stands in front of the `char *`, or in the stream. -/
abbrev Sink (α : Type) := Act F8String Stop α

/-- The `char *` itself, or `tellp`. -/
def tell : Sink Nat := do
  let text ← Act.get
  pure text.length

def put (text : F8String) : Sink Unit := Act.modify (· ++ text)

/-- `to - where` at the end of an encoder. -/
def counted (encoder : Sink Unit) : Sink Nat := do
  let start ← tell
  encoder
  let stop ← tell
  pure (stop - start)

/-! ## Fields -/

/-- `operator<<` of an `fp_type`, with the precision that the stream has by default. -/
class FpStream (D : Type) where
  insert : D → F8String

/-- `print` of a date or time to a stream: printed into a buffer of NULs, which is inserted as a C
string. -/
def insertBuffer (text : F8String) : F8String :=
  cstr (text ++ List.replicate (maxMsgtypeFieldLen - text.length) 0)

/-- `operator<<` of an `int`. -/
def insertInt (value : Int) : F8String := ascii (toString value)

/-- `operator<<` of an `unsigned short`. -/
def insertNat (value : Nat) : F8String := ascii (toString value)

/-- `print` to a stream. -/
def Value.insert {D : Type} [FpStream D] : Value D → F8String
  | int value => insertInt value
  | string value => value
  | char value => [value]
  | boolean value => if value then ascii "Y" else ascii "N"
  | fp value _ => FpStream.insert value
  | utcTimestamp value => insertBuffer (dateTimeFormat value .withMs)
  | utcTimeOnly value => insertBuffer (dateTimeFormat value .timeWithMs)
  | utcDateOnly value => insertBuffer (dateTimeFormat value .dateOnly)
  | localMktDate value => insertBuffer (dateTimeFormat value .dateOnly)
  | monthYear sz value =>
    insertBuffer (dateTimeFormat value (if sz = 6 then .shortDateOnly else .dateOnly))
  | tzTimeOnly _ => []
  | tzTimestamp _ => []

namespace BaseField

variable {D : Type}

/-- `BaseField::encode(char *)`. -/
def encodeChars [FpType D] (f : BaseField D) : Sink Nat := counted do
  put (itoa f.fnum)
  put [assignmentSeparator]
  put f.value.print
  put [fieldSeparator]

/-- `BaseField::encode(std::ostream&)`. -/
def encodeStream [FpStream D] (f : BaseField D) : Sink Nat := counted do
  put (insertNat f.fnum)
  put [assignmentSeparator]
  put f.value.insert
  put [fieldSeparator]

end BaseField

/-! ## Messages -/

section Via
variable {D : Type} (field : BaseField D → Sink Nat)

/-- The loop of `encode` over `_pos`; `groups` holds what `encode_group` does for each group. -/
def encodeFieldsVia (fp : FieldTraits) (groups : List (Nat × Sink Nat)) :
    Positions D → Sink Unit
  | [] => pure ()
  | pp :: rest =>
    if fp.suppress pp.2.fnum then encodeFieldsVia fp groups rest
    else if fp.isGroup pp.2.fnum && pp.2.hasGroupCount then do
      let _ ← field pp.2
      let _ ← (groups.lookup pp.2.fnum).getD
        (Act.throw (.exn (.invalidRepeatingGroup pp.2.fnum)))
      encodeFieldsVia fp groups rest
    else do
      let _ ← field pp.2
      encodeFieldsVia fp groups rest

mutual

/-- `MessageBase::encode`, over the encoder of a field. -/
def MessageBase.encodeVia : MessageBase D → Sink Nat
  | .mk own _ groups => counted do
    encodeFieldsVia field own.fp (encodeGroupsVia groups) own.pos
    put own.unknown

/-- What `encode_group` does, by the tag of the group. -/
def encodeGroupsVia : List (GroupBase D) → List (Nat × Sink Nat)
  | [] => []
  | g :: gs => (g.fnum, GroupBase.encodeVia g) :: encodeGroupsVia gs

/-- `encode_group`. -/
def GroupBase.encodeVia : GroupBase D → Sink Nat
  | .mk _ msgs => counted (encodeElementsVia msgs)

def encodeElementsVia : List (MessageBase D) → Sink Unit
  | [] => pure ()
  | m :: ms => do
    let _ ← m.encodeVia
    encodeElementsVia ms

end

end Via

namespace MessageBase

variable {D : Type}

/-- `MessageBase::encode(char *)`. -/
def encodeChars [FpType D] (m : MessageBase D) : Sink Nat := m.encodeVia BaseField.encodeChars

/-- `MessageBase::encode(std::ostream&)`. -/
def encodeStream [FpStream D] (m : MessageBase D) : Sink Nat := m.encodeVia BaseField.encodeStream

end MessageBase

end Fix8.Codec
