import Fix8.Codec.Field
import Fix8.Lib.OrdMap

/-!
# Traits and metadata

The static tables that the schema compiler writes, and the per-message copy of a trait table with
its `present` bits.
-/

namespace Fix8.Codec

open Lib

def commonBeginString : Nat := 8
def commonBodyLength : Nat := 9
def commonCheckSum : Nat := 10
def commonMsgSeqNum : Nat := 34
def commonMsgType : Nat := 35

/-- The members of `FieldTrait::FieldType` that the codec tells apart. -/
inductive FieldType where
  | length
  | data
  | other
deriving DecidableEq, Repr

/-- `FieldTrait` with the trait bits that the codec uses. -/
structure FieldTrait where
  fnum : Nat
  ftype : FieldType := .other
  pos : Nat
  mandatory : Bool := false
  present : Bool := false
  group : Bool := false
  suppress : Bool := false
  automatic : Bool := false
deriving DecidableEq, Repr

/-- `FieldTraits`: a trait table in ascending order of tags. -/
abbrev FieldTraits := List FieldTrait

namespace FieldTraits

/-- `Presence::find`. -/
def find (fp : FieldTraits) (field : Nat) : Option FieldTrait :=
  List.find? (fun t => t.fnum == field) fp

/-- A change of the bits of one trait. -/
def update (fp : FieldTraits) (field : Nat) (f : FieldTrait → FieldTrait) : FieldTraits :=
  fp.map fun t => if t.fnum = field then f t else t

/-- `has`. -/
def has (fp : FieldTraits) (field : Nat) : Bool := (fp.find field).isSome

/-- `get` of the `present` bit. -/
def present (fp : FieldTraits) (field : Nat) : Bool := (fp.find field).any (·.present)

/-- `get` of the `group` bit, `is_group`. -/
def isGroup (fp : FieldTraits) (field : Nat) : Bool := (fp.find field).any (·.group)

/-- `get` of the `suppress` bit. -/
def suppress (fp : FieldTraits) (field : Nat) : Bool := (fp.find field).any (·.suppress)

/-- `getPos`. -/
def getPos (fp : FieldTraits) (field : Nat) : Nat := (fp.find field).elim 0 (·.pos)

/-- `set` of the `present` bit. -/
def setPresent (fp : FieldTraits) (field : Nat) : FieldTraits :=
  fp.update field fun t => { t with present := true }

/-- `clear` of the `present` bit. -/
def clearPresent (fp : FieldTraits) (field : Nat) : FieldTraits :=
  fp.update field fun t => { t with present := false }

/-- `clear` of the `suppress` bit. -/
def clearSuppress (fp : FieldTraits) (field : Nat) : FieldTraits :=
  fp.update field fun t => { t with suppress := false }

/-- `find_missing`: the first mandatory tag that is not present, or 0. -/
def findMissing (fp : FieldTraits) : Nat :=
  (List.find? (fun t => t.mandatory && !t.present) fp).elim 0 (·.fnum)

end FieldTraits

/-- A generated group class: its elements' trait table and the classes its
`create_nested_group` makes. -/
inductive GroupClass where
  | mk (fnum : Nat) (traits : FieldTraits) (nested : List GroupClass)

namespace GroupClass

def fnum : GroupClass → Nat
  | mk fnum _ _ => fnum

def traits : GroupClass → FieldTraits
  | mk _ traits _ => traits

def nested : GroupClass → List GroupClass
  | mk _ _ nested => nested

end GroupClass

/-- `create_nested_group`. -/
def createNestedGroup (classes : List GroupClass) (fnum : Nat) : Option GroupClass :=
  classes.find? fun c => c.fnum == fnum

/-- `BaseEntry`. -/
structure BaseEntry where
  name : F8String
  cls : FieldClass
deriving DecidableEq, Repr

/-- A generated message class, or that of the header or the trailer. -/
structure MessageClass where
  traits : FieldTraits
  groups : List GroupClass

/-- `F8MetaCntx`. -/
structure F8MetaCntx where
  beginStr : F8String
  /-- `_be` -/
  be : OrdMap Nat BaseEntry
  /-- `_bme`, without the entries of the header and the trailer -/
  bme : List (F8String × MessageClass)
  header : MessageClass
  trailer : MessageClass

namespace F8MetaCntx

/-- `find_be`. -/
def findBe (cx : F8MetaCntx) (fnum : Nat) : Option BaseEntry := cx.be.get? fnum

/-- `_bme.find_ptr`. -/
def findBme (cx : F8MetaCntx) (msgType : F8String) : Option MessageClass := cx.bme.lookup msgType

end F8MetaCntx

end Fix8.Codec
