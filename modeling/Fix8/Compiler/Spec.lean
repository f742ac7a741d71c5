import Fix8.Codec.Number
import Fix8.Lib.OrdMap
import Mathlib.Data.List.Lex
import Mathlib.Data.List.TakeWhile

/-!
# The schema compiler

What `f8c` reads of a schema, after `precomp` has put the components in place, and what it keeps of
it: a `MessageSpec` for each message and for each group of one.
-/

namespace Fix8.Compiler

open Codec (F8String ascii cstr)
open Lib

/-! ## Strings as keys -/

/-- A C string, the key of the tables of messages. -/
structure CString where
  text : F8String
  noNul : 0 ∉ text

namespace CString

theorem text_injective : Function.Injective fun s : CString => s.text.map UInt8.toNat := by
  rintro ⟨s, hs⟩ ⟨t, ht⟩ h
  have htoNat : Function.Injective UInt8.toNat := fun _ _ => UInt8.toNat_inj.1
  obtain rfl := htoNat.list_map h
  rfl

/-- `strcmp`, which is also the order of `std::string`. -/
instance : LinearOrder CString :=
  LinearOrder.lift' (fun s : CString => s.text.map UInt8.toNat) text_injective

/-- The string in a buffer. -/
def ofBuffer (buffer : F8String) : CString where
  text := cstr buffer
  noNul h := by simpa using List.mem_takeWhile_imp h

def header : CString := ⟨ascii "header", by decide⟩

def trailer : CString := ⟨ascii "trailer", by decide⟩

end CString

/-! ## Traits -/

/-- `FieldTrait::FieldType`. -/
inductive FieldType where
  | untyped
  | int | length | tagNum | seqNum | numInGroup | dayOfMonth
  | char
  | boolean
  | float
  | qty | price | priceOffset | amt | percentage
  | string
  | multipleCharValue | multipleStringValue | country | currency | exchange
  | monthYear | utcTimestamp | utcTimeOnly | utcDateOnly | localMktDate | tzTimeOnly | tzTimestamp
  | data | xmlData
  | pattern
  | tenor | reserved100Plus | reserved1000Plus | reserved4000Plus
  | language
deriving DecidableEq, Repr

/-- `FieldTrait`: a line of a trait table. The bits are those of `TraitTypes`; `present` is 0 in
every table. -/
structure FieldTrait where
  fnum : Nat
  ftype : FieldType
  pos : Nat
  component : Nat
  mandatory : Bool
  hasPosition : Bool
  group : Bool
  hasComponent : Bool
  suppress : Bool := false
  automatic : Bool := false
deriving DecidableEq, Repr

/-- The constructor of `FieldTrait`; tag, position and component are `unsigned short`. -/
def FieldTrait.create (field : Nat) (ftype : FieldType) (pos : Nat) (ismandatory isgroup : Bool)
    (compon : Nat) : FieldTrait where
  fnum := field % 65536
  ftype := ftype
  pos := pos % 65536
  component := compon % 65536
  mandatory := ismandatory
  hasPosition := pos % 65536 ≠ 0
  group := isgroup
  hasComponent := compon ≠ 0

/-- `Presence`: traits in ascending order of their tags. -/
abbrev Presence := OrdMap Nat FieldTrait

/-! ## The schema -/

/-- `FieldSpec`; `dvals` are the keys of its realm. -/
structure FieldSpec where
  name : F8String
  ftype : FieldType
  dvals : Option (List F8String) := none

/-- The attributes of a `field` element or a `group` element, and its place in its parent. -/
structure FieldElement where
  name : Option F8String
  required : Option F8String
  component : Option F8String := none
  subIdx : Nat

/-- A `group` element with its `field` elements and its `group` elements. -/
inductive GroupElement where
  | mk (attrs : FieldElement) (fields : List FieldElement) (groups : List GroupElement)

/-- The tags of the elements that define a message. -/
inductive MessageTag where
  | header
  | trailer
  | message
deriving DecidableEq

/-- A `header`, `trailer` or `message` element. -/
structure MessageElement where
  tag : MessageTag
  msgtype : Option CString := none
  name : Option F8String := none
  msgcat : Option F8String := none
  fields : List FieldElement := []
  groups : List GroupElement := []

/-- The fields, the names of the components in order, and the elements that define messages in the
order of the document. -/
structure Schema where
  fspec : OrdMap Nat FieldSpec
  components : List F8String
  mlist : List MessageElement

namespace Schema

/-- The field that `ftonSpec` has under a name: the first one. -/
def findField (s : Schema) (name : F8String) : Option (Nat × FieldSpec) :=
  s.fspec.entries.find? fun e => e.2.name = name

/-- `lookup_component`. -/
def lookupComponent (s : Schema) (name : F8String) : Nat :=
  (s.components.idxOf? name).elim 0 (· + 1)

/-- The `compidx` of an element. -/
def compidx (s : Schema) (el : FieldElement) : Nat := el.component.elim 0 s.lookupComponent

end Schema

/-! ## Messages and groups -/

/-- `MessageSpec`; its groups are in ascending order of their count fields. -/
inductive MessageSpec where
  | mk (name : F8String) (isAdmin : Bool) (fields : Presence) (groups : List (Nat × MessageSpec))
    (groupRefcnt hash : UInt32)

namespace MessageSpec

/-- The constructor of `MessageSpec`. -/
def create (name : F8String) (admin : Bool) : MessageSpec := mk name admin OrdMap.empty [] 0 0

def name : MessageSpec → F8String
  | mk name _ _ _ _ _ => name

def isAdmin : MessageSpec → Bool
  | mk _ isAdmin _ _ _ _ => isAdmin

def fields : MessageSpec → Presence
  | mk _ _ fields _ _ _ => fields

def groups : MessageSpec → List (Nat × MessageSpec)
  | mk _ _ _ groups _ _ => groups

def groupRefcnt : MessageSpec → UInt32
  | mk _ _ _ _ groupRefcnt _ => groupRefcnt

def hash : MessageSpec → UInt32
  | mk _ _ _ _ _ hash => hash

def withFields (fields : Presence) : MessageSpec → MessageSpec
  | mk name isAdmin _ groups groupRefcnt hash => mk name isAdmin fields groups groupRefcnt hash

def withGroups (groups : List (Nat × MessageSpec)) : MessageSpec → MessageSpec
  | mk name isAdmin fields _ groupRefcnt hash => mk name isAdmin fields groups groupRefcnt hash

def withRefcnt (groupRefcnt : UInt32) : MessageSpec → MessageSpec
  | mk name isAdmin fields groups _ hash => mk name isAdmin fields groups groupRefcnt hash

def withHash (hash : UInt32) : MessageSpec → MessageSpec
  | mk name isAdmin fields groups groupRefcnt _ => mk name isAdmin fields groups groupRefcnt hash

/-- The lines of its trait table. -/
def traits (ms : MessageSpec) : List FieldTrait := ms.fields.entries.map (·.2)

end MessageSpec

/-- `rothash`. -/
def rothash (result value : UInt32) : UInt32 :=
  result ^^^ ((result >>> 2) ^^^ (result <<< 5) ^^^ (result <<< 13) ^^^ value ^^^ 0x80001801)

mutual

/-- `group_hash`: of the tags of the fields and the hashes of the groups. -/
def groupHash : MessageSpec → UInt32
  | .mk _ _ fields groups _ _ =>
    groupHashes (fields.entries.foldl (fun result e => rothash result (UInt32.ofNat e.2.fnum)) 0)
      groups

def groupHashes (result : UInt32) : List (Nat × MessageSpec) → UInt32
  | [] => result
  | (_, g) :: groups => groupHashes (rothash result (groupHash g)) groups

end

end Fix8.Compiler
