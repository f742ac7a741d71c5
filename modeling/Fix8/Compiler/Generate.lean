import Fix8.Codec.Decode
import Fix8.Compiler.Load
import Fix8.Lib.LowerBound

/-!
# Generated code

What `f8c` writes of the messages and groups that it has loaded: the table of messages, through
which `Message::factory` makes them, and the classes of their repeating groups. A group that is
referred to more than once has its trait table in a common place.
-/

namespace Fix8.Compiler

open Codec (F8String ascii extractHeader)
open Lib

/-! ## Ordering -/

/-- The traits with their positions counted from 1 in the order of the positions they had. -/
def ordered (fields : Presence) : Presence :=
  let mo := (fields.entries.mergeSort fun a b => a.2.pos ≤ b.2.pos).map (·.1)
  fields.mapVal fun k t => { t with pos := (mo.idxOf k + 1) % 65536 }

/-- `process_ordering`. -/
def processOrdering (mspec : OrdMap CString MessageSpec) : OrdMap CString MessageSpec :=
  mspec.mapVal fun _ ms => ms.withFields (ordered ms.fields)

mutual

/-- What `process_message_group_ordering` does to one group. -/
def orderGroup : MessageSpec → MessageSpec
  | .mk name isAdmin fields groups groupRefcnt hash =>
    .mk name isAdmin (ordered fields) (processMessageGroupOrdering groups) groupRefcnt hash

/-- `process_message_group_ordering`. -/
def processMessageGroupOrdering : List (Nat × MessageSpec) → List (Nat × MessageSpec)
  | [] => []
  | (n, g) :: gm => (n, orderGroup g) :: processMessageGroupOrdering gm

end

/-- `process_group_ordering`: of the groups inside those of `globmap`. -/
def processGroupOrdering (globmap : CommonGroupMap) : CommonGroupMap :=
  globmap.mapVal fun _ variants => variants.mapVal fun _ g =>
    g.withGroups (processMessageGroupOrdering g.groups)

/-! ## The table of messages -/

/-- `Minst`: what a table entry instantiates, as itself or as the `Message` that it is not. -/
inductive Minst where
  | message (cls : F8String)
  | reinterpreted (cls : F8String)
deriving DecidableEq

/-- `BaseMsgEntry`. -/
structure BaseMsgEntry where
  create : Minst
  name : F8String
deriving DecidableEq

/-- The entry for a message of this name. -/
def BaseMsgEntry.of (name : F8String) : BaseMsgEntry where
  create := if name = ascii "trailer" ∨ name = ascii "header" then .reinterpreted name
    else .message name
  name := name

/-- `MsgTable`. -/
abbrev MsgTable := List (CString × BaseMsgEntry)

/-- `msgpairs`. -/
def msgpairs (mspec : OrdMap CString MessageSpec) : MsgTable :=
  mspec.entries.map fun e => (e.1, .of e.2.name)

/-- `find_ptr`. -/
def MsgTable.findPtr (table : MsgTable) (key : CString) : Option BaseMsgEntry :=
  (findSorted key table).map (·.2)

/-- The MsgType that the factory takes from a text. -/
def wireMsgType (text : F8String) : CString := .ofBuffer (extractHeader text).2.2

/-- The entry that `Message::factory` selects for a text. -/
def MsgTable.select (table : MsgTable) (text : F8String) : Option BaseMsgEntry :=
  if (extractHeader text).1 = 0 then none else table.findPtr (wireMsgType text)

/-- Between quotes the text is a literal for itself. A text with a quote, a backslash or a line
break is another literal, or none. -/
def plainLiteral (s : CString) : Bool := s.text.all fun c => c ≠ 34 ∧ c ≠ 92 ∧ c ≠ 10 ∧ c ≠ 13

/-- A C++ compiler has one class for each message, and the keys of the table are what they were in
the schema. -/
def CompiledAs (mspec : OrdMap CString MessageSpec) : Prop :=
  (mspec.entries.map fun e => e.2.name).Nodup ∧ ∀ e ∈ mspec.entries, plainLiteral e.1 = true

instance (mspec : OrdMap CString MessageSpec) : Decidable (CompiledAs mspec) :=
  inferInstanceAs (Decidable (_ ∧ _))

/-- The table of messages of a schema. The files are removed if there was an error, and there is no
table in a program that does not compile. -/
def messageTable (s : Schema) : Option MsgTable :=
  let st := loadMessages s
  if st.glob.errors = 0 ∧ CompiledAs st.mspec then some (msgpairs (processOrdering st.mspec))
  else none

/-! ## Group classes -/

/-- The static traits of a group class: its own array, or the one that the groups of this count
field and variant have in common. -/
inductive StaticTraits where
  | own (traits : List FieldTrait)
  | common (fnum vers : Nat)

/-- A group class as it is written. -/
inductive GroupBody where
  | mk (fnum : Nat) (traits : StaticTraits) (fieldcnt : Nat) (nested : List GroupBody)

/-- `find_group`, with the variant. -/
def findGroup (globmap : CommonGroupMap) (tp : Nat) (key : UInt32) : Option (Nat × MessageSpec) :=
  (globmap.get? tp).bind fun variants =>
    (variants.get? key.toNat).map fun g => (1 + variants.keys.idxOf key.toNat, g)

/-- `generate_group_bodies`, which goes on with the group that it finds. -/
def generateGroupBodies (globmap : CommonGroupMap) :
    Nat → List (Nat × MessageSpec) → Option (List GroupBody)
  | 0, _ => none
  | fuel + 1, groups =>
    let found := groups.filterMap fun (n, g) => (findGroup globmap n g.hash).map (n, ·)
    found.mapM fun (n, vers, tgroup) => do
      let nested ← generateGroupBodies globmap fuel tgroup.groups
      let traits := if 1 < tgroup.groupRefcnt then .common n vers else .own tgroup.traits
      pure (.mk n traits tgroup.traits.length nested)

/-- `generate_common_group_bodies`. -/
def commonGroupBodies (globmap : CommonGroupMap) : List ((Nat × Nat) × List FieldTrait) :=
  globmap.entries.flatMap fun e =>
    e.2.entries.zipIdx.filterMap fun v =>
      if 1 < v.1.2.groupRefcnt then some ((e.1, 1 + v.2), v.1.2.traits) else none

/-- A group class with its trait table. -/
inductive GroupClass where
  | mk (fnum : Nat) (traits : List FieldTrait) (nested : List GroupClass)

/-- The trait table of a class, where `common` are the common ones. -/
def StaticTraits.table (common : List ((Nat × Nat) × List FieldTrait)) :
    StaticTraits → Option (List FieldTrait)
  | own traits => some traits
  | .common fnum vers => common.lookup (fnum, vers)

mutual

/-- The class that is compiled: `_fieldcnt` lines of its table. -/
def GroupBody.compile (common : List ((Nat × Nat) × List FieldTrait)) :
    GroupBody → Option GroupClass
  | .mk fnum traits fieldcnt nested => do
    let table ← traits.table common
    let nested ← compileBodies common nested
    pure (.mk fnum (table.take fieldcnt) nested)

def compileBodies (common : List ((Nat × Nat) × List FieldTrait)) :
    List GroupBody → Option (List GroupClass)
  | [] => some []
  | b :: bodies => do
    let c ← b.compile common
    let classes ← compileBodies common bodies
    pure (c :: classes)

end

/-- The group classes of a message. -/
def groupClasses (globmap : CommonGroupMap) (fuel : Nat) (ms : MessageSpec) :
    Option (List GroupClass) :=
  (generateGroupBodies globmap fuel ms.groups).bind (compileBodies (commonGroupBodies globmap))

end Fix8.Compiler
