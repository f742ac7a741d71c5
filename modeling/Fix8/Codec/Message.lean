import Fix8.Codec.Traits
import Fix8.Lib.Loop

/-!
# Messages

`MessageBase` and `GroupBase`. The containers that `add_field`, `replace` and `remove` keep in
step, `_fp`, `_fields` and `_pos`, are a `FieldStore`; a message is a store with its repeating
groups, and an element of a group is a message again.
-/

namespace Fix8.Codec

open Lib

/-- The exceptions of the codec, with their arguments. -/
inductive Exn where
  | invalidMessage (str : F8String)
  | duplicateField (field : Nat)
  | unknownField (field : Nat)
  | invalidField (field : Nat)
  | invalidRepeatingGroup (field : Nat)
  | missingRepeatingGroupField (field : Nat)
  | missingMandatoryField (reason : F8String)
  | badCheckSum (chkval : Nat)
  | f8Exception (msg : F8String)
deriving DecidableEq, Repr

/-- Why a call does not return: an exception, a step whose behaviour C++ leaves undefined (a null
pointer), or the bound on loops and recursion. -/
inductive Stop where
  | exn (e : Exn)
  | undefined
  | fuel
deriving DecidableEq, Repr

/-! ## Fields -/

/-- `_pos`: a multimap from positions to field objects, in iteration order. -/
abbrev Positions (D : Type) := List (Nat × BaseField D)

/-- `_pos.insert`: behind the entries under the same key. -/
def Positions.insert {D : Type} (pos : Nat) (what : BaseField D) : Positions D → Positions D
  | [] => [(pos, what)]
  | e :: l => if pos < e.1 then (pos, what) :: e :: l else e :: Positions.insert pos what l

/-- The first entry that holds the object. -/
def Positions.entryOf {D : Type} (old : ObjId) (l : Positions D) : Option (Nat × BaseField D) :=
  l.find? fun e => e.2.id == old

/-- `_pos.erase` of the first entry that holds the object. -/
def Positions.erase {D : Type} (old : ObjId) (l : Positions D) : Positions D :=
  l.eraseP fun e => e.2.id == old

/-- The containers of a `MessageBase` other than its groups. -/
structure FieldStore (D : Type) where
  fp : FieldTraits
  fields : OrdMap Nat (BaseField D)
  pos : Positions D
  unknown : F8String

namespace FieldStore

variable {D : Type}

def create (traits : FieldTraits) : FieldStore D := ⟨traits, OrdMap.empty, [], []⟩

/-- `add_field_decoder`. -/
def addFieldDecoder (m : FieldStore D) (fnum pos : Nat) (what : BaseField D) : FieldStore D :=
  { m with fields := m.fields.insert fnum what, pos := Positions.insert pos what m.pos }

/-- `_fp.set` of the `present` bit. -/
def setPresent (m : FieldStore D) (fnum : Nat) : FieldStore D :=
  { m with fp := m.fp.setPresent fnum }

/-- `replace`. -/
def replace (m : FieldStore D) (fnum : Nat) (what : BaseField D) : FieldStore D :=
  match m.fields.get? fnum with
  | none => m
  | some old =>
    let pos := (m.pos.entryOf old.id).elim (m.fp.getPos fnum) (·.1)
    { m with
      pos := Positions.insert pos what (m.pos.erase old.id)
      fields := m.fields.replace fnum what
      fp := m.fp.setPresent fnum }

/-- `remove`. -/
def remove (m : FieldStore D) (fnum : Nat) : FieldStore D :=
  match m.fields.get? fnum with
  | none => m
  | some old =>
    { m with
      pos := m.pos.erase old.id
      fp := m.fp.clearPresent fnum
      fields := m.fields.erase fnum }

/-- `add_field` at a position, with or without the check for presence. -/
def addFieldAt (m : FieldStore D) (fnum pos : Nat) (what : BaseField D) (check : Bool) :
    FieldStore D :=
  if check && m.fp.present fnum then m.replace fnum what
  else (m.addFieldDecoder fnum pos what).setPresent fnum

/-- `add_field` at the position of the field's trait; also `operator<<`. -/
def addField (m : FieldStore D) (what : BaseField D) : Except Exn (FieldStore D) :=
  if m.fp.has what.fnum then
    .ok (m.addFieldAt what.fnum (m.fp.getPos what.fnum) what true)
  else .error (.invalidField what.fnum)

/-- `set` through a pointer to a field object. -/
def assign (m : FieldStore D) (id : ObjId) (fnum : Nat) (value : Value D) : FieldStore D :=
  match m.fields.get? fnum with
  | none => m
  | some f =>
    if f.id = id then
      { m with
        fields := m.fields.replace fnum { f with value := value }
        pos := m.pos.map fun e => if e.2.id = id then (e.1, { e.2 with value := value }) else e }
    else m

end FieldStore

section
variable {D : Type} {o : FieldStore D} {id : ObjId} {fnum : Nat} {value : Value D}

theorem fp_assign : (o.assign id fnum value).fp = o.fp := by
  unfold FieldStore.assign
  split
  · rfl
  · split <;> rfl

theorem unknown_assign : (o.assign id fnum value).unknown = o.unknown := by
  unfold FieldStore.assign
  split
  · rfl
  · split <;> rfl

end

/-! ## Messages and groups -/

mutual

/-- `MessageBase`: its fields, the classes that its `create_nested_group` makes, and `_groups`. -/
inductive MessageBase (D : Type) where
  | mk (own : FieldStore D) (nested : List GroupClass) (groups : List (GroupBase D))

/-- `GroupBase`, as an object of its class. -/
inductive GroupBase (D : Type) where
  | mk (cls : GroupClass) (msgs : List (MessageBase D))

end

namespace GroupBase

variable {D : Type}

def cls : GroupBase D → GroupClass
  | mk cls _ => cls

def msgs : GroupBase D → List (MessageBase D)
  | mk _ msgs => msgs

def fnum (g : GroupBase D) : Nat := g.cls.fnum

/-- `add`; also `operator<<`. -/
def add (g : GroupBase D) (what : MessageBase D) : GroupBase D := mk g.cls (g.msgs ++ [what])

end GroupBase

/-- New groups of the given classes, without elements. -/
def newGroups {D : Type} (classes : List GroupClass) : List (GroupBase D) :=
  classes.map fun c => GroupBase.mk c []

/-- `create_group`. -/
def GroupClass.createGroup {D : Type} (c : GroupClass) (deepctor : Bool) : MessageBase D :=
  .mk (.create c.traits) [] (if deepctor then newGroups c.nested else [])

namespace MessageBase

variable {D : Type}

def own : MessageBase D → FieldStore D
  | mk own _ _ => own

def nested : MessageBase D → List GroupClass
  | mk _ nested _ => nested

def groups : MessageBase D → List (GroupBase D)
  | mk _ _ groups => groups

def withOwn (m : MessageBase D) (own : FieldStore D) : MessageBase D := mk own m.nested m.groups

def withGroups (m : MessageBase D) (groups : List (GroupBase D)) : MessageBase D :=
  mk m.own m.nested groups

@[simp] theorem own_mk (o : FieldStore D) (n : List GroupClass) (g : List (GroupBase D)) :
    (mk o n g).own = o := rfl
@[simp] theorem nested_mk (o : FieldStore D) (n : List GroupClass) (g : List (GroupBase D)) :
    (mk o n g).nested = n := rfl
@[simp] theorem groups_mk (o : FieldStore D) (n : List GroupClass) (g : List (GroupBase D)) :
    (mk o n g).groups = g := rfl
@[simp] theorem own_withOwn (m : MessageBase D) (o : FieldStore D) : (m.withOwn o).own = o := rfl
@[simp] theorem nested_withOwn (m : MessageBase D) (o : FieldStore D) :
    (m.withOwn o).nested = m.nested := rfl
@[simp] theorem groups_withOwn (m : MessageBase D) (o : FieldStore D) :
    (m.withOwn o).groups = m.groups := rfl
@[simp] theorem own_withGroups (m : MessageBase D) (g : List (GroupBase D)) :
    (m.withGroups g).own = m.own := rfl
@[simp] theorem nested_withGroups (m : MessageBase D) (g : List (GroupBase D)) :
    (m.withGroups g).nested = m.nested := rfl
@[simp] theorem groups_withGroups (m : MessageBase D) (g : List (GroupBase D)) :
    (m.withGroups g).groups = g := rfl

/-- `get_field`. -/
def getField (m : MessageBase D) (fnum : Nat) : Option (BaseField D) := m.own.fields.get? fnum

/-- `have`. -/
def isPresent (m : MessageBase D) (fnum : Nat) : Bool := m.own.fp.present fnum

/-- `find_group`. -/
def findGroup (m : MessageBase D) (fnum : Nat) : Option (GroupBase D) :=
  m.groups.find? fun g => g.fnum == fnum

/-- `add_group`: a group under the same tag stays. -/
def addGroup (m : MessageBase D) (what : GroupBase D) : MessageBase D :=
  if (m.findGroup what.fnum).isSome then m else m.withGroups (m.groups ++ [what])

/-- `find_add_group`; `classes` are those that the holder of `create_nested_group` makes. -/
def findAddGroup (classes : List GroupClass) (fnum : Nat) : Act (MessageBase D) Stop GroupClass :=
  fun m =>
    match m.findGroup fnum with
    | some g => .ok g.cls m
    | none =>
      match createNestedGroup classes fnum with
      | some c => .ok c (m.addGroup (.mk c []))
      | none => .throw .undefined m

/-- `operator<<` of an element on the group under `fnum`. -/
def addElement (fnum : Nat) (what : MessageBase D) (m : MessageBase D) : MessageBase D :=
  m.withGroups (m.groups.map fun g => if g.fnum = fnum then g.add what else g)

/-- The elements of the group under `fnum`. -/
def elements (m : MessageBase D) (fnum : Nat) : List (MessageBase D) :=
  (m.findGroup fnum).elim [] (·.msgs)

end MessageBase

/-- A complete message. -/
structure Message (D : Type) where
  msgType : F8String
  header : MessageBase D
  body : MessageBase D
  trailer : MessageBase D

section Create
variable {D : Type}

/-- The constructor of a message class, without its header and trailer. -/
def MessageClass.create (c : MessageClass) (deepctor : Bool) : MessageBase D :=
  .mk (.create c.traits) c.groups (if deepctor then newGroups c.groups else [])

/-- The objects that `add_preamble` adds. -/
def preambleId (fnum : Nat) : ObjId := ⟨0, fnum⟩

def preambleField (fnum : Nat) (value : Value D) : BaseField D := ⟨preambleId fnum, fnum, value⟩

/-- The constructor of the header class, with `add_preamble`. -/
def F8MetaCntx.mkHdr (cx : F8MetaCntx) : MessageBase D :=
  let own := FieldStore.create cx.header.traits
  let own := own.addFieldAt commonBeginString 1
    (preambleField commonBeginString (.string cx.beginStr)) false
  let own := own.addFieldAt commonBodyLength 2 (preambleField commonBodyLength (.int 0)) false
  let own := own.addFieldAt commonMsgType 3 (preambleField commonMsgType (.string [])) false
  .mk own cx.header.groups []

/-- The constructor of the trailer class, with `add_preamble`. -/
def F8MetaCntx.mkTrl (cx : F8MetaCntx) : MessageBase D :=
  let own := FieldStore.create cx.trailer.traits
  let own := own.addFieldAt commonCheckSum 3 (preambleField commonCheckSum (.string [])) false
  .mk own cx.trailer.groups []

/-- A new message of a class. -/
def F8MetaCntx.newMessage (cx : F8MetaCntx) (msgType : F8String) (c : MessageClass)
    (deepctor : Bool) : Message D :=
  ⟨msgType, cx.mkHdr, c.create deepctor, cx.mkTrl⟩

end Create

/-! ## `copy_legal` -/

section CopyLegal
variable {D : Type}

/-- The copies of the elements of one group, added to the group of the target. -/
def copyElements (fnum : Nat) (c : GroupClass) :
    List (Act (MessageBase D) Stop Nat) → Act (MessageBase D) Stop Nat
  | [] => pure 0
  | copy :: rest => do
    let (copied, grc) ← Act.onLocal (c.createGroup true) copy
    Act.modify (MessageBase.addElement fnum grc)
    let more ← copyElements fnum c rest
    pure (copied + more)

/-- The group part of one turn of `copy_legal`. -/
def copyGroup (copiers : List (Nat × List (Act (MessageBase D) Stop Nat))) (pp : FieldTrait) :
    Act (MessageBase D) Stop Nat :=
  match pp.group, copiers.lookup pp.fnum with
  | true, some elements => do
    let target ← Act.get
    match target.findGroup pp.fnum with
    | some gb1 => copyElements pp.fnum gb1.cls elements
    | none => if elements.isEmpty then pure 0 else Act.throw .undefined
  | _, _ => pure 0

/-- The field part of one turn of `copy_legal`. -/
def copyField (call : Nat) (force : Bool) (own : FieldStore D) (fnum : Nat) :
    Act (MessageBase D) Stop Unit :=
  match own.fields.get? fnum with
  | none => Act.throw .undefined
  | some f => do
    let nf := { f with id := ⟨call, fnum⟩ }
    let target ← Act.get
    if force && target.own.fp.present fnum then
      Act.modify fun target => target.withOwn (target.own.replace fnum nf)
    else
      match target.own.addField nf with
      | .ok own' => Act.modify (·.withOwn own')
      | .error e => Act.throw (.exn e)

/-- The loop of `copy_legal` over the trait table. -/
def copyFields (call : Nat) (force : Bool) (own : FieldStore D)
    (copiers : List (Nat × List (Act (MessageBase D) Stop Nat))) :
    FieldTraits → Act (MessageBase D) Stop Nat
  | [] => pure 0
  | pp :: rest => do
    let target ← Act.get
    if pp.present && (force || target.own.fp.has pp.fnum && !target.own.fp.present pp.fnum) then do
      let copied ← copyGroup copiers pp
      copyField call force own pp.fnum
      let more ← copyFields call force own copiers rest
      pure (copied + 1 + more)
    else copyFields call force own copiers rest

mutual

/-- `copy_legal` to the message that is the state. -/
def MessageBase.copyLegal (call : Nat) (force : Bool) :
    MessageBase D → Act (MessageBase D) Stop Nat
  | .mk own _ groups => copyFields call force own (copiers call force groups) own.fp

/-- For each group, the copies of its elements. -/
def copiers (call : Nat) (force : Bool) :
    List (GroupBase D) → List (Nat × List (Act (MessageBase D) Stop Nat))
  | [] => []
  | g :: gs => (g.fnum, GroupBase.copiers call force g) :: copiers call force gs

def GroupBase.copiers (call : Nat) (force : Bool) :
    GroupBase D → List (Act (MessageBase D) Stop Nat)
  | .mk _ msgs => elementCopiers call force msgs

def elementCopiers (call : Nat) (force : Bool) :
    List (MessageBase D) → List (Act (MessageBase D) Stop Nat)
  | [] => []
  | m :: ms => m.copyLegal call force :: elementCopiers call force ms

end

end CopyLegal

end Fix8.Codec
