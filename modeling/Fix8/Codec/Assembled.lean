import Fix8.Codec.Output

/-!
# Messages that are assembled

* `Assembled`, `AssembledMessage`: what `add_field` and group adds make of a new part or message;
* `Message.clone`;
* `Table`, `TableSchema`: the tables of the schema compiler, which numbers the fields of each from 1
  on and sets no `present` bit.
-/

namespace Fix8.Codec

open Lib

/-! ## What is assembled -/

section
variable {D : Type}

/-- `Assembled deep kept classes m m'`: `m'` is `m` after `add_field` of new objects under tags
other than `kept`, and after adds of groups of `classes` and of elements that are assembled alike.
With `deep`, `create_group` makes deep elements alone. -/
inductive Assembled (deep : Bool) :
    List Nat → List GroupClass → MessageBase D → MessageBase D → Prop where
  | refl (kept : List Nat) (classes : List GroupClass) (m : MessageBase D) :
      Assembled deep kept classes m m
  /-- `add_field`, `operator<<` -/
  | add {kept : List Nat} {classes : List GroupClass} {m m' : MessageBase D} (f : BaseField D)
      (own : FieldStore D) (hm : Assembled deep kept classes m m') (hid : f.id.call ≠ 0)
      (hnew : ∀ e ∈ m'.own.pos, e.2.id ≠ f.id) (hkept : f.fnum ∉ kept)
      (h : m'.own.addField f = .ok own) : Assembled deep kept classes m (m'.withOwn own)
  /-- `add_group` of a new group, `find_add_group` -/
  | group {kept : List Nat} {classes : List GroupClass} {m m' : MessageBase D} (fnum : Nat)
      (c : GroupClass) (hm : Assembled deep kept classes m m')
      (hc : createNestedGroup classes fnum = some c) :
      Assembled deep kept classes m (m'.addGroup (.mk c []))
  /-- An element that `create_group` makes is assembled, and added to its group. -/
  | element {kept : List Nat} {classes : List GroupClass} {m m' e : MessageBase D}
      (g : GroupBase D) (fnum : Nat) (deepctor : Bool) (hdeep : deep = true → deepctor = true)
      (hm : Assembled deep kept classes m m') (hg : m'.findGroup fnum = some g)
      (he : Assembled deep [] g.cls.nested (g.cls.createGroup deepctor) e) :
      Assembled deep kept classes m (MessageBase.addElement fnum e m')

/-- The messages of a class that are assembled, with no field added under `keptHeader` in the header
and under `keptTrailer` in the trailer. -/
structure AssembledMessage (cx : F8MetaCntx) (bme : MessageClass) (deepctor deep : Bool)
    (keptHeader keptTrailer : List Nat) (msg : Message D) : Prop where
  header : Assembled deep keptHeader cx.header.groups cx.mkHdr msg.header
  body : Assembled deep [] bme.groups (bme.create deepctor) msg.body
  trailer : Assembled deep keptTrailer cx.trailer.groups cx.mkTrl msg.trailer

end

/-! ## Tables -/

/-- The fields of a table have different positions. -/
def TraitsApart (fp : FieldTraits) : Prop :=
  ∀ k k', fp.has k = true → fp.has k' = true → fp.getPos k = fp.getPos k' → k = k'

/-- A table as it is generated. -/
structure Table (fp : FieldTraits) : Prop where
  tags : (fp.map FieldTrait.fnum).Nodup
  apart : TraitsApart fp
  absent : ∀ k, fp.present k = false

/-- The tables of the class and of those it nests. -/
inductive GroupClass.Tables : GroupClass → Prop where
  | mk (fnum : Nat) (traits : FieldTraits) (nested : List GroupClass)
      (htraits : Table traits) (hgroups : (nested.map GroupClass.fnum).Nodup)
      (hnested : ∀ c ∈ nested, Tables c) : Tables (.mk fnum traits nested)

/-- A class of messages, as a class of elements. -/
def MessageClass.cls (c : MessageClass) : GroupClass := .mk 0 c.traits c.groups

/-- The tables of a message. -/
structure TableSchema (cx : F8MetaCntx) (bme : MessageClass) : Prop where
  header : cx.header.cls.Tables
  body : bme.cls.Tables
  trailer : cx.trailer.cls.Tables

/-- The class, and those it nests, nest a class for each group field. -/
inductive GroupClass.Covered : GroupClass → Prop where
  | mk (fnum : Nat) (traits : FieldTraits) (nested : List GroupClass)
      (hgroup : ∀ k, traits.isGroup k = true → (createNestedGroup nested k).isSome = true)
      (hnested : ∀ c ∈ nested, Covered c) : Covered (.mk fnum traits nested)

/-- The classes of a message. -/
structure GroupSchema (cx : F8MetaCntx) (bme : MessageClass) : Prop where
  header : cx.header.cls.Covered
  body : bme.cls.Covered
  trailer : cx.trailer.cls.Covered

/-! ## `clone` -/

/-- The part that `copy_legal` leaves as a target. -/
def copiedTo {D : Type} (call : Nat) (src target : MessageBase D) :
    Except Stop (MessageBase D) :=
  match src.copyLegal call false target with
  | .ok _ m => .ok m
  | .throw e _ => .error e

/-- `Message::clone`. -/
def Message.clone {D : Type} (cx : F8MetaCntx) (call : Nat) (msg : Message D) :
    Except Stop (Message D) :=
  let key := cstr msg.msgType
  match cx.findBme key with
  | none => throw (.exn (.f8Exception (ascii "Invalid Metadata: " ++ key)))
  | some bme => do
    let copy := cx.newMessage key bme true
    let body ← copiedTo call msg.body copy.body
    let header ← copiedTo call msg.header copy.header
    let trailer ← copiedTo call msg.trailer copy.trailer
    pure { copy with header := header, body := body, trailer := trailer }

end Fix8.Codec
