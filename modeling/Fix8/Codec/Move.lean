import Fix8.Codec.Message

/-!
# `move_legal`

`move_legal` walks the table of the source like `copy_legal`, but hands over the field objects and
the groups. It does not look whether there is a group under a group field, and it asks the table of
the target with an iterator of that of the source.
-/

namespace Fix8.Codec

open Lib

/-- `get` of the `present` bit with an iterator that is an end: that of this table is looked for
from the beginning, and that of another is read as if it were an entry. -/
def FieldTraits.presentFrom (fp : FieldTraits) (ownEnd : Bool) (field : Nat) : Except Stop Bool :=
  if ownEnd then .ok (fp.present field) else .error .undefined

/-- Source and target of a move: the pointers in `_fields` and `_groups` of the source under the
tags `fields` and `groups` are null. -/
structure Moving (D : Type) where
  src : MessageBase D
  fields : List Nat
  groups : List Nat
  target : MessageBase D

section Move
variable {D : Type}

/-- `replace` of a group. -/
def MessageBase.replaceGroup (fnum : Nat) (what : GroupBase D) (m : MessageBase D) :
    MessageBase D :=
  m.withGroups (m.groups.map fun g => if g.fnum = fnum then what else g)

/-- The group of the source in place of that of the target, or as a new one. -/
def MessageBase.takeGroup (fnum : Nat) (what : GroupBase D) (m : MessageBase D) : MessageBase D :=
  match m.findGroup fnum with
  | some _ => m.replaceGroup fnum what
  | none => m.addGroup what

/-- The group part of one turn of `move_legal`: what `_groups.find` returns is used also where it is
the end. -/
def moveGroup (pp : FieldTrait) : Act (Moving D) Stop Unit :=
  if pp.group then do
    let m ← Act.get
    match m.src.findGroup pp.fnum with
    | none => Act.throw .undefined
    | some gb => Act.modify fun m =>
        { m with target := m.target.takeGroup pp.fnum gb, groups := pp.fnum :: m.groups }
  else pure ()

/-- The field object in the target. -/
def moveInto (force : Bool) (fnum : Nat) (what : BaseField D) (target : FieldStore D) :
    Except Stop (FieldStore D) := do
  -- `fpitr` is the end of the source's table.
  let present ← if force then target.fp.presentFrom false fnum else pure false
  if present then pure (target.replace fnum what)
  else
    match target.addField what with
    | .ok own => pure own
    | .error e => throw (.exn e)

/-- The field part of one turn of `move_legal`. -/
def moveField (force : Bool) (fnum : Nat) : Act (Moving D) Stop Unit := do
  let m ← Act.get
  match m.src.getField fnum with
  | none => Act.throw .undefined
  | some f =>
    match moveInto force fnum f m.target.own with
    | .ok own => Act.modify fun m =>
        { m with target := m.target.withOwn own, fields := fnum :: m.fields }
    | .error e => Act.throw e

/-- The loop of `move_legal` over the trait table. -/
def moveFields (force : Bool) : FieldTraits → Act (Moving D) Stop Nat
  | [] => pure 0
  | pp :: rest => do
    let m ← Act.get
    let target := m.target.own.fp
    if pp.present && (force || target.has pp.fnum && !target.present pp.fnum) then do
      moveGroup pp
      moveField force pp.fnum
      let moved ← moveFields force rest
      pure (moved + 1)
    else moveFields force rest

/-- `move_legal`. -/
def MessageBase.moveLegal (force : Bool) (src target : MessageBase D) :
    Res (Moving D) Stop Nat :=
  let move : Act (Moving D) Stop Nat := do
    let moved ← moveFields force src.own.fp
    Act.modify fun m => { m with src := m.src.withOwn { m.src.own with pos := [] } }
    pure moved
  move ⟨src, [], [], target⟩

end Move

end Fix8.Codec
