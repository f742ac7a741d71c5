import Fix8.Codec.Proof.Turns

/-!
# Messages that are alike

A field object is known by the place of its element in the text. Where the same elements stand at
other places, a decode makes other objects, and the same message of them.

* `MessageBase.unplaced`: a message without the places of the objects that a call has made, and
  without what it has put aside;
* `MessageBase.Alike`: the same message in this sense; **`Alike.store`**, `alike_findAddGroup`,
  `Alike.addElement`: what a decode does to messages that are alike.
-/

namespace Fix8.Codec

open Lib

variable {D : Type} {call : Nat}

/-- The field without its place, if the call has made it. -/
def BaseField.unplaced (call : Nat) (f : BaseField D) : BaseField D :=
  if f.id.call = call then { f with id := ⟨call, 0⟩ } else f

def FieldStore.unplaced (call : Nat) (o : FieldStore D) : FieldStore D :=
  ⟨o.fp, OrdMap.empty, o.pos.map fun e => (e.1, e.2.unplaced call), []⟩

mutual

def MessageBase.unplaced (call : Nat) : MessageBase D → MessageBase D
  | .mk own nested groups => .mk (own.unplaced call) nested (unplacedGroups call groups)

def unplacedGroups (call : Nat) : List (GroupBase D) → List (GroupBase D)
  | [] => []
  | g :: gs => GroupBase.unplaced call g :: unplacedGroups call gs

def GroupBase.unplaced (call : Nat) : GroupBase D → GroupBase D
  | .mk cls msgs => .mk cls (unplacedElements call msgs)

def unplacedElements (call : Nat) : List (MessageBase D) → List (MessageBase D)
  | [] => []
  | m :: ms => m.unplaced call :: unplacedElements call ms

end

/-- The same fields under the same traits, and the same elements in the groups. -/
def MessageBase.Alike (call : Nat) (m m' : MessageBase D) : Prop :=
  m'.unplaced call = m.unplaced call

variable {m m' : MessageBase D} {g : GroupBase D} {f f' : BaseField D}

@[simp] theorem unplaced_fnum : (f.unplaced call).fnum = f.fnum := by
  unfold BaseField.unplaced
  split <;> rfl

@[simp] theorem unplaced_value : (f.unplaced call).value = f.value := by
  unfold BaseField.unplaced
  split <;> rfl

/-- An object of another call is known by its place. -/
theorem unplaced_id {id : ObjId} (hid : id.call ≠ call) : (f.unplaced call).id = id ↔ f.id = id := by
  unfold BaseField.unplaced
  split
  · rename_i hcall
    refine iff_of_false ?_ ?_
    · rintro rfl
      exact hid rfl
    · rintro rfl
      exact hid hcall
  · exact Iff.rfl

/-- Two objects of the call, made of the same value. -/
theorem unplaced_eq {place place' tv : Nat} {value : Value D} :
    BaseField.unplaced call ⟨⟨call, place'⟩, tv, value⟩ =
      BaseField.unplaced call ⟨⟨call, place⟩, tv, value⟩ := by
  unfold BaseField.unplaced
  rw [if_pos rfl, if_pos rfl]

theorem unplacedGroups_eq (gs : List (GroupBase D)) :
    unplacedGroups call gs = gs.map (GroupBase.unplaced call) := by
  induction gs with
  | nil => rfl
  | cons g gs ih => rw [unplacedGroups, ih, List.map_cons]

theorem unplacedElements_eq (ms : List (MessageBase D)) :
    unplacedElements call ms = ms.map (MessageBase.unplaced call) := by
  induction ms with
  | nil => rfl
  | cons m ms ih => rw [unplacedElements, ih, List.map_cons]

theorem unplaced_own : (m.unplaced call).own = m.own.unplaced call := by
  cases m
  rfl

theorem unplaced_nested : (m.unplaced call).nested = m.nested := by
  cases m
  rfl

theorem unplaced_groups : (m.unplaced call).groups = m.groups.map (GroupBase.unplaced call) := by
  cases m
  exact unplacedGroups_eq _

theorem unplaced_cls : (g.unplaced call).cls = g.cls := by
  cases g
  rfl

theorem unplaced_add : (g.add m).unplaced call = (g.unplaced call).add (m.unplaced call) := by
  obtain ⟨cls, msgs⟩ := g
  show GroupBase.mk cls (unplacedElements call (msgs ++ [m])) =
    .mk cls (unplacedElements call msgs ++ [m.unplaced call])
  rw [unplacedElements_eq, unplacedElements_eq, List.map_append]
  rfl

/-! ## The parts of messages that are alike -/

section
variable (h : m.Alike call m')
include h

theorem MessageBase.Alike.own : m'.own.unplaced call = m.own.unplaced call := by
  rw [← unplaced_own, h, unplaced_own]

theorem MessageBase.Alike.fp : m'.own.fp = m.own.fp := by
  have hfp := congrArg FieldStore.fp (MessageBase.Alike.own h)
  exact hfp

theorem MessageBase.Alike.pos : m'.own.pos.map (fun e => (e.1, e.2.unplaced call)) =
    m.own.pos.map fun e => (e.1, e.2.unplaced call) := by
  have hpos := congrArg FieldStore.pos (MessageBase.Alike.own h)
  exact hpos

theorem MessageBase.Alike.nested : m'.nested = m.nested := by
  have hnested := congrArg MessageBase.nested h
  rwa [unplaced_nested, unplaced_nested] at hnested

theorem MessageBase.Alike.groups :
    m'.groups.map (GroupBase.unplaced call) = m.groups.map (GroupBase.unplaced call) := by
  rw [← unplaced_groups, h, unplaced_groups]

theorem MessageBase.Alike.isPresent {tv : Nat} : m'.isPresent tv = m.isPresent tv :=
  congrArg (fun fp : FieldTraits => fp.present tv) (MessageBase.Alike.fp h)

end

theorem MessageBase.Alike.refl (m : MessageBase D) : m.Alike call m := rfl

theorem alike_of (hfp : m'.own.fp = m.own.fp)
    (hpos : m'.own.pos.map (fun e => (e.1, e.2.unplaced call)) =
      m.own.pos.map fun e => (e.1, e.2.unplaced call))
    (hnested : m'.nested = m.nested)
    (hgroups : m'.groups.map (GroupBase.unplaced call) = m.groups.map (GroupBase.unplaced call)) :
    m.Alike call m' := by
  obtain ⟨own, nested, groups⟩ := m
  obtain ⟨own', nested', groups'⟩ := m'
  show MessageBase.mk (own'.unplaced call) nested' (unplacedGroups call groups') =
    .mk (own.unplaced call) nested (unplacedGroups call groups)
  unfold FieldStore.unplaced
  rw [unplacedGroups_eq, unplacedGroups_eq]
  simp only [MessageBase.own_mk, MessageBase.nested_mk, MessageBase.groups_mk]
    at hfp hpos hnested hgroups
  rw [hfp, hpos, hnested, hgroups]

/-- What has been put aside is no part of it. -/
theorem MessageBase.Alike.putAside (h : m.Alike call m') (text : F8String) :
    m.Alike call (m'.withOwn { m'.own with unknown := text }) :=
  alike_of h.fp h.pos h.nested h.groups

/-! ## Storing a field -/

theorem map_insert {g : BaseField D → BaseField D} {pos : Nat} (l : Positions D) :
    (Positions.insert pos f l).map (fun e => (e.1, g e.2)) =
      Positions.insert pos (g f) (l.map fun e => (e.1, g e.2)) := by
  induction l with
  | nil => rfl
  | cons e l ih =>
    unfold Positions.insert
    simp only [List.map_cons]
    split
    · rfl
    · rw [List.map_cons, ih]

theorem MessageBase.Alike.store (h : m.Alike call m') {tv pos : Nat}
    (hf : f'.unplaced call = f.unplaced call) :
    (m.store tv pos f).Alike call (m'.store tv pos f') := by
  refine alike_of ?_ ?_ h.nested h.groups
  · exact congrArg (FieldTraits.setPresent · tv) h.fp
  · show (Positions.insert pos f' m'.own.pos).map _ = (Positions.insert pos f m.own.pos).map _
    rw [map_insert (g := BaseField.unplaced call), map_insert (g := BaseField.unplaced call), h.pos,
      hf]

/-! ## Groups -/

theorem find_unplaced (gs : List (GroupBase D)) (fnum : Nat) :
    (gs.map (GroupBase.unplaced call)).find? (fun g => g.fnum == fnum) =
      (gs.find? fun g => g.fnum == fnum).map (GroupBase.unplaced call) := by
  rw [List.find?_map]
  congr 2
  funext g
  have hfnum : (g.unplaced call).fnum = g.fnum := congrArg GroupClass.fnum unplaced_cls
  rw [Function.comp_apply, hfnum]

theorem MessageBase.Alike.findGroup (h : m.Alike call m') (fnum : Nat) :
    (m'.findGroup fnum).map (GroupBase.unplaced call) =
      (m.findGroup fnum).map (GroupBase.unplaced call) := by
  unfold MessageBase.findGroup
  rw [← find_unplaced, ← find_unplaced, h.groups]

theorem alike_findAddGroup (h : m.Alike call m') {classes : List GroupClass} {fnum : Nat}
    {c : GroupClass} {m₁ : MessageBase D}
    (hadd : MessageBase.findAddGroup classes fnum m = .ok c m₁) :
    ∃ m₁', MessageBase.findAddGroup classes fnum m' = .ok c m₁' ∧ m₁.Alike call m₁' := by
  have hgroup := h.findGroup fnum
  unfold MessageBase.findAddGroup at hadd ⊢
  cases hg : m.findGroup fnum with
  | some g =>
    rw [hg] at hadd hgroup
    cases hadd
    obtain ⟨g', hg', heq⟩ := Option.map_eq_some_iff.1 hgroup
    rw [hg']
    refine ⟨m', ?_, h⟩
    have hcls := congrArg GroupBase.cls heq
    rw [unplaced_cls, unplaced_cls] at hcls
    show Res.ok g'.cls m' = .ok g.cls m'
    rw [hcls]
  | none =>
    rw [hg] at hadd hgroup
    have hg' : m'.findGroup fnum = none := Option.map_eq_none_iff.1 hgroup
    rw [hg']
    cases hc : createNestedGroup classes fnum with
    | none =>
      rw [hc] at hadd
      cases hadd
    | some c' =>
      rw [hc] at hadd
      cases hadd
      refine ⟨_, rfl, ?_⟩
      have hnew : ∀ k, ((m'.findGroup k).isSome = (m.findGroup k).isSome) := by
        intro k
        rw [← Option.isSome_map (f := GroupBase.unplaced call), h.findGroup k, Option.isSome_map]
      unfold MessageBase.addGroup
      rw [hnew]
      split
      · exact h
      · refine alike_of h.fp h.pos h.nested ?_
        simp [h.groups]

theorem MessageBase.Alike.addElement {grp grp' : MessageBase D} (h : m.Alike call m')
    (hgrp : grp.Alike call grp') (fnum : Nat) :
    (MessageBase.addElement fnum grp m).Alike call (MessageBase.addElement fnum grp' m') := by
  have hmap : ∀ (gs : List (GroupBase D)) (grp : MessageBase D),
      (gs.map fun g => if g.fnum = fnum then g.add grp else g).map (GroupBase.unplaced call) =
        (gs.map (GroupBase.unplaced call)).map fun g =>
          if g.fnum = fnum then g.add (grp.unplaced call) else g := by
    intro gs grp
    rw [List.map_map, List.map_map]
    refine List.map_congr_left fun g _ => ?_
    have hfnum : (g.unplaced call).fnum = g.fnum := congrArg GroupClass.fnum unplaced_cls
    simp only [Function.comp_apply]
    rw [hfnum]
    split
    · exact unplaced_add
    · rfl
  refine alike_of h.fp h.pos h.nested ?_
  show (m'.groups.map _).map _ = (m.groups.map _).map _
  rw [hmap, hmap, h.groups, hgrp]

/-! ## Objects of the preamble -/

/-- What `set` on an object of the preamble does to an object. -/
def BaseField.preset (k : Nat) (value : Value D) (f : BaseField D) : BaseField D :=
  if f.id = preambleId k then { f with value := value } else f

theorem unplaced_preset {k : Nat} {value : Value D} (hcall : call ≠ 0) :
    (f.preset k value).unplaced call = (f.unplaced call).preset k value := by
  have hid : (f.unplaced call).id = preambleId k ↔ f.id = preambleId k :=
    unplaced_id fun h => hcall h.symm
  unfold BaseField.preset
  by_cases h : f.id = preambleId k
  · rw [if_pos h, if_pos (hid.2 h)]
    unfold BaseField.unplaced
    dsimp only
    split <;> rfl
  · rw [if_neg h, if_neg (mt hid.1 h)]

theorem pos_setPreamble {k : Nat} {value : Value D} : (m.setPreamble k value).own.pos =
    if (m.own.fields.get? k).map (·.id) = some (preambleId k) then
      m.own.pos.map fun e => (e.1, e.2.preset k value)
    else m.own.pos := by
  unfold MessageBase.setPreamble FieldStore.assign BaseField.preset
  rw [MessageBase.own_withOwn]
  cases m.own.fields.get? k with
  | none => rfl
  | some f =>
    simp only [Option.map_some, Option.some.injEq]
    split
    · dsimp only
      refine List.map_congr_left fun e _ => ?_
      split <;> rfl
    · rfl

/-- The objects under `k` are alike. -/
def FieldAlike (call k : Nat) (m m' : MessageBase D) : Prop :=
  (m'.own.fields.get? k).map (BaseField.unplaced call) =
    (m.own.fields.get? k).map (BaseField.unplaced call)

theorem FieldAlike.id {k : Nat} {id : ObjId} (h : FieldAlike call k m m') (hid : id.call ≠ call) :
    (m'.own.fields.get? k).map (·.id) = some id ↔ (m.own.fields.get? k).map (·.id) = some id := by
  have hfield : ∀ f : Option (BaseField D), f.map (·.id) = some id ↔
      (f.map (BaseField.unplaced call)).map (·.id) = some id := by
    intro f
    cases f with
    | none => exact Iff.rfl
    | some f =>
      simp only [Option.map_some, Option.some.injEq]
      exact (unplaced_id hid).symm
  rw [hfield, h, ← hfield]

/-- **`set` on an object of the preamble.** -/
theorem MessageBase.Alike.setPreamble {k : Nat} {value : Value D} (h : m.Alike call m')
    (hcall : call ≠ 0) (hfield : FieldAlike call k m m') :
    (m.setPreamble k value).Alike call (m'.setPreamble k value) := by
  refine alike_of ?_ ?_ h.nested h.groups
  · exact fp_assign.trans (h.fp.trans fp_assign.symm)
  · have hpreset : ∀ l : Positions D, (l.map fun e => (e.1, e.2.preset k value)).map
        (fun e => (e.1, e.2.unplaced call)) =
          (l.map fun e => (e.1, e.2.unplaced call)).map fun e => (e.1, e.2.preset k value) := by
      intro l
      rw [List.map_map, List.map_map]
      refine List.map_congr_left fun e _ => ?_
      simp only [Function.comp_apply, unplaced_preset hcall]
    rw [pos_setPreamble, pos_setPreamble, if_congr (hfield.id fun h => hcall h.symm) rfl rfl]
    split
    · rw [hpreset, hpreset, h.pos]
    · exact h.pos

end Fix8.Codec
