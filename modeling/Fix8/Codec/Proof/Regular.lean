import Fix8.Codec.Proof.Composed
import Fix8.Codec.Proof.Copy

/-!
# Bodies in their class

However a message is made, its body has the table of its class, with the `present` bits in step, and
groups of the classes that this nests; the elements of these have it too, at every depth.

* `Regular`: a part or an element, in its class;
* `Housed`: a holder of groups, with what holds of their elements; `edited_regular`: what edits keep;
* `ElementLaw`, **`ElementLaw.part`**: what a decode makes of the elements of groups;
* **`composed_regular`**: the bodies of the messages that are created or decoded, and edited.
-/

namespace Fix8.Codec

open Lib

/-! ## Containers -/

section
variable {D : Type} {lead : List (Nat × Nat)} {fp : FieldTraits} {o : FieldStore D}
  {f : BaseField D} {k pos : Nat}

/-- A field that is stored without a look at the bits: one under the same tag stays. -/
theorem InStep.store (h : InStep lead fp o) (hhas : o.fp.has f.fnum = true) :
    InStep lead fp ((o.addFieldDecoder f.fnum pos f).setPresent f.fnum) := by
  have hpresent : ∀ j, (o.fp.setPresent f.fnum).present j =
      if j = f.fnum then o.fp.has j else o.fp.present j :=
    fun j => FieldTraits.present_setPresent_eq
  cases hold : o.fields.get? f.fnum with
  | none =>
    refine h.of_get? (f := f) sameTraits_setPresent (fun j hj => ?_) ?_ hhas fun j => ?_
    · exact (hpresent j).trans (if_neg hj)
    · exact (hpresent _).trans ((if_pos rfl).trans hhas)
    · show (o.fields.insert f.fnum f).get? j = _
      rw [OrdMap.get?_insert, hold, Option.getD_none]
  | some old =>
    have hfnum := h.field _ _ hold
    rw [← hfnum] at hold hpresent hhas ⊢
    refine h.of_get? (f := old) sameTraits_setPresent (fun j hj => ?_) ?_ hhas fun j => ?_
    · exact (hpresent j).trans (if_neg hj)
    · exact (hpresent _).trans ((if_pos rfl).trans hhas)
    · show (o.fields.insert old.fnum f).get? j = _
      rw [OrdMap.get?_insert, hold, Option.getD_some]

/-- A field is replaced where it is there. -/
theorem InStep.replace_any (h : InStep [] fp o) : InStep [] fp (o.replace f.fnum f) := by
  cases hold : o.fields.get? f.fnum with
  | none =>
    rw [FieldStore.replace, hold]
    exact h
  | some old => exact h.replace (h.legal _ _ hold rfl)

theorem InStep.addFieldAt (h : InStep [] fp o) {check : Bool} (hhas : o.fp.has f.fnum = true) :
    InStep [] fp (o.addFieldAt f.fnum pos f check) := by
  unfold FieldStore.addFieldAt
  split
  · exact h.replace_any
  · exact h.store hhas

theorem InStep.remove (h : InStep lead fp o) : InStep lead fp (o.remove k) := by
  unfold FieldStore.remove
  cases hold : o.fields.get? k with
  | none => exact h
  | some old =>
    have hget : ∀ j, (o.fields.erase k).get? j = if j = k then none else o.fields.get? j :=
      fun j => OrdMap.get?_erase
    refine ⟨h.traits.trans sameTraits_clearPresent, fun j hj => ?_, fun j f hf => ?_,
      fun j f hf hj => ?_⟩
    · show (o.fp.clearPresent k).present j = ((o.fields.erase k).get? j).isSome
      rw [FieldTraits.present_clearPresent_eq, hget]
      rw [FieldTraits.has_clearPresent] at hj
      split
      · rfl
      · exact h.present j hj
    · have hf : (o.fields.erase k).get? j = some f := hf
      rw [hget] at hf
      split at hf
      · exact absurd hf (by simp)
      · exact h.field j f hf
    · have hf : (o.fields.erase k).get? j = some f := hf
      rw [hget] at hf
      rw [FieldTraits.has_clearPresent]
      split at hf
      · exact absurd hf (by simp)
      · exact h.legal j f hf hj

theorem InStep.assign {id : ObjId} {v : Value D} (h : InStep lead fp o) :
    InStep lead fp (o.assign id k v) := by
  unfold FieldStore.assign
  cases hold : o.fields.get? k with
  | none => exact h
  | some old =>
    dsimp only
    split
    · have hget : ∀ j, (o.fields.replace k { old with value := v }).get? j =
          if j = k then some { old with value := v } else o.fields.get? j := by
        intro j
        rw [OrdMap.get?_replace, hold, Option.map_some]
      refine ⟨h.traits, fun j hj => ?_, fun j f hf => ?_, fun j f hf hj => ?_⟩
      · rw [hget]
        split
        · rename_i heq
          rw [heq] at hj ⊢
          rw [h.present k hj, hold]
          rfl
        · exact h.present j hj
      · rw [hget] at hf
        split at hf
        · rename_i heq
          rw [← Option.some.inj hf, heq]
          exact h.field k old hold
        · exact h.field j f hf
      · rw [hget] at hf
        split at hf
        · rename_i heq
          exact heq ▸ h.legal k old hold (heq ▸ hj)
        · exact h.legal j f hf hj
    · exact h

end

/-! ## Parts and elements -/

/-- A part or an element has the table of its class, and groups of the classes that this nests. -/
structure Regular {D : Type} (c : GroupClass) (m : MessageBase D) : Prop where
  inStep : InStep [] c.traits m.own
  shaped : Shaped c m

section
variable {D : Type} {c c' : GroupClass} {m m' e : MessageBase D} {o : FieldStore D} {fnum : Nat}
  {kept : List Nat} {classes : List GroupClass}

theorem Everywhere.node {Q : GroupClass → MessageBase D → Prop} (h : Everywhere Q c m) : Q c m := by
  obtain ⟨_, _, node, -⟩ := h
  exact node

theorem Everywhere.msgs {Q : GroupClass → MessageBase D → Prop} (h : Everywhere Q c m) :
    ∀ g ∈ m.groups, ∀ e ∈ g.msgs, Everywhere Q g.cls e := by
  obtain ⟨_, _, -, msgs⟩ := h
  exact msgs

/-- The groups of `m` are those that the class makes, and their elements are as `Q` has it, at every
depth. -/
structure Housed {D : Type} (Q : GroupClass → MessageBase D → Prop) (c : GroupClass)
    (m : MessageBase D) : Prop where
  shaped : Shaped c m
  msgs : ∀ g ∈ m.groups, ∀ e ∈ g.msgs, Everywhere Q g.cls e

section
variable {Q : GroupClass → MessageBase D → Prop}

theorem Housed.withOwn (h : Housed Q c m) : Housed Q c (m.withOwn o) := ⟨h.shaped, h.msgs⟩

/-- A part without groups. -/
theorem housed_mk {nested : List GroupClass} : Housed Q c (.mk o nested []) :=
  ⟨fun _ hg => absurd hg List.not_mem_nil, fun _ hg => absurd hg List.not_mem_nil⟩

theorem Housed.addGroup (h : Housed Q c m) (hc : createNestedGroup c.nested c'.fnum = some c') :
    Housed Q c (m.addGroup (.mk c' [])) := by
  refine ⟨fun g hg => ?_, fun g hg => ?_⟩
  · rcases groups_addGroup hg with hg | rfl
    · exact h.shaped g hg
    · exact hc
  · rcases groups_addGroup hg with hg | rfl
    · exact h.msgs g hg
    · exact fun e he => absurd he List.not_mem_nil

/-- The groups under a tag are of one class. -/
theorem Housed.addElement (h : Housed Q c m) (hc : createNestedGroup c.nested fnum = some c')
    (he : Everywhere Q c' e) : Housed Q c (MessageBase.addElement fnum e m) := by
  refine ⟨fun g hg => ?_, fun g hg e' he' => ?_⟩
  · obtain ⟨g', hg', rfl⟩ := List.mem_map.1 hg
    have hshaped := h.shaped g' hg'
    split <;> exact hshaped
  · obtain ⟨g', hg', rfl⟩ := List.mem_map.1 hg
    have hshaped := h.shaped g' hg'
    split at he'
    · rename_i hfnum
      rw [if_pos hfnum]
      rw [hfnum, hc] at hshaped
      rcases List.mem_append.1 he' with he' | he'
      · exact h.msgs g' hg' e' he'
      · obtain rfl := List.mem_singleton.1 he'
        show Everywhere Q g'.cls e'
        rw [← Option.some.inj hshaped]
        exact he
    · rename_i hfnum
      rw [if_neg hfnum]
      exact h.msgs g' hg' e' he'

end

theorem Everywhere.housed (h : Everywhere Regular c m) : Housed Regular c m :=
  ⟨h.node.shaped, h.msgs⟩

theorem Housed.regular (h : Housed Regular c m) (ho : InStep [] c.traits m.own) :
    Everywhere Regular c m := .mk c m ⟨ho, h.shaped⟩ h.msgs

theorem regular_withOwn (h : Everywhere Regular c m) (ho : InStep [] c.traits o) :
    Everywhere Regular c (m.withOwn o) := h.housed.withOwn.regular ho

theorem regular_addGroup (h : Everywhere Regular c m)
    (hc : createNestedGroup c.nested c'.fnum = some c') :
    Everywhere Regular c (m.addGroup (.mk c' [])) :=
  (h.housed.addGroup hc).regular (own_addGroup (m := m) ▸ h.node.inStep)

theorem regular_addElement (h : Everywhere Regular c m)
    (hc : createNestedGroup c.nested fnum = some c') (he : Everywhere Regular c' e) :
    Everywhere Regular c (MessageBase.addElement fnum e m) :=
  (h.housed.addElement hc he).regular h.node.inStep

theorem regular_new {nested : List GroupClass} {deepctor : Bool} (hc : c.Tables) :
    Everywhere (D := D) Regular c
      (.mk (.create c.traits) nested (if deepctor then newGroups c.nested else [])) := by
  have hgroups : ∀ g ∈ (if deepctor then newGroups c.nested else [] : List (GroupBase D)),
      ∃ c' ∈ c.nested, g = .mk c' [] := by
    intro g hg
    split at hg
    · obtain ⟨c', hc', rfl⟩ := List.mem_map.1 hg
      exact ⟨c', hc', rfl⟩
    · exact absurd hg List.not_mem_nil
  refine .mk c _ ⟨(placed_create hc.traits).inStep (.refl _), fun g hg => ?_⟩ fun g hg => ?_
  · obtain ⟨c', hc', rfl⟩ := hgroups g hg
    exact createNestedGroup_of_mem hc.groups hc'
  · obtain ⟨c', hc', rfl⟩ := hgroups g hg
    exact fun e he => absurd he List.not_mem_nil

theorem regular_createGroup {deepctor : Bool} (hc : c.Tables) :
    Everywhere (D := D) Regular c (c.createGroup deepctor) := regular_new hc

/-! ## Edits -/

/-- What the edits of a part keep, at every depth. -/
theorem edited_regular (he : Edited kept classes m m') : ∀ {c : GroupClass}, c.Tables →
    c.nested = classes → Everywhere Regular c m → Everywhere Regular c m' := by
  induction he with
  | refl => exact fun _ _ hm => hm
  | add f own _ _ _ hadd ih =>
    intro c hc hnested hm
    have hm' := ih hc hnested hm
    exact regular_withOwn hm' (hm'.node.inStep.addField hadd)
  | addAt f pos _ _ hhas ih =>
    intro c hc hnested hm
    have hm' := ih hc hnested hm
    exact regular_withOwn hm' (hm'.node.inStep.addFieldAt hhas)
  | replace f _ _ _ ih =>
    intro c hc hnested hm
    have hm' := ih hc hnested hm
    exact regular_withOwn hm' hm'.node.inStep.replace_any
  | remove fnum _ _ ih =>
    intro c hc hnested hm
    have hm' := ih hc hnested hm
    exact regular_withOwn hm' hm'.node.inStep.remove
  | set id fnum value _ _ ih =>
    intro c hc hnested hm
    have hm' := ih hc hnested hm
    exact regular_withOwn hm' hm'.node.inStep.assign
  | group c' _ hc' ih =>
    intro c hc hnested hm
    subst hnested
    exact regular_addGroup (ih hc rfl hm) (createNestedGroup_of_mem hc.groups hc')
  | element g fnum deepctor _ hg _ ih ihe =>
    intro c hc hnested hm
    have hm' := ih hc hnested hm
    have hcls := hm'.node.shaped.find hg
    have htables := hc.nested _ (List.mem_of_find?_eq_some hcls)
    exact regular_addElement hm' hcls (ihe htables rfl (regular_createGroup htables))

/-! ## Decodes -/

variable [FpType D] {d : Feed}

/-- What the containers of an element of a class in `C` are after `n` fields (`P`), and what that makes
of a whole element that misses no field (`Q`). -/
structure ElementLaw (d : Feed) (C : GroupClass → Prop) (P : GroupClass → Nat → FieldStore D → Prop)
    (Q : GroupClass → MessageBase D → Prop) : Prop where
  nested : ∀ c, C c → ∀ c' ∈ c.nested, C c'
  create : ∀ c, C c → P c 0 (.create c.traits)
  store : ∀ c n o itr start be, ∀ e : Element, P c n o →
    extractElement (d.rest start) = some e → o.fp.present (fastAtoiU16 e.tag) = false →
    o.fp.find (fastAtoiU16 e.tag) = some itr → d.cx.findBe (fastAtoiU16 e.tag) = some be →
    (n = 0 → o.fp.getPos (fastAtoiU16 e.tag) = 1) →
    P c (n + 1) (o.addFieldAt (fastAtoiU16 e.tag) (n + 1)
      (d.createField be (fastAtoiU16 e.tag) start e.val) false)
  done : ∀ c n e, C c → P c n e.own → Shaped c e → e.own.fp.findMissing = 0 → Q c e

section
variable {C : GroupClass → Prop} {P : GroupClass → Nat → FieldStore D → Prop}
  {Q : GroupClass → MessageBase D → Prop}

/-- A holder of groups of the classes that `c` nests. -/
def HousingOf (C : GroupClass → Prop) (Q : GroupClass → MessageBase D → Prop)
    (classes : List GroupClass) (I : MessageBase D → Prop) : Prop :=
  ∃ c : GroupClass, C c ∧ c.nested = classes ∧ ∃ R : FieldStore D → List GroupClass → Prop,
    I = fun m => R m.own m.nested ∧ Housed Q c m

theorem ElementLaw.element (h : ElementLaw d C P Q) (hc : C c) :
    ElementKept d c fun n m => P c n m.own ∧ Housed Q c m where
  create := ⟨h.create c hc, housed_mk⟩
  store := fun m n itr start be e hm he habsent hitr hbe hfirst =>
    ⟨h.store c n m.own itr start be e hm.1 he habsent hitr hbe hfirst, hm.2.withOwn⟩

theorem ElementLaw.nesting (h : ElementLaw d C P Q) : Nesting d (HousingOf C Q) := by
  rintro _ _ ⟨c, hc, rfl, R, rfl⟩ fnum m ⟨hR, hm⟩
  have henter : ∀ c', createNestedGroup c.nested fnum = some c' →
      Entered d (HousingOf C Q) fnum (fun m => R m.own m.nested ∧ Housed Q c m) c' := by
    intro c' hc'
    have htables := h.nested c hc _ (List.mem_of_find?_eq_some hc')
    refine ⟨fun n m => P c' n m.own ∧ Housed Q c' m,
      fun n => ⟨c', htables, rfl, fun o _ => P c' n o, rfl⟩, h.element htables, ?_⟩
    intro m e n hm he hmissing
    exact ⟨hm.1, hm.2.addElement hc'
      (.mk c' e (h.done c' n e htables he.1 he.2.shaped hmissing) he.2.msgs)⟩
  unfold MessageBase.findAddGroup
  cases hg : m.findGroup fnum with
  | some g => exact ⟨henter _ (hm.shaped.find hg), hR, hm⟩
  | none =>
    cases hcls : createNestedGroup c.nested fnum with
    | none => exact ⟨hR, hm⟩
    | some c' =>
      have hfnum := createNestedGroup_fnum hcls
      refine ⟨henter c' hcls, ?_, hm.addGroup (hfnum.symm ▸ hcls)⟩
      rw [own_addGroup, nested_addGroup]
      exact hR

/-- A decode of a part keeps what it keeps of the containers, and makes elements by the law. -/
theorem ElementLaw.part {S : Cursor → MessageBase D → Prop} {base : Nat} {R : FieldStore D → Prop} (h : ElementLaw d C P Q)
    (hc : C c) (hunknown : ∀ o u, R o → R { o with unknown := o.unknown ++ u })
    (hstore : ∀ o pos itr start be tv val, R o → o.fp.find tv = some itr →
      R ((o.addFieldDecoder tv pos (d.createField be tv start val)).setPresent tv)) :
    Kept d S base fun m => (R m.own ∧ m.nested = c.nested) ∧ Housed Q c m where
  unknown := fun m u hm => ⟨⟨hunknown m.own u hm.1.1, hm.1.2⟩, hm.2.withOwn⟩
  store := fun m pos itr start be tv val hm _ hitr _ _ =>
    ⟨⟨hstore m.own pos itr start be tv val hm.1.1 hitr, hm.1.2⟩, hm.2.withOwn⟩
  group := by
    rintro m fuel fnum sOffset hm s rfl
    exact triple_decodeGroup h.nesting
      ⟨c, hc, hm.1.2.symm, fun o nested => R o ∧ nested = c.nested, rfl⟩ s hm

end

theorem InStep.stored {lead : List (Nat × Nat)} {fp : FieldTraits} {pos start tv : Nat}
    {itr : FieldTrait} {be : BaseEntry} {val : F8String} (h : InStep lead fp o)
    (hitr : o.fp.find tv = some itr) :
    InStep lead fp ((o.addFieldDecoder tv pos (d.createField be tv start val)).setPresent tv) :=
  h.store (f := d.createField be tv start val) (FieldTraits.has_of_find hitr)

theorem regularLaw :
    ElementLaw (D := D) d GroupClass.Tables (fun c _ o => InStep [] c.traits o) Regular where
  nested := fun _ hc => hc.nested
  create := fun _ hc => (placed_create hc.traits).inStep (.refl _)
  store := fun _ _ _ _ _ _ _ ho _ _ hitr _ _ => ho.stored hitr
  done := fun _ _ _ _ ho hshaped _ => ⟨ho, hshaped⟩

end

/-! ## Messages -/

section
variable {D : Type} [FpType D] {cx : F8MetaCntx} {bme : MessageClass} {msg : Message D}

omit [FpType D] in
theorem nested_edited {kept : List Nat} {classes : List GroupClass} {m m' : MessageBase D}
    (h : Edited kept classes m m') : m'.nested = m.nested := by
  induction h with
  | refl => rfl
  | add f own _ _ _ _ ih => exact ih
  | addAt f pos _ _ _ ih => exact ih
  | replace f _ _ _ ih => exact ih
  | remove fnum _ _ ih => exact ih
  | set id fnum value _ _ ih => exact ih
  | group c _ _ ih => exact nested_addGroup.trans ih
  | element g fnum deepctor _ _ _ ih => exact ih

/-- **The body of every composed message is regular in the class of its type.** -/
theorem composed_regular (h : Composed cx msg) (hbme : cx.findBme msg.msgType = some bme)
    (hc : bme.cls.Tables) :
    Everywhere Regular bme.cls msg.body ∧ msg.body.nested = bme.cls.nested := by
  induction h with
  | create mtype bme' deepctor hbme' =>
    obtain rfl : bme' = bme := Option.some.inj (hbme'.symm.trans hbme)
    exact ⟨regular_new hc, rfl⟩
  | decode now call fuel text noChksum permissive msg _ hok =>
    obtain ⟨hlen, len, mtype, bme', header, body, trailer, bodyStart, trailerStart, hbuilt⟩ :=
      factory_ok hok
    rw [hbuilt.msgType, hbuilt.findBme] at hbme
    obtain rfl := Option.some.inj hbme
    rw [hbuilt.msgBody]
    have hkept : Kept _ (fun _ _ => True) 0 _ := (regularLaw (D := D) (d := ⟨cx, now, call, text, 0⟩)).part
      (R := InStep [] bme'.cls.traits) hc
      (fun o _ ho => ⟨ho.traits, ho.present, ho.field, ho.legal⟩)
      fun o pos itr start be tv val ho hitr => ho.stored hitr
    have hnew : Everywhere (D := D) Regular bme'.cls (bme'.create false) := regular_new hc
    obtain ⟨-, ⟨hinStep, hnested⟩, hhoused⟩ := (leaves_decode hkept).ok
      ⟨⟨⟨hnew.node.inStep, rfl⟩, hnew.housed⟩, Nat.zero_le _⟩ hbuilt.bodyDecoded
    exact ⟨hhoused.regular hinStep, hnested⟩
  | header msg header _ _ ih => exact ih hbme
  | body msg body _ hedit ih =>
    obtain ⟨hregular, hnested⟩ := ih hbme
    exact ⟨edited_regular hedit hc hnested.symm hregular, (nested_edited hedit).trans hnested⟩
  | trailer msg trailer _ _ ih => exact ih hbme

end

end Fix8.Codec
