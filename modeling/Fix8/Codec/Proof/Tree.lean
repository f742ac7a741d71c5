import Fix8.Codec.Proof.Section

/-!
# What a decode stores at every depth

A decode of a group makes elements, which have groups of their own. Each holder of groups has an
invariant, by the classes that it makes its groups of (`Nesting`): the decode of a group keeps that
of its holder, if the elements that it adds have that of their class, for the number of their
fields, and miss no mandatory field.

* `ElementKept`, `Nesting`; **`triple_decodeGroup`**: a decode keeps the invariants, also when it
  throws;
* `Elements`, `Tree`: the containers of an element; those of a message and of its elements;
* **`kept_tree`**: a decode keeps a property of the containers at every depth, if storing one field
  keeps it (`GroupKept`).
-/

namespace Fix8.Codec

open Lib

/-! ## Groups -/

section
variable {D : Type} [FpType D] {d : Feed} {I : MessageBase D → Prop}
  {I' : Nat → MessageBase D → Prop} {c : GroupClass} {classes : List GroupClass} {fnum : Nat}
  {J : List GroupClass → (MessageBase D → Prop) → Prop}

/-- A new element of the class has the invariant for 0 fields, and storing one more keeps it. -/
structure ElementKept (d : Feed) (c : GroupClass) (I : Nat → MessageBase D → Prop) : Prop where
  create : I 0 (c.createGroup false)
  store : ∀ m n itr start be, ∀ e : Element, I n m → extractElement (d.rest start) = some e →
    m.own.fp.present (fastAtoiU16 e.tag) = false → m.own.fp.find (fastAtoiU16 e.tag) = some itr →
    d.cx.findBe (fastAtoiU16 e.tag) = some be →
    (n = 0 → m.own.fp.getPos (fastAtoiU16 e.tag) = 1) →
    I (n + 1) (m.withOwn (m.own.addFieldAt (fastAtoiU16 e.tag) (n + 1)
      (d.createField be (fastAtoiU16 e.tag) start e.val) false))

/-- A group of class `c` is entered from its holder: it has elements with an invariant `I'` that can
be added. -/
def Entered (d : Feed) (J : List GroupClass → (MessageBase D → Prop) → Prop) (fnum : Nat)
    (I : MessageBase D → Prop) (c : GroupClass) : Prop :=
  ∃ I' : Nat → MessageBase D → Prop, (∀ n, J c.nested (I' n)) ∧ ElementKept d c I' ∧
    ∀ m e n, I m → I' n e → e.own.fp.findMissing = 0 → I (MessageBase.addElement fnum e m)

/-- The invariants `J` of the holders of groups, by the classes of these. -/
def Nesting (d : Feed) (J : List GroupClass → (MessageBase D → Prop) → Prop) : Prop :=
  ∀ classes I, J classes I → ∀ fnum, Act.Triple I (MessageBase.findAddGroup classes fnum)
    (fun c s => Entered d J fnum I c ∧ I s) (fun _ => I)

theorem triple_groupTurn (h : ElementKept d c I')
    {nestedGroup : Nat → Nat → Act (MessageBase D) Stop Nat}
    (hnested : ∀ n fnum sOffset,
      Act.Triple (I' n) (nestedGroup fnum sOffset) (fun _ => I' n) (fun _ => I' n))
    {cur : Nat × Nat} :
    Act.Triple (I' cur.2) (groupTurn d nestedGroup cur)
      (Act.Turned (fun cur => I' cur.2) fun _ s => ∃ n, I' n s) (fun _ _ => True) := by
  unfold groupTurn
  cases he : extractElement (d.rest cur.1) with
  | none => exact Act.triple_pure fun _ hs => ⟨_, hs⟩
  | some e =>
    dsimp only
    refine Act.triple_get fun m hm => ?_
    apply Act.triple_ite
    · exact fun _ => Act.triple_pure fun s hs => ⟨_, hs ▸ hm⟩
    · intro habsent
      apply Act.triple_ite
      · exact fun _ => Act.triple_throw fun _ _ => trivial
      · intro hfirst
        have hfirst : cur.2 = 0 → m.own.fp.getPos (fastAtoiU16 e.tag) = 1 :=
          fun hpos => not_not.1 fun hne => hfirst ⟨hpos, hne⟩
        cases hbe : d.cx.findBe (fastAtoiU16 e.tag) with
        | none => exact Act.triple_pure fun s hs => ⟨_, hs ▸ hm⟩
        | some be =>
          cases hitr : m.own.fp.find (fastAtoiU16 e.tag) with
          | none => exact Act.triple_pure fun s hs => ⟨_, hs ▸ hm⟩
          | some itr =>
            dsimp only
            refine Act.triple_bind (R := fun _ => I' (cur.2 + 1))
              (Act.triple_modify fun s hs => ?_) fun _ => ?_
            · subst hs
              exact h.store _ _ _ _ _ _ hm he (Bool.not_eq_true _ ▸ habsent) hitr hbe hfirst
            · apply Act.triple_ite
              · intro _
                refine Act.triple_bind ((hnested (cur.2 + 1) _ _).conseq (fun _ hs => hs)
                  (fun _ _ hs => hs) fun _ _ _ => trivial) fun sOffset => ?_
                exact Act.triple_pure fun _ hs => hs
              · exact fun _ => Act.triple_pure fun _ hs => hs

omit [FpType D] in
theorem triple_checkMissing {fp : FieldTraits} : Act.Triple I (checkMissing (D := D) d.cx fp)
    (fun _ s => I s ∧ fp.findMissing = 0) (fun _ => I) := by
  unfold checkMissing
  dsimp only
  split
  · rename_i hmissing
    exact Act.triple_pure fun _ hs => ⟨hs, hmissing⟩
  · split <;> exact Act.triple_throw fun _ hs => hs

/-- One element of a group, with the check for its mandatory fields. -/
theorem triple_element (h : ElementKept d c I')
    {nestedGroup : Nat → Nat → Act (MessageBase D) Stop Nat}
    (hnested : ∀ n fnum sOffset,
      Act.Triple (I' n) (nestedGroup fnum sOffset) (fun _ => I' n) (fun _ => I' n))
    (fuel sOffset : Nat) :
    Act.Triple (I' 0)
      (do
        let r ← Act.loop .fuel (groupTurn d nestedGroup) fuel (sOffset, 0)
        let grp ← Act.get
        checkMissing d.cx grp.own.fp
        pure r)
      (fun _ s => (∃ n, I' n s) ∧ s.own.fp.findMissing = 0) (fun _ _ => True) := by
  refine Act.triple_bind (Act.triple_loop (fun _ => triple_groupTurn h hnested)
    (fun _ _ _ => trivial) fuel (sOffset, 0)) fun r => ?_
  refine Act.triple_get fun grp hgrp => ?_
  refine Act.triple_bind (R := fun _ s => s = grp ∧ grp.own.fp.findMissing = 0) ?_ fun _ => ?_
  · exact triple_checkMissing.conseq (fun _ hs => hs) (fun _ _ hs => hs) fun _ _ _ => trivial
  · apply Act.triple_pure
    rintro _ ⟨rfl, hmissing⟩
    exact ⟨hgrp, hmissing⟩

theorem triple_elementTurn (h : ElementKept d c I')
    {nestedGroup : Nat → Nat → Act (MessageBase D) Stop Nat}
    (hnested : ∀ n fnum sOffset,
      Act.Triple (I' n) (nestedGroup fnum sOffset) (fun _ => I' n) (fun _ => I' n))
    (hadd : ∀ m e n, I m → I' n e → e.own.fp.findMissing = 0 →
      I (MessageBase.addElement fnum e m)) {fuel sOffset : Nat} :
    Act.Triple I (elementTurn d fuel nestedGroup c fnum sOffset) (fun _ => I) (fun _ => I) := by
  unfold elementTurn
  apply Act.triple_ite
  · intro _
    refine Act.triple_bind
      (R := fun r s => ((∃ n, I' n r.2) ∧ r.2.own.fp.findMissing = 0) ∧ I s) ?_ fun r => ?_
    · apply Act.triple_onLocal (triple_element h hnested fuel sOffset) h.create
      · exact fun _ _ _ hs ht => ⟨ht, hs⟩
      · exact fun _ _ _ hs _ => hs
    · refine Act.triple_bind (R := fun _ => I) (Act.triple_modify fun s hs => ?_) fun _ => ?_
      · obtain ⟨⟨⟨n, he⟩, hmissing⟩, hs⟩ := hs
        exact hadd s _ n hs he hmissing
      · exact Act.triple_pure fun _ hs => hs
  · exact fun _ => Act.triple_pure fun _ hs => hs

/-- The decode of a group keeps the invariant of its holder. -/
theorem triple_decodeGroup (h : Nesting d J) {fuel : Nat} :
    ∀ {classes : List GroupClass} {I : MessageBase D → Prop} {fnum sOffset : Nat}, J classes I →
      Act.Triple I (decodeGroup d fuel classes fnum sOffset) (fun _ => I) (fun _ => I) := by
  induction fuel with
  | zero => exact fun _ => Act.triple_throw fun _ hs => hs
  | succ fuel ih =>
    intro classes I fnum sOffset hJ
    unfold decodeGroup
    refine Act.triple_bind (h classes I hJ fnum) fun c => ?_
    apply Act.triple_of
    rintro s ⟨⟨I', hJ', hkept, hadd⟩, hs⟩
    have hturn : ∀ n, Act.Triple I (elementTurn d fuel (decodeGroup d fuel c.nested) c fnum n)
        (Act.Turned (fun _ => I) fun _ => I) (fun _ => I) := by
      intro n
      refine (triple_elementTurn hkept (fun n _ _ => ih (hJ' n)) hadd).conseq (fun _ hs => hs) ?_
        fun _ _ hs => hs
      intro r s hs
      cases r <;> exact hs
    rintro _ rfl
    exact Act.triple_loop hturn (fun _ _ hs => hs) fuel sOffset _ hs

end

/-! ## Containers at every depth -/

section
variable {D : Type}

/-- The containers of an element of a group, and of the elements of its own groups, are in `Q`. -/
inductive Elements (Q : FieldStore D → Prop) : MessageBase D → Prop where
  | mk (own : FieldStore D) (nested : List GroupClass) (groups : List (GroupBase D))
      (hown : Q own) (hmsgs : ∀ g ∈ groups, ∀ e ∈ g.msgs, Elements Q e) :
      Elements Q (.mk own nested groups)

/-- A message with containers in `P`, the elements of its groups in `Q` and its classes in `C`. -/
structure Tree (C : GroupClass → Prop) (P Q : FieldStore D → Prop) (m : MessageBase D) : Prop where
  own : P m.own
  nested : ∀ c ∈ m.nested, C c
  cls : ∀ g ∈ m.groups, C g.cls
  msgs : ∀ g ∈ m.groups, ∀ e ∈ g.msgs, Elements Q e

variable {C : GroupClass → Prop} {P Q : FieldStore D → Prop} {o : FieldStore D}
  {m e : MessageBase D} {c : GroupClass} {fnum : Nat}

theorem Tree.elements (h : Tree C Q Q m) : Elements Q m := by
  obtain ⟨own, nested, groups⟩ := m
  exact .mk own nested groups h.own h.msgs

theorem Tree.withOwn (h : Tree C P Q m) (ho : P o) : Tree C P Q (m.withOwn o) :=
  ⟨ho, h.nested, h.cls, h.msgs⟩

theorem Tree.addGroup (h : Tree C P Q m) (hc : C c) : Tree C P Q (m.addGroup (.mk c [])) := by
  unfold MessageBase.addGroup
  split
  · exact h
  · refine ⟨h.own, h.nested, ?_, ?_⟩
    · intro g hg
      rcases List.mem_append.1 hg with hg | hg
      · exact h.cls g hg
      · obtain rfl := List.mem_singleton.1 hg
        exact hc
    · intro g hg
      rcases List.mem_append.1 hg with hg | hg
      · exact h.msgs g hg
      · obtain rfl := List.mem_singleton.1 hg
        exact fun e he => absurd he List.not_mem_nil

theorem Tree.addElement (h : Tree C P Q m) (he : Elements Q e) :
    Tree C P Q (MessageBase.addElement fnum e m) := by
  refine ⟨h.own, h.nested, ?_, ?_⟩
  · intro g hg
    obtain ⟨g', hg', rfl⟩ := List.mem_map.1 hg
    have hcls := h.cls g' hg'
    split <;> exact hcls
  · intro g hg e' he'
    obtain ⟨g', hg', rfl⟩ := List.mem_map.1 hg
    split at he'
    · rcases List.mem_append.1 he' with he' | he'
      · exact h.msgs g' hg' e' he'
      · obtain rfl := List.mem_singleton.1 he'
        exact he
    · exact h.msgs g' hg' e' he'

/-- A message without groups. -/
theorem tree_mk {nested : List GroupClass} (ho : P o) (hnested : ∀ c ∈ nested, C c) :
    Tree C P Q (.mk o nested []) :=
  ⟨ho, hnested, fun _ hg => absurd hg List.not_mem_nil, fun _ hg => absurd hg List.not_mem_nil⟩

variable [FpType D] {d : Feed}

/-- What a group stores keeps the containers of its elements in `Q`; its classes are in `C`. -/
structure GroupKept (d : Feed) (C : GroupClass → Prop) (Q : FieldStore D → Prop) : Prop where
  nested : ∀ c, C c → ∀ c' ∈ c.nested, C c'
  create : ∀ c, C c → Q (.create c.traits)
  store : ∀ o pos itr start be, ∀ e : Element, Q o → extractElement (d.rest start) = some e →
    o.fp.present (fastAtoiU16 e.tag) = false → o.fp.find (fastAtoiU16 e.tag) = some itr →
    d.cx.findBe (fastAtoiU16 e.tag) = some be →
    Q (o.addFieldAt (fastAtoiU16 e.tag) pos
      (d.createField be (fastAtoiU16 e.tag) start e.val) false)

theorem GroupKept.element (h : GroupKept d C Q) (hc : C c) :
    ElementKept d c (fun _ => Tree C Q Q) where
  create := tree_mk (h.create c hc) fun _ hc' => absurd hc' List.not_mem_nil
  store := fun _ _ _ _ _ _ hm he habsent hitr hbe _ =>
    hm.withOwn (h.store _ _ _ _ _ _ hm.own he habsent hitr hbe)

/-- A holder of groups of classes in `C`. -/
theorem GroupKept.nesting (h : GroupKept d C Q) :
    Nesting (D := D) d fun classes I => (∀ c ∈ classes, C c) ∧ ∃ P, I = Tree C P Q := by
  rintro classes _ ⟨hclasses, P, rfl⟩ fnum m hm
  have henter : ∀ c, C c → Entered d
      (fun classes I => (∀ c ∈ classes, C c) ∧ ∃ P, I = Tree C P Q) fnum (Tree C P Q) c :=
    fun c hc => ⟨fun _ => Tree C Q Q, fun _ => ⟨h.nested c hc, Q, rfl⟩, h.element hc,
      fun m e n hm he _ => hm.addElement he.elements⟩
  unfold MessageBase.findAddGroup
  cases hg : m.findGroup fnum with
  | some g => exact ⟨henter _ (hm.cls g (List.mem_of_find?_eq_some hg)), hm⟩
  | none =>
    cases hc : createNestedGroup classes fnum with
    | none => exact hm
    | some c =>
      have hcls := hclasses c (List.mem_of_find?_eq_some hc)
      exact ⟨henter c hcls, hm.addGroup hcls⟩

/-! ## Parts -/

/-- What only looks at the containers is kept by the decode of a part. -/
theorem kept_tree {R : Cursor → MessageBase D → Prop} {base : Nat} (h : GroupKept d C Q)
    (hunknown : ∀ o u, P o → P { o with unknown := o.unknown ++ u })
    (hstore : ∀ o pos itr start be tv val, P o → base < pos → o.fp.find tv = some itr →
      Origin d R itr start tv val → d.cx.findBe tv = some be →
      P ((o.addFieldDecoder tv pos (d.createField be tv start val)).setPresent tv)) :
    Kept d R base (Tree C P Q) where
  unknown := fun m u hm => hm.withOwn (hunknown m.own u hm.own)
  store := fun m pos itr start be tv val hm hpos hitr horig hbe =>
    hm.withOwn (hstore m.own pos itr start be tv val hm.own hpos hitr horig hbe)
  group := by
    rintro m fuel fnum sOffset hm s rfl
    exact triple_decodeGroup h.nesting ⟨hm.nested, P, rfl⟩ s hm

end

end Fix8.Codec
