import Fix8.Codec.Proof.Regular

/-!
# Forced copies

`copy_legal` with `force` replaces the fields of the target, and adds the copies of the elements of
a group behind those that the group of the target has.

* `Alike`: an element and its copy; **`copy_alike`**: a copy into a new part is alike;
* `Forced`: what a forced copy is for; **`forced_iff`**: it does so where the target has no elements
  in the groups that come.
-/

namespace Fix8.Codec

open Lib

/-! ## Copies of elements -/

section
variable {D : Type}

/-- The group field is there: the message has the group, with its number of elements. -/
def MessageBase.Shows (m : MessageBase D) (k : Nat) : Prop :=
  m.isPresent k = true ∧ m.own.fp.isGroup k = true

/-- The part or element has the values of the other, and elements that are alike in the groups whose
fields are there, at every depth. Other groups have no elements. -/
inductive Alike : MessageBase D → MessageBase D → Prop where
  | mk (e e' : MessageBase D) (value : ∀ k, e'.own.value k = e.own.value k)
      (group : ∀ k, e.Shows k → List.Forall₂ Alike (e.elements k) (e'.elements k))
      (other : ∀ k, ¬ e.Shows k → e'.elements k = []) : Alike e e'

/-- Every class that a part makes groups of has its group. -/
def MessageBase.Deep (c : GroupClass) (m : MessageBase D) : Prop :=
  ∀ k, (createNestedGroup c.nested k).isSome = true → (m.findGroup k).isSome = true

variable {call : Nat} {force : Bool} {c : GroupClass} {src T T' e : MessageBase D} {k : Nat}

theorem Fresh.deep (h : Fresh c T) : T.Deep c := by
  intro k hk
  rwa [h.findGroup, Option.isSome_map]

theorem Fresh.elements (h : Fresh c T) (k : Nat) : T.elements k = [] := by
  rw [MessageBase.elements, h.findGroup]
  cases createNestedGroup c.nested k <;> rfl

theorem Fresh.regular (hc : c.Tables) (h : Fresh c T) : Regular c T := by
  refine ⟨h.inStep hc.traits, fun g hg => ?_⟩
  rw [h.2] at hg
  obtain ⟨c', hc', rfl⟩ := List.mem_map.1 hg
  exact createNestedGroup_of_mem hc.groups hc'

/-- A field that is not there has no value. -/
theorem InStep.value_of_absent {fp : FieldTraits} {o : FieldStore D} (h : InStep [] fp o)
    (hk : o.fp.present k = false) : o.value k = none := by
  unfold FieldStore.value
  cases hf : o.fields.get? k with
  | none => rfl
  | some f =>
    rw [h.present k (h.legal k f hf rfl), hf] at hk
    exact absurd hk (by simp)

/-- What the elements of a group are copied to. -/
theorem forall₂_copies {R : MessageBase D → MessageBase D → Prop} {ms copies : List (MessageBase D)}
    (h : List.Forall₂ (CopyOf call force c) ms copies)
    (hR : ∀ e ∈ ms, ∃ e', CopyOf call force c e e' ∧ R e e') : List.Forall₂ R ms copies := by
  refine ((List.forall₂_and_left (p := fun e => ∃ e', CopyOf call force c e e' ∧ R e e') _ _).2
    ⟨hR, h⟩).imp ?_
  rintro e e' ⟨⟨e'', hcopy, hRe⟩, hcopy'⟩
  rwa [hcopy'.unique hcopy]

/-- What a copy leaves in a target that has every group. -/
structure CopiedTo (call : Nat) (force : Bool) (src T T' : MessageBase D) : Prop where
  value : ∀ k, Taken force src.own T.own k → T'.own.value k = src.own.value k
  other : ∀ k, ¬ Taken force src.own T.own k → T'.own.value k = T.own.value k
  group : ∀ k, Taken force src.own T.own k → src.own.fp.isGroup k = true →
    ∃ copies, List.Forall₂ Alike (src.elements k) copies ∧ T'.elements k = T.elements k ++ copies
  otherGroup : ∀ k, ¬ (Taken force src.own T.own k ∧ src.own.fp.isGroup k = true) →
    T'.elements k = T.elements k

/-- A copy returns where the elements can be copied, and the target has every group. -/
theorem copiedTo_of_regular (hc : c.Tables) (hsrc : Regular c src) (hT : Regular c T)
    (hdeep : T.Deep c) (halike : ∀ g ∈ src.groups, ∀ e ∈ g.msgs,
      ∃ e', CopyOf call force g.cls e e' ∧ Alike e e') :
    ∃ n T', src.copyLegal call force T = .ok n T' ∧ CopiedTo call force src T T' := by
  -- The group of the target is of the class of that of the source.
  have hfind : ∀ k g, src.findGroup k = some g → ∃ g', T.findGroup k = some g' ∧ g'.cls = g.cls := by
    intro k g hg
    have hcls := hsrc.shaped.find hg
    obtain ⟨g', hg'⟩ := Option.isSome_iff_exists.1 (hdeep k (by rw [hcls]; rfl))
    have hcls' := hT.shaped.find hg'
    rw [hcls] at hcls'
    exact ⟨g', hg', (Option.some.inj hcls').symm⟩
  have hroom : ∀ k, Taken force src.own T.own k → HasRoom call force src T k := by
    intro k _ _ e he
    obtain ⟨g, hg, hmem⟩ := of_mem_elements he
    obtain ⟨g', hg', hcls⟩ := hfind k g hg
    obtain ⟨e', hcopy, -⟩ := halike g (mem_groups_of_findGroup hg).1 e hmem
    exact ⟨g', e', hg', hcls ▸ hcopy⟩
  obtain ⟨n, T', hok, hcopied, -, -⟩ := copyLegal_ok (P := fun _ => True) hc.traits.tags
    hsrc.inStep hT.inStep (fun _ _ _ _ _ _ _ _ => trivial) trivial hroom
  refine ⟨n, T', hok, ?_, ?_, ?_, ?_⟩
  · intro k hk
    rw [FieldStore.value, FieldStore.value, hcopied.field k hk, Option.map_map]
    rfl
  · intro k hk
    rw [FieldStore.value, FieldStore.value, hcopied.other k hk]
  · intro k hk hisGroup
    cases hg : src.findGroup k with
    | none =>
      have hnil : src.elements k = [] := by
        rw [MessageBase.elements, hg]
        rfl
      refine ⟨[], by rw [hnil]; exact .nil, ?_⟩
      cases hgT : T.findGroup k with
      | none =>
        rw [MessageBase.elements, MessageBase.elements, hgT, hcopied.noGroup k hgT]
        rfl
      | some g' =>
        obtain ⟨copies, hcopies, hg'⟩ := hcopied.group k g' hk hisGroup hgT
        rw [hnil] at hcopies
        rw [List.forall₂_nil_left_iff.1 hcopies] at hg'
        rw [elements_of_findGroup hg', elements_of_findGroup hgT]
        rfl
    | some g =>
      obtain ⟨g', hg', hcls⟩ := hfind k g hg
      obtain ⟨copies, hcopies, hgT'⟩ := hcopied.group k g' hk hisGroup hg'
      refine ⟨copies, ?_, ?_⟩
      · rw [elements_of_findGroup hg] at hcopies ⊢
        exact forall₂_copies hcopies fun e he =>
          hcls ▸ halike g (mem_groups_of_findGroup hg).1 e he
      · rw [elements_of_findGroup hgT', elements_of_findGroup hg']
        rfl
  · intro k hk
    rw [MessageBase.elements, MessageBase.elements, hcopied.otherGroup k hk]

theorem Fresh.taken_iff (hc : c.Tables) (hT : Fresh c T) :
    Taken force src.own T.own k ↔ src.isPresent k = true := by
  refine and_iff_left (.inr ?_)
  rw [hT.1]
  exact hc.traits.absent k

/-- **A copy into a new part or element is alike.** -/
theorem copy_alike (call : Nat) (force : Bool) (h : Everywhere Regular c e) : c.Tables → ∀ T : MessageBase D, Fresh c T →
    ∃ n T', e.copyLegal call force T = .ok n T' ∧ Alike e T' := by
  induction h with
  | mk c m node _ ih =>
    intro hc T hT
    have hfresh := hT.regular hc
    have halike : ∀ g ∈ m.groups, ∀ e ∈ g.msgs,
        ∃ e', CopyOf call force g.cls e e' ∧ Alike e e' := by
      intro g hg e he
      have htables := hc.nested _ (List.mem_of_find?_eq_some (node.shaped g hg))
      obtain ⟨n, e', hok, hlike⟩ := ih g hg e he htables _ fresh_createGroup
      exact ⟨e', ⟨n, hok⟩, hlike⟩
    obtain ⟨n, T', hok, hcopied⟩ := copiedTo_of_regular hc node hfresh hT.deep halike
    refine ⟨n, T', hok, .mk m T' (fun k => ?_) (fun k hk => ?_) fun k hk => ?_⟩
    · by_cases hpresent : m.isPresent k = true
      · exact hcopied.value k ((hT.taken_iff hc).2 hpresent)
      · have habsent : m.own.fp.present k = false := Bool.not_eq_true _ |>.mp hpresent
        rw [hcopied.other k (mt (hT.taken_iff hc).1 hpresent), node.inStep.value_of_absent habsent,
          hfresh.inStep.value_of_absent (by rw [hT.1]; exact hc.traits.absent k)]
    · obtain ⟨copies, hcopies, helements⟩ :=
        hcopied.group k ((hT.taken_iff hc).2 hk.1) hk.2
      rw [helements, hT.elements]
      exact hcopies
    · rw [hcopied.otherGroup k fun h => hk ⟨(hT.taken_iff hc).1 h.1, h.2⟩, hT.elements]

end

/-! ## Forced copies -/

section
variable {D : Type} {call : Nat} {c : GroupClass} {src T m m' : MessageBase D}

/-- The value of the count field is the number of elements. -/
def MessageBase.CountsRight (m : MessageBase D) (k : Nat) : Prop :=
  m.own.value k = some (.int (m.elements k).length)

/-- A forced copy returns, and leaves in the target what the source has: the values of its fields,
and the elements of the groups whose fields are there, so that the counts are right where they were
right. -/
def Forced (call : Nat) (src T : MessageBase D) : Prop :=
  ∃ n T', src.copyLegal call true T = .ok n T' ∧
    (∀ k, src.isPresent k = true → T'.own.value k = src.own.value k) ∧
    ∀ k, src.Shows k → List.Forall₂ Alike (src.elements k) (T'.elements k) ∧
      (src.CountsRight k → T'.CountsRight k)

theorem forced_iff_elements (hc : c.Tables) (hsrc : Everywhere Regular c src) (hT : Regular c T)
    (hdeep : T.Deep c) : Forced call src T ↔ ∀ k, src.Shows k → T.elements k = [] := by
  have halike : ∀ g ∈ src.groups, ∀ e ∈ g.msgs,
      ∃ e', CopyOf call true g.cls e e' ∧ Alike e e' := by
    intro g hg e he
    have htables := hc.nested _ (List.mem_of_find?_eq_some (hsrc.node.shaped g hg))
    obtain ⟨n, e', hok, hlike⟩ := copy_alike call true (hsrc.msgs g hg e he) htables _ fresh_createGroup
    exact ⟨e', ⟨n, hok⟩, hlike⟩
  obtain ⟨n, T', hok, hcopied⟩ := copiedTo_of_regular hc hsrc.node hT hdeep halike
  have htaken : ∀ k, src.isPresent k = true → Taken true src.own T.own k :=
    fun k hk => ⟨hk, .inl rfl⟩
  constructor
  · rintro ⟨n', T'', hok', -, hgroups⟩ k hk
    obtain rfl : T' = T'' := by injection hok.symm.trans hok'
    obtain ⟨copies, hcopies, helements⟩ := hcopied.group k (htaken k hk.1) hk.2
    -- The elements that were there stand before the copies.
    have hlength := (hgroups k hk).1.length_eq
    rw [helements, List.length_append, hcopies.length_eq] at hlength
    exact List.length_eq_zero_iff.1 (by omega)
  · intro hnone
    refine ⟨n, T', hok, fun k hk => hcopied.value k (htaken k hk), fun k hk => ?_⟩
    obtain ⟨copies, hcopies, helements⟩ := hcopied.group k (htaken k hk.1) hk.2
    rw [hnone k hk, List.nil_append] at helements
    refine ⟨helements ▸ hcopies, fun hcounts => ?_⟩
    unfold MessageBase.CountsRight at hcounts ⊢
    rw [hcopied.value k (htaken k hk.1), hcounts, helements, hcopies.length_eq]

theorem deep_create {bme : MessageClass} : (bme.create (D := D) true).Deep bme.cls :=
  fresh_create.deep

variable [FpType D] {cx : F8MetaCntx} {bme : MessageClass} {msg target : Message D}

/-- **A forced copy of a composed message to one of the same type that has every group** replaces
its groups if those that come are empty there. -/
theorem forced_iff (hmsg : Composed cx msg) (htarget : Composed cx target)
    (htype : target.msgType = msg.msgType) (hbme : cx.findBme msg.msgType = some bme)
    (hc : bme.cls.Tables) (hdeep : target.body.Deep bme.cls) :
    Forced call msg.body target.body ↔ ∀ k, msg.body.Shows k → target.body.elements k = [] :=
  forced_iff_elements hc (composed_regular hmsg hbme hc).1
    (composed_regular htarget (htype ▸ hbme) hc).1.node hdeep

end

/-! ## An order with a leg -/

/-- NoLegs, with LegSymbol. -/
def legClass : GroupClass := .mk 555 [{ fnum := 600, pos := 1 }] []

def legBme : MessageClass := ⟨[{ fnum := 555, pos := 1, group := true }], [legClass]⟩

def legCntx : F8MetaCntx := { demoCntx with bme := [(ascii "AB", legBme)] }

theorem legBme_tables : legBme.cls.Tables := by
  refine .mk _ _ _ (table_of_mem (by decide +kernel) (by decide +kernel) (by decide +kernel))
    (List.nodup_singleton _) fun c hc => ?_
  obtain rfl := List.mem_singleton.1 hc
  exact .mk _ _ _ (table_of_mem (by decide +kernel) (by decide +kernel) (by decide +kernel))
    List.nodup_nil fun c hc => absurd hc List.not_mem_nil

def legNew : Message Unit := legCntx.newMessage (ascii "AB") legBme true

/-- An order with one leg. -/
def legMessage : Message Unit :=
  let leg : MessageBase Unit := legClass.createGroup true
  let leg := leg.withOwn (leg.own.addFieldAt 600 1 ⟨⟨1, 0⟩, 600, .string (ascii "A")⟩ true)
  let body := MessageBase.addElement 555 leg legNew.body
  { legNew with body := body.withOwn (body.own.addFieldAt 555 1 ⟨⟨1, 1⟩, 555, .int 1⟩ true) }

theorem legMessage_composed : Composed legCntx legMessage := by
  refine .body legNew _ (.create _ _ true rfl) (.add ⟨⟨1, 1⟩, 555, .int 1⟩ _
    (.element (.mk legClass []) 555 true (.refl _ _ _) rfl ?_) (by decide) (by decide) rfl)
  exact .add ⟨⟨1, 0⟩, 600, .string (ascii "A")⟩ _ (.refl _ _ _) (by decide) (by decide) rfl

theorem forced_iff_leg : Forced 2 legMessage.body legNew.body :=
  (forced_iff legMessage_composed (.create _ _ true rfl) rfl rfl legBme_tables deep_create).2
    fun k _ => fresh_create.elements k

theorem legMessage_not_forced : Composed legCntx legMessage ∧
    legMessage.body.Deep legBme.cls ∧ ¬ Forced 2 legMessage.body legMessage.body := by
  refine ⟨legMessage_composed, ?_, ?_⟩
  · intro k hk
    rw [findGroup_isSome_iff]
    obtain ⟨c, hc⟩ := Option.isSome_iff_exists.1 hk
    obtain rfl := List.mem_singleton.1 (List.mem_of_find?_eq_some hc)
    exact ⟨_, List.mem_singleton_self _, createNestedGroup_fnum hc⟩
  · rintro ⟨n, T', hok, -, hgroups⟩
    have hlength := (hgroups 555 ⟨by decide +kernel, by decide +kernel⟩).1.length_eq
    have htwo : ((legMessage.body.copyLegal 2 true legMessage.body).state.elements 555).length = 2 :=
      rfl
    have hone : (legMessage.body.elements 555).length = 1 := rfl
    rw [hok, Res.state_ok] at htwo
    omega

end Fix8.Codec
