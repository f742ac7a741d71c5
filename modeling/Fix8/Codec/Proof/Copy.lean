import Fix8.Codec.Proof.Assembled

/-!
# Copies

`copy_legal` walks the table of the source, and copies the fields that the target can take and the
elements of their groups, each into a new element.

* `InStep`: the `present` bits say what `_fields` holds;
* `Everywhere`, `Shaped`: a property of a message and of its elements at every depth; the groups are
  of the classes that the class of the message nests;
* `Copied`: what a copy leaves in a target; **`copyLegal_ok`**: a copy between parts of the same
  class, where the groups of the target have room; `hasRoom_of_copyLegal`: the converse.
-/

namespace Fix8.Codec

open Lib

/-! ## Containers in step -/

/-- The `present` bits and `_fields` are in step, over the tags of the table `fp`. -/
structure InStep {D : Type} (lead : List (Nat × Nat)) (fp : FieldTraits) (o : FieldStore D) :
    Prop where
  traits : SameTraits fp o.fp
  present : ∀ k, o.fp.has k = true → o.fp.present k = (o.fields.get? k).isSome
  field : ∀ k f, o.fields.get? k = some f → f.fnum = k
  legal : ∀ k f, o.fields.get? k = some f → lead.lookup k = none → o.fp.has k = true

section
variable {D : Type} {lead : List (Nat × Nat)} {fp : FieldTraits} {o own : FieldStore D}
  {f : BaseField D} {k : Nat}

/-- The value of a field. -/
def FieldStore.value (o : FieldStore D) (k : Nat) : Option (Value D) :=
  (o.fields.get? k).map (·.value)

theorem Placed.inStep (h : Placed lead o) (htraits : SameTraits fp o.fp) : InStep lead fp o :=
  ⟨htraits, h.present, fun k f hf => (h.field k f hf).1, h.legal⟩

theorem present_addField (hadd : o.addField f = .ok own) (hk : k ≠ f.fnum) :
    own.fp.present k = o.fp.present k := by
  have hset : (o.fp.setPresent f.fnum).present k = o.fp.present k := by
    rw [FieldTraits.present_setPresent_eq, if_neg hk]
  unfold FieldStore.addField FieldStore.addFieldAt at hadd
  split at hadd
  · obtain rfl := Except.ok.inj hadd
    split
    · unfold FieldStore.replace
      split
      · rfl
      · exact hset
    · exact hset
  · exact absurd hadd (by simp)

theorem present_addField_self (hhas : o.fp.has f.fnum = true) (hadd : o.addField f = .ok own) :
    own.fp.present f.fnum = true := by
  have hset : (o.fp.setPresent f.fnum).present f.fnum = true := by
    rw [FieldTraits.present_setPresent_eq, if_pos rfl, hhas]
  unfold FieldStore.addField FieldStore.addFieldAt at hadd
  rw [if_pos hhas] at hadd
  obtain rfl := Except.ok.inj hadd
  split
  · rename_i hpresent
    unfold FieldStore.replace
    split
    · simpa using hpresent
    · exact hset
  · exact hset

/-- What `_fields` gains comes in step. -/
theorem InStep.of_get? (h : InStep lead fp o) (htraits : SameTraits o.fp own.fp)
    (hpresent : ∀ j, j ≠ f.fnum → own.fp.present j = o.fp.present j)
    (hself : own.fp.present f.fnum = true) (hhas : o.fp.has f.fnum = true)
    (hget : ∀ j, own.fields.get? j = if j = f.fnum then some f else o.fields.get? j) :
    InStep lead fp own where
  traits := h.traits.trans htraits
  present := by
    intro j hj
    rw [hget]
    split
    · rename_i heq
      rw [heq, hself]
      rfl
    · rename_i hne
      rw [hpresent j hne]
      exact h.present j ((htraits.has j).symm.trans hj)
  field := by
    intro j f' hf'
    rw [hget] at hf'
    split at hf'
    · rename_i heq
      rw [heq, Option.some.inj hf']
    · exact h.field j f' hf'
  legal := by
    intro j f' hf' hj
    rw [hget] at hf'
    rw [htraits.has]
    split at hf'
    · rename_i heq
      rw [heq, hhas]
    · exact h.legal j f' hf' hj

theorem InStep.addField (h : InStep lead fp o) (hadd : o.addField f = .ok own) :
    InStep lead fp own := by
  have hhas := has_of_addField hadd
  exact h.of_get? (sameTraits_addField hadd) (fun j hj => present_addField hadd hj)
    (present_addField_self hhas hadd) hhas fun j => get?_addField (h.present _ hhas) hadd

theorem get?_replace_of_some {old : BaseField D} (hold : o.fields.get? k = some old) (j : Nat) :
    (o.replace k f).fields.get? j = if j = k then some f else o.fields.get? j := by
  rw [FieldStore.replace, hold]
  show (o.fields.replace k f).get? j = _
  rw [OrdMap.get?_replace, hold, Option.map_some]

theorem fp_replace_of_some {old : BaseField D} (hold : o.fields.get? k = some old) :
    (o.replace k f).fp = o.fp.setPresent k := by
  rw [FieldStore.replace, hold]

theorem InStep.replace (h : InStep lead fp o) (hhas : o.fp.has f.fnum = true) :
    InStep lead fp (o.replace f.fnum f) := by
  cases hold : o.fields.get? f.fnum with
  | none =>
    rw [FieldStore.replace, hold]
    exact h
  | some old =>
    have hfp := fp_replace_of_some (f := f) hold
    refine h.of_get? (hfp ▸ sameTraits_setPresent) (fun j hj => ?_) ?_ hhas
      (get?_replace_of_some hold)
    · rw [hfp, FieldTraits.present_setPresent_eq, if_neg hj]
    · rw [hfp, FieldTraits.present_setPresent_eq, if_pos rfl, hhas]

end

/-! ## Messages and their elements -/

/-- The message, of class `c`, and its elements, of the classes of their groups, at every depth. -/
inductive Everywhere {D : Type} (Q : GroupClass → MessageBase D → Prop) :
    GroupClass → MessageBase D → Prop where
  | mk (c : GroupClass) (m : MessageBase D) (node : Q c m)
      (msgs : ∀ g ∈ m.groups, ∀ e ∈ g.msgs, Everywhere Q g.cls e) : Everywhere Q c m

/-- The groups are those that the class makes. -/
def Shaped {D : Type} (c : GroupClass) (m : MessageBase D) : Prop :=
  ∀ g ∈ m.groups, createNestedGroup c.nested g.fnum = some g.cls

/-- A part without fields, with a group of each class. -/
def Fresh {D : Type} (c : GroupClass) (m : MessageBase D) : Prop :=
  m.own = .create c.traits ∧ m.groups = newGroups c.nested

section
variable {D : Type} {c : GroupClass} {m : MessageBase D} {g : GroupBase D} {k : Nat}

theorem fresh_createGroup : Fresh c (c.createGroup (D := D) true) := ⟨rfl, rfl⟩

theorem fresh_create {bme : MessageClass} : Fresh bme.cls (bme.create (D := D) true) := ⟨rfl, rfl⟩

theorem Fresh.findGroup (h : Fresh c m) :
    m.findGroup k = (createNestedGroup c.nested k).map fun c' => .mk c' [] := by
  rw [MessageBase.findGroup, h.2, newGroups, List.find?_map]
  rfl

theorem Fresh.inStep (h : Fresh c m) (hc : Table c.traits) : InStep [] c.traits m.own := by
  rw [h.1]
  exact (placed_create hc).inStep (.refl _)

theorem Shaped.find (h : Shaped c m) (hg : m.findGroup k = some g) :
    createNestedGroup c.nested k = some g.cls := by
  obtain ⟨hmem, rfl⟩ := mem_groups_of_findGroup hg
  exact h g hmem

theorem createNestedGroup_of_mem {classes : List GroupClass}
    (hdistinct : (classes.map GroupClass.fnum).Nodup)
    (hc : c ∈ classes) : createNestedGroup classes c.fnum = some c := by
  induction classes with
  | nil => exact absurd hc List.not_mem_nil
  | cons c' classes ih =>
    obtain ⟨hnew, hdistinct'⟩ := List.nodup_cons.1 hdistinct
    unfold createNestedGroup at ih ⊢
    rcases List.mem_cons.1 hc with rfl | hc
    · exact List.find?_cons_of_pos (by simp)
    · have hne : c'.fnum ≠ c.fnum := fun heq => hnew (heq ▸ List.mem_map_of_mem hc)
      rw [List.find?_cons_of_neg (by simpa using hne)]
      exact ih hdistinct' hc

theorem createNestedGroup_fnum {classes : List GroupClass} {c' : GroupClass}
    (h : createNestedGroup classes k = some c') :
    c'.fnum = k := by
  simpa using List.find?_some h

theorem findGroup_isSome_iff : (m.findGroup k).isSome = true ↔ ∃ g ∈ m.groups, g.fnum = k := by
  unfold MessageBase.findGroup
  rw [List.find?_isSome]
  simp only [beq_iff_eq]

theorem groups_addGroup {g : GroupBase D} (hg : g ∈ (m.addGroup (.mk c [])).groups) :
    g ∈ m.groups ∨ g = .mk c [] := by
  unfold MessageBase.addGroup at hg
  split at hg
  · exact .inl hg
  · exact (List.mem_append.1 hg).imp_right List.mem_singleton.1

theorem findGroup_addGroup {g : GroupBase D} (hk : (m.findGroup k).isSome = true) :
    ((m.addGroup g).findGroup k).isSome = true := by
  unfold MessageBase.addGroup
  split
  · exact hk
  · rw [findGroup_isSome_iff] at hk ⊢
    obtain ⟨g', hg', hfnum⟩ := hk
    exact ⟨g', List.mem_append_left _ hg', hfnum⟩

theorem findGroup_addElement {fnum : Nat} {e : MessageBase D} :
    (MessageBase.addElement fnum e m).findGroup k =
      (m.findGroup k).map fun g => if g.fnum = fnum then g.add e else g := by
  unfold MessageBase.findGroup MessageBase.addElement
  rw [MessageBase.groups_withGroups, List.find?_map]
  congr 1
  refine congrArg (List.find? · m.groups) (funext fun g => ?_)
  show ((if g.fnum = fnum then g.add e else g).fnum == k) = (g.fnum == k)
  split <;> rfl

end

/-! ## Elements that are copied -/

section
variable {D : Type} {call : Nat} {force : Bool} {c : GroupClass} {k : Nat}

/-- What `copy_legal` makes of an element, in a new element of the class. -/
def CopyOf (call : Nat) (force : Bool) (c : GroupClass) (e e' : MessageBase D) : Prop :=
  ∃ n, e.copyLegal call force (c.createGroup true) = .ok n e'

theorem CopyOf.unique {e e₁ e₂ : MessageBase D} (h₁ : CopyOf call force c e e₁)
    (h₂ : CopyOf call force c e e₂) : e₁ = e₂ := by
  obtain ⟨n₁, h₁⟩ := h₁
  obtain ⟨n₂, h₂⟩ := h₂
  injection h₁.symm.trans h₂

theorem elementCopiers_eq : ∀ ms : List (MessageBase D),
    elementCopiers call force ms = ms.map (MessageBase.copyLegal call force)
  | [] => rfl
  | m :: ms => congrArg (m.copyLegal call force :: ·) (elementCopiers_eq ms)

theorem copiers_eq : ∀ gs : List (GroupBase D),
    copiers call force gs = gs.map fun g => (g.fnum, g.msgs.map (MessageBase.copyLegal call force))
  | [] => rfl
  | .mk cls msgs :: gs => by
    rw [copiers, copiers_eq gs, GroupBase.copiers, elementCopiers_eq]
    rfl

theorem lookup_copiers {m : MessageBase D} : (copiers call force m.groups).lookup k =
    (m.findGroup k).map fun g => g.msgs.map (MessageBase.copyLegal call force) := by
  rw [copiers_eq, lookup_groups]
  rfl

/-- The copies are behind the elements that the group has, and nothing else changes. -/
theorem copyElements_ok (fnum : Nat) {ms : List (MessageBase D)} (h : ∀ e ∈ ms, ∃ e', CopyOf call force c e e')
    (T : MessageBase D) :
    ∃ n T' copies, copyElements fnum c (ms.map (MessageBase.copyLegal call force)) T = .ok n T' ∧
      List.Forall₂ (CopyOf call force c) ms copies ∧ T'.own = T.own ∧ T'.nested = T.nested ∧
      ∀ k, T'.findGroup k =
        (T.findGroup k).map fun g => if g.fnum = fnum then .mk g.cls (g.msgs ++ copies) else g := by
  induction ms generalizing T with
  | nil =>
    refine ⟨0, T, [], rfl, .nil, rfl, rfl, fun k => ?_⟩
    cases T.findGroup k with
    | none => rfl
    | some g =>
      obtain ⟨cls, msgs⟩ := g
      simp [GroupBase.cls, GroupBase.msgs]
  | cons e ms ih =>
    obtain ⟨e', hcopy⟩ := h e List.mem_cons_self
    obtain ⟨n, hn⟩ := id hcopy
    obtain ⟨n', T', copies, hok, hcopies, hown, hnested, hgroups⟩ :=
      ih (fun e he => h e (List.mem_cons_of_mem _ he)) (MessageBase.addElement fnum e' T)
    refine ⟨n + n', T', e' :: copies, ?_, .cons hcopy hcopies, hown, hnested, fun k => ?_⟩
    · rw [List.map_cons, copyElements, Act.bind_ok (Act.onLocal_ok hn T)]
      dsimp only
      rw [Act.modify_bind_apply, Act.bind_ok hok]
      rfl
    · rw [hgroups, findGroup_addElement, Option.map_map]
      refine congrArg (Option.map · (T.findGroup k)) (funext fun g => ?_)
      obtain ⟨cls, msgs⟩ := g
      by_cases hk : cls.fnum = fnum
      · simp [GroupBase.add, GroupBase.fnum, GroupBase.cls, GroupBase.msgs, hk]
      · simp [GroupBase.fnum, GroupBase.cls, hk]

end

/-! ## Parts that are copied -/

/-- The fields that `copy_legal` takes, where both have the same table. -/
def Taken {D : Type} (force : Bool) (src target : FieldStore D) (k : Nat) : Prop :=
  src.fp.present k = true ∧ (force = true ∨ target.fp.present k = false)

section
variable {D : Type} {force : Bool} {src target target' : FieldStore D} {fp : FieldTraits}
  {lead lead' : List (Nat × Nat)} {pp : FieldTrait} {rest : FieldTraits} {k : Nat}

/-- What the loop asks of a row. -/
theorem taken_iff (force : Bool) (hsrc : InStep lead' fp src) (hfp : InStep lead fp target)
    (hfind : src.fp.find pp.fnum = some pp) :
    (pp.present && (force || target.fp.has pp.fnum && !target.fp.present pp.fnum)) = true ↔
      Taken force src target pp.fnum := by
  have hhas : target.fp.has pp.fnum = true := by
    rw [hfp.traits.has, ← hsrc.traits.has, FieldTraits.has_of_find hfind]
  simp [Taken, FieldTraits.present_of_find hfind, hhas]

/-- A turn decides nothing for the other tags. -/
theorem taken_later (hothers : ∀ j, j ≠ pp.fnum → target'.fp.present j = target.fp.present j)
    (hk : k ≠ pp.fnum) : Taken force src target' k ↔ Taken force src target k := by
  rw [Taken, Taken, hothers k hk]

/-- What is taken by a turn and by the rest of the loop. -/
theorem taken_cons (hnew : pp.fnum ∉ rest.map FieldTrait.fnum)
    (hothers : ∀ j, j ≠ pp.fnum → target'.fp.present j = target.fp.present j)
    (htaken : Taken force src target pp.fnum) :
    (k = pp.fnum ∨ k ∈ rest.map FieldTrait.fnum ∧ Taken force src target' k) ↔
      k ∈ (pp :: rest).map FieldTrait.fnum ∧ Taken force src target k := by
  have hsame (hk : k ∈ rest.map FieldTrait.fnum) :
      Taken force src target' k ↔ Taken force src target k :=
    taken_later hothers fun heq => hnew (heq ▸ hk)
  rw [List.map_cons, List.mem_cons]
  constructor
  · rintro (rfl | ⟨hk, hk'⟩)
    · exact ⟨.inl rfl, htaken⟩
    · exact ⟨.inr hk, (hsame hk).1 hk'⟩
  · rintro ⟨hk | hk, hk'⟩
    · exact .inl hk
    · exact .inr ⟨hk, (hsame hk).2 hk'⟩

theorem taken_skip (hnot : ¬ Taken force src target pp.fnum) :
    (k ∈ rest.map FieldTrait.fnum ∧ Taken force src target k) ↔
      k ∈ (pp :: rest).map FieldTrait.fnum ∧ Taken force src target k := by
  rw [List.map_cons, List.mem_cons]
  refine and_congr_left fun hk => ⟨.inr, ?_⟩
  rintro (rfl | hmem)
  · exact absurd hk hnot
  · exact hmem

end

/-- `T'` is `T` with copies of the fields of `src` under the tags `S`, and of the elements of their
groups. -/
structure Copied {D : Type} (call : Nat) (force : Bool) (src : MessageBase D) (S : Nat → Prop)
    (T T' : MessageBase D) : Prop where
  nested : T'.nested = T.nested
  unknown : T'.own.unknown = T.own.unknown
  traits : SameTraits T.own.fp T'.own.fp
  field : ∀ k, S k →
    T'.own.fields.get? k = (src.own.fields.get? k).map fun f => { f with id := ⟨call, k⟩ }
  other : ∀ k, ¬ S k → T'.own.fields.get? k = T.own.fields.get? k
  group : ∀ k g, S k → src.own.fp.isGroup k = true → T.findGroup k = some g →
    ∃ copies, List.Forall₂ (CopyOf call force g.cls) (src.elements k) copies ∧
      T'.findGroup k = some (.mk g.cls (g.msgs ++ copies))
  otherGroup : ∀ k, ¬ (S k ∧ src.own.fp.isGroup k = true) → T'.findGroup k = T.findGroup k
  noGroup : ∀ k, T.findGroup k = none → T'.findGroup k = none

/-- What a copy leaves in place of containers in `P`. -/
def Accepts {D : Type} (call : Nat) (force : Bool) (P : FieldStore D → Prop) : Prop :=
  ∀ o own k v, P o → (force = true ∨ o.fields.get? k = none) → o.fp.has k = true →
    own = o.replace k ⟨⟨call, k⟩, k, v⟩ ∨ o.addField ⟨⟨call, k⟩, k, v⟩ = .ok own → P own

section
variable {D : Type} {call : Nat} {force : Bool} {src T T₁ T' : MessageBase D} {S S' : Nat → Prop}
  {lead lead' : List (Nat × Nat)} {fp : FieldTraits} {P : FieldStore D → Prop} {k : Nat}

theorem Copied.refl (src T : MessageBase D) (h : ∀ k, ¬ S k) : Copied call force src S T T where
  nested := rfl
  unknown := rfl
  traits := .refl _
  field := fun k hk => absurd hk (h k)
  other := fun _ _ => rfl
  group := fun k _ hk => absurd hk (h k)
  otherGroup := fun _ _ => rfl
  noGroup := fun _ h => h

/-- What two loops copy, one after the other. -/
theorem Copied.trans (h : Copied call force src S T T₁) (h' : Copied call force src S' T₁ T')
    (hdisjoint : ∀ k, S k → ¬ S' k) : Copied call force src (fun k => S k ∨ S' k) T T' where
  nested := h'.nested.trans h.nested
  unknown := h'.unknown.trans h.unknown
  traits := h.traits.trans h'.traits
  field := by
    rintro k (hk | hk)
    · rw [h'.other k (hdisjoint k hk), h.field k hk]
    · exact h'.field k hk
  other := by
    intro k hk
    rw [h'.other k (mt .inr hk), h.other k (mt .inl hk)]
  group := by
    rintro k g (hk | hk) hgroup hg
    · rw [h'.otherGroup k fun hk' => hdisjoint k hk hk'.1]
      exact h.group k g hk hgroup hg
    · have hg₁ := h.otherGroup k fun hk' => hdisjoint k hk'.1 hk
      exact h'.group k g hk hgroup (hg₁.trans hg)
  otherGroup := by
    intro k hk
    rw [h'.otherGroup k fun hk' => hk ⟨.inr hk'.1, hk'.2⟩,
      h.otherGroup k fun hk' => hk ⟨.inl hk'.1, hk'.2⟩]
  noGroup := fun k hk => h'.noGroup k (h.noGroup k hk)

theorem Copied.congr (h : Copied call force src S T T') (hS : ∀ k, S k ↔ S' k) :
    Copied call force src S' T T' := by
  have heq : S = S' := funext fun k => propext (hS k)
  rwa [← heq]

/-- A group of the target is there for the elements of a group of the source. -/
def HasRoom (call : Nat) (force : Bool) (src T : MessageBase D) (k : Nat) : Prop :=
  src.own.fp.isGroup k = true → ∀ e ∈ src.elements k,
    ∃ g e', T.findGroup k = some g ∧ CopyOf call force g.cls e e'

/-- The group part of a turn. -/
theorem copyGroup_ok {pp : FieldTrait} (hgroup : src.own.fp.isGroup pp.fnum = pp.group)
    (hroom : HasRoom call force src T pp.fnum) :
    ∃ n T₁, copyGroup (copiers call force src.groups) pp T = .ok n T₁ ∧ T₁.own = T.own ∧
      T₁.nested = T.nested ∧
      (∀ g, src.own.fp.isGroup pp.fnum = true → T.findGroup pp.fnum = some g →
        ∃ copies, List.Forall₂ (CopyOf call force g.cls) (src.elements pp.fnum) copies ∧
          T₁.findGroup pp.fnum = some (.mk g.cls (g.msgs ++ copies))) ∧
      (∀ k, ¬ (k = pp.fnum ∧ src.own.fp.isGroup pp.fnum = true) →
        T₁.findGroup k = T.findGroup k) ∧
      ∀ k, T.findGroup k = none → T₁.findGroup k = none := by
  have hkeep : ∀ g : GroupBase D, GroupBase.mk g.cls (g.msgs ++ []) = g := by
    rintro ⟨cls, msgs⟩
    simp [GroupBase.cls, GroupBase.msgs]
  have hrefl : (src.own.fp.isGroup pp.fnum = true → src.elements pp.fnum = []) →
      ∀ g, src.own.fp.isGroup pp.fnum = true → T.findGroup pp.fnum = some g →
        ∃ copies, List.Forall₂ (CopyOf call force g.cls) (src.elements pp.fnum) copies ∧
          T.findGroup pp.fnum = some (.mk g.cls (g.msgs ++ copies)) := by
    intro hnone g hg hfind
    exact ⟨[], by rw [hnone hg]; exact .nil, by rw [hkeep, hfind]⟩
  unfold copyGroup
  rw [lookup_copiers]
  cases hpp : pp.group with
  | false =>
    rw [hpp] at hgroup
    exact ⟨0, T, rfl, rfl, rfl, hrefl fun h => absurd h (by simp [hgroup]), fun _ _ => rfl,
      fun _ h => h⟩
  | true =>
    rw [hpp] at hgroup
    cases hsrc : src.findGroup pp.fnum with
    | none =>
      have hnone : src.elements pp.fnum = [] := by
        rw [MessageBase.elements, hsrc]
        rfl
      exact ⟨0, T, rfl, rfl, rfl, hrefl fun _ => hnone, fun _ _ => rfl, fun _ h => h⟩
    | some gb =>
      have helements := elements_of_findGroup hsrc
      cases hfind : T.findGroup pp.fnum with
      | none =>
        have hnone : gb.msgs = [] := by
          refine List.eq_nil_iff_forall_not_mem.2 fun e he => ?_
          obtain ⟨g, -, hg, -⟩ := hroom hgroup e (helements ▸ he)
          exact absurd (hfind.symm.trans hg) (by simp)
        refine ⟨0, T, ?_, rfl, rfl, fun g _ hg => absurd hg (by simp), fun _ _ => rfl,
          fun _ h => h⟩
        dsimp only [Option.map_some]
        rw [Act.get_bind_apply, hfind, hnone]
        rfl
      | some gb₁ =>
        have hcopies : ∀ e ∈ gb.msgs, ∃ e', CopyOf call force gb₁.cls e e' := by
          intro e he
          obtain ⟨g, e', hg, hcopy⟩ := hroom hgroup e (helements ▸ he)
          obtain rfl := Option.some.inj (hfind.symm.trans hg)
          exact ⟨e', hcopy⟩
        obtain ⟨n, T₁, copies, hok, hall, hown, hnested, hgroups⟩ :=
          copyElements_ok pp.fnum hcopies T
        refine ⟨n, T₁, ?_, hown, hnested, ?_, ?_, ?_⟩
        · dsimp only [Option.map_some]
          rw [Act.get_bind_apply, hfind]
          exact hok
        · intro g _ hg
          obtain rfl := Option.some.inj hg
          refine ⟨copies, helements ▸ hall, ?_⟩
          rw [hgroups, hfind, Option.map_some, if_pos (mem_groups_of_findGroup hfind).2]
        · intro k hk
          rw [hgroups]
          cases hg : T.findGroup k with
          | none => rfl
          | some g =>
            rw [Option.map_some, if_neg]
            rw [(mem_groups_of_findGroup hg).2]
            exact fun heq => hk ⟨heq, hgroup⟩
        · intro k hk
          rw [hgroups, hk]
          rfl

/-- The field part of a turn. -/
theorem copyField_ok {f : BaseField D} (hfp : InStep lead fp T.own) (hP : Accepts call force P)
    (hT : P T.own) (hf : src.own.fields.get? k = some f) (hfnum : f.fnum = k)
    (hhas : T.own.fp.has k = true) (htaken : force = true ∨ T.own.fp.present k = false) :
    ∃ own, copyField call force src.own k T = .ok () (T.withOwn own) ∧ P own ∧
      InStep lead fp own ∧ own.unknown = T.own.unknown ∧ SameTraits T.own.fp own.fp ∧
      (∀ j, j ≠ k → own.fp.present j = T.own.fp.present j) ∧
      ∀ j, own.fields.get? j = if j = k then some { f with id := ⟨call, k⟩ }
        else T.own.fields.get? j := by
  subst hfnum
  have hpresent := hfp.present f.fnum hhas
  have hfree : force = true ∨ T.own.fields.get? f.fnum = none := by
    refine htaken.imp_right fun habsent => ?_
    rw [habsent] at hpresent
    simpa using hpresent.symm
  let nf : BaseField D := { f with id := ⟨call, f.fnum⟩ }
  unfold copyField
  rw [hf]
  dsimp only
  rw [Act.get_bind_apply]
  by_cases hreplace : (force && T.own.fp.present f.fnum) = true
  · obtain ⟨old, hold⟩ : ∃ old, T.own.fields.get? f.fnum = some old := by
      rw [Bool.and_eq_true] at hreplace
      rw [hreplace.2] at hpresent
      exact Option.isSome_iff_exists.1 hpresent.symm
    rw [if_pos hreplace]
    have hfp' := fp_replace_of_some (f := nf) hold
    refine ⟨T.own.replace f.fnum nf, rfl, hP _ _ _ _ hT hfree hhas (.inl rfl),
      hfp.replace (f := nf) hhas, unknown_replace, ?_, ?_, get?_replace_of_some hold⟩
    · rw [hfp']
      exact sameTraits_setPresent
    · intro j hj
      rw [hfp', FieldTraits.present_setPresent_eq, if_neg hj]
  · rw [if_neg hreplace]
    obtain ⟨own, hadd⟩ : ∃ own, T.own.addField nf = .ok own := ⟨_, if_pos hhas⟩
    refine ⟨own, ?_, hP _ _ _ _ hT hfree hhas (.inr hadd), hfp.addField hadd, unknown_addField hadd,
      sameTraits_addField hadd, fun j hj => present_addField hadd hj,
      fun j => get?_addField (f := nf) hpresent hadd⟩
    simp only [show T.own.addField { f with id := ⟨call, f.fnum⟩ } = .ok own from hadd]
    rfl

theorem find_of_mem {fp : FieldTraits} {t : FieldTrait} (h : (fp.map FieldTrait.fnum).Nodup)
    (ht : t ∈ fp) : fp.find t.fnum = some t := by
  induction fp with
  | nil => exact absurd ht List.not_mem_nil
  | cons t' fp ih =>
    obtain ⟨hnew, hnodup⟩ := List.nodup_cons.1 h
    unfold FieldTraits.find at ih ⊢
    rcases List.mem_cons.1 ht with rfl | ht
    · exact List.find?_cons_of_pos (by simp)
    · have hne : t'.fnum ≠ t.fnum := fun heq => hnew (heq ▸ List.mem_map_of_mem ht)
      rw [List.find?_cons_of_neg (by simpa using hne)]
      exact ih hnodup ht

theorem find_of_present {fp : FieldTraits} (h : fp.present k = true) :
    ∃ t, fp.find k = some t ∧ t.present = true :=
  (Option.any_eq_true _ _).1 h

theorem has_of_present {fp : FieldTraits} (h : fp.present k = true) : fp.has k = true := by
  obtain ⟨t, hfind, -⟩ := find_of_present h
  exact FieldTraits.has_of_find hfind

theorem mem_tags_of_present {fp : FieldTraits} (h : fp.present k = true) :
    k ∈ fp.map FieldTrait.fnum := by
  obtain ⟨t, hfind, -⟩ := find_of_present h
  exact FieldTraits.find_fnum hfind ▸ List.mem_map_of_mem (List.mem_of_find?_eq_some hfind)

/-- One turn that takes a field. -/
theorem copyTurn_ok {pp : FieldTrait} (hsrc : InStep lead' fp src.own)
    (hfind : src.own.fp.find pp.fnum = some pp) (hfp : InStep lead fp T.own)
    (hP : Accepts call force P) (hT : P T.own)
    (htaken : Taken force src.own T.own pp.fnum) (hroom : HasRoom call force src T pp.fnum) :
    ∃ n T₁ T₂, copyGroup (copiers call force src.groups) pp T = .ok n T₁ ∧
      copyField call force src.own pp.fnum T₁ = .ok () T₂ ∧
      Copied call force src (· = pp.fnum) T T₂ ∧ P T₂.own ∧ InStep lead fp T₂.own ∧
      ∀ j, j ≠ pp.fnum → T₂.own.fp.present j = T.own.fp.present j := by
  have hhas : src.own.fp.has pp.fnum = true := FieldTraits.has_of_find hfind
  obtain ⟨f, hf⟩ : ∃ f, src.own.fields.get? pp.fnum = some f :=
    Option.isSome_iff_exists.1 ((hsrc.present _ hhas).symm.trans htaken.1)
  have hgroup : src.own.fp.isGroup pp.fnum = pp.group := FieldTraits.isGroup_of_find hfind
  obtain ⟨n, T₁, hcopied, hown, hnested, hadded, hothers, hnone⟩ := copyGroup_ok hgroup hroom
  rw [← hown] at hfp hT
  have hhas₁ : T₁.own.fp.has pp.fnum = true := by
    rw [hfp.traits.has, ← hsrc.traits.has, hhas]
  obtain ⟨own, hfield, hPown, hstep, hunknown, htraits, hpresent, hget⟩ :=
    copyField_ok hfp hP hT hf (hsrc.field _ _ hf) hhas₁ (hown ▸ htaken.2)
  rw [hown] at hunknown htraits hpresent hget
  refine ⟨n, T₁, T₁.withOwn own, hcopied, hfield, ?_, hPown, hstep, hpresent⟩
  constructor
  · exact hnested
  · exact hunknown
  · exact htraits
  · rintro k rfl
    rw [hf]
    exact (hget _).trans (if_pos rfl)
  · exact fun k hk => (hget k).trans (if_neg hk)
  · rintro k g rfl hisGroup hg
    exact hadded g hisGroup hg
  · intro k hk
    refine hothers k fun h => hk ⟨h.1, ?_⟩
    rw [h.1]
    exact h.2
  · exact hnone

/-- The loop takes the fields that are there before it, each in its turn. -/
theorem copyFields_ok (hsrc : InStep lead' fp src.own) (hP : Accepts call force P) :
    ∀ (l : FieldTraits) (T : MessageBase D), (∀ pp ∈ l, src.own.fp.find pp.fnum = some pp) →
      (l.map FieldTrait.fnum).Nodup → InStep lead fp T.own → P T.own →
      (∀ k ∈ l.map FieldTrait.fnum, Taken force src.own T.own k → HasRoom call force src T k) →
      ∃ n T', copyFields call force src.own (copiers call force src.groups) l T = .ok n T' ∧
        Copied call force src
          (fun k => k ∈ l.map FieldTrait.fnum ∧ Taken force src.own T.own k) T T' ∧
        P T'.own ∧ InStep lead fp T'.own
  | [], T, _, _, hfp, hT, _ =>
    ⟨0, T, rfl, .refl src T fun _ hk => absurd hk.1 List.not_mem_nil, hT, hfp⟩
  | pp :: rest, T, hfind, hnodup, hfp, hT, hroom => by
    obtain ⟨hnew, hnodup'⟩ := List.nodup_cons.1 hnodup
    have hpp := hfind pp List.mem_cons_self
    have hfind' : ∀ pp ∈ rest, src.own.fp.find pp.fnum = some pp :=
      fun pp' hpp' => hfind pp' (List.mem_cons_of_mem _ hpp')
    have hiff := taken_iff force hsrc hfp hpp
    have hne : ∀ k ∈ rest.map FieldTrait.fnum, k ≠ pp.fnum := fun k hk heq => hnew (heq ▸ hk)
    rw [copyFields]
    simp only [Act.get_bind_apply]
    by_cases htaken : Taken force src.own T.own pp.fnum
    · rw [if_pos (hiff.2 htaken)]
      obtain ⟨n, T₁, T₂, hgroup, hfield, hcopied, hT₂, hfp₂, hothers⟩ :=
        copyTurn_ok hsrc hpp hfp hP hT htaken (hroom _ List.mem_cons_self htaken)
      obtain ⟨n', T', hok, hcopied', hT', hfp'⟩ := copyFields_ok hsrc hP rest T₂ hfind' hnodup'
        hfp₂ hT₂ fun k hk hk' hisGroup e he => by
          rw [hcopied.otherGroup k fun h => hne k hk h.1]
          exact hroom k (List.mem_cons_of_mem _ hk) ((taken_later hothers (hne k hk)).1 hk')
            hisGroup e he
      refine ⟨n + 1 + n', T', ?_, ?_, hT', hfp'⟩
      · rw [Act.bind_ok hgroup, Act.bind_ok hfield, Act.bind_ok hok]
        rfl
      · exact (hcopied.trans hcopied' fun k hk hk' => hne k hk'.1 hk).congr fun k =>
          taken_cons hnew hothers htaken
    · rw [if_neg (mt hiff.1 htaken)]
      obtain ⟨n', T', hok, hcopied', hT', hfp'⟩ := copyFields_ok hsrc hP rest T hfind' hnodup'
        hfp hT fun k hk => hroom k (List.mem_cons_of_mem _ hk)
      exact ⟨n', T', hok, hcopied'.congr fun k => taken_skip htaken, hT', hfp'⟩

/-- **What `copy_legal` does between parts of the same class**, where the groups of the target have
room for the elements. -/
theorem copyLegal_ok (htags : (fp.map FieldTrait.fnum).Nodup) (hsrc : InStep lead' fp src.own)
    (hfp : InStep lead fp T.own) (hP : Accepts call force P) (hT : P T.own)
    (hroom : ∀ k, Taken force src.own T.own k → HasRoom call force src T k) :
    ∃ n T', src.copyLegal call force T = .ok n T' ∧
      Copied call force src (Taken force src.own T.own) T T' ∧ P T'.own ∧
      InStep lead fp T'.own := by
  have hnodup : (src.own.fp.map FieldTrait.fnum).Nodup := hsrc.traits.tags ▸ htags
  obtain ⟨n, T', hok, hcopied, hT', hfp'⟩ := copyFields_ok hsrc hP src.own.fp T
    (fun pp hpp => find_of_mem hnodup hpp) hnodup hfp hT fun k _ => hroom k
  refine ⟨n, T', ?_, hcopied.congr fun k => and_iff_right_of_imp fun hk => ?_, hT', hfp'⟩
  · obtain ⟨own, nested, groups⟩ := src
    exact hok
  · exact mem_tags_of_present hk.1

/-- The elements can be copied into a group that is there. -/
def Copyable (call : Nat) (force : Bool) (src T : MessageBase D) (k : Nat) : Prop :=
  src.own.fp.isGroup k = true → ∀ e ∈ src.elements k, ∀ g, T.findGroup k = some g →
    ∃ e', CopyOf call force g.cls e e'

/-- Elements without a group for them: `copy_legal` calls through a null pointer. -/
theorem copyGroup_undefined {pp : FieldTrait} (hgroup : src.own.fp.isGroup pp.fnum = pp.group)
    (hcopy : Copyable call force src T pp.fnum) (hroom : ¬ HasRoom call force src T pp.fnum) :
    copyGroup (copiers call force src.groups) pp T = .throw .undefined T := by
  obtain ⟨hisGroup, e, he, hno⟩ : src.own.fp.isGroup pp.fnum = true ∧ ∃ e ∈ src.elements pp.fnum,
      ∀ g e', T.findGroup pp.fnum = some g → ¬ CopyOf call force g.cls e e' := by
    unfold HasRoom at hroom
    push Not at hroom
    exact hroom
  obtain ⟨gb, hsrc, hmem⟩ := of_mem_elements he
  have hnone : T.findGroup pp.fnum = none := by
    refine Option.eq_none_iff_forall_not_mem.2 fun g hg => ?_
    obtain ⟨e', hcopied⟩ := hcopy hisGroup e he g hg
    exact hno g e' hg hcopied
  have hne : (gb.msgs.map (MessageBase.copyLegal call force)).isEmpty = false := by
    rw [List.isEmpty_eq_false_iff]
    exact fun h => List.ne_nil_of_mem hmem (List.map_eq_nil_iff.1 h)
  unfold copyGroup
  rw [← hgroup, hisGroup, lookup_copiers, hsrc]
  dsimp only [Option.map_some]
  rw [Act.get_bind_apply, hnone, hne]
  rfl

theorem hasRoom_of_copyFields (hsrc : InStep lead' fp src.own) :
    ∀ (l : FieldTraits) (T : MessageBase D) {n : Nat} {T' : MessageBase D},
      (∀ pp ∈ l, src.own.fp.find pp.fnum = some pp) → (l.map FieldTrait.fnum).Nodup →
      InStep lead fp T.own → (∀ k, Copyable call force src T k) →
      copyFields call force src.own (copiers call force src.groups) l T = .ok n T' →
      ∀ k ∈ l.map FieldTrait.fnum, Taken force src.own T.own k → HasRoom call force src T k
  | [], _, _, _, _, _, _, _, _ => fun _ hk => absurd hk List.not_mem_nil
  | pp :: rest, T, n, T', hfind, hnodup, hfp, hcopy, hok => by
    obtain ⟨hnew, hnodup'⟩ := List.nodup_cons.1 hnodup
    have hpp := hfind pp List.mem_cons_self
    have hfind' : ∀ pp ∈ rest, src.own.fp.find pp.fnum = some pp :=
      fun pp' hpp' => hfind pp' (List.mem_cons_of_mem _ hpp')
    have hgroup : src.own.fp.isGroup pp.fnum = pp.group := FieldTraits.isGroup_of_find hpp
    have hiff := taken_iff force hsrc hfp hpp
    have hne : ∀ k ∈ rest.map FieldTrait.fnum, k ≠ pp.fnum := fun k hk heq => hnew (heq ▸ hk)
    rw [copyFields] at hok
    simp only [Act.get_bind_apply] at hok
    by_cases htaken : Taken force src.own T.own pp.fnum
    · rw [if_pos (hiff.2 htaken)] at hok
      by_cases hroom : HasRoom call force src T pp.fnum
      · obtain ⟨n₁, T₁, T₂, hgroup', hfield, hcopied, -, hfp₂, hothers⟩ :=
          copyTurn_ok (P := fun _ => True) hsrc hpp hfp (fun _ _ _ _ _ _ _ _ => trivial) trivial
            htaken hroom
        rw [Act.bind_ok hgroup', Act.bind_ok hfield] at hok
        obtain ⟨n₂, T₃, hrest, -⟩ := Act.bind_eq_ok hok
        have hsame : ∀ k ∈ rest.map FieldTrait.fnum, T₂.findGroup k = T.findGroup k :=
          fun k hk => hcopied.otherGroup k fun h => hne k hk h.1
        have hcopy₂ : ∀ k, Copyable call force src T₂ k := by
          intro k hisGroup e he g hg
          by_cases hk : k = pp.fnum
          · subst hk
            cases hgT : T.findGroup pp.fnum with
            | none => exact absurd ((hcopied.noGroup _ hgT).symm.trans hg) (by simp)
            | some g' =>
              obtain ⟨copies, -, hg'⟩ := hcopied.group _ g' rfl hisGroup hgT
              obtain rfl := Option.some.inj (hg'.symm.trans hg)
              exact hcopy _ hisGroup e he g' hgT
          · rw [hcopied.otherGroup k fun h => hk h.1] at hg
            exact hcopy k hisGroup e he g hg
        have ih := hasRoom_of_copyFields hsrc rest T₂ hfind' hnodup' hfp₂ hcopy₂ hrest
        intro k hk hk'
        rcases List.mem_cons.1 hk with rfl | hk
        · exact hroom
        · intro hisGroup e he
          rw [← hsame k hk]
          exact ih k hk ((taken_later hothers (hne k hk)).2 hk') hisGroup e he
      · rw [Act.bind_throw (copyGroup_undefined hgroup (hcopy _) hroom)] at hok
        exact absurd hok (by simp)
    · rw [if_neg (mt hiff.1 htaken)] at hok
      intro k hk hk'
      rcases List.mem_cons.1 hk with rfl | hk
      · exact absurd hk' htaken
      · exact hasRoom_of_copyFields hsrc rest T hfind' hnodup' hfp hcopy hok k hk hk'

/-- A copy that returns has had room for the elements. -/
theorem hasRoom_of_copyLegal {n : Nat} (htags : (fp.map FieldTrait.fnum).Nodup)
    (hsrc : InStep lead' fp src.own) (hfp : InStep lead fp T.own)
    (hcopy : ∀ k, Copyable call force src T k) (hok : src.copyLegal call force T = .ok n T') :
    ∀ k, Taken force src.own T.own k → HasRoom call force src T k := by
  have hnodup : (src.own.fp.map FieldTrait.fnum).Nodup := hsrc.traits.tags ▸ htags
  have hfields : copyFields call force src.own (copiers call force src.groups) src.own.fp T =
      .ok n T' := by
    obtain ⟨own, nested, groups⟩ := src
    exact hok
  exact fun k hk => hasRoom_of_copyFields hsrc src.own.fp T (fun pp hpp => find_of_mem hnodup hpp)
    hnodup hfp hcopy hfields k (mem_tags_of_present hk.1) hk

end

end Fix8.Codec
