import Fix8.Codec.Proof.Copy
import Fix8.Codec.Proof.Cycle

/-!
# Clones

A new body has a group of each class, and a copy of an assembled body writes what the body writes. A
new header or trailer has no groups, also where it is constructed deep: `copy_legal` has no group to
put elements into, and the clone none that `encode` looks for.

* `MessageBase.counted`: the group fields that an encode follows with elements;
* `Plain`: an element that is assembled, in a class; **`copy_encode`**: its copy writes the same;
* `copyLead`: the copy of a header or trailer;
* **`clone_alike_iff`**.
-/

namespace Fix8.Codec

open Lib

/-! ## What is counted -/

section
variable {D : Type}

/-- The field counts the elements of a group. -/
def countsGroup (isGroup : Nat → Bool) (w : Nat × Value D) : Bool :=
  isGroup w.1 && (⟨preambleId 0, w.1, w.2⟩ : BaseField D).hasGroupCount

/-- The group fields with a positive count that `encode` writes, in order. -/
def MessageBase.counted (m : MessageBase D) : List Nat :=
  (m.own.wire.filter (countsGroup m.own.fp.isGroup)).map (·.1)

/-- `encode` finds a group for each of its group fields with a positive count. -/
def MessageBase.Grouped (m : MessageBase D) : Prop :=
  ∀ k ∈ m.counted, (m.findGroup k).isSome = true

/-- No group has elements whose field is there, other than under the tags `kept`. -/
def MessageBase.NoElements (kept : List Nat) (m : MessageBase D) : Prop :=
  ∀ k, k ∉ kept → m.isPresent k = true → m.own.fp.isGroup k = true → m.elements k = []

variable [FpType D] {isGroup : Nat → Bool} {groups groups' : Nat → Except Stop F8String}
  {l : List (Nat × Value D)} {m : MessageBase D} {ms ms' : List (MessageBase D)}

theorem encodeWire_congr (h : ∀ w ∈ l, countsGroup isGroup w = true → groups' w.1 = groups w.1) :
    encodeWire isGroup groups' l = encodeWire isGroup groups l := by
  induction l with
  | nil => rfl
  | cons w l ih =>
    have hw := h w List.mem_cons_self
    rw [encodeWire, encodeWire, ih fun w hw => h w (List.mem_cons_of_mem _ hw)]
    split
    · rename_i hcounts
      rw [hw hcounts]
    · rfl

theorem encodeWire_ok_iff : (∃ t, encodeWire isGroup groups l = .ok t) ↔
    ∀ w ∈ l, countsGroup isGroup w = true → ∃ t, groups w.1 = .ok t := by
  induction l with
  | nil => exact ⟨fun _ _ hw => absurd hw List.not_mem_nil, fun _ => ⟨_, rfl⟩⟩
  | cons w l ih =>
    rw [List.forall_mem_cons, ← ih, encodeWire]
    split
    · rename_i hcounts
      constructor
      · rintro ⟨t, ht⟩
        obtain ⟨group, hgroup, ht⟩ := bind_eq_ok ht
        obtain ⟨more, hmore, -⟩ := bind_eq_ok ht
        exact ⟨fun _ => ⟨group, hgroup⟩, more, hmore⟩
      · rintro ⟨hgroup, more, hmore⟩
        obtain ⟨group, hgroup⟩ := hgroup hcounts
        exact ⟨_, by rw [hgroup, hmore]; rfl⟩
    · rename_i hcounts
      constructor
      · rintro ⟨t, ht⟩
        obtain ⟨more, hmore, -⟩ := bind_eq_ok ht
        exact ⟨fun h => absurd h hcounts, more, hmore⟩
      · rintro ⟨-, more, hmore⟩
        exact ⟨_, by rw [hmore]; rfl⟩

/-- A part encodes if its counted groups do. -/
theorem encode_ok_iff :
    (∃ t, m.encode = .ok t) ↔ ∀ k ∈ m.counted, ∃ t, m.groupText k = .ok t := by
  have hwire : (∃ t, m.encode = .ok t) ↔
      ∃ t, encodeWire m.own.fp.isGroup m.groupText m.own.wire = .ok t := by
    rw [encode_eq_wire]
    constructor
    · rintro ⟨t, ht⟩
      obtain ⟨t', ht', -⟩ := bind_eq_ok ht
      exact ⟨t', ht'⟩
    · rintro ⟨t, ht⟩
      exact ⟨_, by rw [ht]; rfl⟩
  rw [hwire, encodeWire_ok_iff]
  constructor
  · intro h k hk
    obtain ⟨w, hw, rfl⟩ := List.mem_map.1 hk
    obtain ⟨hmem, hcounts⟩ := List.mem_filter.1 hw
    exact h w hmem hcounts
  · exact fun h w hw hcounts => h w.1 (List.mem_map_of_mem (List.mem_filter.2 ⟨hw, hcounts⟩))

theorem encodeElements_congr (h : List.Forall₂ (fun e e' => e'.encode = e.encode) ms ms') :
    encodeElements ms' = encodeElements ms := by
  induction h with
  | nil => rfl
  | cons he _ ih => rw [encodeElements, encodeElements, he, ih]

end

/-! ## Copies of containers -/

section
variable {D : Type} {lead : List (Nat × Nat)} {call : Nat} {src T T' : MessageBase D}
  {o own : FieldStore D} {fp : FieldTraits} {k : Nat}

/-- The containers of a target: the objects are those of the constructor and those that the copy has
made. -/
structure Target (lead : List (Nat × Nat)) (call : Nat) (o : FieldStore D) : Prop where
  placed : Placed lead o
  leads : Leads lead o
  ids : ∀ k f, o.fields.get? k = some f → f.id = ⟨call, k⟩ ∨ f.id.call = 0

theorem accepts_target (hcall : call ≠ 0) : Accepts (D := D) call false (Target lead call) := by
  intro o own k v h hforce hhas hown
  have hnone := hforce.resolve_left Bool.false_ne_true
  rcases hown with rfl | hadd
  · rw [FieldStore.replace, hnone]
    exact h
  · have hlead : k ∉ lead.map Prod.fst := by
      intro hk
      obtain ⟨w, hw⟩ := h.leads k hk
      exact absurd (hnone.symm.trans hw) (by simp)
    have hnew : ∀ e ∈ o.pos, e.2.id ≠ ⟨call, k⟩ := by
      intro e he hid
      obtain ⟨hentry, -⟩ := h.placed.entry e he
      rcases h.ids _ _ hentry with hid' | hid'
      · rw [hid] at hid'
        injection hid' with _ hk
        rw [← hk, hnone] at hentry
        exact absurd hentry (by simp)
      · rw [hid] at hid'
        exact hcall hid'
    have hget : ∀ j, own.fields.get? j =
        if j = k then some ⟨⟨call, k⟩, k, v⟩ else o.fields.get? j :=
      fun j => h.placed.get?_addField hadd
    refine ⟨placed_addField h.placed (not_not.1 (mt mem_lead_iff.2 hlead)) hnew hadd, ?_, ?_⟩
    · intro j hj
      rw [hget, if_neg]
      · exact h.leads j hj
      · rintro rfl
        exact hlead hj
    · intro j f hf
      rw [hget] at hf
      split at hf
      · rename_i hj
        obtain rfl := Option.some.inj hf
        exact .inl (by rw [hj])
      · exact h.ids j f hf

/-- A copy has the values of the source, where the target has what the source has. -/
theorem value_copied (hsrc : InStep lead fp src.own) (hfp : InStep lead fp T.own)
    (hleads : Leads lead T.own)
    (hkept : ∀ k f, T.own.fields.get? k = some f → src.own.fields.get? k = some f)
    (hcopied : Copied call false src (Taken false src.own T.own) T T') (k : Nat) :
    T'.own.value k = src.own.value k := by
  have hhas : src.own.fp.present k = true → src.own.fp.has k = true := has_of_present
  have hhasT : src.own.fp.has k = true → T.own.fp.has k = true := by
    intro h
    rw [hfp.traits.has, ← hsrc.traits.has, h]
  unfold FieldStore.value
  cases hT : T.own.fields.get? k with
  | some f =>
    have hnot : ¬ Taken false src.own T.own k := by
      rintro ⟨hpresent, hforce | habsent⟩
      · exact absurd hforce (by decide)
      · rw [hfp.present k (hhasT (hhas hpresent)), hT] at habsent
        exact absurd habsent (by simp)
    rw [hcopied.other k hnot, hT, hkept k f hT]
  | none =>
    cases hf : src.own.fields.get? k with
    | none =>
      have hnot : ¬ Taken false src.own T.own k := by
        rintro ⟨hpresent, -⟩
        rw [hsrc.present k (hhas hpresent), hf] at hpresent
        exact absurd hpresent (by simp)
      rw [hcopied.other k hnot, hT]
    | some f =>
      have hlead : lead.lookup k = none := by
        refine not_not.1 (mt mem_lead_iff.2 fun hk => ?_)
        obtain ⟨w, hw⟩ := hleads k hk
        exact absurd (hT.symm.trans hw) (by simp)
      have hlegal := hsrc.legal k f hf hlead
      have htaken : Taken false src.own T.own k := by
        refine ⟨?_, .inr ?_⟩
        · rw [hsrc.present k hlegal, hf]
          rfl
        · rw [hfp.present k (hhasT hlegal), hT]
          rfl
      rw [hcopied.field k htaken, hf]
      rfl

/-- What is written is the same, where the values are. -/
theorem wire_copied (hsrc : Placed lead src.own) (hT' : Placed lead T'.own)
    (htraits : SameTraits src.own.fp T'.own.fp)
    (hvalue : ∀ k, T'.own.value k = src.own.value k) :
    T'.own.wire = src.own.wire :=
  hsrc.wire_eq hT' htraits.getPos htraits.suppress fun k _ => hvalue k

theorem counted_copied (htraits : SameTraits src.own.fp T'.own.fp)
    (hwire : T'.own.wire = src.own.wire) : T'.counted = src.counted := by
  have hisGroup : T'.own.fp.isGroup = src.own.fp.isGroup := funext htraits.isGroup
  rw [MessageBase.counted, MessageBase.counted, hwire, hisGroup]

theorem encode_copied [FpType D] (htraits : SameTraits src.own.fp T'.own.fp)
    (hwire : T'.own.wire = src.own.wire) (hunknown : T'.own.unknown = src.own.unknown)
    (hgroup : ∀ k ∈ src.counted, T'.groupText k = src.groupText k) :
    T'.encode = src.encode := by
  have hisGroup : T'.own.fp.isGroup = src.own.fp.isGroup := funext htraits.isGroup
  rw [encode_eq_wire, encode_eq_wire, hwire, hunknown, hisGroup]
  rw [encodeWire_congr fun w hw hcounts => ?_]
  exact hgroup w.1 (List.mem_map_of_mem (List.mem_filter.2 ⟨hw, hcounts⟩))

end

/-! ## Elements -/

/-- An element that is assembled from a deep one, in its class. -/
structure Plain {D : Type} (c : GroupClass) (m : MessageBase D) : Prop where
  placed : Placed [] m.own
  traits : SameTraits c.traits m.own.fp
  unknown : m.own.unknown = []
  shaped : Shaped c m
  deep : ∀ k, (createNestedGroup c.nested k).isSome = true → (m.findGroup k).isSome = true

/-- A group that one of the classes makes, with plain elements. -/
def PlainGroup {D : Type} (classes : List GroupClass) (g : GroupBase D) : Prop :=
  createNestedGroup classes g.fnum = some g.cls ∧ ∀ e ∈ g.msgs, Everywhere Plain g.cls e

section
variable {D : Type} {c : GroupClass} {classes : List GroupClass} {kept : List Nat}
  {m m' e : MessageBase D} {k : Nat}

theorem leads_nil {o : FieldStore D} : Leads [] o := fun _ hk => absurd hk List.not_mem_nil

theorem plainGroup_new (hdistinct : (classes.map GroupClass.fnum).Nodup) :
    ∀ g ∈ newGroups (D := D) classes, PlainGroup classes g := by
  intro g hg
  obtain ⟨c, hc, rfl⟩ := List.mem_map.1 hg
  exact ⟨createNestedGroup_of_mem hdistinct hc, fun e he => absurd he List.not_mem_nil⟩

/-- A part that is assembled keeps its groups. -/
theorem findGroup_assembled {deep : Bool} (h : Assembled deep kept classes m m')
    (hk : (m.findGroup k).isSome = true) : (m'.findGroup k).isSome = true := by
  induction h with
  | refl => exact hk
  | add f own _ _ _ _ _ ih => exact ih hk
  | group fnum c _ _ ih => exact findGroup_addGroup (ih hk)
  | element g fnum deepctor _ _ _ _ ih =>
    rw [findGroup_addElement, Option.isSome_map]
    exact ih hk

theorem plain_assembled (hc : c.Tables) {T : MessageBase D} (hT : Fresh c T)
    (h : Assembled true [] c.nested T m) (hgroups : ∀ g ∈ m.groups, PlainGroup c.nested g) :
    Everywhere Plain c m := by
  obtain ⟨htraits, hunknown, -⟩ := assembled_static h
  rw [hT.1] at htraits hunknown
  refine .mk c m ⟨?_, htraits, hunknown, fun g hg => (hgroups g hg).1, fun k hk => ?_⟩
    fun g hg => (hgroups g hg).2
  · have hplaced : Placed [] T.own := by
      rw [hT.1]
      exact placed_create hc.traits
    rcases assembled_placed h hplaced leads_nil with hplaced' | husurped
    · exact hplaced'.1
    · obtain ⟨k, hk, -⟩ := husurped
      exact absurd hk List.not_mem_nil
  · refine findGroup_assembled h ?_
    rwa [hT.findGroup, Option.isSome_map]

/-- What is assembled from deep parts has plain elements. -/
theorem assembled_plain (h : Assembled true kept classes m m') (hclasses : ∀ c ∈ classes, c.Tables)
    (hm : ∀ g ∈ m.groups, PlainGroup classes g) : ∀ g ∈ m'.groups, PlainGroup classes g := by
  induction h with
  | refl => exact hm
  | add f own _ _ _ _ _ ih => exact ih hclasses hm
  | group fnum c _ hc ih =>
    intro g hg
    rcases groups_addGroup hg with hg | rfl
    · exact ih hclasses hm g hg
    · refine ⟨?_, fun e he => absurd he List.not_mem_nil⟩
      show createNestedGroup _ c.fnum = some c
      rw [createNestedGroup_fnum hc, hc]
  | @element kept classes m m' e g fnum deepctor hdeepctor _ hg he ih ihe =>
    have ih := ih hclasses hm
    obtain ⟨hmem, rfl⟩ := mem_groups_of_findGroup hg
    have hcls := (ih g hmem).1
    have htables : g.cls.Tables := hclasses _ (List.mem_of_find?_eq_some hcls)
    obtain rfl := hdeepctor rfl
    have hgroups := ihe htables.nested (plainGroup_new htables.groups)
    have hplain := plain_assembled htables fresh_createGroup he hgroups
    intro g' hg'
    obtain ⟨g'', hg'', rfl⟩ := List.mem_map.1 hg'
    have hold := ih g'' hg''
    split
    · rename_i hfnum
      -- The groups under one tag are of one class.
      have hsame : g''.cls = g.cls := by
        have hcls'' := hold.1
        rw [hfnum, hcls] at hcls''
        exact (Option.some.inj hcls'').symm
      refine ⟨hold.1, fun e' he' => ?_⟩
      rcases List.mem_append.1 he' with he' | he'
      · exact hold.2 e' he'
      · obtain rfl := List.mem_singleton.1 he'
        show Everywhere Plain g''.cls e'
        rw [hsame]
        exact hplain
    · exact hold

variable {call : Nat}

theorem Plain.inStep (h : Plain c m) : InStep [] c.traits m.own := h.placed.inStep h.traits

theorem target_create (hc : Table c.traits) : Target (D := D) [] call (.create c.traits) :=
  ⟨placed_create hc, leads_nil, fun k f hf => by simp [FieldStore.create] at hf⟩

variable [FpType D]

/-- The elements of the groups under the counted tags are encoded. -/
theorem encode_plain (h : Everywhere Plain c e) (hc : c.Covered) : ∃ t, e.encode = .ok t := by
  induction h with
  | mk c m node _ ih =>
    obtain ⟨fnum, traits, nested, hgroup, hnested⟩ := hc
    refine encode_ok_iff.2 fun k hk => ?_
    obtain ⟨w, hw, rfl⟩ := List.mem_map.1 hk
    have hisGroup : m.own.fp.isGroup w.1 = true := by
      have hcounts := (List.mem_filter.1 hw).2
      unfold countsGroup at hcounts
      exact (Bool.and_eq_true_iff.1 hcounts).1
    have hmade := hgroup _ ((node.traits.isGroup _).symm.trans hisGroup)
    obtain ⟨g, hg⟩ := Option.isSome_iff_exists.1 (node.deep _ hmade)
    have hcls := node.shaped.find hg
    have hmem := (mem_groups_of_findGroup hg).1
    unfold MessageBase.groupText
    rw [hg]
    obtain ⟨cls, msgs⟩ := g
    exact encodeElements_ok fun e he =>
      ih _ hmem e he (hnested cls (List.mem_of_find?_eq_some hcls))

/-- **The copy of an assembled element, or body, into a new one writes what it writes.** -/
theorem copy_encode (hcall : call ≠ 0) (h : Everywhere Plain c e) (hc : c.Tables) :
    ∀ T : MessageBase D, Fresh c T →
      ∃ n T', e.copyLegal call false T = .ok n T' ∧ T'.encode = e.encode := by
  induction h with
  | mk c m node _ ih =>
    intro T hT
    have hfresh := hT.inStep hc.traits
    have hcopy : ∀ k g, m.findGroup k = some g → ∀ e ∈ g.msgs,
        ∃ e', CopyOf call false g.cls e e' ∧ e'.encode = e.encode := by
      intro k g hg e he
      have htables := hc.nested _ (List.mem_of_find?_eq_some (node.shaped.find hg))
      obtain ⟨n, e', hok, hencode⟩ :=
        ih g (mem_groups_of_findGroup hg).1 e he htables _ fresh_createGroup
      exact ⟨e', ⟨n, hok⟩, hencode⟩
    have hroom : ∀ k, Taken false m.own T.own k → HasRoom call false m T k := by
      intro k _ _ e he
      obtain ⟨g, hg, hmem⟩ := of_mem_elements he
      obtain ⟨e', hcopied, -⟩ := hcopy k g hg e hmem
      refine ⟨.mk g.cls [], e', ?_, hcopied⟩
      rw [hT.findGroup, node.shaped.find hg]
      rfl
    have htarget : Target [] call T.own := by
      rw [hT.1]
      exact target_create hc.traits
    have hnone : ∀ k, T.own.fields.get? k = none := by
      intro k
      rw [hT.1]
      exact OrdMap.get?_empty
    obtain ⟨n, T', hok, hcopied, hT', -⟩ :=
      copyLegal_ok hc.traits.tags node.inStep hfresh (accepts_target hcall) htarget hroom
    refine ⟨n, T', hok, ?_⟩
    have htraits : SameTraits m.own.fp T'.own.fp :=
      node.traits.symm.trans (hfresh.traits.trans hcopied.traits)
    have hvalue := value_copied node.inStep hfresh leads_nil
      (fun k f hf => absurd ((hnone k).symm.trans hf) (by simp)) hcopied
    have hwire := wire_copied node.placed hT'.placed htraits hvalue
    refine encode_copied htraits hwire ?_ fun k hk => ?_
    · rw [hcopied.unknown, hT.1, node.unknown]
      rfl
    · obtain ⟨w, hw, rfl⟩ := List.mem_map.1 hk
      obtain ⟨hmem, hcounts⟩ := List.mem_filter.1 hw
      have hisGroup : m.own.fp.isGroup w.1 = true := by
        unfold countsGroup at hcounts
        exact (Bool.and_eq_true_iff.1 hcounts).1
      unfold MessageBase.groupText
      cases hg : m.findGroup w.1 with
      | none =>
        have hmade : createNestedGroup c.nested w.1 = none := by
          rw [← Option.not_isSome_iff_eq_none]
          intro hsome
          have hdeep := node.deep _ hsome
          rw [hg] at hdeep
          exact absurd hdeep (by simp)
        rw [hcopied.noGroup w.1 (by rw [hT.findGroup, hmade]; rfl)]
      | some g =>
        have hgT : T.findGroup w.1 = some (.mk g.cls []) := by
          rw [hT.findGroup, node.shaped.find hg]
          rfl
        have htaken : Taken false m.own T.own w.1 := by
          obtain ⟨-, hw⟩ := node.placed.mem_wire.1 hmem
          obtain ⟨f, hf, -⟩ := Option.map_eq_some_iff.1 hw
          have hhas := node.placed.legal _ _ hf rfl
          refine ⟨by rw [node.placed.present _ hhas, hf]; rfl, .inr ?_⟩
          rw [hT.1]
          exact hc.traits.absent _
        obtain ⟨copies, hcopies, hg'⟩ := hcopied.group _ _ htaken hisGroup hgT
        rw [elements_of_findGroup hg] at hcopies
        rw [hg']
        have hall : List.Forall₂ (fun e e' => e'.encode = e.encode) g.msgs copies := by
          have hboth := (List.forall₂_and_left (p := fun e =>
            ∃ e', CopyOf call false g.cls e e' ∧ e'.encode = e.encode) _ _).2
              ⟨hcopy w.1 g hg, hcopies⟩
          refine hboth.imp ?_
          rintro e e' ⟨⟨e'', hcopied'', hencode⟩, hcopied'⟩
          rw [hcopied'.unique hcopied'', hencode]
        obtain ⟨cls, msgs⟩ := g
        exact encodeElements_congr hall

end

/-! ## Headers and trailers -/

/-- A new header or trailer. -/
structure NewLead {D : Type} (lead : List (Nat × Nat)) (fp : FieldTraits) (T : MessageBase D) :
    Prop where
  placed : Placed lead T.own
  leads : Leads lead T.own
  traits : SameTraits fp T.own.fp
  only : ∀ k f, T.own.fields.get? k = some f → k ∈ lead.map Prod.fst ∧ f.id.call = 0
  groups : T.groups = []

/-- A copy of a header or trailer: its groups are not there. -/
structure LeadCopy {D : Type} (lead : List (Nat × Nat)) (src T' : MessageBase D) : Prop where
  placed : Placed lead src.own
  leads : Leads lead src.own
  placed' : Placed lead T'.own
  leads' : Leads lead T'.own
  traits : SameTraits src.own.fp T'.own.fp
  unknown : T'.own.unknown = src.own.unknown
  value : ∀ k, T'.own.value k = src.own.value k
  noGroup : ∀ k, T'.findGroup k = none

section
variable {D : Type} {lead : List (Nat × Nat)} {kept : List Nat} {classes : List GroupClass}
  {call : Nat} {fp : FieldTraits} {src T T' : MessageBase D} {cx : F8MetaCntx} {deep : Bool}

theorem newLead_mkHdr (h : Table cx.header.traits) :
    NewLead (D := D) headerLead cx.header.traits cx.mkHdr := by
  refine ⟨placed_mkHdr h, leads_mkHdr, sameTraits_mkHdr cx, fun k f hf => ?_, rfl⟩
  rw [getField_mkHdr] at hf
  split_ifs at hf with h₁ h₂ h₃
  all_goals obtain rfl := Option.some.inj hf
  · exact ⟨by rw [h₁]; decide, rfl⟩
  · exact ⟨by rw [h₂]; decide, rfl⟩
  · exact ⟨by rw [h₃]; decide, rfl⟩

theorem newLead_mkTrl (h : Table cx.trailer.traits) :
    NewLead (D := D) trailerLead cx.trailer.traits cx.mkTrl := by
  refine ⟨placed_mkTrl h, leads_mkTrl, sameTraits_mkTrl cx, fun k f hf => ?_, rfl⟩
  have hf : (OrdMap.empty.insert commonCheckSum
      (preambleField (D := D) commonCheckSum (.string []))).get? k = some f := hf
  rw [OrdMap.get?_insert] at hf
  split at hf
  · rename_i hk
    obtain rfl := Option.some.inj hf
    exact ⟨by rw [hk]; decide, rfl⟩
  · exact absurd hf (by simp)

theorem get?_addField_of_ne {o own : FieldStore D} {f : BaseField D} {k : Nat}
    (h : o.addField f = .ok own) (hk : k ≠ f.fnum) : own.fields.get? k = o.fields.get? k := by
  unfold FieldStore.addField FieldStore.addFieldAt at h
  split at h
  · obtain rfl := Except.ok.inj h
    split
    · unfold FieldStore.replace
      split
      · rfl
      · show (o.fields.replace f.fnum f).get? k = _
        rw [OrdMap.get?_replace, if_neg hk]
    · show (o.fields.insert f.fnum f).get? k = _
      rw [OrdMap.get?_insert, if_neg hk]
  · exact absurd h (by simp)

theorem assembled_kept {k : Nat} (h : Assembled deep kept classes T src) (hk : k ∈ kept) :
    src.own.fields.get? k = T.own.fields.get? k := by
  induction h with
  | refl => rfl
  | add f own _ _ _ hkept hadd ih =>
    rw [MessageBase.own_withOwn, get?_addField_of_ne hadd (fun heq => hkept (heq ▸ hk)), ih hk]
  | group fnum c _ _ ih =>
    rw [own_addGroup]
    exact ih hk
  | element g fnum deepctor _ _ _ _ ih => exact ih hk

/-- Where nothing is added under the tags of the preamble, it stays. -/
theorem placed_of_kept (hT : NewLead lead fp T)
    (h : Assembled deep (lead.map Prod.fst) classes T src) :
    Placed lead src.own ∧ Leads lead src.own := by
  refine (assembled_placed h hT.placed hT.leads).resolve_right ?_
  rintro ⟨k, hk, hnot, -⟩
  exact hnot hk

theorem NewLead.taken_iff {k : Nat} (hT : NewLead lead fp T) (htraits : SameTraits fp src.own.fp) :
    Taken false src.own T.own k ↔ src.isPresent k = true ∧ k ∉ lead.map Prod.fst := by
  refine and_congr_right fun hpresent => ?_
  have hhas : T.own.fp.has k = true := by
    rw [hT.traits.has, ← htraits.has]
    exact has_of_present hpresent
  rw [or_iff_right Bool.false_ne_true, hT.placed.present k hhas]
  constructor
  · intro habsent hk
    obtain ⟨v, hv⟩ := hT.leads k hk
    rw [hv] at habsent
    exact absurd habsent (by simp)
  · intro hk
    cases hf : T.own.fields.get? k with
    | none => rfl
    | some f => exact absurd (hT.only k f hf).1 hk

/-- **The copy of a header or trailer into a new one**, which has no groups. -/
theorem copy_lead (hcall : call ≠ 0) (htable : Table fp) (hT : NewLead lead fp T)
    (h : Assembled deep (lead.map Prod.fst) classes T src) :
    ((∃ n T', src.copyLegal call false T = .ok n T') ↔ src.NoElements (lead.map Prod.fst)) ∧
      ∀ n T', src.copyLegal call false T = .ok n T' → LeadCopy lead src T' := by
  obtain ⟨hplaced, hleads⟩ := placed_of_kept hT h
  obtain ⟨htraits, hunknown, -⟩ := assembled_static h
  have htraits' : SameTraits fp src.own.fp := hT.traits.trans htraits
  have hsrc : InStep lead fp src.own := hplaced.inStep htraits'
  have hfp : InStep lead fp T.own := hT.placed.inStep hT.traits
  have hnone : ∀ k, T.findGroup k = none := by
    intro k
    rw [MessageBase.findGroup, hT.groups]
    rfl
  have htarget : Target lead call T.own :=
    ⟨hT.placed, hT.leads, fun k f hf => .inr (hT.only k f hf).2⟩
  have hroom : (∀ k, Taken false src.own T.own k → HasRoom call false src T k) ↔
      src.NoElements (lead.map Prod.fst) := by
    constructor
    · intro hall k hk hpresent hisGroup
      refine List.eq_nil_iff_forall_not_mem.2 fun e he => ?_
      obtain ⟨g, e', hg, -⟩ := hall k ((hT.taken_iff htraits').2 ⟨hpresent, hk⟩) hisGroup e he
      exact absurd ((hnone k).symm.trans hg) (by simp)
    · intro hall k htaken hisGroup e he
      obtain ⟨hpresent, hk⟩ := (hT.taken_iff htraits').1 htaken
      rw [hall k hk hpresent hisGroup] at he
      exact absurd he List.not_mem_nil
  have hcopyable : ∀ k, Copyable call false src T k :=
    fun k _ e _ g hg => absurd ((hnone k).symm.trans hg) (by simp)
  refine ⟨⟨?_, fun hall => ?_⟩, fun n T' hok => ?_⟩
  · rintro ⟨n, T', hok⟩
    exact hroom.1 (hasRoom_of_copyLegal htable.tags hsrc hfp hcopyable hok)
  · obtain ⟨n, T', hok, -⟩ := copyLegal_ok htable.tags hsrc hfp (accepts_target hcall) htarget
      (hroom.2 hall)
    exact ⟨n, T', hok⟩
  · obtain ⟨n', T'', hok', hcopied, hT', -⟩ := copyLegal_ok htable.tags hsrc hfp
      (accepts_target hcall) htarget (hasRoom_of_copyLegal htable.tags hsrc hfp hcopyable hok)
    obtain rfl : T'' = T' := by injection hok'.symm.trans hok
    refine ⟨hplaced, hleads, hT'.placed, hT'.leads, htraits.symm.trans hcopied.traits,
      hcopied.unknown.trans hunknown.symm, ?_, fun k => hcopied.noGroup k (hnone k)⟩
    refine value_copied hsrc hfp hT.leads (fun k f hf => ?_) hcopied
    rw [assembled_kept h (hT.only k f hf).1, hf]

end

/-! ## Encoding a header or trailer -/

section
variable {D : Type} {lead : List (Nat × Nat)} {classes : List GroupClass} {src T' m : MessageBase D}
  {k : Nat} {v : Value D}

/-- `set` on an object of `add_preamble`, in a part and in its copy. -/
theorem LeadCopy.setPreamble (h : LeadCopy lead src T') (hk : k ∈ lead.map Prod.fst) :
    LeadCopy lead (src.setPreamble k v) (T'.setPreamble k v) := by
  have hleads : ∀ {m : MessageBase D}, Leads lead m.own → Leads lead (m.setPreamble k v).own := by
    intro m hm j hj
    show ∃ w, (m.own.assign (preambleId k) k v).fields.get? j = _
    rw [get?_assign hm hk]
    split
    · rename_i heq
      exact ⟨v, by rw [heq]⟩
    · exact hm j hj
  have hfp : ∀ m : MessageBase D, (m.setPreamble k v).own.fp = m.own.fp := fun _ => fp_assign
  have hunknown : ∀ m : MessageBase D, (m.setPreamble k v).own.unknown = m.own.unknown :=
    fun _ => unknown_assign
  refine ⟨placed_assign h.placed, hleads h.leads, placed_assign h.placed', hleads h.leads', ?_, ?_,
    fun j => ?_, h.noGroup⟩
  · rw [hfp, hfp]
    exact h.traits
  · rw [hunknown, hunknown, h.unknown]
  · show ((T'.own.assign (preambleId k) k v).fields.get? j).map (·.value) =
      ((src.own.assign (preambleId k) k v).fields.get? j).map (·.value)
    rw [get?_assign h.leads hk, get?_assign h.leads' hk]
    split
    · rfl
    · exact h.value j

theorem LeadCopy.wire (h : LeadCopy lead src T') : T'.own.wire = src.own.wire :=
  wire_copied h.placed h.placed' h.traits h.value

variable [FpType D]

/-- The copy encodes where nothing is counted, and then like the source. -/
theorem LeadCopy.encode_ok_iff (h : LeadCopy lead src T') :
    (∃ t, T'.encode = .ok t) ↔ src.counted = [] := by
  rw [Codec.encode_ok_iff, counted_copied h.traits h.wire]
  constructor
  · intro hall
    refine List.eq_nil_iff_forall_not_mem.2 fun k hk => ?_
    obtain ⟨t, ht⟩ := hall k hk
    unfold MessageBase.groupText at ht
    rw [h.noGroup] at ht
    exact absurd ht (by simp)
  · intro hnil k hk
    rw [hnil] at hk
    exact absurd hk List.not_mem_nil

theorem LeadCopy.encode (h : LeadCopy lead src T') (hcounted : src.counted = []) :
    T'.encode = src.encode := by
  refine encode_copied h.traits h.wire h.unknown fun k hk => ?_
  rw [hcounted] at hk
  exact absurd hk List.not_mem_nil

/-- A part with plain elements encodes where its counted groups are there. -/
theorem encode_grouped_iff (hclasses : ∀ c ∈ classes, c.Covered)
    (hgroups : ∀ g ∈ m.groups, PlainGroup classes g) : (∃ t, m.encode = .ok t) ↔ m.Grouped := by
  rw [Codec.encode_ok_iff]
  refine forall₂_congr fun k _ => ?_
  unfold MessageBase.groupText
  cases hg : m.findGroup k with
  | none => simp
  | some g =>
    obtain ⟨hmem, rfl⟩ := mem_groups_of_findGroup hg
    obtain ⟨hcls, helements⟩ := hgroups g hmem
    obtain ⟨cls, msgs⟩ := g
    have hcovered := hclasses cls (List.mem_of_find?_eq_some hcls)
    exact iff_of_true (encodeElements_ok fun e he => encode_plain (helements e he) hcovered) rfl

end

/-! ## Clones -/

section
variable {D : Type} [FpType D] {cx : F8MetaCntx} {bme : MessageClass} {call : Nat}
  {msg clone : Message D}

/-- `clone` returns a message that encodes like this one, where this one encodes. -/
def ClonesAlike (cx : F8MetaCntx) (call : Nat) (msg : Message D) : Prop :=
  ∃ clone, msg.clone cx call = .ok clone ∧
    ∀ text, (∃ m, msg.encodeLive = .ok (text, m)) ↔ ∃ m, clone.encodeLive = .ok (text, m)

theorem GroupClass.Covered.nested {c : GroupClass} (h : c.Covered) : ∀ c' ∈ c.nested, c'.Covered := by
  obtain ⟨_, _, _, -, hnested⟩ := h
  exact hnested

omit [FpType D] in
theorem copiedTo_eq_ok {src T T' : MessageBase D} :
    copiedTo call src T = .ok T' ↔ ∃ n, src.copyLegal call false T = .ok n T' := by
  unfold copiedTo
  cases src.copyLegal call false T with
  | ok n m => simp [eq_comm]
  | throw e m => simp

/-- What a clone consists of. -/
structure Cloned (cx : F8MetaCntx) (bme : MessageClass) (call : Nat) (msg clone : Message D) :
    Prop where
  msgType : clone.msgType = msg.msgType
  header : ∃ n, msg.header.copyLegal call false cx.mkHdr = .ok n clone.header
  body : ∃ n, msg.body.copyLegal call false (bme.create true) = .ok n clone.body
  trailer : ∃ n, msg.trailer.copyLegal call false cx.mkTrl = .ok n clone.trailer

omit [FpType D] in
theorem clone_eq_ok (hkey : 0 ∉ msg.msgType) (hbme : cx.findBme msg.msgType = some bme) :
    msg.clone cx call = .ok clone ↔ Cloned cx bme call msg clone := by
  unfold Message.clone
  dsimp only
  rw [cstr_of_not_mem hkey, hbme]
  constructor
  · intro h
    obtain ⟨body, hbody, h⟩ := bind_eq_ok h
    obtain ⟨header, hheader, h⟩ := bind_eq_ok h
    obtain ⟨trailer, htrailer, h⟩ := bind_eq_ok h
    obtain rfl := Except.ok.inj h
    exact ⟨rfl, copiedTo_eq_ok.1 hheader, copiedTo_eq_ok.1 hbody, copiedTo_eq_ok.1 htrailer⟩
  · rintro ⟨hmsgType, hheader, hbody, htrailer⟩
    obtain ⟨msgType, header, body, trailer⟩ := clone
    subst hmsgType
    show (copiedTo call msg.body (bme.create true) >>= fun body =>
      copiedTo call msg.header cx.mkHdr >>= fun header =>
        copiedTo call msg.trailer cx.mkTrl >>= fun trailer =>
          pure (⟨msg.msgType, header, body, trailer⟩ : Message D)) = _
    rw [copiedTo_eq_ok.2 hbody, ok_bind, copiedTo_eq_ok.2 hheader, ok_bind,
      copiedTo_eq_ok.2 htrailer, ok_bind]
    rfl

omit [FpType D] in
theorem plain_body (hschema : TableSchema cx bme)
    (hmsg : AssembledMessage cx bme true true headerTags [commonCheckSum] msg) :
    Everywhere Plain bme.cls msg.body :=
  plain_assembled hschema.body fresh_create hmsg.body
    (assembled_plain hmsg.body hschema.body.nested (plainGroup_new hschema.body.groups))

omit [FpType D] in
theorem plain_header (hschema : TableSchema cx bme)
    (hmsg : AssembledMessage cx bme true true headerTags [commonCheckSum] msg) :
    ∀ g ∈ msg.header.groups, PlainGroup cx.header.groups g :=
  assembled_plain hmsg.header hschema.header.nested fun _ hg => absurd hg List.not_mem_nil

omit [FpType D] in
theorem plain_trailer (hschema : TableSchema cx bme)
    (hmsg : AssembledMessage cx bme true true headerTags [commonCheckSum] msg) :
    ∀ g ∈ msg.trailer.groups, PlainGroup cx.trailer.groups g :=
  assembled_plain hmsg.trailer hschema.trailer.nested fun _ hg => absurd hg List.not_mem_nil

/-- What the parts of a clone have to do with those of the message. -/
structure CloneOf (msg clone : Message D) : Prop where
  msgType : clone.msgType = msg.msgType
  header : LeadCopy headerLead msg.header clone.header
  body : clone.body.encode = msg.body.encode
  trailer : LeadCopy trailerLead msg.trailer clone.trailer

theorem Cloned.cloneOf (h : Cloned cx bme call msg clone) (hschema : TableSchema cx bme)
    (hcall : call ≠ 0)
    (hmsg : AssembledMessage cx bme true true headerTags [commonCheckSum] msg) :
    CloneOf msg clone := by
  obtain ⟨n, hheader⟩ := h.header
  obtain ⟨n', htrailer⟩ := h.trailer
  obtain ⟨n'', hbody⟩ := h.body
  refine ⟨h.msgType, ?_, ?_, ?_⟩
  · exact (copy_lead hcall hschema.header.traits (newLead_mkHdr hschema.header.traits)
      hmsg.header).2 n _ hheader
  · obtain ⟨m, T', hok, hencode⟩ := copy_encode hcall (plain_body hschema hmsg) hschema.body _
      fresh_create
    obtain rfl : T' = clone.body := by injection hok.symm.trans hbody
    exact hencode
  · exact (copy_lead hcall hschema.trailer.traits (newLead_mkTrl hschema.trailer.traits)
      hmsg.trailer).2 n' _ htrailer

/-- A clone is made where no group of the header or trailer has elements. -/
theorem cloned_iff (hschema : TableSchema cx bme) (hcall : call ≠ 0)
    (hmsg : AssembledMessage cx bme true true headerTags [commonCheckSum] msg) :
    (∃ clone, Cloned cx bme call msg clone) ↔
      msg.header.NoElements headerTags ∧ msg.trailer.NoElements [commonCheckSum] := by
  have hheader := (copy_lead hcall hschema.header.traits (newLead_mkHdr hschema.header.traits)
    hmsg.header).1
  have htrailer := (copy_lead hcall hschema.trailer.traits
    (newLead_mkTrl hschema.trailer.traits) hmsg.trailer).1
  obtain ⟨n, body, hbody, -⟩ := copy_encode hcall (plain_body hschema hmsg) hschema.body _
    fresh_create
  constructor
  · rintro ⟨clone, hclone⟩
    obtain ⟨n, hn⟩ := hclone.header
    obtain ⟨n', hn'⟩ := hclone.trailer
    exact ⟨hheader.1 ⟨n, _, hn⟩, htrailer.1 ⟨n', _, hn'⟩⟩
  · rintro ⟨hnoHeader, hnoTrailer⟩
    obtain ⟨n', header, hok⟩ := hheader.2 hnoHeader
    obtain ⟨n'', trailer, hok'⟩ := htrailer.2 hnoTrailer
    exact ⟨⟨msg.msgType, header, body, trailer⟩, rfl, ⟨n', hok⟩, ⟨n, hbody⟩, ⟨n'', hok'⟩⟩

theorem payload_ok_iff : (∃ content, msg.payload = .ok content) ↔
    (∃ t, msg.typed.encode = .ok t) ∧ (∃ t, msg.body.encode = .ok t) ∧
      ∃ t, msg.trailer.encode = .ok t := by
  constructor
  · rintro ⟨content, h⟩
    obtain ⟨head, hhead, h⟩ := bind_eq_ok h
    obtain ⟨body, hbody, h⟩ := bind_eq_ok h
    obtain ⟨tail, htail, -⟩ := bind_eq_ok h
    exact ⟨⟨head, hhead⟩, ⟨body, hbody⟩, tail, htail⟩
  · rintro ⟨⟨head, hhead⟩, ⟨body, hbody⟩, tail, htail⟩
    refine ⟨head ++ body ++ tail, ?_⟩
    unfold Message.typed at hhead
    unfold Message.payload
    rw [hhead, hbody, htail]
    rfl

/-- The text around a payload. -/
def sealedText (v₈ : Value D) (content : F8String) : F8String :=
  framed v₈ content ++ (preambleField (D := D) commonCheckSum
    (.string (fmtChksum (calcChksum (framed v₈ content))))).encode

theorem encodeLive_iff {v₈ : Value D} {text : F8String} (hheader : Leads headerLead msg.header.own)
    (htrailer : Leads trailerLead msg.trailer.own)
    (h₈ : msg.header.own.fields.get? commonBeginString =
      some (preambleField commonBeginString v₈)) :
    (∃ m, msg.encodeLive = .ok (text, m)) ↔
      ∃ content, msg.payload = .ok content ∧ text = sealedText v₈ content := by
  constructor
  · rintro ⟨m, hm⟩
    obtain ⟨⟨content, hpayload⟩, -, -⟩ := of_encodeLive hm
    have hlive := encodeLive_of_payload hheader htrailer h₈ hpayload
    exact ⟨content, hpayload, congrArg Prod.fst (Except.ok.inj (hm.symm.trans hlive))⟩
  · rintro ⟨content, hpayload, rfl⟩
    exact ⟨_, encodeLive_of_payload hheader htrailer h₈ hpayload⟩

/-- The typed header of a clone is a copy of that of the message. -/
theorem CloneOf.typed (h : CloneOf msg clone) : LeadCopy headerLead msg.typed clone.typed := by
  have htyped := h.header.setPreamble (v := .string msg.msgType)
    (show commonMsgType ∈ headerLead.map Prod.fst by decide)
  unfold Message.typed
  rw [h.msgType]
  exact htyped

theorem CloneOf.payload (h : CloneOf msg clone) (htyped : msg.typed.counted = [])
    (htrailer : msg.trailer.counted = []) : clone.payload = msg.payload := by
  have hhead := h.typed.encode htyped
  unfold Message.typed at hhead
  unfold Message.payload
  rw [hhead, h.body, h.trailer.encode htrailer]

/-- **A clone of a message that is assembled from deep parts encodes like it** if no group of the
header or trailer has elements, and if, in a message that encodes, none of them has a positive
count. -/
theorem clone_alike_iff (hschema : TableSchema cx bme) (hgroups : GroupSchema cx bme)
    (hcall : call ≠ 0) (hkey : 0 ∉ msg.msgType) (hbme : cx.findBme msg.msgType = some bme)
    (hmsg : AssembledMessage cx bme true true headerTags [commonCheckSum] msg) :
    ClonesAlike cx call msg ↔
      msg.header.NoElements headerTags ∧ msg.trailer.NoElements [commonCheckSum] ∧
        (msg.typed.Grouped ∧ msg.trailer.Grouped →
          msg.typed.counted = [] ∧ msg.trailer.counted = []) := by
  have hheaderOk : (∃ t, msg.typed.encode = .ok t) ↔ msg.typed.Grouped :=
    encode_grouped_iff hgroups.header.nested (plain_header hschema hmsg)
  have htrailerOk : (∃ t, msg.trailer.encode = .ok t) ↔ msg.trailer.Grouped :=
    encode_grouped_iff hgroups.trailer.nested (plain_trailer hschema hmsg)
  have hbodyOk : ∃ t, msg.body.encode = .ok t := encode_plain (plain_body hschema hmsg) hgroups.body
  constructor
  · rintro ⟨clone, hclone, halike⟩
    have hcloned := (clone_eq_ok hkey hbme).1 hclone
    obtain ⟨hnoHeader, hnoTrailer⟩ := (cloned_iff hschema hcall hmsg).1 ⟨clone, hcloned⟩
    have hof := hcloned.cloneOf hschema hcall hmsg
    refine ⟨hnoHeader, hnoTrailer, fun ⟨hgrouped, hgrouped'⟩ => ?_⟩
    obtain ⟨content, hpayload⟩ :=
      payload_ok_iff.2 ⟨hheaderOk.2 hgrouped, hbodyOk, htrailerOk.2 hgrouped'⟩
    obtain ⟨v, hv⟩ := hof.header.leads commonBeginString (by decide)
    obtain ⟨m, hm⟩ := (halike _).1 ⟨_, encodeLive_of_payload hof.header.leads hof.trailer.leads hv
      hpayload⟩
    obtain ⟨hhead, -, htail⟩ := payload_ok_iff.1 (of_encodeLive hm).1
    exact ⟨hof.typed.encode_ok_iff.1 hhead, hof.trailer.encode_ok_iff.1 htail⟩
  · rintro ⟨hnoHeader, hnoTrailer, huncounted⟩
    obtain ⟨clone, hcloned⟩ := (cloned_iff hschema hcall hmsg).2 ⟨hnoHeader, hnoTrailer⟩
    have hof := hcloned.cloneOf hschema hcall hmsg
    refine ⟨clone, (clone_eq_ok hkey hbme).2 hcloned, fun text => ?_⟩
    obtain ⟨v, hv⟩ := hof.header.leads commonBeginString (by decide)
    obtain ⟨w, hw⟩ := hof.header.leads' commonBeginString (by decide)
    have hvalue := hof.header.value commonBeginString
    unfold FieldStore.value at hvalue
    rw [hv, hw] at hvalue
    obtain rfl : w = v := Option.some.inj hvalue
    rw [encodeLive_iff hof.header.leads hof.trailer.leads hv,
      encodeLive_iff hof.header.leads' hof.trailer.leads' hw]
    have hsame : msg.typed.counted = [] ∧ msg.trailer.counted = [] →
        clone.payload = msg.payload := fun ⟨h, h'⟩ => hof.payload h h'
    refine exists_congr fun content => and_congr_left fun _ => ⟨fun hpayload => ?_, fun hpayload => ?_⟩
    · obtain ⟨hhead, -, htail⟩ := payload_ok_iff.1 ⟨content, hpayload⟩
      rw [hsame (huncounted ⟨hheaderOk.1 hhead, htrailerOk.1 htail⟩), hpayload]
    · obtain ⟨hhead, -, htail⟩ := payload_ok_iff.1 ⟨content, hpayload⟩
      rw [← hsame ⟨hof.typed.encode_ok_iff.1 hhead, hof.trailer.encode_ok_iff.1 htail⟩, hpayload]

end

/-! ## A header with a group -/

/-- The classes for the group fields of a table, from its entries. -/
theorem covered_of_mem {fp : FieldTraits} {nested : List GroupClass}
    (h : ∀ t ∈ fp, t.group = true → (createNestedGroup nested t.fnum).isSome = true) (k : Nat)
    (hk : fp.isGroup k = true) : (createNestedGroup nested k).isSome = true := by
  unfold FieldTraits.isGroup at hk
  cases hfind : fp.find k with
  | none =>
    rw [hfind] at hk
    exact absurd hk (by simp)
  | some t =>
    rw [hfind] at hk
    rw [← FieldTraits.find_fnum hfind]
    exact h t (List.mem_of_find?_eq_some hfind) hk

theorem demoCntx_covered : GroupSchema demoCntx ⟨[], []⟩ := by
  have hnone : ∀ c ∈ ([] : List GroupClass), c.Covered := fun c hc => absurd hc List.not_mem_nil
  refine ⟨.mk _ _ _ (covered_of_mem ?_) hnone, .mk _ _ _ (covered_of_mem ?_) hnone,
    .mk _ _ _ (covered_of_mem ?_) hnone⟩
  all_goals decide +kernel

theorem clone_alike_numbered : ClonesAlike demoCntx 2 demoNumbered := by
  have hmsg : AssembledMessage demoCntx ⟨[], []⟩ true true headerTags [commonCheckSum]
      demoNumbered :=
    ⟨.add ⟨⟨1, 0⟩, commonMsgSeqNum, .int 5⟩ _ (.refl _ _ _) (by decide) (by decide) (by decide) rfl,
      .refl _ _ _, .refl _ _ _⟩
  have hcounted : demoNumbered.typed.counted = [] ∧ demoNumbered.trailer.counted = [] := by
    decide +kernel
  refine (clone_alike_iff demoCntx_tables demoCntx_covered (by decide) (by decide) rfl hmsg).2
    ⟨fun _ _ _ _ => rfl, fun _ _ _ _ => rfl, fun _ => hcounted⟩

/-- NoHops, with HopCompID. -/
def hopsClass : GroupClass := .mk 627 [{ fnum := 628, pos := 1 }] []

def hopsCntx : F8MetaCntx :=
  { demoCntx with header := ⟨demoCntx.header.traits ++ [{ fnum := 627, pos := 27, group := true }],
      [hopsClass]⟩ }

/-- A heartbeat that has passed one hop. -/
def hopsMessage : Message Unit :=
  let msg := hopsCntx.newMessage (ascii "0") ⟨[], []⟩ true
  let hop : MessageBase Unit := hopsClass.createGroup true
  let hop := hop.withOwn (hop.own.addFieldAt 628 1 ⟨⟨1, 0⟩, 628, .string (ascii "A")⟩ true)
  let header := MessageBase.addElement 627 hop (msg.header.addGroup (.mk hopsClass []))
  { msg with header := header.withOwn (header.own.addFieldAt 627 27 ⟨⟨1, 1⟩, 627, .int 1⟩ true) }

theorem hops_not_alike : TableSchema hopsCntx ⟨[], []⟩ ∧ GroupSchema hopsCntx ⟨[], []⟩ ∧
    hopsCntx.findBme hopsMessage.msgType = some ⟨[], []⟩ ∧
    AssembledMessage hopsCntx ⟨[], []⟩ true true headerTags [commonCheckSum] hopsMessage ∧
    (∃ r, hopsMessage.encodeLive = .ok r) ∧ hopsMessage.clone hopsCntx 2 = .error .undefined ∧
    ¬ ClonesAlike hopsCntx 2 hopsMessage := by
  have hundefined : hopsMessage.clone hopsCntx 2 = .error .undefined := rfl
  have hencodes : hopsMessage.encodeLive.toOption.isSome = true := by decide +kernel
  obtain ⟨r, hr⟩ := Option.isSome_iff_exists.1 hencodes
  refine ⟨⟨?_, demoCntx_tables.body, demoCntx_tables.trailer⟩,
    ⟨?_, demoCntx_covered.body, demoCntx_covered.trailer⟩, rfl, ⟨?_, .refl _ _ _, .refl _ _ _⟩,
    ⟨r, toOption_eq_some hr⟩, hundefined, ?_⟩
  · refine .mk _ _ _ (table_of_mem (by decide +kernel) (by decide +kernel) (by decide +kernel))
      (List.nodup_singleton _) fun c hc => ?_
    obtain rfl := List.mem_singleton.1 hc
    exact .mk _ _ _ (table_of_mem (by decide +kernel) (by decide +kernel) (by decide +kernel))
      List.nodup_nil fun c hc => absurd hc List.not_mem_nil
  · refine .mk _ _ _ (covered_of_mem (by decide +kernel)) fun c hc => ?_
    obtain rfl := List.mem_singleton.1 hc
    exact .mk _ _ _ (covered_of_mem (by decide +kernel)) fun c hc => absurd hc List.not_mem_nil
  · refine .add ⟨⟨1, 1⟩, 627, .int 1⟩ _ (.element (.mk hopsClass []) 627 true (fun _ => rfl)
      (.group 627 hopsClass (.refl _ _ _) rfl) rfl ?_) (by decide) (by decide) (by decide) rfl
    exact .add ⟨⟨1, 0⟩, 628, .string (ascii "A")⟩ _ (.refl _ _ _) (by decide)
      (fun e he => absurd he List.not_mem_nil) (by decide) rfl
  · rintro ⟨clone, hclone, -⟩
    exact absurd (hundefined.symm.trans hclone) (by simp)

end Fix8.Codec
