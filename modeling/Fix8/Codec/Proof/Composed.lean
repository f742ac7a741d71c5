import Fix8.Codec.Proof.Part
import Fix8.Codec.Proof.Tree

/-!
# Composed messages

The containers of the parts are as `PartOk` has it in every message that is created or decoded and
then edited. An element of a group has no preamble and no unknown text.

* `Pure`: an element with the elements of its groups; `groupKept_clean`: a decode makes such;
* `EditKept`, `edited_keeps`: what the edits of a part keep;
* **`composed_ok`**: all three parts of a composed message.
-/

namespace Fix8.Codec

open Lib

section
variable {D : Type} {o : FieldStore D}

/-! ## Groups -/

/-- The containers of an element of a group. -/
def Clean (o : FieldStore D) : Prop := PartOk [] o ∧ o.unknown = []

/-- An element of a group, with the elements of its own groups. -/
inductive Pure : MessageBase D → Prop where
  | mk (own : FieldStore D) (nested : List GroupClass) (groups : List (GroupBase D))
      (hown : Clean own) (hmsgs : ∀ g ∈ groups, ∀ e ∈ g.msgs, Pure e) :
      Pure (.mk own nested groups)

/-- A message base with containers in `P`. -/
structure Whole (P : FieldStore D → Prop) (m : MessageBase D) : Prop where
  own : P m.own
  nested : ∀ c ∈ m.nested, c.Free
  cls : ∀ g ∈ m.groups, g.cls.Free
  msgs : ∀ g ∈ m.groups, ∀ e ∈ g.msgs, Pure e

variable {P : FieldStore D → Prop} {m m' e : MessageBase D} {c : GroupClass}
  {classes : List GroupClass} {fnum : Nat}

theorem Whole.pure (h : Whole Clean m) : Pure m := by
  obtain ⟨own, nested, groups⟩ := m
  exact .mk own nested groups h.own h.msgs

theorem Whole.withOwn (h : Whole P m) (ho : P o) : Whole P (m.withOwn o) :=
  ⟨ho, h.nested, h.cls, h.msgs⟩

theorem Whole.addGroup (h : Whole P m) (hc : c.Free) : Whole P (m.addGroup (.mk c [])) := by
  unfold MessageBase.addGroup
  split
  · exact h
  · refine ⟨h.own, h.nested, ?_, ?_⟩
    · intro g hg
      obtain hg | hg := List.mem_append.1 hg
      · exact h.cls g hg
      · obtain rfl := List.mem_singleton.1 hg
        exact hc
    · intro g hg
      obtain hg | hg := List.mem_append.1 hg
      · exact h.msgs g hg
      · obtain rfl := List.mem_singleton.1 hg
        exact fun e he => absurd he List.not_mem_nil

theorem Whole.addElement (h : Whole P m) (he : Pure e) :
    Whole P (MessageBase.addElement fnum e m) := by
  refine ⟨h.own, h.nested, ?_, ?_⟩
  · intro g hg
    obtain ⟨g', hg', rfl⟩ := List.mem_map.1 hg
    have hcls := h.cls g' hg'
    split <;> exact hcls
  · intro g hg e' he'
    obtain ⟨g', hg', rfl⟩ := List.mem_map.1 hg
    split at he'
    · obtain he' | he' := List.mem_append.1 he'
      · exact h.msgs g' hg' e' he'
      · obtain rfl := List.mem_singleton.1 he'
        exact he
    · exact h.msgs g' hg' e' he'

theorem whole_newGroups (ho : P o) (hnested : ∀ c ∈ classes, c.Free) {deepctor : Bool}
    {nested : List GroupClass} (hsub : ∀ c ∈ nested, c.Free) :
    Whole P (.mk o nested (if deepctor then newGroups classes else [])) := by
  refine ⟨ho, hsub, ?_, ?_⟩
  · intro g hg
    rw [MessageBase.groups_mk] at hg
    split at hg
    · obtain ⟨c, hc, rfl⟩ := List.mem_map.1 hg
      exact hnested c hc
    · exact absurd hg List.not_mem_nil
  · intro g hg e he
    rw [MessageBase.groups_mk] at hg
    split at hg
    · obtain ⟨c, hc, rfl⟩ := List.mem_map.1 hg
      exact absurd he List.not_mem_nil
    · exact absurd hg List.not_mem_nil

theorem whole_createGroup (hc : c.Free) {deepctor : Bool} :
    Whole (D := D) Clean (c.createGroup deepctor) :=
  whole_newGroups ⟨.create (.of_free hc.traits), rfl⟩ hc.nested
    fun _ hc' => absurd hc' List.not_mem_nil

/-! ## Edits -/

/-- What the edits of the containers keep. -/
structure EditKept (kept : List Nat) (P : FieldStore D → Prop) : Prop where
  add : ∀ o f pos, P o → f.id.call ≠ 0 → f.fnum ∉ kept → o.fp.has f.fnum = true →
    pos = o.fp.getPos f.fnum ∨ kept = [] → P (o.addFieldAt f.fnum pos f true)
  replace : ∀ o f, P o → f.id.call ≠ 0 → f.fnum ∉ kept → P (o.replace f.fnum f)
  remove : ∀ o k, P o → k ∉ kept → P (o.remove k)
  assign : ∀ o id k value, P o → k ≠ commonBeginString → P (o.assign id k value)

theorem editKept_part {kept : List Nat} : EditKept (D := D) kept (PartOk kept) where
  add := fun _ _ _ ho hid hk hhas _ => ho.addFieldAt hhas hid hk
  replace := fun _ _ ho hid hk => ho.replace hid hk
  remove := fun _ _ ho hk => ho.remove hk
  assign := fun _ _ _ _ ho _ => ho.assign

theorem editKept_header {cx : F8MetaCntx} : EditKept (D := D) headerTags (HeaderOk cx) where
  add := by
    intro o f pos ho hid hk hhas hpos
    have hpos : pos = o.fp.getPos f.fnum := hpos.resolve_right (by decide)
    unfold FieldStore.addFieldAt
    split
    · exact ho.replace hid hk
    · exact ho.add hhas hid hk (hpos ▸ ho.positions _ hhas hk)
  replace := fun _ _ ho hid hk => ho.replace hid hk
  remove := fun _ _ ho hk => ho.remove hk
  assign := fun _ _ _ _ ho hk => ho.assign hk

theorem unknown_replace {f : BaseField D} : (o.replace fnum f).unknown = o.unknown := by
  unfold FieldStore.replace
  split <;> rfl

theorem editKept_clean : EditKept (D := D) [] Clean where
  add := by
    intro o f pos ho hid hk hhas hpos
    refine ⟨editKept_part.add o f pos ho.1 hid hk hhas hpos, ?_⟩
    unfold FieldStore.addFieldAt
    split
    · exact unknown_replace.trans ho.2
    · exact ho.2
  replace := fun o f ho hid hk => ⟨ho.1.replace hid hk, unknown_replace.trans ho.2⟩
  remove := by
    intro o k ho hk
    refine ⟨ho.1.remove hk, ?_⟩
    unfold FieldStore.remove
    split <;> exact ho.2
  assign := by
    intro o id k value ho _
    refine ⟨ho.1.assign, ?_⟩
    unfold FieldStore.assign
    split
    · exact ho.2
    · split <;> exact ho.2

/-- **What the edits of the containers keep, the edits of a part keep.** -/
theorem edited_keeps {kept : List Nat} (he : Edited kept classes m m') :
    ∀ {P : FieldStore D → Prop}, EditKept kept P → (∀ c ∈ classes, c.Free) → Whole P m →
      Whole P m' := by
  induction he with
  | refl => exact fun _ _ hm => hm
  | add f own _ hid hkept h ih =>
    intro P hP hclasses hm
    have hm' := ih hP hclasses hm
    unfold FieldStore.addField at h
    split at h
    · rename_i hhas
      obtain rfl := Except.ok.inj h
      exact hm'.withOwn (hP.add _ f _ hm'.own hid hkept hhas (.inl rfl))
    · exact absurd h (by simp)
  | addAt f pos _ hid hhas ih =>
    intro P hP hclasses hm
    have hm' := ih hP hclasses hm
    exact hm'.withOwn (hP.add _ f pos hm'.own hid List.not_mem_nil hhas (.inr rfl))
  | replace f _ hid hkept ih =>
    intro P hP hclasses hm
    have hm' := ih hP hclasses hm
    exact hm'.withOwn (hP.replace _ f hm'.own hid hkept)
  | remove fnum _ hkept ih =>
    intro P hP hclasses hm
    have hm' := ih hP hclasses hm
    exact hm'.withOwn (hP.remove _ fnum hm'.own hkept)
  | set id fnum value _ hbegin ih =>
    intro P hP hclasses hm
    have hm' := ih hP hclasses hm
    exact hm'.withOwn (hP.assign _ id fnum value hm'.own hbegin)
  | group c _ hc ih =>
    intro P hP hclasses hm
    exact (ih hP hclasses hm).addGroup (hclasses c hc)
  | element g fnum deepctor _ hg _ ih ihe =>
    intro P hP hclasses hm
    have hm' := ih hP hclasses hm
    have hfree : g.cls.Free := hm'.cls g (List.mem_of_find?_eq_some hg)
    exact hm'.addElement (ihe editKept_clean hfree.nested (whole_createGroup hfree)).pure

/-! ## Decodes -/

section

variable [FpType D] {d : Feed}

omit [FpType D] in
theorem pure_iff : Pure m ↔ Elements Clean m := by
  constructor
  · intro h
    induction h with
    | mk own nested groups hown _ ih => exact .mk own nested groups hown ih
  · intro h
    induction h with
    | mk own nested groups hown _ ih => exact .mk own nested groups hown ih

omit [FpType D] in
theorem whole_iff : Whole P m ↔ Tree GroupClass.Free P Clean m :=
  ⟨fun h => ⟨h.own, h.nested, h.cls, fun g hg e he => pure_iff.1 (h.msgs g hg e he)⟩,
    fun h => ⟨h.own, h.nested, h.cls, fun g hg e he => pure_iff.2 (h.msgs g hg e he)⟩⟩

/-- A group is decoded into pure elements. -/
theorem groupKept_clean (hcall : d.call ≠ 0) : GroupKept (D := D) d GroupClass.Free Clean where
  nested := fun _ hc => hc.nested
  create := fun _ hc => ⟨.create (.of_free hc.traits), rfl⟩
  store := by
    intro o pos itr start be e ho _ _ hitr _
    have hhas : o.fp.has (fastAtoiU16 e.tag) = true := FieldTraits.has_of_find hitr
    exact ⟨ho.1.add (f := d.createField be (fastAtoiU16 e.tag) start e.val) hhas hcall
      List.not_mem_nil, ho.2⟩

/-- What only looks at the containers is kept by the decode of a part. -/
theorem kept_whole {R : Cursor → MessageBase D → Prop} {base : Nat} (hcall : d.call ≠ 0)
    (hunknown : ∀ o u, P o → P { o with unknown := o.unknown ++ u })
    (hstore : ∀ o pos itr start be tv val, P o → base < pos → o.fp.find tv = some itr →
      Origin d R itr start tv val → d.cx.findBe tv = some be →
      P ((o.addFieldDecoder tv pos (d.createField be tv start val)).setPresent tv)) :
    Kept d R base (Whole P) := by
  have hwhole : Whole (D := D) P = Tree GroupClass.Free P Clean :=
    funext fun m => propext whole_iff
  rw [hwhole]
  exact kept_tree (groupKept_clean hcall) hunknown hstore

omit [FpType D] in
/-- A field that a decode stores is not under a tag of the preamble. -/
theorem PartOk.stored {kept : List Nat} {R : Cursor → MessageBase D → Prop} {itr : FieldTrait}
    {start k : Nat} {val : F8String} (h : PartOk kept o) (hitr : o.fp.find k = some itr)
    (horig : Origin d R itr start k val) :
    o.fp.has k = true ∧ k ∉ kept := by
  refine ⟨FieldTraits.has_of_find hitr, fun hk => ?_⟩
  obtain ⟨_, habsent⟩ | ⟨_, _, _, _, _, _, _, htype⟩ := horig
  · exact absurd (h.present _ hk itr hitr) (by simp [habsent])
  · exact h.traits.ftype _ hk itr hitr htype

theorem kept_part {R : Cursor → MessageBase D → Prop} {kept : List Nat} (hcall : d.call ≠ 0) :
    Kept d R 0 (Whole (D := D) (PartOk kept)) := by
  apply kept_whole hcall
  · exact fun _ _ ho => ho.unknown
  · intro o pos itr start be tv val ho _ hitr horig _
    obtain ⟨hhas, hk⟩ := ho.stored hitr horig
    exact ho.add (f := d.createField be tv start val) hhas hcall hk

theorem kept_header {R : Cursor → MessageBase D → Prop} (hcall : d.call ≠ 0) :
    Kept d R 3 (Whole (D := D) (HeaderOk d.cx)) := by
  apply kept_whole hcall
  · exact fun _ _ ho => ho.unknown
  · intro o pos itr start be tv val ho hpos hitr horig _
    obtain ⟨hhas, hk⟩ := ho.part.stored hitr horig
    exact ho.add (f := d.createField be tv start val) hhas hcall hk hpos

end

/-! ## Messages -/

/-- All parts of a message are as `PartOk` has it. -/
structure ComposedOk (cx : F8MetaCntx) (msg : Message D) : Prop where
  header : Whole (HeaderOk cx) msg.header
  body : Whole (PartOk []) msg.body
  trailer : Whole (PartOk [commonCheckSum]) msg.trailer

variable {cx : F8MetaCntx}

theorem getField_mkHdr {k : Nat} : (cx.mkHdr (D := D)).own.fields.get? k =
    if k = commonMsgType then some (preambleField commonMsgType (.string []))
    else if k = commonBodyLength then some (preambleField commonBodyLength (.int 0))
    else if k = commonBeginString then some (preambleField commonBeginString (.string cx.beginStr))
    else none := by
  show (((OrdMap.empty.insert commonBeginString _).insert commonBodyLength _).insert
    commonMsgType _).get? k = _
  simp only [OrdMap.get?_insert, OrdMap.get?_empty]
  rfl

/-- The preamble of a new header is present. -/
theorem present_mkHdr {k : Nat} {t : FieldTrait} (hk : k ∈ headerTags)
    (ht : (cx.mkHdr (D := D)).own.fp.find k = some t) : t.present = true := by
  obtain rfl | rfl | rfl : k = commonBeginString ∨ k = commonBodyLength ∨ k = commonMsgType := by
    simpa [headerTags] using hk
  · exact FieldTraits.present_setPresent
      (FieldTraits.present_setPresent FieldTraits.present_setPresent_self) t ht
  · exact FieldTraits.present_setPresent FieldTraits.present_setPresent_self t ht
  · exact FieldTraits.present_setPresent_self t ht

theorem headerOk_mkHdr (hcx : FrameSchema cx) : HeaderOk (D := D) cx cx.mkHdr.own := by
  have hpreamble : ∀ k f, (cx.mkHdr (D := D)).own.fields.get? k = some f →
      k ∈ headerTags ∧ ∃ v, f = preambleField k v := by
    intro k f hf
    rw [getField_mkHdr] at hf
    split_ifs at hf with h₁ h₂ h₃
    all_goals obtain rfl := Option.some.inj hf
    · subst h₁
      exact ⟨by decide, _, rfl⟩
    · subst h₂
      exact ⟨by decide, _, rfl⟩
    · subst h₃
      exact ⟨by decide, _, rfl⟩
  refine ⟨⟨hcx.header.setPresent.setPresent.setPresent, ?_, ?_, ?_, ?_, ?_⟩, ?_, ?_, ?_⟩
  · exact fun k hk t ht => present_mkHdr hk ht
  · intro k hk
    obtain rfl | rfl | rfl : k = commonBeginString ∨ k = commonBodyLength ∨ k = commonMsgType := by
      simpa [headerTags] using hk
    all_goals exact ⟨_, getField_mkHdr⟩
  · intro k f hf
    obtain ⟨hk, v, rfl⟩ := hpreamble k f hf
    exact ⟨rfl, .inl ⟨rfl, hk⟩⟩
  · exact fun k f hf hk => absurd (hpreamble k f hf).1 hk
  · have hpos : (cx.mkHdr (D := D)).own.pos = [(1, preambleField commonBeginString _),
        (2, preambleField commonBodyLength _), (3, preambleField commonMsgType _)] := rfl
    intro e he
    rw [hpos] at he
    obtain rfl | rfl | rfl := by simpa using he
    all_goals exact .inl ⟨rfl, by simp [headerTags, preambleField]⟩
  · exact getField_mkHdr
  · exact ⟨_, _, _, [], rfl, fun e he => absurd he List.not_mem_nil⟩
  · intro k hk hkept
    have hfp : (cx.mkHdr (D := D)).own.fp = ((cx.header.traits.setPresent commonBeginString).setPresent
      commonBodyLength).setPresent commonMsgType := rfl
    rw [hfp] at hk ⊢
    rw [FieldTraits.has_setPresent, FieldTraits.has_setPresent, FieldTraits.has_setPresent] at hk
    rw [FieldTraits.getPos_setPresent, FieldTraits.getPos_setPresent, FieldTraits.getPos_setPresent]
    exact hcx.headerPos k hk hkept

theorem whole_mkHdr (hcx : FrameSchema cx) : Whole (D := D) (HeaderOk cx) cx.mkHdr :=
  ⟨headerOk_mkHdr hcx, hcx.headerGroups, fun _ hg => absurd hg List.not_mem_nil,
    fun _ hg => absurd hg List.not_mem_nil⟩

theorem partOk_mkTrl (hcx : FrameSchema cx) : PartOk (D := D) [commonCheckSum] cx.mkTrl.own := by
  have hfield : ∀ k, (cx.mkTrl (D := D)).own.fields.get? k =
      if k = commonCheckSum then some (preambleField commonCheckSum (.string [])) else none :=
    fun _ => OrdMap.get?_insert
  have hpreamble : ∀ k f, (cx.mkTrl (D := D)).own.fields.get? k = some f →
      k ∈ [commonCheckSum] ∧ ∃ v, f = preambleField k v := by
    intro k f hf
    rw [hfield] at hf
    split_ifs at hf with hk
    obtain rfl := Option.some.inj hf
    subst hk
    exact ⟨List.mem_singleton_self _, _, rfl⟩
  refine ⟨hcx.trailer.setPresent, ?_, ?_, ?_, ?_, ?_⟩
  · intro k hk
    obtain rfl := List.mem_singleton.1 hk
    exact FieldTraits.present_setPresent_self
  · intro k hk
    obtain rfl := List.mem_singleton.1 hk
    exact ⟨_, hfield _⟩
  · intro k f hf
    obtain ⟨hk, v, rfl⟩ := hpreamble k f hf
    exact ⟨rfl, .inl ⟨rfl, hk⟩⟩
  · exact fun k f hf hk => absurd (hpreamble k f hf).1 hk
  · intro e he
    obtain rfl := List.mem_singleton.1 he
    exact .inl ⟨rfl, List.mem_singleton_self _⟩

theorem whole_mkTrl (hcx : FrameSchema cx) : Whole (D := D) (PartOk [commonCheckSum]) cx.mkTrl :=
  ⟨partOk_mkTrl hcx, hcx.trailerGroups, fun _ hg => absurd hg List.not_mem_nil,
    fun _ hg => absurd hg List.not_mem_nil⟩

theorem whole_create (hcx : FrameSchema cx) {mtype : F8String} {bme : MessageClass}
    {deepctor : Bool} (h : cx.findBme mtype = some bme) :
    Whole (D := D) (PartOk []) (bme.create deepctor) := by
  have hgroups := hcx.bodyGroups mtype bme h
  exact whole_newGroups (.create (hcx.body mtype bme h)) hgroups hgroups

theorem Whole.setPreamble {kept : List Nat} {k : Nat} {value : Value D}
    (h : Whole P m) (hP : EditKept kept P) (hk : k ≠ commonBeginString) :
    Whole P (m.setPreamble k value) := h.withOwn (hP.assign _ _ _ _ h.own hk)

/-- **The parts of every composed message are as the library keeps them.** -/
theorem composed_ok [FpType D] (hcx : FrameSchema cx) {msg : Message D} (h : Composed cx msg) :
    ComposedOk cx msg := by
  induction h with
  | create mtype bme deepctor hbme =>
    exact ⟨whole_mkHdr hcx, whole_create hcx hbme, whole_mkTrl hcx⟩
  | decode now call fuel text noChksum permissive msg hcall h =>
    obtain ⟨hlen, len, mtype, bme, header, body, trailer, bodyStart, trailerStart, hbuilt⟩ :=
      factory_ok h
    have hheader : Whole (HeaderOk cx) header :=
      ((leaves_decode (kept_header (d := ⟨cx, now, call, text, 0⟩) hcall)).ok
        ⟨whole_mkHdr hcx, le_refl _⟩ hbuilt.headerDecoded).2
    have hbody : Whole (PartOk []) body :=
      ((leaves_decode (kept_part (d := ⟨cx, now, call, text, 0⟩) hcall)).ok
        ⟨whole_create hcx hbuilt.findBme, Nat.zero_le _⟩ hbuilt.bodyDecoded).2
    obtain ⟨n, htrailerDecoded⟩ := hbuilt.trailerDecoded
    have htrailer : Whole (PartOk [commonCheckSum]) trailer :=
      ((leaves_decode (kept_part (d := ⟨cx, now, call, text, 7⟩) hcall)).ok
        ⟨whole_mkTrl hcx, Nat.zero_le _⟩ htrailerDecoded).2
    refine ⟨?_, hbuilt.msgBody ▸ hbody, ?_⟩
    · have hmsg := hbuilt.msgHeader
      rw [hmsg]
      exact (hheader.setPreamble editKept_header (by decide)).setPreamble editKept_header (by decide)
    · obtain hmsg | ⟨c, hmsg⟩ := hbuilt.msgTrailer
      · exact hmsg ▸ htrailer
      · rw [hmsg]
        exact htrailer.setPreamble editKept_part (by decide)
  | header msg header _ hedit ih =>
    exact ⟨edited_keeps hedit editKept_header ih.header.nested ih.header, ih.body, ih.trailer⟩
  | body msg body _ hedit ih =>
    exact ⟨ih.header, edited_keeps hedit editKept_part ih.body.nested ih.body, ih.trailer⟩
  | trailer msg trailer _ hedit ih =>
    exact ⟨ih.header, ih.body, edited_keeps hedit editKept_part ih.trailer.nested ih.trailer⟩

end

end Fix8.Codec
