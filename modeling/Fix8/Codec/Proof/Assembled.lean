import Fix8.Codec.Reuse
import Fix8.Codec.Proof.Composed
import Fix8.Codec.Proof.Frame
import Fix8.Codec.Proof.Placed

/-!
# Parts that are assembled

A part that is assembled is `Placed`, and holds the objects of `add_preamble` unless one of them has
been replaced: then the message cannot be encoded any more.

* `SameTraits`: what no edit of the containers changes in a table;
* `Leads`: the objects of `add_preamble`; `encodeLive_of_payload`: with them, the text of an encode;
* **`assembled_placed`**.
-/

namespace Fix8.Codec

open Lib

/-! ## Tables -/

/-- The tables differ in `present` bits alone. -/
structure SameTraits (fp fp' : FieldTraits) : Prop where
  tags : fp'.map FieldTrait.fnum = fp.map FieldTrait.fnum
  has : ∀ k, fp'.has k = fp.has k
  getPos : ∀ k, fp'.getPos k = fp.getPos k
  suppress : ∀ k, fp'.suppress k = fp.suppress k
  isGroup : ∀ k, fp'.isGroup k = fp.isGroup k

section
variable {fp fp' fp'' : FieldTraits} {field : Nat} {f : FieldTrait → FieldTrait}

@[refl] theorem SameTraits.refl (fp : FieldTraits) : SameTraits fp fp :=
  ⟨rfl, fun _ => rfl, fun _ => rfl, fun _ => rfl, fun _ => rfl⟩

theorem SameTraits.symm (h : SameTraits fp fp') : SameTraits fp' fp :=
  ⟨h.tags.symm, fun k => (h.has k).symm, fun k => (h.getPos k).symm, fun k => (h.suppress k).symm,
    fun k => (h.isGroup k).symm⟩

theorem SameTraits.trans (h : SameTraits fp fp') (h' : SameTraits fp' fp'') :
    SameTraits fp fp'' :=
  ⟨h'.tags.trans h.tags, fun k => (h'.has k).trans (h.has k), fun k => (h'.getPos k).trans (h.getPos k),
    fun k => (h'.suppress k).trans (h.suppress k), fun k => (h'.isGroup k).trans (h.isGroup k)⟩

theorem tags_update (hf : ∀ t, (f t).fnum = t.fnum) :
    (fp.update field f).map FieldTrait.fnum = fp.map FieldTrait.fnum := by
  rw [FieldTraits.update, List.map_map]
  refine List.map_congr_left fun t _ => ?_
  show (if t.fnum = field then f t else t).fnum = t.fnum
  split
  · exact hf t
  · rfl

theorem sameTraits_setPresent : SameTraits fp (fp.setPresent field) :=
  ⟨tags_update fun _ => rfl, fun _ => FieldTraits.has_setPresent, fun _ => FieldTraits.getPos_setPresent,
    fun _ => FieldTraits.suppress_setPresent,
    fun _ => FieldTraits.any_update (fun _ => rfl) fun _ => rfl⟩

theorem sameTraits_clearPresent : SameTraits fp (fp.clearPresent field) :=
  ⟨tags_update fun _ => rfl, fun _ => FieldTraits.has_clearPresent, fun _ => FieldTraits.getPos_clearPresent,
    fun _ => FieldTraits.suppress_clearPresent,
    fun _ => FieldTraits.any_update (fun _ => rfl) fun _ => rfl⟩

end

/-- A table, from its entries. -/
theorem table_of_mem {fp : FieldTraits} (htags : (fp.map FieldTrait.fnum).Nodup)
    (hapart : ∀ t ∈ fp, ∀ t' ∈ fp, fp.getPos t.fnum = fp.getPos t'.fnum → t.fnum = t'.fnum)
    (habsent : ∀ t ∈ fp, t.present = false) : Table fp where
  tags := htags
  apart := by
    intro k k' hk hk'
    obtain ⟨t, ht, rfl⟩ := mem_of_has hk
    obtain ⟨t', ht', rfl⟩ := mem_of_has hk'
    exact hapart t ht t' ht'
  absent := by
    intro k
    rw [FieldTraits.present]
    cases h : fp.find k with
    | none => rfl
    | some t => exact habsent t (List.mem_of_find?_eq_some h)

theorem GroupClass.Tables.traits {c : GroupClass} (h : c.Tables) : Table c.traits := by
  obtain ⟨_, _, _, htraits, -, -⟩ := h
  exact htraits

theorem GroupClass.Tables.groups {c : GroupClass} (h : c.Tables) :
    (c.nested.map GroupClass.fnum).Nodup := by
  obtain ⟨_, _, _, -, hgroups, -⟩ := h
  exact hgroups

theorem GroupClass.Tables.nested {c : GroupClass} (h : c.Tables) : ∀ c' ∈ c.nested, c'.Tables := by
  obtain ⟨_, _, _, -, -, hnested⟩ := h
  exact hnested

/-! ## The preamble -/

section
variable {D : Type} {lead : List (Nat × Nat)} {kept : List Nat} {classes : List GroupClass}
  {deep : Bool} {o own : FieldStore D} {f : BaseField D} {m m' : MessageBase D} {k : Nat}

/-- The objects of `add_preamble` are in `_fields`. -/
def Leads (lead : List (Nat × Nat)) (o : FieldStore D) : Prop :=
  ∀ k ∈ lead.map Prod.fst, ∃ v, o.fields.get? k = some (preambleField k v)

/-- Another object is under a tag of `add_preamble`. -/
def Usurped (lead : List (Nat × Nat)) (kept : List Nat) (o : FieldStore D) : Prop :=
  ∃ k ∈ lead.map Prod.fst, k ∉ kept ∧ ∀ f, o.fields.get? k = some f → f.id ≠ preambleId k

theorem mem_lead_iff : k ∈ lead.map Prod.fst ↔ lead.lookup k ≠ none := by
  induction lead with
  | nil => simp
  | cons e lead ih =>
    rw [List.map_cons, List.mem_cons, List.lookup_cons, ih]
    by_cases hk : k = e.1
    · simp [hk]
    · rw [beq_false_of_ne hk]
      exact or_iff_right hk

theorem sameTraits_addField (h : o.addField f = .ok own) : SameTraits o.fp own.fp := by
  unfold FieldStore.addField FieldStore.addFieldAt at h
  split at h
  · obtain rfl := Except.ok.inj h
    split
    · unfold FieldStore.replace
      split
      · rfl
      · exact sameTraits_setPresent
    · exact sameTraits_setPresent
  · exact absurd h (by simp)

theorem unknown_addField (h : o.addField f = .ok own) : own.unknown = o.unknown := by
  unfold FieldStore.addField FieldStore.addFieldAt at h
  split at h
  · obtain rfl := Except.ok.inj h
    split
    · exact unknown_replace
    · rfl
  · exact absurd h (by simp)

/-- What `add_field` leaves in `_fields` is the new object, or was there. -/
theorem addField_cases {f' : BaseField D} (hadd : o.addField f = .ok own)
    (hf' : own.fields.get? k = some f') : f' = f ∨ o.fields.get? k = some f' := by
  unfold FieldStore.addField FieldStore.addFieldAt at hadd
  split at hadd
  · obtain rfl := Except.ok.inj hadd
    split at hf'
    · unfold FieldStore.replace at hf'
      split at hf'
      · exact .inr hf'
      · have hreplace : (o.fields.replace f.fnum f).get? k = some f' := hf'
        rw [OrdMap.get?_replace] at hreplace
        split at hreplace
        · obtain ⟨_, -, rfl⟩ := Option.map_eq_some_iff.1 hreplace
          exact .inl rfl
        · exact .inr hreplace
    · have hins : (o.fields.insert f.fnum f).get? k = some f' := hf'
      rw [OrdMap.get?_insert] at hins
      split at hins
      · rename_i hk
        rw [hk]
        cases hold : o.fields.get? f.fnum with
        | none =>
          rw [hold, Option.getD_none] at hins
          exact .inl (Option.some.inj hins).symm
        | some old =>
          rw [hold, Option.getD_some] at hins
          exact .inr hins
      · exact .inr hins
  · exact absurd hadd (by simp)

/-- What `_fields` holds after `add_field`, where the `present` bit of the tag says whether it is
there. -/
theorem get?_addField (hpresent : o.fp.present f.fnum = (o.fields.get? f.fnum).isSome)
    (hadd : o.addField f = .ok own) :
    own.fields.get? k = if k = f.fnum then some f else o.fields.get? k := by
  unfold FieldStore.addField FieldStore.addFieldAt at hadd
  split at hadd
  · obtain rfl := Except.ok.inj hadd
    rw [Bool.true_and]
    cases hold : o.fields.get? f.fnum with
    | none =>
      rw [hold, Option.isSome_none] at hpresent
      rw [hpresent, if_neg Bool.false_ne_true]
      show (o.fields.insert f.fnum f).get? k = _
      rw [OrdMap.get?_insert, hold, Option.getD_none]
    | some old =>
      rw [hold, Option.isSome_some] at hpresent
      rw [hpresent, if_pos rfl, FieldStore.replace, hold]
      show (o.fields.replace f.fnum f).get? k = _
      rw [OrdMap.get?_replace, hold, Option.map_some]
  · exact absurd hadd (by simp)

theorem has_of_addField (hadd : o.addField f = .ok own) : o.fp.has f.fnum = true := by
  unfold FieldStore.addField at hadd
  split at hadd
  · assumption
  · exact absurd hadd (by simp)

theorem Placed.get?_addField (h : Placed lead o) (hadd : o.addField f = .ok own) :
    own.fields.get? k = if k = f.fnum then some f else o.fields.get? k :=
  Codec.get?_addField (h.present _ (has_of_addField hadd)) hadd

theorem own_addGroup {g : GroupBase D} : (m.addGroup g).own = m.own := by
  unfold MessageBase.addGroup
  split <;> rfl

theorem nested_addGroup {g : GroupBase D} : (m.addGroup g).nested = m.nested := by
  unfold MessageBase.addGroup
  split <;> rfl

/-- What is assembled is in order, and has the preamble until it is replaced. -/
theorem assembled_placed (h : Assembled deep kept classes m m') (hplaced : Placed lead m.own)
    (hleads : Leads lead m.own) :
    Placed lead m'.own ∧ Leads lead m'.own ∨ Usurped lead kept m'.own := by
  induction h with
  | refl => exact .inl ⟨hplaced, hleads⟩
  | add f own hm hid hnew hkept hadd ih =>
    rcases ih hplaced hleads with ⟨hplaced', hleads'⟩ | husurped
    · by_cases hmem : f.fnum ∈ lead.map Prod.fst
      · refine .inr ⟨_, hmem, hkept, fun f' hf' => ?_⟩
        rw [MessageBase.own_withOwn, hplaced'.get?_addField hadd, if_pos rfl] at hf'
        obtain rfl := Option.some.inj hf'
        exact (preambleId_ne hid).symm
      · have hnone : lead.lookup f.fnum = none := not_not.1 (mt mem_lead_iff.2 hmem)
        refine .inl ⟨placed_addField hplaced' hnone hnew hadd, fun k hk => ?_⟩
        rw [MessageBase.own_withOwn, hplaced'.get?_addField hadd, if_neg]
        · exact hleads' k hk
        · rintro rfl
          exact hmem hk
    · obtain ⟨k, hk, hnot, hne⟩ := husurped
      refine .inr ⟨k, hk, hnot, fun f' hf' => ?_⟩
      rcases addField_cases hadd hf' with rfl | hold
      · exact (preambleId_ne hid).symm
      · exact hne f' hold
  | group fnum c _ hc ih =>
    rw [own_addGroup]
    exact ih hplaced hleads
  | element g fnum deepctor _ _ hg he ih => exact ih hplaced hleads

/-- Tables, and what a decode has put aside, stay. -/
theorem assembled_static (h : Assembled deep kept classes m m') :
    SameTraits m.own.fp m'.own.fp ∧ m'.own.unknown = m.own.unknown ∧ m'.nested = m.nested := by
  induction h with
  | refl => exact ⟨.refl _, rfl, rfl⟩
  | add f own _ hid hnew hkept hadd ih =>
    obtain ⟨htraits, hunknown, hnested⟩ := ih
    exact ⟨htraits.trans (sameTraits_addField hadd), (unknown_addField hadd).trans hunknown, hnested⟩
  | group fnum c _ hc ih =>
    rw [own_addGroup, nested_addGroup]
    exact ih
  | element g fnum deepctor _ _ hg he ih => exact ih

end

/-! ## New parts -/

section
variable {D : Type} {cx : F8MetaCntx}

/-- What a constructor has put under `lead` alone is in order. -/
theorem placed_lead {lead : List (Nat × Nat)} {fp : FieldTraits} {o : FieldStore D}
    {v : Nat → Value D} (h : Table fp) (hsame : SameTraits fp o.fp)
    (hpresent : ∀ k, o.fp.has k = true → o.fp.present k = (lead.lookup k).isSome)
    (hpos : o.pos = lead.map fun e => (e.2, preambleField e.1 (v e.1)))
    (hfields : ∀ k, o.fields.get? k = (lead.lookup k).map fun _ => preambleField k (v k))
    (hlead : lead.Pairwise fun a b => a.1 ≠ b.1 ∧ a.2 < b.2) : Placed lead o := by
  have hlookup : ∀ e ∈ lead, lead.lookup e.1 = some e.2 := by
    clear hfields hpos hpresent
    induction lead with
    | nil => exact fun _ he => absurd he List.not_mem_nil
    | cons e lead ih =>
      obtain ⟨he, hlead⟩ := List.pairwise_cons.1 hlead
      intro e' he'
      rw [List.lookup_cons]
      rcases List.mem_cons.1 he' with rfl | he'
      · rw [beq_self_eq_true]
      · rw [beq_false_of_ne (he e' he').1.symm]
        exact ih hlead e' he'
  have hmem : ∀ k p, lead.lookup k = some p → (k, p) ∈ lead := by
    intro k p hk
    obtain ⟨l₁, l₂, heq, -⟩ := List.lookup_eq_some_iff.1 hk
    rw [heq]
    simp
  have hrank : ∀ k p, lead.lookup k = some p → rank lead o.fp k = 2 * p := by
    intro k p hk
    rw [rank, hk, Option.elim_some]
  constructor
  · intro k k' hk hk' heq
    rw [hsame.has] at hk hk'
    rw [hsame.getPos, hsame.getPos] at heq
    exact h.apart k k' hk hk' heq
  · intro k hk
    rw [hpresent k hk, hfields, Option.isSome_map]
  · intro k f hf hk
    rw [hfields, hk] at hf
    exact absurd hf (by simp)
  · intro k f hf
    rw [hfields] at hf
    obtain ⟨p, hp, rfl⟩ := Option.map_eq_some_iff.1 hf
    rw [hrank k p hp, hpos]
    refine ⟨rfl, List.mem_map.2 ⟨_, hmem k p hp, Prod.ext ?_ rfl⟩⟩
    dsimp only
    omega
  · intro e he
    rw [hpos] at he
    obtain ⟨e', he', rfl⟩ := List.mem_map.1 he
    have hp := hlookup e' he'
    show o.fields.get? e'.1 = _ ∧ e'.2 = rank lead o.fp e'.1 / 2
    rw [hfields, hp, hrank _ _ hp]
    exact ⟨rfl, by omega⟩
  · rw [hpos]
    refine List.pairwise_map.2 (List.Pairwise.imp_of_mem (fun {a b} ha hb hab => ?_) hlead)
    show rank lead o.fp a.1 < rank lead o.fp b.1
    rw [hrank _ _ (hlookup a ha), hrank _ _ (hlookup b hb)]
    omega
  · intro k k' f f' hf hf' hid
    rw [hfields] at hf hf'
    obtain ⟨_, -, rfl⟩ := Option.map_eq_some_iff.1 hf
    obtain ⟨_, -, rfl⟩ := Option.map_eq_some_iff.1 hf'
    exact congrArg ObjId.nth hid

theorem lookup_headerLead (k : Nat) : headerLead.lookup k =
    if k = commonMsgType then some 3 else if k = commonBodyLength then some 2
    else if k = commonBeginString then some 1 else none := by
  split_ifs with h₁ h₂ h₃
  · rw [h₁]; rfl
  · rw [h₂]; rfl
  · rw [h₃]; rfl
  · simp only [headerLead, List.lookup_cons, List.lookup_nil, beq_false_of_ne h₁,
      beq_false_of_ne h₂, beq_false_of_ne h₃]

theorem sameTraits_mkHdr (cx : F8MetaCntx) :
    SameTraits cx.header.traits (cx.mkHdr (D := D)).own.fp :=
  (sameTraits_setPresent.trans sameTraits_setPresent).trans sameTraits_setPresent

theorem sameTraits_mkTrl (cx : F8MetaCntx) :
    SameTraits cx.trailer.traits (cx.mkTrl (D := D)).own.fp :=
  sameTraits_setPresent

theorem placed_mkHdr (h : Table cx.header.traits) :
    Placed (D := D) headerLead cx.mkHdr.own := by
  have hsame := sameTraits_mkHdr (D := D) cx
  let v : Nat → Value D := fun k =>
    if k = commonBeginString then .string cx.beginStr
    else if k = commonBodyLength then .int 0 else .string []
  refine placed_lead (v := v) h hsame ?_ rfl ?_ (by decide)
  · intro k hk
    rw [hsame.has] at hk
    show (((cx.header.traits.setPresent commonBeginString).setPresent
      commonBodyLength).setPresent commonMsgType).present k = _
    simp only [FieldTraits.present_setPresent_eq, FieldTraits.has_setPresent, hk, h.absent,
      lookup_headerLead]
    split_ifs <;> rfl
  · intro k
    rw [getField_mkHdr, lookup_headerLead]
    split_ifs with h₁ h₂ h₃
    · rw [h₁]; rfl
    · rw [h₂]; rfl
    · rw [h₃]; rfl
    · rfl

theorem leads_mkHdr : Leads (D := D) headerLead cx.mkHdr.own := by
  intro k hk
  simp only [headerLead, List.map_cons, List.map_nil, List.mem_cons, List.not_mem_nil,
    or_false] at hk
  rcases hk with rfl | rfl | rfl
  all_goals exact ⟨_, rfl⟩

theorem placed_mkTrl (h : Table cx.trailer.traits) :
    Placed (D := D) trailerLead cx.mkTrl.own := by
  have hlookup : ∀ k, trailerLead.lookup k = if k = commonCheckSum then some 3 else none := by
    intro k
    split_ifs with h₁
    · rw [h₁]; rfl
    · simp only [trailerLead, List.lookup_cons, List.lookup_nil, beq_false_of_ne h₁]
  have hsame := sameTraits_mkTrl (D := D) cx
  refine placed_lead (v := fun _ => .string []) h hsame ?_ rfl ?_ (by decide)
  · intro k hk
    rw [hsame.has] at hk
    show (cx.trailer.traits.setPresent commonCheckSum).present k = _
    simp only [FieldTraits.present_setPresent_eq, hk, h.absent, hlookup]
    split_ifs <;> rfl
  · intro k
    show (OrdMap.empty.insert commonCheckSum _).get? k = _
    rw [OrdMap.get?_insert, hlookup]
    split_ifs with h₁
    · rw [h₁]; rfl
    · rfl

theorem leads_mkTrl : Leads (D := D) trailerLead cx.mkTrl.own := by
  intro k hk
  obtain rfl := List.mem_singleton.1 hk
  exact ⟨_, rfl⟩

end

/-! ## The text of an encode -/

section
variable {D : Type} [FpType D] {msg : Message D}

/-- The frame around a payload, with the value of the BeginString. -/
def framed (v₈ : Value D) (content : F8String) : F8String :=
  (preambleField commonBeginString v₈).encode ++
    (preambleField (D := D) commonBodyLength (.int content.length)).encode ++ content

theorem encodeLive_of_payload {v₈ : Value D} {content : F8String}
    (hheader : Leads headerLead msg.header.own) (htrailer : Leads trailerLead msg.trailer.own)
    (h₈ : msg.header.own.fields.get? commonBeginString = some (preambleField commonBeginString v₈))
    (h : msg.payload = .ok content) :
    msg.encodeLive = .ok (framed v₈ content ++ (preambleField (D := D) commonCheckSum
        (.string (fmtChksum (calcChksum (framed v₈ content))))).encode,
      msg.encoded content.length (framed v₈ content)) := by
  obtain ⟨head, hhead, h⟩ := bind_eq_ok h
  obtain ⟨body, hbody, h⟩ := bind_eq_ok h
  obtain ⟨tail, htail, h⟩ := bind_eq_ok h
  obtain rfl := Except.ok.inj h
  obtain ⟨v₉, h₉⟩ := hheader commonBodyLength (by decide)
  obtain ⟨v₃₅, h₃₅⟩ := hheader commonMsgType (by decide)
  obtain ⟨v₁₀, h₁₀⟩ := htrailer commonCheckSum (by decide)
  have hbegin : (msg.header.setPreamble commonMsgType (.string msg.msgType)).preamble
      commonBeginString = .ok (preambleField commonBeginString v₈) :=
    preamble_of_get? ((getField_setPreamble (by decide)).trans h₈)
  have hlength : ∀ n : Nat, ((((msg.header.setPreamble commonMsgType
      (.string msg.msgType)).unsuppress commonBeginString).unsuppress commonBodyLength).setPreamble
        commonBodyLength (.int n)).preamble commonBodyLength =
          .ok (preambleField commonBodyLength (.int n)) := fun n =>
    preamble_setPreamble ((getField_setPreamble (by decide)).trans h₉)
  have hcheck : ∀ w : Value D, ((msg.trailer.setPreamble commonCheckSum w).unsuppress
      commonCheckSum).preamble commonCheckSum = .ok (preambleField commonCheckSum w) :=
    fun w => preamble_setPreamble h₁₀
  unfold Message.encodeLive Message.encode
  dsimp only
  rw [preamble_of_get? h₃₅, ok_bind, hhead, ok_bind, hbody, ok_bind, htail, ok_bind,
    preamble_unsuppress, hbegin, ok_bind, hlength, ok_bind, hcheck, ok_bind]
  rfl

end

end Fix8.Codec
