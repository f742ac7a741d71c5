import Fix8.Codec.Output
import Fix8.Codec.Proof.Traits

/-!
# The containers of a part

The tags of the frame, BeginString, BodyLength and CheckSum, are in no part of a message but under
the objects of `add_preamble`, and in the header these stand before all others.

* `FrameSchema`: what the schema compiler makes of the header, the trailer and the frame tags;
* `PartOk`, `HeaderOk`: what holds of the containers of a part, and of the header, and is kept by
  each change of them.
-/

namespace Fix8.Codec

open Lib

def frameTags : List Nat := [commonBeginString, commonBodyLength, commonCheckSum]

/-- No frame tag is in the traits of the group's class or of a class it nests. -/
inductive GroupClass.Free : GroupClass → Prop where
  | mk (fnum : Nat) (traits : FieldTraits) (nested : List GroupClass)
      (htraits : ∀ k, traits.has k = true → k ∉ frameTags) (hnested : ∀ c ∈ nested, Free c) :
      Free (.mk fnum traits nested)

theorem GroupClass.Free.traits {c : GroupClass} (h : c.Free) :
    ∀ k, c.traits.has k = true → k ∉ frameTags := by
  obtain ⟨_, _, _, htraits, -⟩ := h
  exact htraits

theorem GroupClass.Free.nested {c : GroupClass} (h : c.Free) : ∀ c' ∈ c.nested, c'.Free := by
  obtain ⟨_, _, _, -, hnested⟩ := h
  exact hnested

/-- The traits of a part whose preamble is under `kept`. -/
structure PartTraits (kept : List Nat) (fp : FieldTraits) : Prop where
  tags : ∀ k, fp.has k = true → k ∈ kept ∨ k ∉ frameTags
  ftype : ∀ k ∈ kept, ∀ t, fp.find k = some t → t.ftype ≠ .data
  suppressed : ∀ k ∈ kept, fp.suppress k = decide (k ∈ frameTags)

/-- `process_special_traits` of the schema compiler, and the order of a header. -/
structure FrameSchema (cx : F8MetaCntx) : Prop where
  header : PartTraits headerTags cx.header.traits
  headerPos : ∀ k, cx.header.traits.has k = true → k ∉ headerTags → 3 < cx.header.traits.getPos k
  headerGroups : ∀ c ∈ cx.header.groups, c.Free
  body : ∀ mtype bme, cx.findBme mtype = some bme → PartTraits [] bme.traits
  bodyGroups : ∀ mtype bme, cx.findBme mtype = some bme → ∀ c ∈ bme.groups, c.Free
  trailer : PartTraits [commonCheckSum] cx.trailer.traits
  trailerGroups : ∀ c ∈ cx.trailer.groups, c.Free

section
variable {D : Type} {kept : List Nat} {o : FieldStore D} {fp : FieldTraits} {f : BaseField D}
  {k pos : Nat}

theorem PartTraits.setPresent (h : PartTraits kept fp) : PartTraits kept (fp.setPresent k) where
  tags := by
    intro k' hk'
    rw [FieldTraits.has_setPresent] at hk'
    exact h.tags k' hk'
  ftype := by
    intro k' hk' t ht
    rw [FieldTraits.find_setPresent] at ht
    obtain ⟨t', ht', rfl⟩ := Option.map_eq_some_iff.1 ht
    have hne := h.ftype k' hk' t' ht'
    split <;> exact hne
  suppressed := by
    intro k' hk'
    rw [FieldTraits.suppress_setPresent]
    exact h.suppressed k' hk'

theorem PartTraits.clearPresent (h : PartTraits kept fp) : PartTraits kept (fp.clearPresent k) where
  tags := by
    intro k' hk'
    rw [FieldTraits.has_clearPresent] at hk'
    exact h.tags k' hk'
  ftype := by
    intro k' hk' t ht
    rw [FieldTraits.find_clearPresent] at ht
    obtain ⟨t', ht', rfl⟩ := Option.map_eq_some_iff.1 ht
    have hne := h.ftype k' hk' t' ht'
    split <;> exact hne
  suppressed := by
    intro k' hk'
    rw [FieldTraits.suppress_clearPresent]
    exact h.suppressed k' hk'

theorem PartTraits.of_free (h : ∀ k, fp.has k = true → k ∉ frameTags) : PartTraits [] fp where
  tags := fun k hk => .inr (h k hk)
  ftype := fun _ hk => absurd hk List.not_mem_nil
  suppressed := fun _ hk => absurd hk List.not_mem_nil

/-! ## The containers of a part -/

/-- The field is an object of `add_preamble`, or a later one, which is under no frame tag. -/
def Owned (kept : List Nat) (f : BaseField D) : Prop :=
  (f.id = preambleId f.fnum ∧ f.fnum ∈ kept) ∨
    (f.id.call ≠ 0 ∧ f.fnum ∉ kept ∧ f.fnum ∉ frameTags)

/-- The containers of a part whose preamble is under `kept`. -/
structure PartOk (kept : List Nat) (o : FieldStore D) : Prop where
  traits : PartTraits kept o.fp
  present : ∀ k ∈ kept, ∀ t, o.fp.find k = some t → t.present = true
  preamble : ∀ k ∈ kept, ∃ v, o.fields.get? k = some (preambleField k v)
  fields : ∀ k f, o.fields.get? k = some f → f.fnum = k ∧ Owned kept f
  legal : ∀ k f, o.fields.get? k = some f → k ∉ kept → o.fp.has k = true
  entries : ∀ e ∈ o.pos, Owned kept e.2

/-- An object that is not the preamble's is known by the call that made it. -/
theorem Owned.call_ne (h : Owned kept f) (hkept : f.fnum ∉ kept) : f.id.call ≠ 0 := by
  obtain ⟨-, hmem⟩ | ⟨hcall, -, -⟩ := h
  · exact absurd hmem hkept
  · exact hcall

theorem PartOk.create (h : PartTraits [] fp) : PartOk (D := D) [] (.create fp) where
  traits := h
  present := fun k hk => absurd hk List.not_mem_nil
  preamble := fun k hk => absurd hk List.not_mem_nil
  fields := fun k f hf => by simp [FieldStore.create] at hf
  legal := fun k f hf => by simp [FieldStore.create] at hf
  entries := fun e he => absurd he List.not_mem_nil

theorem PartOk.unknown {u : F8String} (h : PartOk kept o) : PartOk kept { o with unknown := u } :=
  ⟨h.traits, h.present, h.preamble, h.fields, h.legal, h.entries⟩

theorem PartOk.add (h : PartOk kept o) (hhas : o.fp.has f.fnum = true) (hid : f.id.call ≠ 0)
    (hkept : f.fnum ∉ kept) : PartOk kept ((o.addFieldDecoder f.fnum pos f).setPresent f.fnum) where
  traits := h.traits.setPresent
  present := fun k hk => FieldTraits.present_setPresent (h.present k hk)
  preamble := by
    intro k hk
    have hne : k ≠ f.fnum := fun heq => hkept (heq ▸ hk)
    obtain ⟨v, hv⟩ := h.preamble k hk
    exact ⟨v, (OrdMap.get?_insert_of_ne hne).trans hv⟩
  fields := by
    intro k f' hf'
    have hins : (o.fields.insert f.fnum f).get? k = some f' := hf'
    rw [OrdMap.get?_insert] at hins
    split at hins
    · rename_i hk
      subst hk
      cases hold : o.fields.get? f.fnum with
      | some old =>
        rw [hold] at hins
        obtain rfl := Option.some.inj hins
        exact h.fields _ _ hold
      | none =>
        rw [hold] at hins
        obtain rfl := Option.some.inj hins
        exact ⟨rfl, .inr ⟨hid, hkept, (h.traits.tags _ hhas).resolve_left hkept⟩⟩
    · exact h.fields k f' hins
  legal := by
    intro k f' hf' hk
    have hins : (o.fields.insert f.fnum f).get? k = some f' := hf'
    rw [FieldStore.setPresent, FieldStore.addFieldDecoder, FieldTraits.has_setPresent]
    rw [OrdMap.get?_insert] at hins
    split at hins
    · rename_i heq
      exact heq ▸ hhas
    · exact h.legal k f' hins hk
  entries := by
    intro e he
    obtain rfl | he := Positions.mem_insert.1 he
    · exact .inr ⟨hid, hkept, (h.traits.tags _ hhas).resolve_left hkept⟩
    · exact h.entries e he

theorem PartOk.replace (h : PartOk kept o) (hid : f.id.call ≠ 0) (hkept : f.fnum ∉ kept) :
    PartOk kept (o.replace f.fnum f) := by
  unfold FieldStore.replace
  cases hold : o.fields.get? f.fnum with
  | none => exact h
  | some old =>
    obtain ⟨hfnum, howned⟩ := h.fields _ _ hold
    have hframe : f.fnum ∉ frameTags := by
      obtain ⟨-, hmem⟩ | ⟨-, -, hframe⟩ := howned
      · exact absurd (hfnum ▸ hmem) hkept
      · exact hfnum ▸ hframe
    have hf : Owned kept f := .inr ⟨hid, hkept, hframe⟩
    constructor
    · exact h.traits.setPresent
    · exact fun k hk => FieldTraits.present_setPresent (h.present k hk)
    · intro k hk
      have hne : k ≠ f.fnum := fun heq => hkept (heq ▸ hk)
      obtain ⟨v, hv⟩ := h.preamble k hk
      refine ⟨v, ?_⟩
      rw [OrdMap.get?_replace, if_neg hne]
      exact hv
    · intro k f' hf'
      rw [OrdMap.get?_replace] at hf'
      split at hf'
      · rename_i hk
        rw [hold] at hf'
        obtain rfl := Option.some.inj hf'
        exact ⟨hk.symm, hf⟩
      · exact h.fields k f' hf'
    · intro k f' hf' hk
      dsimp only
      rw [FieldTraits.has_setPresent]
      rw [OrdMap.get?_replace] at hf'
      split at hf'
      · rename_i heq
        exact heq ▸ h.legal _ _ hold hkept
      · exact h.legal k f' hf' hk
    · intro e he
      obtain rfl | he := Positions.mem_insert.1 he
      · exact hf
      · exact h.entries e (Positions.mem_erase he)

theorem PartOk.remove (h : PartOk kept o) (hkept : k ∉ kept) : PartOk kept (o.remove k) := by
  unfold FieldStore.remove
  cases hold : o.fields.get? k with
  | none => exact h
  | some old =>
    constructor
    · exact h.traits.clearPresent
    · intro k' hk' t ht
      have hne : k' ≠ k := fun heq => hkept (heq ▸ hk')
      rw [FieldTraits.find_clearPresent_of_ne hne] at ht
      exact h.present k' hk' t ht
    · intro k' hk'
      have hne : k' ≠ k := fun heq => hkept (heq ▸ hk')
      obtain ⟨v, hv⟩ := h.preamble k' hk'
      refine ⟨v, ?_⟩
      rw [OrdMap.get?_erase, if_neg hne]
      exact hv
    · intro k' f' hf'
      rw [OrdMap.get?_erase] at hf'
      split at hf'
      · exact absurd hf' (by simp)
      · exact h.fields k' f' hf'
    · intro k' f' hf' hk'
      dsimp only
      rw [FieldTraits.has_clearPresent]
      rw [OrdMap.get?_erase] at hf'
      split at hf'
      · exact absurd hf' (by simp)
      · exact h.legal k' f' hf' hk'
    · exact fun e he => h.entries e (Positions.mem_erase he)

theorem PartOk.assign {id : ObjId} {value : Value D} (h : PartOk kept o) :
    PartOk kept (o.assign id k value) := by
  unfold FieldStore.assign
  cases hold : o.fields.get? k with
  | none => exact h
  | some old =>
    dsimp only
    split
    · constructor
      · exact h.traits
      · exact h.present
      · intro k' hk'
        obtain ⟨v, hv⟩ := h.preamble k' hk'
        rw [OrdMap.get?_replace]
        split
        · rename_i hk
          subst hk
          rw [hold] at hv ⊢
          obtain rfl := Option.some.inj hv
          exact ⟨value, rfl⟩
        · exact ⟨v, hv⟩
      · intro k' f' hf'
        rw [OrdMap.get?_replace] at hf'
        split at hf'
        · rename_i hk
          subst hk
          rw [hold] at hf'
          obtain rfl := Option.some.inj hf'
          have howned := h.fields _ _ hold
          exact howned
        · exact h.fields k' f' hf'
      · intro k' f' hf' hk'
        rw [OrdMap.get?_replace] at hf'
        split at hf'
        · rename_i hk
          subst hk
          exact h.legal _ _ hold hk'
        · exact h.legal k' f' hf' hk'
      · intro e he
        obtain ⟨e', he', rfl⟩ := List.mem_map.1 he
        have howned := h.entries e' he'
        split <;> exact howned
    · exact h

theorem PartOk.addFieldAt (h : PartOk kept o) (hhas : o.fp.has f.fnum = true) (hid : f.id.call ≠ 0)
    (hkept : f.fnum ∉ kept) : PartOk kept (o.addFieldAt f.fnum pos f true) := by
  unfold FieldStore.addFieldAt
  split
  · exact h.replace hid hkept
  · exact h.add hhas hid hkept

/-! ## The header -/

/-- The positions begin with the preamble; behind it are later objects. -/
def Led (l : Positions D) : Prop := ∃ v₈ v₉ v₃₅ rest,
  l = (1, preambleField commonBeginString v₈) :: (2, preambleField commonBodyLength v₉) ::
    (3, preambleField commonMsgType v₃₅) :: rest ∧
  ∀ e ∈ rest, 3 < e.1 ∧ e.2.id.call ≠ 0

variable {l : Positions D} {old : ObjId}

theorem Led.insert (h : Led l) (hpos : 3 < pos) (hid : f.id.call ≠ 0) :
    Led (Positions.insert pos f l) := by
  obtain ⟨v₈, v₉, v₃₅, rest, rfl, hrest⟩ := h
  refine ⟨v₈, v₉, v₃₅, Positions.insert pos f rest, ?_, ?_⟩
  · rw [Positions.insert_cons_of_le (by dsimp only; omega),
      Positions.insert_cons_of_le (by dsimp only; omega),
      Positions.insert_cons_of_le (by dsimp only; omega)]
  · intro e he
    obtain rfl | he := Positions.mem_insert.1 he
    · exact ⟨hpos, hid⟩
    · exact hrest e he

theorem preambleId_ne (h : old.call ≠ 0) : preambleId k ≠ old := by
  rintro rfl
  exact h rfl

theorem Led.erase (h : Led l) (hid : old.call ≠ 0) : Led (Positions.erase old l) := by
  obtain ⟨v₈, v₉, v₃₅, rest, rfl, hrest⟩ := h
  refine ⟨v₈, v₉, v₃₅, Positions.erase old rest, ?_, fun e he => hrest e (Positions.mem_erase he)⟩
  rw [Positions.erase_cons_of_ne (preambleId_ne hid),
    Positions.erase_cons_of_ne (preambleId_ne hid), Positions.erase_cons_of_ne (preambleId_ne hid)]

/-- A later object is behind the preamble. -/
theorem Led.entryOf {e : Nat × BaseField D} (h : Led l) (hid : old.call ≠ 0)
    (he : Positions.entryOf old l = some e) : 3 < e.1 := by
  obtain ⟨v₈, v₉, v₃₅, rest, rfl, hrest⟩ := h
  rw [Positions.entryOf_cons_of_ne (preambleId_ne hid),
    Positions.entryOf_cons_of_ne (preambleId_ne hid),
    Positions.entryOf_cons_of_ne (preambleId_ne hid)] at he
  exact (hrest e (List.mem_of_find?_eq_some he)).1

theorem assign_preamble {id : ObjId} {v value : Value D} {n : Nat} :
    (if preambleId k = id then (n, { preambleField k v with value := value })
      else (n, preambleField k v)) =
      (n, preambleField k (if preambleId k = id then value else v)) := by
  split <;> rfl

theorem Led.assign {id : ObjId} {value : Value D} (h : Led l) :
    Led (l.map fun e => if e.2.id = id then (e.1, { e.2 with value := value }) else e) := by
  obtain ⟨v₈, v₉, v₃₅, rest, rfl, hrest⟩ := h
  refine ⟨if preambleId commonBeginString = id then value else v₈,
    if preambleId commonBodyLength = id then value else v₉,
    if preambleId commonMsgType = id then value else v₃₅,
    rest.map fun e => if e.2.id = id then (e.1, { e.2 with value := value }) else e, ?_, ?_⟩
  · rw [List.map_cons, List.map_cons, List.map_cons, ← assign_preamble, ← assign_preamble,
      ← assign_preamble]
    rfl
  · intro e he
    obtain ⟨e', he', rfl⟩ := List.mem_map.1 he
    have hlater := hrest e' he'
    split <;> exact hlater

/-- The containers of a header. -/
structure HeaderOk (cx : F8MetaCntx) (o : FieldStore D) : Prop where
  part : PartOk headerTags o
  beginStr : o.fields.get? commonBeginString =
    some (preambleField commonBeginString (.string cx.beginStr))
  led : Led o.pos
  positions : ∀ k, o.fp.has k = true → k ∉ headerTags → 3 < o.fp.getPos k

variable {cx : F8MetaCntx}

theorem HeaderOk.unknown {u : F8String} (h : HeaderOk cx o) :
    HeaderOk cx { o with unknown := u } :=
  ⟨h.part.unknown, h.beginStr, h.led, h.positions⟩

theorem commonBeginString_mem : commonBeginString ∈ headerTags := by decide

theorem HeaderOk.positions_setPresent (h : HeaderOk cx o) : ∀ k',
    (o.fp.setPresent k).has k' = true → k' ∉ headerTags → 3 < (o.fp.setPresent k).getPos k' := by
  intro k' hk'
  rw [FieldTraits.has_setPresent] at hk'
  rw [FieldTraits.getPos_setPresent]
  exact h.positions k' hk'

theorem HeaderOk.add (h : HeaderOk cx o) (hhas : o.fp.has f.fnum = true) (hid : f.id.call ≠ 0)
    (hkept : f.fnum ∉ headerTags) (hpos : 3 < pos) :
    HeaderOk cx ((o.addFieldDecoder f.fnum pos f).setPresent f.fnum) where
  part := h.part.add hhas hid hkept
  beginStr := by
    have hne : commonBeginString ≠ f.fnum := fun heq => hkept (heq ▸ commonBeginString_mem)
    exact (OrdMap.get?_insert_of_ne hne).trans h.beginStr
  led := h.led.insert hpos hid
  positions := h.positions_setPresent

theorem HeaderOk.replace (h : HeaderOk cx o) (hid : f.id.call ≠ 0) (hkept : f.fnum ∉ headerTags) :
    HeaderOk cx (o.replace f.fnum f) := by
  have hpart := h.part.replace hid hkept
  unfold FieldStore.replace at hpart ⊢
  cases hold : o.fields.get? f.fnum with
  | none => exact h
  | some old =>
    rw [hold] at hpart
    obtain ⟨hfnum, howned⟩ := h.part.fields _ _ hold
    have hcall : old.id.call ≠ 0 := howned.call_ne (hfnum ▸ hkept)
    constructor
    · exact hpart
    · have hne : commonBeginString ≠ f.fnum := fun heq => hkept (heq ▸ commonBeginString_mem)
      rw [OrdMap.get?_replace, if_neg hne]
      exact h.beginStr
    · apply Led.insert (h.led.erase hcall) _ hid
      cases hentry : Positions.entryOf old.id o.pos with
      | none => exact h.positions _ (h.part.legal _ _ hold hkept) hkept
      | some e => exact h.led.entryOf hcall hentry
    · exact h.positions_setPresent

theorem HeaderOk.remove (h : HeaderOk cx o) (hkept : k ∉ headerTags) :
    HeaderOk cx (o.remove k) := by
  have hpart := h.part.remove hkept
  unfold FieldStore.remove at hpart ⊢
  cases hold : o.fields.get? k with
  | none => exact h
  | some old =>
    rw [hold] at hpart
    obtain ⟨hfnum, howned⟩ := h.part.fields _ _ hold
    have hcall : old.id.call ≠ 0 := howned.call_ne (hfnum ▸ hkept)
    constructor
    · exact hpart
    · have hne : commonBeginString ≠ k := fun heq => hkept (heq ▸ commonBeginString_mem)
      rw [OrdMap.get?_erase, if_neg hne]
      exact h.beginStr
    · exact h.led.erase hcall
    · intro k' hk'
      rw [FieldTraits.has_clearPresent] at hk'
      rw [FieldTraits.getPos_clearPresent]
      exact h.positions k' hk'

theorem HeaderOk.assign {id : ObjId} {value : Value D} (h : HeaderOk cx o)
    (hbegin : k ≠ commonBeginString) : HeaderOk cx (o.assign id k value) := by
  have hpart : PartOk headerTags (o.assign id k value) := h.part.assign
  unfold FieldStore.assign at hpart ⊢
  cases hold : o.fields.get? k with
  | none => exact h
  | some old =>
    rw [hold] at hpart
    dsimp only at hpart ⊢
    split
    · rename_i hid
      rw [if_pos hid] at hpart
      constructor
      · exact hpart
      · rw [OrdMap.get?_replace, if_neg hbegin.symm]
        exact h.beginStr
      · exact h.led.assign
      · exact h.positions
    · exact h

end

end Fix8.Codec
