import Fix8.Codec.Proof.Fuel
import Fix8.Codec.Proof.Lockstep
import Fix8.Codec.Proof.Seqnum

/-!
# A length without its data

`decode` reads a value of fixed width behind every length field, and only then finds out whether a
data field stands there. A section is decoded beside itself with the length field typed int.

* `MessageBase.typedInt`: the section with the field typed int; `typedInt_turn`: what reads another
  field does not see the difference;
* `Cursor.SamePlace`: cursors with other tag buffers; `like_turn`: a turn from another buffer;
* `Ordinary`: the fixed width is read without harm; **`ordinary_iff`**: one length field;
* **`length_int_iff`**: a section decodes as with an int where its length field is ordinary, and the
  field is taken for an int only there.
-/

namespace Fix8.Codec

open Lib

/-! ## A field typed int -/

/-- The table with the field `k` typed int. -/
def FieldTraits.typedInt (k : Nat) (fp : FieldTraits) : FieldTraits :=
  fp.update k fun t => { t with ftype := .other }

section
variable {D : Type}

/-- `m` with a change of its own containers. -/
def MessageBase.mapOwn (g : FieldStore D → FieldStore D) (m : MessageBase D) : MessageBase D :=
  m.withOwn (g m.own)

def FieldStore.typedInt (k : Nat) (own : FieldStore D) : FieldStore D :=
  { own with fp := own.fp.typedInt k }

/-- The section with the field `k` typed int. -/
def MessageBase.typedInt (k : Nat) : MessageBase D → MessageBase D := .mapOwn (.typedInt k)

end

section
variable {fp : FieldTraits} {k tv : Nat}

theorem find_typedInt : (fp.typedInt k).find tv =
    (fp.find tv).map fun t => if t.fnum = k then { t with ftype := .other } else t :=
  FieldTraits.find_update fun _ => rfl

/-- The trait that a table with the field `k` typed int has for `itr`. -/
structure TypedInt (k : Nat) (itr itr' : FieldTrait) : Prop where
  present : itr'.present = itr.present
  automatic : itr'.automatic = itr.automatic
  group : itr'.group = itr.group
  ftype : itr'.ftype = if itr.fnum = k then .other else itr.ftype

theorem find_typedInt_some {itr : FieldTrait} (h : fp.find tv = some itr) :
    ∃ itr', (fp.typedInt k).find tv = some itr' ∧ TypedInt k itr itr' := by
  refine ⟨_, by rw [find_typedInt, h]; rfl, ?_⟩
  by_cases hk : itr.fnum = k <;> constructor <;> simp [hk]

theorem find_typedInt_none (h : fp.find tv = none) : (fp.typedInt k).find tv = none := by
  rw [find_typedInt, h]
  rfl

theorem find_of_typedInt (h : (fp.typedInt k).find tv = none) : fp.find tv = none := by
  cases hfind : fp.find tv with
  | none => rfl
  | some itr =>
    obtain ⟨itr', hitr', -⟩ := find_typedInt_some (k := k) hfind
    exact nomatch h.symm.trans hitr'

theorem typedInt_setPresent : (fp.typedInt k).setPresent tv = (fp.setPresent tv).typedInt k := by
  simp only [FieldTraits.typedInt, FieldTraits.setPresent, FieldTraits.update, List.map_map]
  refine List.map_congr_left fun t _ => ?_
  by_cases h1 : t.fnum = k <;> by_cases h2 : t.fnum = tv <;> simp [h1, h2] <;> split <;> simp_all

theorem findMissing_typedInt : (fp.typedInt k).findMissing = fp.findMissing := by
  unfold FieldTraits.findMissing FieldTraits.typedInt FieldTraits.update
  induction fp with
  | nil => rfl
  | cons t fp ih =>
    simp only [List.map_cons, List.find?_cons]
    by_cases h : t.fnum = k
    · simp only [h, if_true]
      split
      · exact h.symm
      · exact ih
    · simp only [h, if_false]
      split
      · rfl
      · exact ih

end

/-! ## What does not see the difference -/

section
variable {D : Type} {d : Feed} {m m' : MessageBase D} {g : FieldStore D → FieldStore D}

theorem commutes_findAddGroup {classes : List GroupClass} {fnum : Nat} :
    Act.Commutes (MessageBase.mapOwn g) (MessageBase.findAddGroup classes fnum) := by
  intro m
  have hgroup : ∀ n, (m.mapOwn g).findGroup n = m.findGroup n := fun _ => rfl
  unfold MessageBase.findAddGroup
  rw [hgroup]
  cases m.findGroup fnum with
  | some gb => rfl
  | none =>
    cases createNestedGroup classes fnum with
    | none => rfl
    | some c =>
      dsimp only [Res.mapState_ok]
      unfold MessageBase.addGroup
      rw [hgroup]
      split <;> rfl

variable [FpType D]

theorem commutes_decodeGroup {fuel fnum o : Nat} {classes : List GroupClass} :
    Act.Commutes (MessageBase.mapOwn g) (decodeGroup d fuel classes fnum o) := by
  cases fuel with
  | zero => exact Act.commutes_throw _
  | succ fuel =>
    unfold decodeGroup
    refine Act.commutes_bind commutes_findAddGroup fun c => Act.commutes_loop (fun o => ?_) _ _
    unfold elementTurn
    refine Act.commutes_ite (Act.commutes_bind Act.commutes_onLocal fun p => ?_)
      (Act.commutes_pure _)
    exact Act.commutes_bind (Act.commutes_modify fun _ => rfl) fun _ => Act.commutes_pure _

omit [FpType D] in
theorem typedInt_store {k tv pos : Nat} {bf : BaseField D} :
    (m.typedInt k).store tv pos bf = (m.store tv pos bf).typedInt k := by
  have hfp : (m.own.fp.typedInt k).setPresent tv = (m.own.fp.setPresent tv).typedInt k :=
    typedInt_setPresent
  exact congrArg (fun fp => m.withOwn
    { m.own.addFieldDecoder tv pos bf with fp := fp }) hfp

/-- Of its trait a field that is stored only needs the group bit. -/
theorem storeField_congr {fuel tv start : Nat} {itr itr' : FieldTrait} {val : F8String}
    {c : Cursor} (h : itr'.group = itr.group) :
    storeField (D := D) d fuel itr' tv start val c = storeField d fuel itr tv start val c := by
  unfold storeField
  rw [h]

theorem commutes_storeField {k fuel tv start : Nat} {itr : FieldTrait} {val : F8String}
    {c : Cursor} : Act.Commutes (MessageBase.typedInt (D := D) k)
      (storeField d fuel itr tv start val c) := by
  unfold storeField
  cases d.cx.findBe tv with
  | none => exact Act.commutes_throw _
  | some be =>
    refine Act.commutes_bind (Act.commutes_modify fun m => typedInt_store) fun _ => ?_
    refine Act.commutes_ite (fun m => ?_) (Act.commutes_pure _)
    exact Act.commutes_bind commutes_decodeGroup (fun _ => Act.commutes_pure _) m

omit [FpType D] in
theorem commutes_unknownField {k result : Nat} {permissive : Bool} {c : Cursor} :
    Act.Commutes (MessageBase.typedInt (D := D) k) (unknownField d permissive c result) := by
  unfold unknownField
  exact Act.commutes_ite
    (Act.commutes_bind (Act.commutes_modify fun _ => rfl) fun _ => Act.commutes_pure _)
    (Act.commutes_pure _)

/-- The type of the field `k`, where the table has it, satisfies `P`. -/
def Typed (P : FieldType → Prop) (k : Nat) (own : FieldStore D) : Prop :=
  ∀ itr, own.fp.find k = some itr → P itr.ftype

/-- The field `k` is a length where the table has it. -/
def LengthTyped (k : Nat) (m : MessageBase D) : Prop := Typed (· = .length) k m.own

/-- The data field behind another length field. -/
theorem typedInt_decodeData {k fuel lasttv : Nat} {permissive : Bool} {length : F8String}
    {c : Cursor} (hk : LengthTyped k m) :
    decodeData d permissive fuel lasttv length c (m.typedInt k) =
      (decodeData d permissive fuel lasttv length c m).mapState (MessageBase.typedInt k) := by
  unfold decodeData
  dsimp only
  split
  · rfl
  · cases extractElementFixedWidth (fastAtoiU32 length) (d.rest c.sOffset) with
    | none => rfl
    | some e =>
      dsimp only
      cases bufferText (overwrite (overwrite c.tag [0]) e.tag) with
      | none => rfl
      | some tag =>
        dsimp only
        rw [Act.get_bind_apply, Act.get_bind_apply]
        cases hitr : m.own.fp.find (fastAtoiU16 tag) with
        | none =>
          have hfind : (m.typedInt k).own.fp.find (fastAtoiU16 tag) = none :=
            find_typedInt_none hitr
          rw [hfind]
          exact commutes_unknownField m
        | some itr =>
          obtain ⟨itr', hitr', -, -, hgroup, htype⟩ := find_typedInt_some (k := k) hitr
          have hfind : (m.typedInt k).own.fp.find (fastAtoiU16 tag) = some itr' := hitr'
          rw [hfind]
          have hdata : itr'.ftype ≠ .data ↔ itr.ftype ≠ .data := by
            rw [htype]
            split
            · rename_i htag
              -- the length field itself is no data field
              rw [hk itr (by rw [← htag, FieldTraits.find_fnum hitr]; exact hitr)]
              simp
            · rfl
          simp only [hdata]
          split
          · rfl
          · rw [storeField_congr hgroup]
            exact Act.commutes_bind commutes_storeField (fun _ => Act.commutes_pure _) m

/-! ## Another tag buffer -/

/-- The cursors stand at the same place; the tag buffers may differ. -/
def Cursor.SamePlace (c c' : Cursor) : Prop := ∃ buf, c' = { c with tag := buf }

theorem samePlace_refl (c : Cursor) : c.SamePlace c := ⟨c.tag, rfl⟩

theorem Cursor.SamePlace.symm {c c' : Cursor} (h : c.SamePlace c') : c'.SamePlace c := by
  obtain ⟨buf, rfl⟩ := h
  exact ⟨c.tag, rfl⟩

/-- The turns go on from the same place, or end there. -/
abbrev SameTurn : Cursor ⊕ Cursor → Cursor ⊕ Cursor → Prop :=
  Sum.LiftRel Cursor.SamePlace Cursor.SamePlace

/-- To store a field the tag buffer is not needed. -/
theorem like_storeField {fuel tv start : Nat} {itr : FieldTrait} {val t : F8String} {c : Cursor} :
    Res.Like id (fun _ c₁ c₁' => c₁' = { c₁ with tag := t })
      (storeField (D := D) d fuel itr tv start val c m)
      (storeField d fuel itr tv start val { c with tag := t } m) := by
  unfold storeField
  cases d.cx.findBe tv with
  | none => exact .throw
  | some be =>
    dsimp only
    rw [Act.modify_bind_apply, Act.modify_bind_apply]
    split
    · rw [Act.get_bind_apply, Act.get_bind_apply]
      refine Act.like_bind (R := fun _ o o' => o' = o) ?_ ?_
      · generalize decodeGroup (D := D) d fuel _ tv c.sOffset _ = r
        cases r with
        | ok o s => exact .ok rfl
        | throw e s => exact .throw
      · intro s o o' ho
        subst ho
        exact .ok rfl
    · exact .ok rfl

omit [FpType D] in
theorem like_unknownField {permissive : Bool} {result : Nat} {c c' : Cursor}
    (h : c.SamePlace c') : Res.Like id (fun _ => SameTurn) (unknownField d permissive c result m)
      (unknownField d permissive c' result m) := by
  obtain ⟨buf, rfl⟩ := h
  unfold unknownField
  cases permissive with
  | false => exact .ok (.inr ⟨buf, rfl⟩)
  | true => exact .ok (.inl ⟨buf, rfl⟩)

/-- The number that a turn reads from the buffer behind a length field. -/
def Cursor.number (c : Cursor) (e : Element) : Option Nat :=
  (bufferText (c.looked e).tag).map fastAtoiU16

/-- Behind the length field 383 the tag 58 is read as 583. -/
example : Cursor.number ⟨6, 1, none, ascii "383" ++ [0]⟩ ⟨ascii "58", ascii "read", 8⟩ = some 583 := by
  decide +kernel

/-- The data field behind a length field, where the buffers hold the same number. -/
theorem like_decodeData {fuel lasttv : Nat} {permissive : Bool} {length : F8String} {c c' : Cursor}
    (hc : c.SamePlace c') (h : ∀ e, extractElementFixedWidth (fastAtoiU32 length) (d.rest c.sOffset) =
      some e → c.number e = c'.number e) :
    Res.Like id (fun _ => SameTurn) (decodeData d permissive fuel lasttv length c m)
      (decodeData d permissive fuel lasttv length c' m) := by
  obtain ⟨buf, rfl⟩ := hc
  unfold decodeData
  dsimp only
  split
  · exact .throw
  · cases he : extractElementFixedWidth (fastAtoiU32 length) (d.rest c.sOffset) with
    | none => exact .throw
    | some e =>
      have hnumber := h e he
      unfold Cursor.number Cursor.looked at hnumber
      dsimp only at hnumber ⊢
      cases htext : bufferText (overwrite (overwrite c.tag [0]) e.tag) with
      | none =>
        cases htext' : bufferText (overwrite (overwrite buf [0]) e.tag) with
        | none => exact .throw
        | some tag' => simp [htext, htext'] at hnumber
      | some tag =>
        cases htext' : bufferText (overwrite (overwrite buf [0]) e.tag) with
        | none => simp [htext, htext'] at hnumber
        | some tag' =>
          rw [htext, htext'] at hnumber
          have hnumber : fastAtoiU16 tag = fastAtoiU16 tag' := Option.some.inj hnumber
          dsimp only
          rw [← hnumber, Act.get_bind_apply, Act.get_bind_apply]
          cases m.own.fp.find (fastAtoiU16 tag) with
          | none => exact like_unknownField ⟨_, rfl⟩
          | some itr =>
            dsimp only
            split
            · exact .ok (.inl ⟨_, rfl⟩)
            · refine Act.like_bind (R := fun _ => Cursor.SamePlace) ?_ fun s c₁ c₁' hc₁ => .ok (.inl hc₁)
              exact like_storeField.mono fun s c₁ c₁' hc₁ => ⟨_, hc₁⟩

/-! ## Reading a length field -/

/-- A turn reads the length field `k` as the element `e` and stores it; `c'` is behind it. -/
structure LengthRead (d : Feed) (fuel k : Nat) (c : Cursor) (m : MessageBase D) (e : Element)
    (c' : Cursor) (m' : MessageBase D) : Prop where
  element : extractElement (d.rest c.sOffset) = some e
  tag : fastAtoiU16 e.tag = k
  stored : ∃ itr, m.own.fp.find k = some itr ∧ itr.present = false ∧ itr.ftype = .length ∧
    storeField d fuel itr k c.sOffset e.val (c.behind e) m = .ok c' m'

variable {k fuel : Nat} {permissive : Bool} {c c' : Cursor} {e : Element}

/-- What a turn that has stored a length field goes on to, as a length and as an int. -/
theorem LengthRead.turn (h : LengthRead d fuel k c m e c' m') (hk : k ≠ commonBodyLength) :
    decodeTurn d permissive fuel c m = decodeData d permissive fuel k e.val c' m' ∧
      decodeTurn d permissive fuel c (m.typedInt k) = .ok (.inl c') (m'.typedInt k) := by
  obtain ⟨he, rfl, itr, hitr, hpresent, htype, hstore⟩ := h
  obtain ⟨itr', hitr', hpresent', -, hgroup, htype'⟩ :=
    find_typedInt_some (k := fastAtoiU16 e.tag) hitr
  rw [if_pos (FieldTraits.find_fnum hitr)] at htype'
  constructor
  · rw [decodeTurn_absent he hitr hpresent, Act.bind_ok hstore, if_neg (by simp [htype, hk])]
  · have hstore' : storeField d fuel itr' (fastAtoiU16 e.tag) c.sOffset e.val
        (c.behind e) (m.typedInt (fastAtoiU16 e.tag)) =
        .ok c' (m'.typedInt (fastAtoiU16 e.tag)) := by
      rw [storeField_congr hgroup, commutes_storeField, hstore]
      rfl
    have hfind : (m.typedInt (fastAtoiU16 e.tag)).own.fp.find (fastAtoiU16 e.tag) = some itr' :=
      hitr'
    rw [decodeTurn_absent he hfind (hpresent'.trans hpresent), Act.bind_ok hstore',
      if_pos (.inl (by simp [htype']))]
    rfl

omit [FpType D] in
/-- Types do not change. -/
theorem typed_store {P : FieldType → Prop} {own : FieldStore D} {tv pos : Nat} {bf : BaseField D}
    (hk : Typed P k own) : Typed P k ((own.addFieldDecoder tv pos bf).setPresent tv) := by
  intro t ht
  have ht : (own.fp.setPresent tv).find k = some t := ht
  rw [FieldTraits.find_setPresent] at ht
  obtain ⟨t', ht', rfl⟩ := Option.map_eq_some_iff.1 ht
  have htype := hk t' ht'
  split <;> exact htype

theorem typed_stored {P : FieldType → Prop} {itr : FieldTrait} {tv start : Nat} {val : F8String}
    (hk : Typed P k m.own) (h : storeField d fuel itr tv start val c m = .ok c' m') :
    Typed P k m'.own := by
  cases storeField_ok h with
  | field be => exact typed_store hk
  | group be sOffset _ _ _ hgroup =>
    have hown : m'.own = (m.store tv (c.pos + 1) (d.createField be tv start val)).own := by
      have hkeep : (decodeGroup d fuel m.nested tv c.sOffset
        (m.store tv (c.pos + 1) (d.createField be tv start val))).state.own = _ :=
        keeps_decodeGroup _
      rwa [hgroup] at hkeep
    rw [hown]
    exact typed_store hk

/-- A turn that does not store a length field under `k` does the same with `k` typed int. -/
theorem typedInt_turn (hk : LengthTyped k m)
    (h : ∀ e c' m', ¬ LengthRead d fuel k c m e c' m') :
    decodeTurn d permissive fuel c (m.typedInt k) =
      (decodeTurn d permissive fuel c m).mapState (MessageBase.typedInt k) := by
  cases he : extractElement (d.rest c.sOffset) with
  | none =>
    unfold decodeTurn
    rw [he]
    rfl
  | some e =>
    cases hitr : m.own.fp.find (fastAtoiU16 e.tag) with
    | none =>
      have hfind : (m.typedInt k).own.fp.find (fastAtoiU16 e.tag) = none := find_typedInt_none hitr
      unfold decodeTurn
      rw [he]
      dsimp only
      rw [Act.get_bind_apply, Act.get_bind_apply, hitr, hfind]
      exact commutes_unknownField m
    | some itr =>
      obtain ⟨itr', hitr', hpresent', hauto, hgroup, htype⟩ := find_typedInt_some (k := k) hitr
      have hfind : (m.typedInt k).own.fp.find (fastAtoiU16 e.tag) = some itr' := hitr'
      cases hpresent : itr.present with
      | true =>
        unfold decodeTurn
        rw [he]
        dsimp only
        rw [Act.get_bind_apply, Act.get_bind_apply, hitr, hfind]
        dsimp only
        rw [hpresent', hpresent, hauto, if_pos rfl, if_pos rfl]
        split <;> rfl
      | false =>
        rw [decodeTurn_absent he hitr hpresent,
          decodeTurn_absent he hfind (hpresent'.trans hpresent), storeField_congr hgroup,
          Act.bind_apply, Act.bind_apply, commutes_storeField]
        cases hstore : storeField d fuel itr (fastAtoiU16 e.tag) c.sOffset e.val (c.behind e) m with
        | throw x m' => rfl
        | ok c' m' =>
          simp only [Res.mapState_ok]
          have hsame : itr'.ftype = itr.ftype := by
            rw [htype]
            refine if_neg fun htag => ?_
            obtain rfl : fastAtoiU16 e.tag = k := (FieldTraits.find_fnum hitr).symm.trans htag
            exact h e c' m' ⟨he, rfl, itr, hitr, hpresent, hk itr hitr, hstore⟩
          rw [hsame]
          split
          · rfl
          · exact typedInt_decodeData (typed_stored hk hstore)

/-! ## What is behind the length field -/

/-- The tag that is read at the beginning of the text. -/
def nextTag (s : F8String) : Option F8String := (extractElementFixedWidth 0 s).map (·.tag)

/-- The data field of the length field `k` stands at `o`. -/
def DataFollows (d : Feed) (k : Nat) (fp : FieldTraits) (o : Nat) : Prop :=
  ∃ tag itr, nextTag (d.rest o) = some tag ∧ fastAtoiU16 tag = k + 1 ∧ fp.find (k + 1) = some itr ∧
    itr.ftype = .data

/-- From `o` on, elements that are not of the section take up `n` bytes. -/
inductive UnknownSpan (d : Feed) (fp : FieldTraits) : Nat → Nat → Prop where
  | last {o : Nat} {e : Element} (h : extractElement (d.rest o) = some e)
      (hu : fp.find (fastAtoiU16 e.tag) = none) : UnknownSpan d fp o e.result
  | more {o n : Nat} {e : Element} (h : extractElement (d.rest o) = some e)
      (hu : fp.find (fastAtoiU16 e.tag) = none) (hn : UnknownSpan d fp (o + e.result) n) :
      UnknownSpan d fp o (e.result + n)

/-- No element of the section can be read at `o`. -/
def Stops (d : Feed) (fp : FieldTraits) (o : Nat) : Prop :=
  ∀ e, extractElement (d.rest o) = some e → fp.find (fastAtoiU16 e.tag) = none

/-- What a turn does with the number `tv` that it reads from the buffer behind the length field `k`
is what a decode does that begins at `o`, where the value `e` of fixed width was read. -/
inductive Harmless (d : Feed) (permissive : Bool) (fp : FieldTraits) (k o : Nat) (e : Element)
    (tv : Nat) : Prop where
  /-- A field of the section, not the data field: what was read is left. -/
  | known (itr : FieldTrait) (hitr : fp.find tv = some itr)
      (hother : itr.ftype ≠ .data ∨ k + 1 ≠ tv) : Harmless d permissive fp k o e tv
  /-- A strict decode ends. -/
  | strict (hstrict : permissive = false) (hnone : fp.find tv = none) (hstops : Stops d fp o) :
      Harmless d permissive fp k o e tv
  /-- A permissive one puts what was read aside: elements that it would put aside anyway. -/
  | permissive (hpermissive : permissive = true) (hnone : fp.find tv = none)
      (hspan : UnknownSpan d fp o e.result) : Harmless d permissive fp k o e tv

/-- The length `val` is read without harm with the cursor `c` behind it: it is small enough, there
are as many bytes under a tag, and the number in the buffer is harmless. -/
def Ordinary (d : Feed) (permissive : Bool) (fp : FieldTraits) (k : Nat) (val : F8String)
    (c : Cursor) : Prop :=
  fastAtoiU32 val ≤ maxFldLength - 1 ∧
    ∃ e tv, extractElementFixedWidth (fastAtoiU32 val) (d.rest c.sOffset) = some e ∧
      c.number e = some tv ∧ Harmless d permissive fp k c.sOffset e tv

/-- The turn that reads the field does what a decode with `k` typed int does: it throws nothing,
stores one field, and comes to where that decode comes to. -/
structure TakenAsInt (d : Feed) (permissive : Bool) (fuel k : Nat) (c : Cursor)
    (m : MessageBase D) : Prop where
  one : ∀ c₁ m₁, decodeTurn d permissive fuel c m = .ok (.inl c₁) m₁ → c₁.pos = c.pos + 1
  passes : ∃ r r' m₁, decodeTurn d permissive fuel c m = .ok r m₁ ∧ SameTurn r r' ∧
    Act.Passes (decodeTurn d permissive fuel) c (m.typedInt k) (.ok r' (m₁.typedInt k))

theorem element_tag {s : F8String} {e e' : Element} {valSz : Nat} (h : extractElement s = some e)
    (h' : extractElementFixedWidth valSz s = some e') : e'.tag = e.tag := by
  obtain ⟨hdigit, -, -, rest, hrest⟩ := extractElement_some h
  obtain ⟨hdigit', -, -, rest', hrest'⟩ := extractElementFixedWidth_some h'
  exact tag_eq hdigit' hdigit (hrest'.symm.trans hrest)

theorem bytes_add (o a b : Nat) : d.bytes o (a + b) = d.bytes o a ++ d.bytes (o + a) b := by
  rw [Feed.bytes, Feed.bytes, Feed.bytes, List.take_add, List.drop_drop]

theorem UnknownSpan.congr {fp fp' : FieldTraits} {o n : Nat} (h : UnknownSpan d fp o n)
    (hfp : ∀ tv, fp.find tv = none → fp'.find tv = none) : UnknownSpan d fp' o n := by
  induction h with
  | last h hu => exact .last h (hfp _ hu)
  | more h hu _ ih => exact .more h (hfp _ hu) ih

/-- A permissive decode puts a span of unknown elements aside. -/
theorem UnknownSpan.passes (fuel : Nat) {o n : Nat} (h : UnknownSpan d m.own.fp o n) (hc : c.sOffset = o) :
    ∃ c', Cursor.SamePlace
        { c with sOffset := o + n, last := c.last.or (some (c.pos, o)) } c' ∧
      Act.Passes (decodeTurn d true fuel) c m (.ok (.inl c')
        (m.withOwn { m.own with unknown := m.own.unknown ++ d.bytes o n })) := by
  generalize hfp : m.own.fp = fp at h
  induction h generalizing c m with
  | last h hu =>
    subst hc hfp
    exact ⟨_, ⟨_, rfl⟩, .turn (decodeTurn_unknown h hu)⟩
  | @more _ n e h hu _ ih =>
    subst hc hfp
    obtain ⟨c', ⟨buf, rfl⟩, hpass⟩ := ih (c := { c.read e with
        sOffset := c.sOffset + e.result, last := c.last.or (some (c.pos, c.sOffset)) })
      (m := m.withOwn { m.own with unknown := m.own.unknown ++ d.bytes c.sOffset e.result }) rfl rfl
    refine ⟨_, ⟨buf, rfl⟩, .next (decodeTurn_unknown h hu) ?_⟩
    simp only [Cursor.read, Option.or_assoc, Option.some_or, MessageBase.own_withOwn,
      List.append_assoc, ← bytes_add, Nat.add_assoc] at hpass
    exact hpass

/-- What a turn of a permissive decode that goes on does to the position, and to the bytes put aside
where the position stays. -/
theorem permissive_turn (h : decodeTurn d true fuel c m = .ok (.inl c') m') :
    c.pos < c'.pos ∨ ∃ e, extractElement (d.rest c.sOffset) = some e ∧ c'.pos = c.pos ∧
      c'.sOffset = c.sOffset + e.result ∧ m'.own.fp = m.own.fp ∧
      (m'.own.unknown.length = m.own.unknown.length ∨ (m.own.fp.find (fastAtoiU16 e.tag) = none ∧
        m'.own.unknown.length = m.own.unknown.length + e.result)) := by
  generalize hr : Sum.inl c' = r at h
  cases decodeTurn_ok h with
  | ended => cases hr
  | unknown e _ _ he hitr hunknown =>
    obtain ⟨rfl, hbytes⟩ := unknownField_permissive hunknown
    cases hr
    refine .inr ⟨e, he, rfl, rfl, ?_, .inr ⟨hitr, ?_⟩⟩
    · cases hunknown
      rfl
    · rw [hbytes, List.length_append, Cursor.read_sOffset, length_bytes (result_le (.inl he)).2]
  | skipped e itr he =>
    cases hr
    exact .inr ⟨e, he, rfl, rfl, rfl, .inl rfl⟩
  | field e itr c₁ _ _ _ _ hs =>
    cases hr
    have hpos := hs.pos
    rw [Cursor.behind_pos] at hpos
    exact .inl (by omega)
  | length e itr c₁ m₁ _ _ _ _ _ hs _ _ _ hdata =>
    have hpos := hs.pos
    rw [Cursor.behind_pos] at hpos
    subst hr
    refine .inl ?_
    cases hdata with
    | unknown e' _ _ _ _ _ _ hunknown =>
      obtain ⟨hc, -⟩ := unknownField_permissive hunknown
      cases hc
      rw [Cursor.looked_pos]
      omega
    | other =>
      rw [Cursor.looked_pos]
      omega
    | data e' _ itr' _ _ _ _ _ _ _ hs' =>
      have hpos' := hs'.pos
      rw [Cursor.looked_pos] at hpos'
      omega

/-- Where a permissive decode comes to without storing a field, and with all the bytes between put
aside, it has passed over unknown elements. -/
theorem passes_span {r : Res (MessageBase D) Stop (Cursor ⊕ Cursor)}
    (h : Act.Passes (decodeTurn d true fuel) c m r) (hr : r = .ok (.inl c') m') :
    c.pos ≤ c'.pos ∧ (c'.pos ≤ c.pos → c.sOffset < c'.sOffset ∧
      c.sOffset + m'.own.unknown.length ≤ c'.sOffset + m.own.unknown.length ∧
      (c.sOffset + m'.own.unknown.length = c'.sOffset + m.own.unknown.length →
        UnknownSpan d m.own.fp c.sOffset (c'.sOffset - c.sOffset))) := by
  induction h with
  | turn h =>
    subst hr
    rcases permissive_turn h with hpos | ⟨e, he, hpos, hoff, -, hlen⟩
    · exact ⟨hpos.le, fun hle => by omega⟩
    · have h2 := (result_le (.inl he)).1
      refine ⟨hpos.ge, fun _ => ?_⟩
      rcases hlen with hlen | ⟨hitr, hlen⟩
      · exact ⟨by omega, by omega, fun heq => by omega⟩
      · refine ⟨by omega, by omega, fun _ => ?_⟩
        rw [hoff, Nat.add_sub_cancel_left]
        exact .last he hitr
  | @next c m c₁ m₁ _ h _ ih =>
    obtain ⟨ihpos, ih⟩ := ih hr
    rcases permissive_turn h with hpos | ⟨e, he, hpos, hoff, hfp, hlen⟩
    · exact ⟨hpos.le.trans ihpos, fun hle => by omega⟩
    · have h2 := (result_le (.inl he)).1
      refine ⟨hpos ▸ ihpos, fun hle => ?_⟩
      obtain ⟨ihlt, ihle, ihspan⟩ := ih (hpos ▸ hle)
      rcases hlen with hlen | ⟨hitr, hlen⟩
      · exact ⟨by omega, by omega, fun heq => by omega⟩
      · refine ⟨by omega, by omega, fun heq => ?_⟩
        have hspan := ihspan (by omega)
        rw [hfp, hoff] at hspan
        have hmore := UnknownSpan.more he hitr hspan
        have hn : e.result + (c'.sOffset - (c.sOffset + e.result)) = c'.sOffset - c.sOffset := by
          omega
        rwa [hn] at hmore

/-! ## One length field -/

/-- The cursors stand at the same place, and where a strict decode goes on, the next element makes
them equal. -/
structure Beside (d : Feed) (permissive : Bool) (c c' : Cursor) : Prop where
  place : c.SamePlace c'
  next : permissive = false → ∀ e, extractElement (d.rest c.sOffset) = some e → c'.read e = c.read e

omit [FpType D] in
theorem beside_refl (c : Cursor) : Beside d permissive c c := ⟨⟨_, rfl⟩, fun _ _ _ => rfl⟩

theorem storeField_retag {tv start : Nat} {itr : FieldTrait} {val t : F8String}
    (h : storeField d fuel itr tv start val c m = .ok c' m') :
    storeField d fuel itr tv start val { c with tag := t } m = .ok { c' with tag := t } m' := by
  have hlike : Res.Like id (fun _ c₁ c₁' => c₁' = { c₁ with tag := t })
      (storeField d fuel itr tv start val c m) (storeField d fuel itr tv start val { c with tag := t } m) :=
    like_storeField
  rw [h] at hlike
  generalize storeField d fuel itr tv start val { c with tag := t } m = r at hlike
  cases hlike with
  | ok h => exact congrArg (fun c => Res.ok c m') h

theorem LengthRead.retag {c₁ : Cursor} (h : LengthRead d fuel k c m e c' m') (hc : c.SamePlace c₁) :
    LengthRead d fuel k c₁ m e { c' with tag := (c₁.read e).tag } m' := by
  obtain ⟨buf, rfl⟩ := hc
  obtain ⟨he, htag, itr, hitr, hpresent, htype, hstore⟩ := h
  exact ⟨he, htag, itr, hitr, hpresent, htype, storeField_retag hstore⟩

theorem LengthRead.read_tag (h : LengthRead d fuel k c m e c' m') : c'.tag = (c.read e).tag := by
  obtain ⟨-, -, itr, -, -, -, hstore⟩ := h
  exact (storeField_ok hstore).tag

theorem LengthRead.pos (h : LengthRead d fuel k c m e c' m') : c'.pos = c.pos + 1 := by
  obtain ⟨-, -, itr, -, -, -, hstore⟩ := h
  exact (storeField_ok hstore).pos

/-- A strict decode ends where it stops. -/
theorem Stops.turn (fuel : Nat) (h : Stops d m.own.fp c.sOffset) :
    ∃ c', c.SamePlace c' ∧ decodeTurn d false fuel c m = .ok (.inr c') m := by
  cases he : extractElement (d.rest c.sOffset) with
  | none =>
    refine ⟨c, ⟨_, rfl⟩, ?_⟩
    unfold decodeTurn
    rw [he]
    rfl
  | some e => exact ⟨c.read e, ⟨_, rfl⟩, decodeTurn_unknown he (h e he)⟩

/-- What an ordinary length field makes the turn do, and a decode that has it typed int and stands
beside. -/
theorem ordinary_turn {c₀ : Cursor} (hk : k ≠ commonBodyLength)
    (h : LengthRead d fuel k c m e c' m') (hord : Ordinary d permissive m'.own.fp k e.val c')
    (hc : Beside d permissive c c₀) :
    ∃ r r' m₁, decodeTurn d permissive fuel c m = .ok r m₁ ∧ (∀ c₁, r = .inl c₁ → c₁.pos = c'.pos) ∧
      Sum.LiftRel (Beside d permissive) Cursor.SamePlace r r' ∧
      Act.Passes (decodeTurn d permissive fuel) c₀ (m.typedInt k) (.ok r' (m₁.typedInt k)) := by
  have hint : decodeTurn d permissive fuel c₀ (m.typedInt k) = _ := ((h.retag hc.place).turn hk).2
  rw [(h.turn hk).1]
  obtain ⟨hsize, e', tv, he', hnumber, hharm⟩ := hord
  obtain ⟨tag, htext, rfl⟩ := Option.map_eq_some_iff.1 hnumber
  unfold Cursor.looked at htext
  dsimp only at htext
  unfold decodeData
  dsimp only
  rw [if_neg (Nat.not_lt.2 hsize), he']
  dsimp only
  rw [htext]
  dsimp only
  rw [Act.get_bind_apply]
  cases hharm with
  | known itr hitr hother =>
    rw [hitr]
    dsimp only
    rw [if_pos hother]
    refine ⟨_, _, _, rfl, ?_, .inl ⟨⟨_, rfl⟩, fun hp e₁ he₁ => ?_⟩, .turn hint⟩
    · intro c₁ hc₁
      cases hc₁
      rfl
    · -- what was looked at is what is read next
      have hlooked : (c'.looked e').read e₁ = c'.read e₁ := Cursor.looked_read (element_tag he₁ he')
      have htag : (c₀.read e).tag = c'.tag := by
        rw [h.read_tag, hc.next hp e h.element]
      rw [htag]
      exact hlooked.symm
  | strict hstrict hnone hstops =>
    subst hstrict
    rw [hnone]
    obtain ⟨c₁, ⟨buf, rfl⟩, hturn⟩ := Stops.turn fuel (m := m'.typedInt k)
      (c := { c' with tag := (c₀.read e).tag }) fun e₁ he₁ => find_typedInt_none (hstops e₁ he₁)
    exact ⟨_, _, _, rfl, nofun, .inr ⟨buf, rfl⟩, .next hint (.turn hturn)⟩
  | permissive hpermissive hnone hspan =>
    subst hpermissive
    rw [hnone]
    obtain ⟨c₁, hplace, hpass⟩ := UnknownSpan.passes fuel (m := m'.typedInt k)
      (c := { c' with tag := (c₀.read e).tag }) (hspan.congr fun _ => find_typedInt_none) rfl
    obtain ⟨buf, rfl⟩ := hplace
    refine ⟨_, _, _, rfl, ?_, .inl ⟨⟨buf, rfl⟩, nofun⟩, .next hint hpass⟩
    intro c₁ hc₁
    cases hc₁
    rfl

/-- Where a strict decode ends it has not gone back. -/
theorem strict_passes {r : Res (MessageBase D) Stop (Cursor ⊕ Cursor)}
    (h : Act.Passes (decodeTurn d false fuel) c m r) (hr : r = .ok (.inr c') m') :
    c.sOffset ≤ c'.sOffset ∧ (c'.sOffset ≤ c.sOffset → Stops d m.own.fp c.sOffset) := by
  induction h with
  | turn h =>
    subst hr
    generalize hr : Sum.inr c' = r at h
    cases decodeTurn_ok h with
    | ended he =>
      cases hr
      exact ⟨le_refl _, fun _ e₁ he₁ => nomatch he.symm.trans he₁⟩
    | unknown e₀ _ _ he hitr hunknown =>
      obtain ⟨rfl, -⟩ := unknownField_strict hunknown
      cases hr
      refine ⟨le_refl _, fun _ e₁ he₁ => ?_⟩
      obtain rfl := Option.some.inj (he.symm.trans he₁)
      exact hitr
    | skipped => cases hr
    | field => cases hr
    | length e₀ itr c₁ m₁ _ _ he _ _ hs _ _ _ hdata =>
      subst hr
      have hle := (consumed_stored hs).1.le
      have hpos := (result_le (.inl he)).1
      rw [Cursor.behind_sOffset] at hle
      cases hdata with
      | unknown e' _ _ _ _ _ _ hunknown =>
        obtain ⟨hc, -⟩ := unknownField_strict hunknown
        cases hc
        rw [Cursor.looked_sOffset]
        exact ⟨by omega, fun hback => by omega⟩
  | @next c m c₁ m₁ _ h _ ih =>
    obtain ⟨⟨e, he, hle⟩, -⟩ := strict_turn h
    have hpos := (result_le (.inl he)).1
    have hnext := (ih hr).1
    exact ⟨by omega, fun hback => by omega⟩

/-- Where the strict turn stops behind the length field, no element follows for the int. -/
theorem stops_of_passes {c₁ : Cursor} {r : Cursor ⊕ Cursor}
    (hint : decodeTurn d false fuel c (m.typedInt k) = .ok (.inl c') (m'.typedInt k))
    (hplace : SameTurn (.inr c₁) r) (hoffset : c₁.sOffset = c'.sOffset)
    (hpass : Act.Passes (decodeTurn d false fuel) c (m.typedInt k) (.ok r (m'.typedInt k))) :
    Stops d m'.own.fp c'.sOffset := by
  cases hplace with
  | inr hplace =>
    obtain ⟨buf, rfl⟩ := hplace
    cases hpass with
    | turn h =>
      rw [hint] at h
      cases h
    | next h hpass =>
      rw [hint] at h
      cases h
      exact fun e he => find_of_typedInt ((strict_passes hpass rfl).2 hoffset.le e he)

/-- Where the permissive turn puts `n` bytes aside behind the length field, elements that are not of
the section follow for the int. -/
theorem span_of_passes {m₁ : MessageBase D} {c₁ : Cursor} {r : Cursor ⊕ Cursor} {n : Nat}
    (hint : decodeTurn d true fuel c (m.typedInt k) = .ok (.inl c') (m'.typedInt k))
    (hplace : SameTurn (.inl c₁) r) (hoffset : c₁.sOffset = c'.sOffset + n) (hn : 0 < n)
    (hpos : c₁.pos = c'.pos) (hlen : m₁.own.unknown.length = m'.own.unknown.length + n)
    (hpass : Act.Passes (decodeTurn d true fuel) c (m.typedInt k) (.ok r (m₁.typedInt k))) :
    UnknownSpan d m'.own.fp c'.sOffset n := by
  cases hplace with
  | inl hplace =>
    obtain ⟨buf, rfl⟩ := hplace
    cases hpass with
    | turn h =>
      rw [hint] at h
      have hsame : c' = _ := Sum.inl.inj (Res.ok.inj h).1
      have hsame := congrArg Cursor.sOffset hsame
      dsimp only at hsame
      omega
    | next h hpass =>
      rw [hint] at h
      cases h
      obtain ⟨-, -, hspan⟩ := (passes_span hpass rfl).2 hpos.le
      have hlen' : (m₁.typedInt k).own.unknown.length =
          (m'.typedInt k).own.unknown.length + n := hlen
      have hspan := hspan (by dsimp only; omega)
      dsimp only at hspan
      rw [hoffset, Nat.add_sub_cancel_left] at hspan
      exact hspan.congr fun tv => find_of_typedInt

/-- **One length field without its data** is taken as an int exactly when it is ordinary. -/
theorem ordinary_iff (hk : k ≠ commonBodyLength) (h : LengthRead d fuel k c m e c' m')
    (hbare : ¬ DataFollows d k m'.own.fp c'.sOffset) :
    TakenAsInt d permissive fuel k c m ↔ Ordinary d permissive m'.own.fp k e.val c' := by
  constructor
  · rintro ⟨hone, r, r', m₁, hturn, hsame, hpass⟩
    have hint : decodeTurn d permissive fuel c (m.typedInt k) = _ := (h.turn hk).2
    have hdata := hturn
    rw [(h.turn hk).1] at hdata
    obtain ⟨hsize, hdata⟩ := decodeData_ok hdata
    cases hdata with
    | other e' tag itr he' htext hitr hother =>
      exact ⟨hsize, e', _, he', congrArg (Option.map fastAtoiU16) htext, .known itr hitr hother⟩
    | data e' tag itr c₁ _ _ _ _ _ _ hstored =>
      -- two fields
      have hpos := hone c₁ _ hturn
      have hstored := hstored.pos
      have hfirst := h.pos
      dsimp only [Cursor.looked_pos] at hstored
      omega
    | unknown e' tag _ _ he' htext hnone hunknown =>
      refine ⟨hsize, e', _, he', congrArg (Option.map fastAtoiU16) htext, ?_⟩
      cases permissive with
      | false =>
        refine .strict rfl hnone ?_
        obtain ⟨rfl, rfl⟩ := unknownField_strict hunknown
        exact stops_of_passes hint hsame rfl hpass
      | true =>
        refine .permissive rfl hnone ?_
        obtain ⟨rfl, hbytes⟩ := unknownField_permissive hunknown
        obtain ⟨h2, hle⟩ := result_le (.inr ⟨_, he'⟩)
        refine span_of_passes hint hsame rfl (by omega) rfl ?_ hpass
        rw [hbytes, List.length_append, Cursor.looked_sOffset, length_bytes hle]
  · intro hord
    obtain ⟨r, r', m₁, hturn, hpos, hsame, hpass⟩ := ordinary_turn hk h hord (beside_refl c)
    refine ⟨fun c₁ m₂ hturn' => ?_, r, r', m₁, hturn, hsame.mono (fun _ _ h => h.place) fun _ _ h => h,
      hpass⟩
    rw [hturn] at hturn'
    cases hturn'
    rw [hpos _ rfl, h.pos]

/-! ## A section -/

omit [FpType D] in
theorem commutes_sectionEnd :
    Act.Commutes (MessageBase.typedInt (D := D) k) (sectionEnd d permissive c) := by
  intro m
  have hmissing : (m.typedInt k).own.fp.findMissing = m.own.fp.findMissing := findMissing_typedInt
  unfold sectionEnd
  rw [Act.get_bind_apply, Act.get_bind_apply]
  unfold checkMissing
  rw [hmissing]
  dsimp only
  split
  · rfl
  · split <;> rfl

omit [FpType D] in
theorem sectionEnd_place (h : c.SamePlace c') :
    sectionEnd (D := D) d permissive c' = sectionEnd d permissive c := by
  obtain ⟨buf, rfl⟩ := h
  rfl

/-- A decode whose loop ends within `n` turns. -/
theorem decode_of_loop {o n F : Nat} (hf : fuel ≤ F) (hn : n ≤ F)
    (hin : Act.InTime .fuel (Act.loop .fuel (decodeTurn d permissive fuel) n (sectionStart m o) m)) :
    decode d permissive F o m =
      (Act.loop .fuel (decodeTurn d permissive fuel) n (sectionStart m o) >>=
        sectionEnd d permissive) m := by
  rw [decode_apply, Act.bind_apply, Act.bind_apply,
    Act.extends_loop (extends_decodeTurn hf) hn _ m hin]

theorem inTime_loop {o : Nat} (h : Act.InTime .fuel (decode d permissive fuel o m)) :
    Act.InTime .fuel (Act.loop .fuel (decodeTurn d permissive fuel) fuel (sectionStart m o) m) := by
  intro s he
  rw [decode_apply, Act.bind_throw he] at h
  exact h s rfl

variable (d permissive k m) in
/-- The length field `k` is not followed by its data field, where a decode of the section reads
it. -/
def BareLength (o : Nat) : Prop :=
  ∀ fuel c m₁ e c' m₂, Act.Reaches (decodeTurn d permissive fuel) (sectionStart m o) m c m₁ →
    LengthRead d fuel k c m₁ e c' m₂ → ¬ DataFollows d k m₂.own.fp c'.sOffset

variable (d permissive k m) in
/-- The length field `k` is ordinary where a decode of the section reads it. -/
def OrdinaryLength (o : Nat) : Prop :=
  ∀ fuel c m₁ e c' m₂, Act.Reaches (decodeTurn d permissive fuel) (sectionStart m o) m c m₁ →
    LengthRead d fuel k c m₁ e c' m₂ → Ordinary d permissive m₂.own.fp k e.val c'

variable (d permissive k m) in
/-- In a permissive decode, the numbers that are read from the buffer behind the other length fields
are those that are read with the field `k` typed int: what was skipped has left no digits that count. -/
def SameNumbers (o : Nat) : Prop :=
  permissive = true → ∀ fuel c c' m₁,
    Act.Reaches (decodeTurn d permissive fuel) (sectionStart m o) m c m₁ →
    Act.Reaches (decodeTurn d permissive fuel) (sectionStart m o) (m.typedInt k) c' (m₁.typedInt k) →
    c.SamePlace c' → ∀ j e c₁ m₂ e', j ≠ k → LengthRead d fuel j c m₁ e c₁ m₂ →
      extractElementFixedWidth (fastAtoiU32 e.val) (d.rest c₁.sOffset) = some e' →
      c₁.number e' = Cursor.number { c₁ with tag := (c'.read e).tag } e'

variable (d permissive k m) in
/-- The section decodes as with the field `k` typed int: it ends the same way, with the same fields
stored, and the turn that reads the field throws nothing and comes to where an int leads. -/
structure DecodesAsInt (o : Nat) : Prop where
  ends : ∀ r', Decodes d permissive o (m.typedInt k) r' ↔
    ∃ r, Decodes d permissive o m r ∧ r' = r.mapState (MessageBase.typedInt k)
  element : ∀ fuel c m₁ e c' m₂,
    Act.Reaches (decodeTurn d permissive fuel) (sectionStart m o) m c m₁ →
    LengthRead d fuel k c m₁ e c' m₂ → TakenAsInt d permissive fuel k c m₁

theorem typed_reaches {P : FieldType → Prop} {c₀ : Cursor} (hm : Typed P k m.own)
    (h : Act.Reaches (decodeTurn d permissive fuel) c₀ m c m') : Typed P k m'.own := by
  have hkept : Kept d (fun _ _ => True) 0 fun m : MessageBase D => Typed P k m.own :=
    kept_of_own (I := Typed P k) (fun _ _ h => h) fun _ _ _ _ _ _ _ ho _ _ _ _ => typed_store ho
  induction h with
  | here => exact hm
  | @next c₁ _ _ _ _ h ih =>
    have hbehind : Behind 0 c₁ := Nat.zero_le _
    exact ((leaves_decodeTurn hkept hbehind).ok ⟨trivial, ih⟩ h).2

/-- A section without a data field under the next tag. -/
theorem bareLength_of_typed {o : Nat} (h : Typed (· ≠ .data) (k + 1) m.own) :
    BareLength d m k permissive o := by
  rintro fuel c m₁ e c' m₂ hreach ⟨-, -, itr₀, -, -, -, hstore⟩ ⟨tag, itr, -, -, hitr, htype⟩
  exact typed_stored (typed_reaches h hreach) hstore itr hitr htype

/-- Where the other length fields have as many digits as the tag behind them, the numbers are those
of the tags. -/
theorem sameNumbers_of_digits {o : Nat} (h : ∀ fuel c m₁ j e c₁ m₂ e',
    Act.Reaches (decodeTurn d permissive fuel) (sectionStart m o) m c m₁ → j ≠ k →
    LengthRead d fuel j c m₁ e c₁ m₂ →
    extractElementFixedWidth (fastAtoiU32 e.val) (d.rest c₁.sOffset) = some e' →
    e'.tag.length = e.tag.length) : SameNumbers d m k permissive o := by
  intro _ fuel c c' m₁ hreach _ _ j e c₁ m₂ e' hj hread he'
  have hlen := h _ _ _ _ _ _ _ _ hreach hj hread he'
  have hdigit := (extractElementFixedWidth_some he').1
  unfold Cursor.number Cursor.looked
  rw [hread.read_tag]
  exact (congrArg (Option.map fastAtoiU16) (bufferText_read_looked hdigit hlen)).trans
    (congrArg (Option.map fastAtoiU16) (bufferText_read_looked hdigit hlen)).symm

/-! ## Side by side -/

/-- A turn from another tag buffer, where the numbers behind a length field are the same. -/
theorem like_turn (hc : c.SamePlace c') (h : ∀ j e c₁ m₁ e', LengthRead d fuel j c m e c₁ m₁ →
    extractElementFixedWidth (fastAtoiU32 e.val) (d.rest c₁.sOffset) = some e' →
    c₁.number e' = Cursor.number { c₁ with tag := (c'.read e).tag } e') :
    Res.Like id (fun _ => SameTurn) (decodeTurn d permissive fuel c m)
      (decodeTurn d permissive fuel c' m) := by
  obtain ⟨buf, rfl⟩ := hc
  cases he : extractElement (d.rest c.sOffset) with
  | none =>
    unfold decodeTurn
    dsimp only
    rw [he]
    exact .ok (.inr ⟨buf, rfl⟩)
  | some e =>
    cases hitr : m.own.fp.find (fastAtoiU16 e.tag) with
    | none =>
      rw [decodeTurn_unknown he hitr, decodeTurn_unknown (c := { c with tag := buf }) he hitr]
      exact like_unknownField ⟨_, rfl⟩
    | some itr =>
      cases hpresent : itr.present with
      | true =>
        unfold decodeTurn
        dsimp only
        rw [he]
        dsimp only
        rw [Act.get_bind_apply, Act.get_bind_apply, hitr]
        dsimp only
        rw [if_pos hpresent, if_pos hpresent]
        split
        · exact .ok (.inl ⟨_, rfl⟩)
        · exact .throw
      | false =>
        rw [decodeTurn_absent he hitr hpresent,
          decodeTurn_absent (c := { c with tag := buf }) he hitr hpresent, Act.bind_apply,
          Act.bind_apply]
        have hlike : Res.Like id
            (fun _ c₁ c₁' => c₁' = { c₁ with tag := (Cursor.read { c with tag := buf } e).tag })
            (storeField d fuel itr (fastAtoiU16 e.tag) c.sOffset e.val (c.behind e) m)
            (storeField d fuel itr (fastAtoiU16 e.tag) c.sOffset e.val
              { c.behind e with tag := (Cursor.read { c with tag := buf } e).tag } m) :=
          like_storeField
        unfold Cursor.read at hlike
        dsimp only at hlike
        unfold Cursor.behind Cursor.read at hlike ⊢
        dsimp only at hlike ⊢
        generalize storeField d fuel itr (fastAtoiU16 e.tag) c.sOffset e.val
          ⟨c.sOffset + e.result, c.pos, c.last, overwrite buf (e.tag ++ [0])⟩ m = r at hlike ⊢
        cases hstore : storeField d fuel itr (fastAtoiU16 e.tag) c.sOffset e.val
          ⟨c.sOffset + e.result, c.pos, c.last, overwrite c.tag (e.tag ++ [0])⟩ m with
        | throw x m₁ =>
          rw [hstore] at hlike
          cases hlike
          exact .throw
        | ok c₁ m₁ =>
          rw [hstore] at hlike
          cases hlike with
          | ok hc₁ =>
            subst hc₁
            dsimp only [id]
            split
            · exact .ok (.inl ⟨_, rfl⟩)
            · rename_i hlength
              obtain ⟨htype, -⟩ := not_or.1 hlength
              exact like_decodeData ⟨_, rfl⟩ fun e' he' =>
                h _ e c₁ m₁ e' ⟨he, rfl, itr, hitr, hpresent, not_not.1 htype, hstore⟩ he'

/-- A turn that reads an element makes the cursors equal. -/
theorem decodeTurn_read (hc : c.SamePlace c') (he : extractElement (d.rest c.sOffset) = some e)
    (h : c'.read e = c.read e) :
    decodeTurn d permissive fuel c' m = decodeTurn d permissive fuel c m := by
  obtain ⟨buf, rfl⟩ := hc
  have htag : overwrite buf (e.tag ++ [0]) = overwrite c.tag (e.tag ++ [0]) := congrArg Cursor.tag h
  unfold decodeTurn
  dsimp only
  rw [he]
  dsimp only
  rw [htag]

/-- A turn that does not read the length field, beside one that has it typed int. -/
theorem beside_turn (hk : LengthTyped k m) (hc : Beside d permissive c c')
    (hread : ∀ e c' m', ¬ LengthRead d fuel k c m e c' m')
    (hnumber : permissive = true → ∀ j e c₁ m₁ e', j ≠ k → LengthRead d fuel j c m e c₁ m₁ →
      extractElementFixedWidth (fastAtoiU32 e.val) (d.rest c₁.sOffset) = some e' →
      c₁.number e' = Cursor.number { c₁ with tag := (c'.read e).tag } e') :
    Res.Like (MessageBase.typedInt k)
      (fun _ => Sum.LiftRel (Beside d permissive) Cursor.SamePlace)
      (decodeTurn d permissive fuel c m) (decodeTurn d permissive fuel c' (m.typedInt k)) := by
  obtain ⟨hplace, hnext⟩ := hc
  rw [typedInt_turn hk fun e c₁ m₁ h => hread _ _ _ (h.retag (hplace.symm))]
  apply Res.Like.mapState
  cases permissive with
  | true =>
    have hlike : Res.Like id (fun _ => SameTurn) (decodeTurn d true fuel c m)
        (decodeTurn d true fuel c' m) := like_turn hplace
      fun j e c₁ m₁ e' hj he' => hnumber rfl j e c₁ m₁ e' (fun hjk => hread _ _ _ (hjk ▸ hj)) hj he'
    exact hlike.mono fun _ _ _ h => h.mono (fun _ _ h => ⟨h, nofun⟩) fun _ _ h => h
  | false =>
    cases he : extractElement (d.rest c.sOffset) with
    | none =>
      obtain ⟨buf, rfl⟩ := hplace
      unfold decodeTurn
      dsimp only
      rw [he]
      exact .ok (.inr ⟨buf, rfl⟩)
    | some e =>
      rw [decodeTurn_read hplace he (hnext rfl e he)]
      generalize decodeTurn d false fuel c m = r
      rcases r with ⟨c₁ | c₁, s⟩ | ⟨x, s⟩
      · exact .ok (.inl (beside_refl c₁))
      · exact .ok (.inr (samePlace_refl c₁))
      · exact .throw

/-- With an ordinary length field the loop that has it typed int passes through every turn. -/
theorem passedBy_typedInt (fuel : Nat) {o : Nat} (hk : k ≠ commonBodyLength) (htyped : LengthTyped k m)
    (h : OrdinaryLength d m k permissive o) (hnumber : SameNumbers d m k permissive o) :
    Act.PassedBy (MessageBase.typedInt k)
      (fun m₁ c c' => Act.Reaches (decodeTurn d permissive fuel) (sectionStart m o) m c m₁ ∧
        Act.Reaches (decodeTurn d permissive fuel) (sectionStart m o) (m.typedInt k) c'
          (m₁.typedInt k) ∧ Beside d permissive c c')
      Cursor.SamePlace (decodeTurn d permissive fuel) (decodeTurn d permissive fuel) := by
  rintro c c' m₁ ⟨hreach, hreach', hc⟩
  have hturn : ∃ r, Act.Passes (decodeTurn d permissive fuel) c' (m₁.typedInt k) r ∧
      Res.Like (MessageBase.typedInt k)
        (fun _ => Sum.LiftRel (Beside d permissive) Cursor.SamePlace)
        (decodeTurn d permissive fuel c m₁) r := by
    by_cases hread : ∃ e c₁ m₂, LengthRead d fuel k c m₁ e c₁ m₂
    · obtain ⟨e, c₁, m₂, hread⟩ := hread
      obtain ⟨r, r', m₃, hturn, -, hsame, hpass⟩ := ordinary_turn hk hread
        (h _ _ _ _ _ _ hreach hread) hc
      exact ⟨_, hpass, by rw [hturn]; exact .ok hsame⟩
    · refine ⟨_, .turn rfl, beside_turn (typed_reaches htyped hreach) hc
        (fun e c₁ m₂ hr => hread ⟨e, c₁, m₂, hr⟩) ?_⟩
      exact fun hp => hnumber hp _ _ _ _ hreach hreach' hc.place
  obtain ⟨r, hpass, hlike⟩ := hturn
  refine ⟨r, hpass, ?_⟩
  generalize hres : decodeTurn d permissive fuel c m₁ = r₀ at hlike
  cases hlike with
  | throw => exact .throw
  | ok hrel =>
    cases hrel with
    | inl hb => exact .ok (.inl ⟨hreach.next hres, hpass.reaches rfl hreach', hb⟩)
    | inr hb => exact .ok (.inr hb)

/-- The decodes end the same when their loops do. -/
theorem decode_typedInt {o n n' fuel' F : Nat} (hin : Act.InTime .fuel (Act.loop .fuel
      (decodeTurn d permissive fuel) n (sectionStart m o) m))
    (h : Res.Like (MessageBase.typedInt k) (fun _ => Cursor.SamePlace)
      (Act.loop .fuel (decodeTurn d permissive fuel) n (sectionStart m o) m)
      (Act.loop .fuel (decodeTurn d permissive fuel') n' (sectionStart m o) (m.typedInt k)))
    (hf : fuel ≤ F) (hn : n ≤ F) (hf' : fuel' ≤ F) (hn' : n' ≤ F) :
    decode d permissive F o (m.typedInt k) =
      (decode d permissive F o m).mapState (MessageBase.typedInt k) := by
  rw [decode_of_loop hf hn hin, decode_of_loop (m := m.typedInt k) hf' hn' ((Act.inTime_like h).1 hin),
    Act.bind_apply, Act.bind_apply]
  have hstart : sectionStart (m.typedInt k) o = sectionStart m o := rfl
  rw [hstart]
  generalize Act.loop .fuel (decodeTurn d permissive fuel) n (sectionStart m o) m = L at h
  generalize Act.loop .fuel (decodeTurn d permissive fuel') n' (sectionStart m o) (m.typedInt k) = L'
    at h
  cases h with
  | throw => rfl
  | @ok c c' s hplace =>
    dsimp only
    rw [sectionEnd_place hplace]
    exact commutes_sectionEnd s

/-- **A length without its data is an ordinary integer** where its fixed width is read without harm
and leaves no digits that count, and only there is it taken for one. -/
theorem length_int_iff {o : Nat} (hk : k ≠ commonBodyLength) (htyped : LengthTyped k m)
    (hbare : BareLength d m k permissive o) :
    (OrdinaryLength d m k permissive o → SameNumbers d m k permissive o →
      DecodesAsInt d m k permissive o) ∧
    (DecodesAsInt d m k permissive o → OrdinaryLength d m k permissive o) := by
  refine ⟨fun h hnumber => ⟨fun r' => ⟨?_, ?_⟩, ?_⟩, ?_⟩
  · rintro ⟨fuel, rfl, hin⟩
    have hpassed := passedBy_typedInt fuel hk htyped h hnumber
    obtain ⟨n, hloop⟩ := Act.loop_passes (s := m) (b := sectionStart m o) hpassed
      ⟨.here, .here, beside_refl _⟩ (inTime_loop hin)
    have hin' := (Act.inTime_like hloop).2 (inTime_loop hin)
    have hF := decode_typedInt hin' hloop (le_max_left fuel n) (le_max_right fuel n)
      (le_max_left fuel n) (le_max_left fuel n)
    rw [extends_decode (le_max_left fuel n) _ hin] at hF
    exact ⟨_, ⟨max fuel n, rfl, .of_mapState (hF ▸ hin)⟩, hF⟩
  · rintro ⟨r, ⟨fuel, rfl, hin⟩, rfl⟩
    have hpassed := passedBy_typedInt fuel hk htyped h hnumber
    obtain ⟨n, hloop⟩ := Act.loop_passed hpassed ⟨.here, .here, beside_refl _⟩ (inTime_loop hin)
    have hF := decode_typedInt (inTime_loop hin) hloop (le_max_left fuel n) (le_max_left fuel n)
      (le_max_left fuel n) (le_max_right fuel n)
    rw [extends_decode (le_max_left fuel n) m hin] at hF
    exact ⟨max fuel n, hF, hin.mapState⟩
  · exact fun fuel c m₁ e c' m₂ hreach hread =>
      (ordinary_iff hk hread (hbare _ _ _ _ _ _ hreach hread)).2 (h _ _ _ _ _ _ hreach hread)
  · exact fun h fuel c m₁ e c' m₂ hreach hread =>
      (ordinary_iff hk hread (hbare _ _ _ _ _ _ hreach hread)).1
        (h.element _ _ _ _ _ _ hreach hread)

end

/-! ## MaxMessageSize -/

/-- The text of a section with the field MaxMessageSize, which is a length, and another field. -/
def demoSizeFeed (size tag val : String) : Feed where
  cx := { demoCntx with
    be := OrdMap.empty.insert 58 ⟨ascii "Text", .string⟩
      |>.insert 336 ⟨ascii "TradingSessionID", .string⟩
      |>.insert 383 ⟨ascii "MaxMessageSize", .int⟩ }
  now := 0
  call := 1
  text := demoElement "383" size ++ demoElement tag val
  ignore := 0

def demoSizeSection : MessageBase Unit :=
  .mk (.create [{ fnum := 58, pos := 2 }, { fnum := 336, pos := 3 },
    { fnum := 383, ftype := .length, pos := 1 }]) [] []

theorem demoSize_typed : LengthTyped 383 demoSizeSection := by
  intro itr hitr
  have hfind : demoSizeSection.own.fp.find 383 = some { fnum := 383, ftype := .length, pos := 1 } :=
    by decide
  rw [hfind] at hitr
  cases hitr
  rfl

theorem demoSize_bare {size tag val : String} {permissive : Bool} :
    BareLength (demoSizeFeed size tag val) demoSizeSection 383 permissive 0 := by
  refine bareLength_of_typed fun itr hitr => ?_
  have hfind : demoSizeSection.own.fp.find 384 = none := by decide
  rw [hfind] at hitr
  cases hitr

theorem length_int_demo :
    (OrdinaryLength (demoSizeFeed "4" "336" "day") demoSizeSection 383 false 0 →
      SameNumbers (demoSizeFeed "4" "336" "day") demoSizeSection 383 false 0 →
      DecodesAsInt (demoSizeFeed "4" "336" "day") demoSizeSection 383 false 0) ∧
    (DecodesAsInt (demoSizeFeed "4" "336" "day") demoSizeSection 383 false 0 →
      OrdinaryLength (demoSizeFeed "4" "336" "day") demoSizeSection 383 false 0) :=
  length_int_iff (by decide) demoSize_typed demoSize_bare

/-- A size of 4096 is taken for the width of a data field that is too large. -/
theorem size_refused : ¬ ∀ (d : Feed) (m : MessageBase Unit) (k : Nat) (permissive : Bool) (o : Nat),
    k ≠ commonBodyLength → LengthTyped k m → BareLength d m k permissive o →
    DecodesAsInt d m k permissive o := by
  intro h
  have hint := h (demoSizeFeed "4096" "58" "ready") demoSizeSection 383 false 0 (by decide) demoSize_typed
    demoSize_bare
  have hread : LengthRead (demoSizeFeed "4096" "58" "ready") 0 383 (sectionStart demoSizeSection 0)
      demoSizeSection ⟨ascii "383", ascii "4096", 9⟩ ⟨9, 1, none, ascii "383" ++ [0]⟩
      (demoSizeSection.store 383 1 ⟨⟨1, 0⟩, 383, .int 4096⟩) := by
    refine ⟨by decide +kernel, by decide +kernel, _, rfl, rfl, rfl, rfl⟩
  have hreach : Act.Reaches (decodeTurn (demoSizeFeed "4096" "58" "ready") false 0)
      (sectionStart demoSizeSection 0) demoSizeSection (sectionStart demoSizeSection 0)
      demoSizeSection := .here
  have hbare : BareLength (demoSizeFeed "4096" "58" "ready") demoSizeSection 383 false 0 := demoSize_bare
  have htaken := hint.element _ _ _ _ _ _ hreach hread
  have hordinary := (ordinary_iff (by decide) hread (hbare _ _ _ _ _ _ hreach hread)).1 htaken
  exact absurd hordinary.1 (by decide +kernel)

end Fix8.Codec
