import Fix8.Codec.Proof.Section

/-!
# What a turn has done

The turns of the loops of `decode` and `decode_group` that return, case by case.

* `Stored`, `DataTurn`, **`decodeTurn_ok`**: a turn of the loop over a section;
* **`groupTurn_ok`**, `elementTurn_ok`, `decodeGroup_ok`: the turns inside a group;
* `GroupTurn.run`, `ElementTurn.run`, `Stored.run`, `DataTurn.run`: and that it does;
* `decodeTurn_absent`, `decodeTurn_unknown`: a turn on a given element.
-/

namespace Fix8.Codec

open Lib

section
variable {D : Type} [FpType D] {d : Feed} {m m' : MessageBase D}

/-- `m` with a field that a decode has stored. -/
def MessageBase.store (m : MessageBase D) (tv pos : Nat) (bf : BaseField D) : MessageBase D :=
  m.withOwn ((m.own.addFieldDecoder tv pos bf).setPresent tv)

omit [FpType D] in
theorem checkMissing_ok {cx : F8MetaCntx} {fp : FieldTraits}
    (h : checkMissing cx fp m = .ok () m') : fp.findMissing = 0 ∧ m' = m := by
  unfold checkMissing at h
  split at h
  · rename_i hmissing
    cases h
    exact ⟨hmissing, rfl⟩
  · cases hbe : cx.findBe fp.findMissing with
    | none =>
      rw [hbe] at h
      cases h
    | some tbe =>
      rw [hbe] at h
      cases h

/-! ## Groups -/

/-- A turn of the inner loop of `decode_group` on the element `m`, from `s_offset` and `pos`. -/
inductive GroupTurn (d : Feed) (nestedGroup : Nat → Nat → Act (MessageBase D) Stop Nat)
    (c : Nat × Nat) (m : MessageBase D) : (Nat × Nat) ⊕ (Nat × Bool) → MessageBase D → Prop where
  /-- There is no element. -/
  | ended (h : extractElement (d.rest c.1) = none) : GroupTurn d nestedGroup c m (.inr (c.1, true)) m
  /-- A repeated tag. -/
  | repeated (e : Element) (h : extractElement (d.rest c.1) = some e)
      (hpresent : m.isPresent (fastAtoiU16 e.tag) = true) :
      GroupTurn d nestedGroup c m (.inr (c.1, true)) m
  /-- A tag that is not of the group. -/
  | foreign (e : Element) (h : extractElement (d.rest c.1) = some e)
      (hpresent : m.isPresent (fastAtoiU16 e.tag) = false)
      (hpos : ¬ (c.2 = 0 ∧ m.own.fp.getPos (fastAtoiU16 e.tag) ≠ 1))
      (hforeign : d.cx.findBe (fastAtoiU16 e.tag) = none ∨
        m.own.fp.find (fastAtoiU16 e.tag) = none) :
      GroupTurn d nestedGroup c m (.inr (c.1, false)) m
  | field (e : Element) (be : BaseEntry) (itr : FieldTrait)
      (h : extractElement (d.rest c.1) = some e)
      (hpresent : m.isPresent (fastAtoiU16 e.tag) = false)
      (hpos : ¬ (c.2 = 0 ∧ m.own.fp.getPos (fastAtoiU16 e.tag) ≠ 1))
      (hbe : d.cx.findBe (fastAtoiU16 e.tag) = some be)
      (hitr : m.own.fp.find (fastAtoiU16 e.tag) = some itr)
      (hplain : (itr.group &&
        (d.createField (D := D) be (fastAtoiU16 e.tag) c.1 e.val).hasGroupCount) = false) :
      GroupTurn d nestedGroup c m (.inl (c.1 + e.result, c.2 + 1))
        (m.store (fastAtoiU16 e.tag) (c.2 + 1) (d.createField be (fastAtoiU16 e.tag) c.1 e.val))
  /-- The field counts the elements of a nested group. -/
  | group (e : Element) (be : BaseEntry) (itr : FieldTrait) (sOffset : Nat) (m' : MessageBase D)
      (h : extractElement (d.rest c.1) = some e)
      (hpresent : m.isPresent (fastAtoiU16 e.tag) = false)
      (hpos : ¬ (c.2 = 0 ∧ m.own.fp.getPos (fastAtoiU16 e.tag) ≠ 1))
      (hbe : d.cx.findBe (fastAtoiU16 e.tag) = some be)
      (hitr : m.own.fp.find (fastAtoiU16 e.tag) = some itr)
      (hcount : (itr.group &&
        (d.createField (D := D) be (fastAtoiU16 e.tag) c.1 e.val).hasGroupCount) = true)
      (hnested : nestedGroup (fastAtoiU16 e.tag) (c.1 + e.result)
        (m.store (fastAtoiU16 e.tag) (c.2 + 1) (d.createField be (fastAtoiU16 e.tag) c.1 e.val)) =
          .ok sOffset m') :
      GroupTurn d nestedGroup c m (.inl (sOffset, c.2 + 1)) m'

theorem groupTurn_ok {nestedGroup : Nat → Nat → Act (MessageBase D) Stop Nat} {c : Nat × Nat}
    {r : (Nat × Nat) ⊕ (Nat × Bool)} (h : groupTurn d nestedGroup c m = .ok r m') :
    GroupTurn d nestedGroup c m r m' := by
  unfold groupTurn at h
  cases he : extractElement (d.rest c.1) with
  | none =>
    rw [he] at h
    cases h
    exact .ended he
  | some e =>
    rw [he] at h
    dsimp only at h
    rw [Act.get_bind_apply] at h
    split at h
    · rename_i hpresent
      cases h
      exact .repeated e he hpresent
    · rename_i hpresent
      have hpresent := Bool.not_eq_true _ ▸ hpresent
      split at h
      · cases h
      · rename_i hpos
        cases hbe : d.cx.findBe (fastAtoiU16 e.tag) with
        | none =>
          rw [hbe] at h
          cases h
          exact .foreign e he hpresent hpos (.inl hbe)
        | some be =>
          cases hitr : m.own.fp.find (fastAtoiU16 e.tag) with
          | none =>
            rw [hbe, hitr] at h
            cases h
            exact .foreign e he hpresent hpos (.inr hitr)
          | some itr =>
            rw [hbe, hitr] at h
            dsimp only at h
            rw [Act.modify_bind_apply] at h
            split at h
            · rename_i hcount
              obtain ⟨sOffset, m₁, hnested, h⟩ := Act.bind_eq_ok h
              cases h
              exact .group e be itr sOffset _ he hpresent hpos hbe hitr hcount hnested
            · rename_i hcount
              cases h
              exact .field e be itr he hpresent hpos hbe hitr (Bool.not_eq_true _ ▸ hcount)

/-- A turn of the outer loop of `decode_group`. -/
inductive ElementTurn (d : Feed) (fuel : Nat)
    (nestedGroup : Nat → Nat → Act (MessageBase D) Stop Nat) (c : GroupClass) (fnum sOffset : Nat)
    (m : MessageBase D) : Nat ⊕ Nat → MessageBase D → Prop where
  | ended (h : d.fsize ≤ sOffset) : ElementTurn d fuel nestedGroup c fnum sOffset m (.inr sOffset) m
  /-- An element of the group has been read. -/
  | element (sOffset' : Nat) (ok : Bool) (grp : MessageBase D) (h : sOffset < d.fsize)
      (hloop : Act.loop .fuel (groupTurn d nestedGroup) fuel (sOffset, 0) (c.createGroup false) =
        .ok (sOffset', ok) grp)
      (hmissing : grp.own.fp.findMissing = 0) :
      ElementTurn d fuel nestedGroup c fnum sOffset m
        (if ok then .inl sOffset' else .inr sOffset') (MessageBase.addElement fnum grp m)

theorem elementTurn_ok {fuel : Nat} {nestedGroup : Nat → Nat → Act (MessageBase D) Stop Nat}
    {c : GroupClass} {fnum sOffset : Nat} {r : Nat ⊕ Nat}
    (h : elementTurn d fuel nestedGroup c fnum sOffset m = .ok r m') :
    ElementTurn d fuel nestedGroup c fnum sOffset m r m' := by
  unfold elementTurn at h
  split at h
  · rename_i hlt
    obtain ⟨⟨⟨sOffset', ok⟩, grp⟩, m₁, hlocal, hadd⟩ := Act.bind_eq_ok h
    obtain ⟨rfl, hbody⟩ := Act.onLocal_eq_ok hlocal
    obtain ⟨r', grp', hloop, hcheck⟩ := Act.bind_eq_ok hbody
    rw [Act.get_bind_apply] at hcheck
    obtain ⟨_, grp₁, hcheck, hr⟩ := Act.bind_eq_ok hcheck
    cases hr
    obtain ⟨hmissing, rfl⟩ := checkMissing_ok hcheck
    cases hadd
    exact .element sOffset' ok _ hlt hloop hmissing
  · rename_i hlt
    cases h
    exact .ended (Nat.not_lt.1 hlt)

theorem decodeGroup_ok {fuel : Nat} {classes : List GroupClass} {fnum sOffset sOffset' : Nat}
    (h : decodeGroup d fuel classes fnum sOffset m = .ok sOffset' m') :
    ∃ n c m₁, fuel = n + 1 ∧ MessageBase.findAddGroup classes fnum m = .ok c m₁ ∧
      Act.loop .fuel (elementTurn d n (decodeGroup d n c.nested) c fnum) n sOffset m₁ =
        .ok sOffset' m' := by
  cases fuel with
  | zero => cases h
  | succ n =>
    unfold decodeGroup at h
    obtain ⟨c, m₁, hadd, h⟩ := Act.bind_eq_ok h
    exact ⟨n, c, m₁, rfl, hadd, h⟩

/-! ## Sections -/

/-- A field that is made at `start` and stored; `c` is behind its element. -/
inductive Stored (d : Feed) (fuel : Nat) (itr : FieldTrait) (tv start : Nat) (val : F8String)
    (c : Cursor) (m : MessageBase D) : Cursor → MessageBase D → Prop where
  | field (be : BaseEntry) (hbe : d.cx.findBe tv = some be)
      (hplain : (itr.group && (d.createField (D := D) be tv start val).hasGroupCount) = false) :
      Stored d fuel itr tv start val c m { c with pos := c.pos + 1 }
        (m.store tv (c.pos + 1) (d.createField be tv start val))
  /-- The field counts the elements of a group. -/
  | group (be : BaseEntry) (sOffset : Nat) (m' : MessageBase D) (hbe : d.cx.findBe tv = some be)
      (hcount : (itr.group && (d.createField (D := D) be tv start val).hasGroupCount) = true)
      (hgroup : decodeGroup d fuel m.nested tv c.sOffset
        (m.store tv (c.pos + 1) (d.createField be tv start val)) = .ok sOffset m') :
      Stored d fuel itr tv start val c m { c with sOffset := sOffset, pos := c.pos + 1 } m'

section
variable {fuel tv start : Nat} {itr : FieldTrait} {val : F8String} {c c' : Cursor}

theorem Stored.pos (h : Stored d fuel itr tv start val c m c' m') : c'.pos = c.pos + 1 := by
  cases h <;> rfl

theorem Stored.tag (h : Stored d fuel itr tv start val c m c' m') : c'.tag = c.tag := by
  cases h <;> rfl

theorem Stored.last (h : Stored d fuel itr tv start val c m c' m') : c'.last = c.last := by
  cases h <;> rfl

/-- What it does to the containers of the message. -/
theorem Stored.own (h : Stored d fuel itr tv start val c m c' m') :
    ∃ be, d.cx.findBe tv = some be ∧
      m'.own = (m.store tv (c.pos + 1) (d.createField be tv start val)).own := by
  cases h with
  | field be hbe => exact ⟨be, hbe, rfl⟩
  | group be sOffset _ hbe _ hgroup =>
    refine ⟨be, hbe, ?_⟩
    have hown : (decodeGroup d fuel m.nested tv c.sOffset
        (m.store tv (c.pos + 1) (d.createField be tv start val))).state.own =
          (m.store tv (c.pos + 1) (d.createField be tv start val)).own := keeps_decodeGroup _
    rwa [hgroup] at hown

theorem Stored.fp (h : Stored d fuel itr tv start val c m c' m') :
    m'.own.fp = m.own.fp.setPresent tv := by
  obtain ⟨be, -, hown⟩ := h.own
  rw [hown]
  rfl

theorem Stored.unknown (h : Stored d fuel itr tv start val c m c' m') :
    m'.own.unknown = m.own.unknown := by
  obtain ⟨be, -, hown⟩ := h.own
  rw [hown]
  rfl

end

theorem storeField_ok {fuel tv start : Nat} {itr : FieldTrait} {val : F8String} {c c' : Cursor}
    (h : storeField d fuel itr tv start val c m = .ok c' m') :
    Stored d fuel itr tv start val c m c' m' := by
  unfold storeField at h
  cases hbe : d.cx.findBe tv with
  | none =>
    rw [hbe] at h
    cases h
  | some be =>
    rw [hbe] at h
    dsimp only at h
    rw [Act.modify_bind_apply] at h
    split at h
    · rename_i hcount
      rw [Act.get_bind_apply] at h
      obtain ⟨sOffset, m₁, hgroup, h⟩ := Act.bind_eq_ok h
      cases h
      exact .group be sOffset _ hbe hcount hgroup
    · rename_i hcount
      cases h
      exact .field be hbe (Bool.not_eq_true _ ▸ hcount)

/-- The turn of `decode` goes on to the data field behind a length field; `c` is behind that, and
`tag` stands in the buffer behind the data field. -/
inductive DataTurn (d : Feed) (permissive : Bool) (fuel lasttv : Nat) (length : F8String)
    (c : Cursor) (m : MessageBase D) : Cursor ⊕ Cursor → MessageBase D → Prop where
  | unknown (e : Element) (tag : F8String) (r : Cursor ⊕ Cursor) (m' : MessageBase D)
      (h : extractElementFixedWidth (fastAtoiU32 length) (d.rest c.sOffset) = some e)
      (htext : bufferText (c.looked e).tag = some tag)
      (hitr : m.own.fp.find (fastAtoiU16 tag) = none)
      (hunknown : unknownField d permissive (c.looked e) e.result m = .ok r m') :
      DataTurn d permissive fuel lasttv length c m r m'
  /-- It is not the data field of this length. -/
  | other (e : Element) (tag : F8String) (itr : FieldTrait)
      (h : extractElementFixedWidth (fastAtoiU32 length) (d.rest c.sOffset) = some e)
      (htext : bufferText (c.looked e).tag = some tag)
      (hitr : m.own.fp.find (fastAtoiU16 tag) = some itr)
      (hother : itr.ftype ≠ .data ∨ lasttv + 1 ≠ fastAtoiU16 tag) :
      DataTurn d permissive fuel lasttv length c m (.inl (c.looked e)) m
  | data (e : Element) (tag : F8String) (itr : FieldTrait) (c' : Cursor) (m' : MessageBase D)
      (h : extractElementFixedWidth (fastAtoiU32 length) (d.rest c.sOffset) = some e)
      (htext : bufferText (c.looked e).tag = some tag)
      (hitr : m.own.fp.find (fastAtoiU16 tag) = some itr) (htype : itr.ftype = .data)
      (htag : lasttv + 1 = fastAtoiU16 tag)
      (hstored : Stored d fuel itr (fastAtoiU16 tag) c.sOffset e.val
        { c.looked e with sOffset := c.sOffset + e.result } m c' m') :
      DataTurn d permissive fuel lasttv length c m (.inl c') m'

theorem decodeData_ok {permissive : Bool} {fuel lasttv : Nat} {length : F8String} {c : Cursor}
    {r : Cursor ⊕ Cursor} (h : decodeData d permissive fuel lasttv length c m = .ok r m') :
    fastAtoiU32 length ≤ maxFldLength - 1 ∧ DataTurn d permissive fuel lasttv length c m r m' := by
  unfold decodeData at h
  dsimp only at h
  split at h
  · cases h
  · rename_i hsize
    refine ⟨Nat.not_lt.1 hsize, ?_⟩
    cases he : extractElementFixedWidth (fastAtoiU32 length) (d.rest c.sOffset) with
    | none =>
      rw [he] at h
      cases h
    | some e =>
      rw [he] at h
      dsimp only at h
      cases htext : bufferText (overwrite (overwrite c.tag [0]) e.tag) with
      | none =>
        rw [htext] at h
        cases h
      | some tag =>
        rw [htext] at h
        dsimp only at h
        rw [Act.get_bind_apply] at h
        cases hitr : m.own.fp.find (fastAtoiU16 tag) with
        | none =>
          rw [hitr] at h
          exact .unknown e tag r m' he htext hitr h
        | some itr =>
          rw [hitr] at h
          dsimp only at h
          split at h
          · rename_i hother
            cases h
            exact .other e tag itr he htext hitr hother
          · rename_i hdata
            obtain ⟨htype, htag⟩ := not_or.1 hdata
            obtain ⟨c', m₁, hstored, h⟩ := Act.bind_eq_ok h
            cases h
            exact .data e tag itr _ _ he htext hitr (not_not.1 htype) (not_not.1 htag)
              (storeField_ok hstored)

/-- A turn of the loop of `decode`. -/
inductive SectionTurn (d : Feed) (permissive : Bool) (fuel : Nat) (c : Cursor)
    (m : MessageBase D) : Cursor ⊕ Cursor → MessageBase D → Prop where
  /-- There is no element. -/
  | ended (h : extractElement (d.rest c.sOffset) = none) :
      SectionTurn d permissive fuel c m (.inr c) m
  | unknown (e : Element) (r : Cursor ⊕ Cursor) (m' : MessageBase D)
      (h : extractElement (d.rest c.sOffset) = some e)
      (hitr : m.own.fp.find (fastAtoiU16 e.tag) = none)
      (hunknown : unknownField d permissive (c.read e) e.result m = .ok r m') :
      SectionTurn d permissive fuel c m r m'
  /-- A field that the library sets is not read again. -/
  | skipped (e : Element) (itr : FieldTrait) (h : extractElement (d.rest c.sOffset) = some e)
      (hitr : m.own.fp.find (fastAtoiU16 e.tag) = some itr) (hpresent : itr.present = true)
      (hautomatic : itr.automatic = true) :
      SectionTurn d permissive fuel c m (.inl (c.behind e)) m
  | field (e : Element) (itr : FieldTrait) (c' : Cursor) (m' : MessageBase D)
      (h : extractElement (d.rest c.sOffset) = some e)
      (hitr : m.own.fp.find (fastAtoiU16 e.tag) = some itr) (habsent : itr.present = false)
      (hstored : Stored d fuel itr (fastAtoiU16 e.tag) c.sOffset e.val
        (c.behind e) m c' m')
      (hplain : itr.ftype ≠ .length ∨ fastAtoiU16 e.tag = commonBodyLength) :
      SectionTurn d permissive fuel c m (.inl c') m'
  /-- The field is the length of a data field. -/
  | length (e : Element) (itr : FieldTrait) (c' : Cursor) (m₁ : MessageBase D)
      (r : Cursor ⊕ Cursor) (m' : MessageBase D)
      (h : extractElement (d.rest c.sOffset) = some e)
      (hitr : m.own.fp.find (fastAtoiU16 e.tag) = some itr) (habsent : itr.present = false)
      (hstored : Stored d fuel itr (fastAtoiU16 e.tag) c.sOffset e.val
        (c.behind e) m c' m₁)
      (htype : itr.ftype = .length) (htag : fastAtoiU16 e.tag ≠ commonBodyLength)
      (hsize : fastAtoiU32 e.val ≤ maxFldLength - 1)
      (hdata : DataTurn d permissive fuel (fastAtoiU16 e.tag) e.val c' m₁ r m') :
      SectionTurn d permissive fuel c m r m'

theorem decodeTurn_ok {permissive : Bool} {fuel : Nat} {c : Cursor} {r : Cursor ⊕ Cursor}
    (h : decodeTurn d permissive fuel c m = .ok r m') :
    SectionTurn d permissive fuel c m r m' := by
  unfold decodeTurn at h
  cases he : extractElement (d.rest c.sOffset) with
  | none =>
    rw [he] at h
    cases h
    exact .ended he
  | some e =>
    rw [he] at h
    dsimp only at h
    rw [Act.get_bind_apply] at h
    cases hitr : m.own.fp.find (fastAtoiU16 e.tag) with
    | none =>
      rw [hitr] at h
      exact .unknown e r m' he hitr h
    | some itr =>
      rw [hitr] at h
      dsimp only at h
      split at h
      · rename_i hpresent
        split at h
        · rename_i hautomatic
          cases h
          exact .skipped e itr he hitr hpresent hautomatic
        · cases h
      · rename_i habsent
        have habsent := Bool.not_eq_true _ ▸ habsent
        obtain ⟨c', m₁, hstored, h⟩ := Act.bind_eq_ok h
        have hstored := storeField_ok hstored
        split at h
        · rename_i hplain
          cases h
          exact .field e itr _ _ he hitr habsent hstored hplain
        · rename_i hlength
          obtain ⟨htype, htag⟩ := not_or.1 hlength
          obtain ⟨hsize, hdata⟩ := decodeData_ok h
          exact .length e itr c' m₁ r m' he hitr habsent hstored (not_not.1 htype) htag hsize
            hdata

/-! ## Turns forward -/

theorem GroupTurn.run {nestedGroup : Nat → Nat → Act (MessageBase D) Stop Nat} {c : Nat × Nat}
    {r : (Nat × Nat) ⊕ (Nat × Bool)} (h : GroupTurn d nestedGroup c m r m') :
    groupTurn d nestedGroup c m = .ok r m' := by
  unfold groupTurn
  cases h with
  | ended h =>
    rw [h]
    rfl
  | repeated e h hpresent =>
    rw [h]
    dsimp only
    rw [Act.get_bind_apply, if_pos hpresent]
    rfl
  | foreign e h hpresent hpos hforeign =>
    rw [h]
    dsimp only
    rw [Act.get_bind_apply, hpresent, if_neg Bool.false_ne_true, if_neg hpos]
    obtain hbe | hitr := hforeign
    · rw [hbe]
      rfl
    · rw [hitr]
      cases d.cx.findBe (fastAtoiU16 e.tag) <;> rfl
  | field e be itr h hpresent hpos hbe hitr hplain =>
    rw [h]
    dsimp only
    rw [Act.get_bind_apply, hpresent, if_neg Bool.false_ne_true, if_neg hpos, hbe, hitr]
    dsimp only
    rw [Act.modify_bind_apply, hplain]
    rfl
  | group e be itr sOffset m' h hpresent hpos hbe hitr hcount hnested =>
    rw [h]
    dsimp only
    rw [Act.get_bind_apply, hpresent, if_neg Bool.false_ne_true, if_neg hpos, hbe, hitr]
    dsimp only
    rw [Act.modify_bind_apply, if_pos hcount]
    exact Act.bind_ok hnested _

theorem ElementTurn.run {fuel : Nat} {nestedGroup : Nat → Nat → Act (MessageBase D) Stop Nat}
    {c : GroupClass} {fnum sOffset : Nat} {r : Nat ⊕ Nat}
    (h : ElementTurn d fuel nestedGroup c fnum sOffset m r m') :
    elementTurn d fuel nestedGroup c fnum sOffset m = .ok r m' := by
  unfold elementTurn
  cases h with
  | ended h =>
    rw [if_neg (Nat.not_lt.2 h)]
    rfl
  | element sOffset' ok grp h hloop hmissing =>
    have hcheck : checkMissing d.cx grp.own.fp grp = .ok () grp := by
      unfold checkMissing
      rw [if_pos hmissing]
      rfl
    have hbody : (do
        let r ← Act.loop .fuel (groupTurn d nestedGroup) fuel (sOffset, 0)
        let grp ← Act.get
        checkMissing d.cx grp.own.fp
        pure r : Act (MessageBase D) Stop (Nat × Bool)) (c.createGroup false) =
          .ok (sOffset', ok) grp := by
      rw [Act.bind_ok hloop, Act.get_bind_apply, Act.bind_ok hcheck]
      rfl
    rw [if_pos h, Act.bind_ok (Act.onLocal_ok hbody m)]
    rfl

theorem Stored.run {fuel tv start : Nat} {itr : FieldTrait} {val : F8String} {c c' : Cursor}
    (h : Stored d fuel itr tv start val c m c' m') :
    storeField d fuel itr tv start val c m = .ok c' m' := by
  unfold storeField
  cases h with
  | field be hbe hplain =>
    rw [hbe]
    dsimp only
    rw [Act.modify_bind_apply, hplain]
    rfl
  | group be sOffset _ hbe hcount hgroup =>
    rw [hbe]
    dsimp only
    rw [Act.modify_bind_apply, if_pos hcount, Act.get_bind_apply]
    exact Act.bind_ok hgroup _

theorem DataTurn.run {permissive : Bool} {fuel lasttv : Nat} {length : F8String} {c : Cursor}
    {r : Cursor ⊕ Cursor} (hsize : fastAtoiU32 length ≤ maxFldLength - 1)
    (h : DataTurn d permissive fuel lasttv length c m r m') :
    decodeData d permissive fuel lasttv length c m = .ok r m' := by
  unfold decodeData
  dsimp only
  rw [if_neg (Nat.not_lt.2 hsize)]
  cases h with
  | unknown e tag r m' h htext hitr hunknown =>
    have htext : bufferText (overwrite (overwrite c.tag [0]) e.tag) = some tag := htext
    rw [h]
    dsimp only
    rw [htext]
    dsimp only
    rw [Act.get_bind_apply, hitr]
    exact hunknown
  | other e tag itr h htext hitr hother =>
    have htext : bufferText (overwrite (overwrite c.tag [0]) e.tag) = some tag := htext
    rw [h]
    dsimp only
    rw [htext]
    dsimp only
    rw [Act.get_bind_apply, hitr]
    dsimp only
    rw [if_pos hother]
    rfl
  | data e tag itr c' m' h htext hitr htype htag hstored =>
    have htext : bufferText (overwrite (overwrite c.tag [0]) e.tag) = some tag := htext
    rw [h]
    dsimp only
    rw [htext]
    dsimp only
    rw [Act.get_bind_apply, hitr]
    dsimp only
    rw [if_neg (not_or.2 ⟨not_not.2 htype, not_not.2 htag⟩)]
    exact Act.bind_ok hstored.run _

variable {fuel : Nat} {permissive : Bool} {c : Cursor} {e : Element}

/-- A turn that reads a field which is not there yet. -/
theorem decodeTurn_absent {itr : FieldTrait} (he : extractElement (d.rest c.sOffset) = some e)
    (hitr : m.own.fp.find (fastAtoiU16 e.tag) = some itr) (h : itr.present = false) :
    decodeTurn d permissive fuel c m = (storeField d fuel itr (fastAtoiU16 e.tag) c.sOffset e.val
      (c.behind e) >>= fun c =>
        if itr.ftype ≠ .length ∨ fastAtoiU16 e.tag = commonBodyLength then pure (.inl c)
        else decodeData d permissive fuel (fastAtoiU16 e.tag) e.val c) m := by
  unfold decodeTurn
  rw [he]
  dsimp only
  rw [Act.get_bind_apply, hitr]
  dsimp only
  rw [h, if_neg Bool.false_ne_true]
  rfl

/-- A field that is there already, and that the library sets, is passed over. -/
theorem decodeTurn_skipped {itr : FieldTrait} (he : extractElement (d.rest c.sOffset) = some e)
    (hitr : m.own.fp.find (fastAtoiU16 e.tag) = some itr) (h : itr.present = true)
    (hautomatic : itr.automatic = true) :
    decodeTurn d permissive fuel c m = .ok (.inl (c.behind e)) m := by
  unfold decodeTurn
  rw [he]
  dsimp only
  rw [Act.get_bind_apply, hitr]
  dsimp only
  rw [if_pos h, if_pos hautomatic]
  rfl

/-- A turn on an element that is not of the section. -/
theorem decodeTurn_unknown (he : extractElement (d.rest c.sOffset) = some e)
    (hitr : m.own.fp.find (fastAtoiU16 e.tag) = none) :
    decodeTurn d permissive fuel c m = unknownField d permissive (c.read e) e.result m := by
  unfold decodeTurn
  rw [he]
  dsimp only
  rw [Act.get_bind_apply, hitr]
  rfl

/-- A field that counts no group is stored. -/
theorem storeField_plain {itr : FieldTrait} {tv start : Nat} {val : F8String} {be : BaseEntry}
    (hbe : d.cx.findBe tv = some be) (h : itr.group = false) :
    storeField d fuel itr tv start val c m = .ok { c with pos := c.pos + 1 }
      (m.store tv (c.pos + 1) (d.createField be tv start val)) := by
  unfold storeField
  rw [hbe]
  dsimp only
  rw [Act.modify_bind_apply, h]
  rfl

/-- Where the loop over a section begins. -/
def sectionStart (m : MessageBase D) (o : Nat) : Cursor := ⟨o, m.own.pos.length, none, []⟩

/-- What `decode` does behind its loop. -/
def sectionEnd (d : Feed) (permissive : Bool) (c : Cursor) : Act (MessageBase D) Stop Nat := do
  let m ← Act.get
  checkMissing d.cx m.own.fp
  pure (match c.last with
    | some (pos, offset) => if permissive ∧ pos = c.pos then offset else c.sOffset
    | none => c.sOffset)

theorem decode_apply {o : Nat} : decode d permissive fuel o m =
    (Act.loop .fuel (decodeTurn d permissive fuel) fuel (sectionStart m o) >>=
      sectionEnd d permissive) m := rfl

end

end Fix8.Codec
