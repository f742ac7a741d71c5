import Fix8.Codec.Proof.Alike
import Fix8.Codec.Proof.Traits
import Fix8.Lib.Simulate

/-!
# Two decodes in step

Where a strict decode of a text returns, the decode of a text that reads the same, with an element
that the schema does not know at its end perhaps, goes the same way: it makes messages that are
alike.

* `Consumed`: a group, and a turn, ends behind what it could read where it began;
* `Follows`: from `o` to `s` the second text reads as the first, by `δ` further on;
* **`mirrored_decodeGroup`**, `mirrored_field`, **`mirrored_stored`**: groups, and the fields of a
  section.
-/

namespace Fix8.Codec

open Lib

/-! ## Progress -/

/-- What can be read at `o` ends by `o'`, within the text, or `o'` is `o`. -/
def Consumed (d : Feed) (o o' : Nat) : Prop :=
  o = o' ∨ ∃ e, extractElement (d.rest o) = some e ∧ o + e.result ≤ o' ∧ o' ≤ d.fsize

section
variable {d : Feed} {o o' o₁ : Nat} {e : Element} {valSz : Nat}

theorem length_rest : (d.rest o).length = d.fsize - o := by
  simp only [Feed.rest, List.length_drop, List.length_take, Feed.fsize]
  omega

/-- An element is within the text. -/
theorem element_le (h : extractElement (d.rest o) = some e) : o + e.result ≤ d.fsize := by
  have hle := drop_element_le h
  rw [List.length_take] at hle
  exact hle.trans (Nat.min_le_left _ _)

/-- The separator behind a value of fixed width may be missing at the end of the text. -/
theorem fixedWidth_le (h : extractElementFixedWidth valSz (d.rest o) = some e) :
    o + e.result ≤ d.fsize + 1 := by
  obtain ⟨-, hval, hlen, rest, hrest⟩ := extractElementFixedWidth_some h
  have hlength := congrArg List.length hrest
  simp only [length_rest, List.length_append, List.length_cons] at hlength
  omega

theorem length_bytes {o n : Nat} (h : o + n ≤ d.text.length + 1) : (d.bytes o n).length = n := by
  simp only [Feed.bytes, List.length_take, List.length_drop, List.length_append,
    List.length_singleton]
  omega

/-- An element of the text is put aside whole, but for the separator behind a value of fixed width
at the end of the text. -/
theorem result_le {o : Nat} {e : Element} (h : extractElement (d.rest o) = some e ∨
    ∃ valSz, extractElementFixedWidth valSz (d.rest o) = some e) :
    2 ≤ e.result ∧ o + e.result ≤ d.text.length + 1 := by
  have hsize : d.fsize ≤ d.text.length := Nat.sub_le _ _
  rcases h with h | ⟨valSz, h⟩
  · obtain ⟨-, -, hlen, -⟩ := extractElement_some h
    have hle := element_le h
    omega
  · obtain ⟨-, -, hlen, -⟩ := extractElementFixedWidth_some h
    have hle := fixedWidth_le h
    omega

theorem Consumed.le (h : Consumed d o o') : o ≤ o' := by
  rcases h with rfl | ⟨e, -, hle, -⟩
  · exact le_refl _
  · omega

theorem Consumed.le_of_le {n : Nat} (h : Consumed d o o') (ho : o ≤ n) (hn : d.fsize ≤ n) :
    o' ≤ n := by
  rcases h with rfl | ⟨e, -, -, hle⟩
  · exact ho
  · omega

theorem Consumed.of_element (h : extractElement (d.rest o) = some e)
    (hnext : Consumed d (o + e.result) o') : Consumed d o o' :=
  .inr ⟨e, h, hnext.le, hnext.le_of_le (element_le h) (le_refl _)⟩

theorem Consumed.trans (h : Consumed d o o₁) (h' : Consumed d o₁ o') : Consumed d o o' := by
  rcases h with rfl | ⟨e, he, hle, hsize⟩
  · exact h'
  · exact .inr ⟨e, he, hle.trans h'.le, h'.le_of_le hsize (le_refl _)⟩

end

section
variable {D : Type} [FpType D] {d : Feed} {m m' : MessageBase D}

theorem consumed_groupRuns {nestedGroup : Nat → Nat → Act (MessageBase D) Stop Nat}
    (hnested : ∀ fnum o m o' m', nestedGroup fnum o m = .ok o' m' → Consumed d o o')
    {c : Nat × Nat} {r : Nat × Bool} (h : Act.Runs (groupTurn d nestedGroup) c m r m') :
    Consumed d c.1 r.1 := by
  induction h with
  | done h =>
    cases groupTurn_ok h with
    | ended => exact .inl rfl
    | repeated => exact .inl rfl
    | foreign => exact .inl rfl
  | next h _ ih =>
    cases groupTurn_ok h with
    | field e be itr he => exact .of_element he ih
    | group e be itr sOffset m' he _ _ _ _ _ hgroup =>
      exact .of_element he ((hnested _ _ _ _ _ hgroup).trans ih)

theorem consumed_elementRuns {fuel : Nat}
    {nestedGroup : Nat → Nat → Act (MessageBase D) Stop Nat}
    (hnested : ∀ fnum o m o' m', nestedGroup fnum o m = .ok o' m' → Consumed d o o')
    {c : GroupClass} {fnum o o' : Nat}
    (h : Act.Runs (elementTurn d fuel nestedGroup c fnum) o m o' m') : Consumed d o o' := by
  induction h with
  | done h =>
    generalize hr : Sum.inr _ = r at h
    cases elementTurn_ok h with
    | ended =>
      cases hr
      exact .inl rfl
    | element sOffset' ok grp _ hloop =>
      cases ok with
      | true => cases hr
      | false =>
        cases hr
        exact consumed_groupRuns hnested (Act.runs_of_loop hloop)
  | next h _ ih =>
    generalize hr : Sum.inl _ = r at h
    cases elementTurn_ok h with
    | ended => cases hr
    | element sOffset' ok grp _ hloop =>
      cases ok with
      | true =>
        cases hr
        exact (consumed_groupRuns hnested (Act.runs_of_loop hloop)).trans ih
      | false => cases hr

theorem consumed_decodeGroup {fuel : Nat} : ∀ {classes : List GroupClass} {fnum o o' : Nat}
    {m m' : MessageBase D}, decodeGroup d fuel classes fnum o m = .ok o' m' → Consumed d o o' := by
  induction fuel with
  | zero =>
    intro classes fnum o o' m m' h
    cases h
  | succ fuel ih =>
    intro classes fnum o o' m m' h
    obtain ⟨n, c, m₁, hfuel, -, hloop⟩ := decodeGroup_ok h
    cases hfuel
    exact consumed_elementRuns (fun _ _ _ _ _ h => ih h) (Act.runs_of_loop hloop)

theorem consumed_stored {fuel tv start : Nat} {itr : FieldTrait} {val : F8String} {c c' : Cursor}
    (h : Stored d fuel itr tv start val c m c' m') :
    Consumed d c.sOffset c'.sOffset ∧ c'.last = c.last := by
  cases h with
  | field => exact ⟨.inl rfl, rfl⟩
  | group be sOffset m' _ _ hgroup => exact ⟨consumed_decodeGroup hgroup, rfl⟩

/-! ## Strict turns -/

omit [FpType D] in
theorem unknownField_strict {c : Cursor} {result : Nat} {r : Cursor ⊕ Cursor}
    (h : unknownField d false c result m = .ok r m') : r = .inr c ∧ m' = m := by
  cases h
  exact ⟨rfl, rfl⟩

omit [FpType D] in
theorem unknownField_permissive {c : Cursor} {result : Nat} {r : Cursor ⊕ Cursor}
    (h : unknownField d true c result m = .ok r m') :
    r = .inl { c with
      sOffset := c.sOffset + result, last := c.last.or (some (c.pos, c.sOffset)) } ∧
      m'.own.unknown = m.own.unknown ++ d.bytes c.sOffset result := by
  cases h
  exact ⟨rfl, rfl⟩

theorem strict_dataTurn {fuel lasttv : Nat} {length : F8String} {c c' : Cursor}
    (h : DataTurn d false fuel lasttv length c m (.inl c') m') (hc : c.sOffset ≤ d.fsize + 1) :
    c.sOffset ≤ c'.sOffset ∧ c'.sOffset ≤ d.fsize + 1 ∧ c'.last = c.last := by
  cases h with
  | unknown e _ _ _ _ _ _ hunknown => cases (unknownField_strict hunknown).1
  | other => exact ⟨le_refl _, hc, rfl⟩
  | data e tag itr _ _ he _ _ _ _ hstored =>
    obtain ⟨hconsumed, hlast⟩ := consumed_stored hstored
    have hle := hconsumed.le
    have hbound := hconsumed.le_of_le (fixedWidth_le he) (Nat.le_succ _)
    dsimp only at hle
    exact ⟨by omega, hbound, hlast⟩

/-- A strict turn that goes on has consumed its element. -/
theorem strict_turn {fuel : Nat} {c c' : Cursor}
    (h : decodeTurn d false fuel c m = .ok (.inl c') m') :
    (∃ e, extractElement (d.rest c.sOffset) = some e ∧ c.sOffset + e.result ≤ c'.sOffset) ∧
      c'.sOffset ≤ d.fsize + 1 ∧ c'.last = c.last := by
  generalize hr : Sum.inl c' = r at h
  cases decodeTurn_ok h with
  | ended => cases hr
  | unknown e _ _ _ _ hunknown =>
    subst hr
    cases (unknownField_strict hunknown).1
  | skipped e itr he =>
    cases hr
    exact ⟨⟨e, he, le_refl _⟩, Nat.le_succ_of_le (element_le he), rfl⟩
  | field e itr c₁ _ he _ _ hstored =>
    cases hr
    obtain ⟨hconsumed, hlast⟩ := consumed_stored hstored
    exact ⟨⟨e, he, hconsumed.le⟩, hconsumed.le_of_le (Nat.le_succ_of_le (element_le he))
      (Nat.le_succ _), hlast⟩
  | length e itr c₁ m₁ _ _ he _ _ hstored _ _ _ hdata =>
    subst hr
    obtain ⟨hconsumed, hlast⟩ := consumed_stored hstored
    have hbound := hconsumed.le_of_le (Nat.le_succ_of_le (element_le he)) (Nat.le_succ _)
    obtain ⟨hle, hsize, hlast'⟩ := strict_dataTurn hdata hbound
    exact ⟨⟨e, he, hconsumed.le.trans hle⟩, hsize, hlast'.trans hlast⟩

/-- Where a strict decode of a section comes to. -/
theorem strict_reaches {fuel : Nat} {c c₁ : Cursor} {m₁ : MessageBase D}
    (h : Act.Reaches (decodeTurn d false fuel) c m c₁ m₁) :
    c.sOffset ≤ c₁.sOffset ∧ c₁.last = c.last ∧
      (c.sOffset ≤ d.fsize + 1 → c₁.sOffset ≤ d.fsize + 1) := by
  induction h with
  | here => exact ⟨le_refl _, rfl, id⟩
  | next _ h ih =>
    obtain ⟨⟨e, -, hle⟩, hsize, hlast⟩ := strict_turn h
    obtain ⟨ihle, ihlast, -⟩ := ih
    exact ⟨by omega, hlast.trans ihlast, fun _ => hsize⟩

end

/-! ## Groups in step -/

/-- The schema knows the tags of the table. -/
def FieldTraits.Tabled (cx : F8MetaCntx) (fp : FieldTraits) : Prop :=
  ∀ k, fp.has k = true → cx.findBe k ≠ none

/-- The schema knows the tags of the class and of the classes it nests. -/
inductive GroupClass.Tabled (cx : F8MetaCntx) : GroupClass → Prop where
  | mk (fnum : Nat) (traits : FieldTraits) (nested : List GroupClass)
      (htraits : traits.Tabled cx) (hnested : ∀ c ∈ nested, Tabled cx c) :
      Tabled cx (.mk fnum traits nested)

theorem GroupClass.Tabled.traits {cx : F8MetaCntx} {c : GroupClass} (h : c.Tabled cx) :
    c.traits.Tabled cx := by
  obtain ⟨_, _, _, htraits, -⟩ := h
  exact htraits

theorem GroupClass.Tabled.nested {cx : F8MetaCntx} {c : GroupClass} (h : c.Tabled cx) :
    ∀ c' ∈ c.nested, c'.Tabled cx := by
  obtain ⟨_, _, _, -, hnested⟩ := h
  exact hnested

theorem FieldTraits.Tabled.setPresent {cx : F8MetaCntx} {fp : FieldTraits} (h : fp.Tabled cx)
    (tv : Nat) : (fp.setPresent tv).Tabled cx := by
  intro k hk
  rw [FieldTraits.has_setPresent] at hk
  exact h k hk

/-- An element under the tag `k`, which the schema does not know, is not of the table. -/
theorem FieldTraits.Tabled.find_none {cx : F8MetaCntx} {fp : FieldTraits} {k : Nat}
    (h : fp.Tabled cx) (hk : cx.findBe k = none) : fp.find k = none := by
  cases hfind : fp.find k with
  | none => rfl
  | some itr => exact absurd hk (h k (FieldTraits.has_of_find hfind))

/-- Two decodes in one call. -/
structure SameCall (d d' : Feed) : Prop where
  cx : d'.cx = d.cx
  now : d'.now = d.now
  call : d'.call = d.call

/-- The text of `d'` reads from `o + δ` on as that of `d` from `o` on, up to `s`. There it goes on
the same way, or with an element that the schema does not know. -/
structure Follows (d d' : Feed) (δ o s : Nat) : Prop extends SameCall d d' where
  fsize : d.fsize + δ ≤ d'.fsize
  element : ∀ x e, o ≤ x → extractElement (d.rest x) = some e → x + e.result ≤ s →
    extractElement (d'.rest (x + δ)) = some e
  ending : (extractElement (d'.rest (s + δ)) = extractElement (d.rest s) ∧
      (d.fsize ≤ s → d'.fsize ≤ s + δ)) ∨
    (s < d.fsize ∧ ∃ e, extractElement (d'.rest (s + δ)) = some e ∧
      d.cx.findBe (fastAtoiU16 e.tag) = none)

section
variable {d d' : Feed} {δ o s x y : Nat}

/-- The decode of a part of what is read. -/
theorem Follows.upTo (hF : Follows d d' δ o s) (hx : o ≤ x) (hxy : x ≤ y) (hy : Consumed d y s) :
    Follows d d' δ x y where
  toSameCall := hF.toSameCall
  fsize := hF.fsize
  element := fun z e hz he hle => hF.element z e (hx.trans hz) he (hle.trans hy.le)
  ending := by
    obtain rfl | ⟨e, he, hle, hsize⟩ := hy
    · exact hF.ending
    · have hbound := element_le he
      obtain ⟨-, -, hlen, -⟩ := extractElement_some he
      exact .inl ⟨(hF.element y e (hx.trans hxy) he hle).trans he.symm, fun h => by omega⟩

/-- Where the first text goes on, or has come to its end, the second does too. -/
theorem Follows.same (hF : Follows d d' δ o s) (hx : o ≤ x) (hy : Consumed d x s)
    (hend : x = s → d.fsize ≤ s) :
    extractElement (d'.rest (x + δ)) = extractElement (d.rest x) := by
  obtain rfl | ⟨e, he, hle, -⟩ := hy
  · obtain ⟨hread, -⟩ | ⟨hlt, -⟩ := hF.ending
    · exact hread
    · exact absurd (hend rfl) (Nat.not_le.2 hlt)
  · exact (hF.element x e hx he hle).trans he.symm

end

section
variable {D : Type} [FpType D] {d d' : Feed} {δ o s : Nat} {m m₁ m' : MessageBase D}

theorem createField_value (hF : SameCall d d') {be : BaseEntry} {tv start start' : Nat}
    {val : F8String} :
    (d'.createField (D := D) be tv start' val).hasGroupCount =
      (d.createField (D := D) be tv start val).hasGroupCount := by
  unfold Feed.createField
  rw [hF.now]
  rfl

theorem createField_unplaced (hF : SameCall d d') {be : BaseEntry} {tv start start' : Nat}
    {val : F8String} :
    (d'.createField (D := D) be tv start' val).unplaced d.call =
      (d.createField (D := D) be tv start val).unplaced d.call := by
  unfold Feed.createField
  rw [hF.now, hF.call]
  exact unplaced_eq

omit [FpType D] in
/-- The groups of a message are of classes that the schema knows. -/
def GroupsTabled (cx : F8MetaCntx) (m : MessageBase D) : Prop := ∀ g ∈ m.groups, g.cls.Tabled cx

omit [FpType D] in
theorem tabled_findAddGroup {cx : F8MetaCntx} {classes : List GroupClass} {fnum : Nat}
    {c : GroupClass} (h : MessageBase.findAddGroup classes fnum m = .ok c m₁)
    (hclasses : ∀ c ∈ classes, c.Tabled cx) (hm : GroupsTabled cx m) :
    c.Tabled cx ∧ GroupsTabled cx m₁ := by
  unfold MessageBase.findAddGroup at h
  cases hg : m.findGroup fnum with
  | some g =>
    rw [hg] at h
    cases h
    exact ⟨hm g (List.mem_of_find?_eq_some hg), hm⟩
  | none =>
    rw [hg] at h
    cases hc : createNestedGroup classes fnum with
    | none =>
      rw [hc] at h
      cases h
    | some c' =>
      rw [hc] at h
      cases h
      have htabled := hclasses c (List.mem_of_find?_eq_some hc)
      refine ⟨htabled, ?_⟩
      unfold MessageBase.addGroup
      split
      · exact hm
      · intro g hg
        obtain hg | hg := List.mem_append.1 hg
        · exact hm g hg
        · obtain rfl := List.mem_singleton.1 hg
          exact htabled

omit [FpType D] in
theorem tabled_addElement {cx : F8MetaCntx} {fnum : Nat} {grp : MessageBase D}
    (hm : GroupsTabled cx m) : GroupsTabled cx (MessageBase.addElement fnum grp m) := by
  intro g hg
  obtain ⟨g', hg', rfl⟩ := List.mem_map.1 hg
  have htabled := hm g' hg'
  split <;> exact htabled

theorem tabled_elementRuns {fuel fnum o o' : Nat} {cx : F8MetaCntx}
    {nestedGroup : Nat → Nat → Act (MessageBase D) Stop Nat} {c : GroupClass}
    (h : Act.Runs (elementTurn d fuel nestedGroup c fnum) o m o' m₁) (hm : GroupsTabled cx m) :
    GroupsTabled cx m₁ := by
  induction h with
  | done h =>
    generalize Sum.inr _ = r at h
    cases elementTurn_ok h with
    | ended => exact hm
    | element => exact tabled_addElement hm
  | next h _ ih =>
    generalize Sum.inl _ = r at h
    cases elementTurn_ok h with
    | ended => exact ih hm
    | element => exact ih (tabled_addElement hm)

theorem tabled_decodeGroup {fuel fnum o o' : Nat} {cx : F8MetaCntx} {classes : List GroupClass}
    (h : decodeGroup d fuel classes fnum o m = .ok o' m₁) (hclasses : ∀ c ∈ classes, c.Tabled cx)
    (hm : GroupsTabled cx m) : GroupsTabled cx m₁ := by
  obtain ⟨n, c, m₂, -, hadd, hloop⟩ := decodeGroup_ok h
  exact tabled_elementRuns (Act.runs_of_loop hloop) (tabled_findAddGroup hadd hclasses hm).2

/-! ### One element -/

/-- The nested groups of two turns are in step. -/
structure NestedFollows (d d' : Feed) (δ : Nat)
    (nestedGroup nestedGroup' : Nat → Nat → Act (MessageBase D) Stop Nat) : Prop where
  own : ∀ fnum o, Act.Keeps (MessageBase.own (D := D)) (nestedGroup fnum o)
  consumed : ∀ fnum o m o₁ m₁, nestedGroup fnum o m = .ok o₁ m₁ → Consumed d o o₁
  tabled : ∀ fnum o m o₁ m₁, nestedGroup fnum o m = .ok o₁ m₁ → GroupsTabled d.cx m →
    GroupsTabled d.cx m₁
  mirrored : ∀ fnum o (m : MessageBase D) o₁ m₁ m', nestedGroup fnum o m = .ok o₁ m₁ →
    Follows d d' δ o o₁ → GroupsTabled d.cx m → m.Alike d.call m' →
      ∃ m₁', nestedGroup' fnum (o + δ) m' = .ok (o₁ + δ) m₁' ∧ m₁.Alike d.call m₁'

variable {nestedGroup nestedGroup' : Nat → Nat → Act (MessageBase D) Stop Nat}

/-- Where the inner loops stand. -/
structure ElementFollows (d : Feed) (δ o : Nat) (c : Nat × Nat) (grp : MessageBase D)
    (c' : Nat × Nat) (grp' : MessageBase D) : Prop where
  cursor : c' = (c.1 + δ, c.2)
  start : o ≤ c.1
  alike : grp.Alike d.call grp'
  table : grp.own.fp.Tabled d.cx
  groups : GroupsTabled d.cx grp

/-- A turn that goes on. -/
theorem mirrored_groupTurn {r : Nat × Bool} (hF : Follows d d' δ o r.1)
    (hN : NestedFollows d d' δ nestedGroup nestedGroup') {c c₁ c' : Nat × Nat}
    {grp grp₁ grp' grp₂ : MessageBase D} (hI : ElementFollows d δ o c grp c' grp')
    (h : groupTurn d nestedGroup c grp = .ok (.inl c₁) grp₁)
    (hrest : Act.Runs (groupTurn d nestedGroup) c₁ grp₁ r grp₂) :
    ∃ c₁' grp₁', groupTurn d' nestedGroup' c' grp' = .ok (.inl c₁') grp₁' ∧
      ElementFollows d δ o c₁ grp₁ c₁' grp₁' := by
  obtain ⟨rfl, hfrom, halike, htable, hgroups⟩ := hI
  have hconsumed := consumed_groupRuns hN.consumed hrest
  generalize hres : Sum.inl c₁ = res at h
  cases groupTurn_ok h with
  | ended => cases hres
  | repeated => cases hres
  | foreign => cases hres
  | field e be itr he hpresent hpos hbe hitr hplain =>
    cases hres
    have he' := hF.element _ _ hfrom he hconsumed.le
    refine ⟨(c.1 + e.result + δ, c.2 + 1), grp'.store (fastAtoiU16 e.tag) (c.2 + 1)
      (d'.createField be (fastAtoiU16 e.tag) (c.1 + δ) e.val), ?_, rfl,
        hfrom.trans (Nat.le_add_right _ _), halike.store (createField_unplaced hF.toSameCall),
        htable.setPresent _, hgroups⟩
    have hturn : GroupTurn d' nestedGroup' (c.1 + δ, c.2) grp' _ _ :=
      .field e be itr he' (halike.isPresent.trans hpresent) (halike.fp ▸ hpos)
        (hF.cx ▸ hbe) (halike.fp ▸ hitr) (by rw [createField_value hF.toSameCall]; exact hplain)
    rw [hturn.run]
    simp only [Nat.add_right_comm]
  | group e be itr sOffset _ he hpresent hpos hbe hitr hcount hnested =>
    cases hres
    have hinner := hN.consumed _ _ _ _ _ hnested
    have he' := hF.element _ _ hfrom he (hinner.le.trans hconsumed.le)
    have hstart : o ≤ c.1 + e.result := hfrom.trans (Nat.le_add_right _ _)
    have hstored : (grp.store (fastAtoiU16 e.tag) (c.2 + 1)
        (d.createField be (fastAtoiU16 e.tag) c.1 e.val)).Alike d.call
          (grp'.store (fastAtoiU16 e.tag) (c.2 + 1)
            (d'.createField be (fastAtoiU16 e.tag) (c.1 + δ) e.val)) :=
      halike.store (createField_unplaced hF.toSameCall)
    obtain ⟨grp₁', hnested', halike₁⟩ := hN.mirrored _ _ _ _ _ _ hnested
      (hF.upTo hstart hinner.le hconsumed) hgroups hstored
    have hown := hN.own (fastAtoiU16 e.tag) (c.1 + e.result) (grp.store (fastAtoiU16 e.tag)
      (c.2 + 1) (d.createField be (fastAtoiU16 e.tag) c.1 e.val))
    rw [hnested, Res.state_ok] at hown
    refine ⟨(sOffset + δ, c.2 + 1), grp₁', ?_, rfl, hstart.trans hinner.le, halike₁,
      hown ▸ htable.setPresent _, hN.tabled _ _ _ _ _ hnested hgroups⟩
    rw [Nat.add_right_comm] at hnested'
    have hturn : GroupTurn d' nestedGroup' (c.1 + δ, c.2) grp' _ _ :=
      .group e be itr _ _ he' (halike.isPresent.trans hpresent) (halike.fp ▸ hpos)
        (hF.cx ▸ hbe) (halike.fp ▸ hitr) (by rw [createField_value hF.toSameCall]; exact hcount)
          hnested'
    exact hturn.run

/-- The last turn. An element that the schema does not know ends the loop as one that is not of the
group does. -/
theorem mirrored_groupEnd {r : Nat × Bool} (hF : Follows d d' δ o r.1)
    (hend : r.2 = true → extractElement (d'.rest (r.1 + δ)) = extractElement (d.rest r.1))
    {c c' : Nat × Nat} {grp grp₁ grp' : MessageBase D} (hI : ElementFollows d δ o c grp c' grp')
    (h : groupTurn d nestedGroup c grp = .ok (.inr r) grp₁) :
    ∃ r' grp₁', groupTurn d' nestedGroup' c' grp' = .ok (.inr r') grp₁' ∧
      r' = (r.1 + δ, r.2) ∧ grp₁.Alike d.call grp₁' := by
  obtain ⟨rfl, hfrom, halike, htable, hgroups⟩ := hI
  generalize hres : Sum.inr r = res at h
  cases groupTurn_ok h with
  | field => cases hres
  | group => cases hres
  | ended he =>
    cases hres
    have hturn : GroupTurn d' nestedGroup' (c.1 + δ, c.2) grp' _ _ := .ended ((hend rfl).trans he)
    exact ⟨_, grp', hturn.run, rfl, halike⟩
  | repeated e he hpresent =>
    cases hres
    have hturn : GroupTurn d' nestedGroup' (c.1 + δ, c.2) grp' _ _ :=
      .repeated e ((hend rfl).trans he) (halike.isPresent.trans hpresent)
    exact ⟨_, grp', hturn.run, rfl, halike⟩
  | foreign e he hpresent hpos hforeign =>
    cases hres
    obtain ⟨hread, -⟩ | ⟨-, u, hu, hunknown⟩ := hF.ending
    · have hturn : GroupTurn d' nestedGroup' (c.1 + δ, c.2) grp' _ _ :=
        .foreign e (hread.trans he) (halike.isPresent.trans hpresent) (halike.fp ▸ hpos)
          (hF.cx ▸ halike.fp ▸ hforeign)
      exact ⟨_, grp', hturn.run, rfl, halike⟩
    · -- what ended the loop was not the first element, or it would be of the group
      have hfirst : c.2 ≠ 0 := by
        intro hzero
        have hone : grp.own.fp.getPos (fastAtoiU16 e.tag) = 1 := by
          by_contra hne
          exact hpos ⟨hzero, hne⟩
        have hhas : grp.own.fp.find (fastAtoiU16 e.tag) ≠ none := by
          intro hnone
          rw [FieldTraits.getPos, hnone] at hone
          cases hone
        obtain ⟨itr, hitr⟩ := Option.ne_none_iff_exists'.1 hhas
        obtain hbe | hnone := hforeign
        · exact htable _ (FieldTraits.has_of_find hitr) hbe
        · exact hhas hnone
      have hnone := htable.find_none hunknown
      have habsent : grp.isPresent (fastAtoiU16 u.tag) = false := by
        rw [MessageBase.isPresent, FieldTraits.present, hnone]
        rfl
      have hturn : GroupTurn d' nestedGroup' (c.1 + δ, c.2) grp' _ _ :=
        .foreign u hu (halike.isPresent.trans habsent) (fun hand => hfirst hand.1)
          (.inl (hF.cx ▸ hunknown))
      exact ⟨_, grp', hturn.run, rfl, halike⟩

/-- An element of a group. -/
theorem mirrored_groupLoop {r : Nat × Bool} (hF : Follows d d' δ o r.1)
    (hN : NestedFollows d d' δ nestedGroup nestedGroup')
    (hend : r.2 = true → extractElement (d'.rest (r.1 + δ)) = extractElement (d.rest r.1))
    {n : Nat} {c c' : Nat × Nat} {grp grp₁ grp' : MessageBase D}
    (hI : ElementFollows d δ o c grp c' grp')
    (h : Act.loop .fuel (groupTurn d nestedGroup) n c grp = .ok r grp₁) :
    ∃ grp₁', Act.loop .fuel (groupTurn d' nestedGroup') n c' grp' = .ok (r.1 + δ, r.2) grp₁' ∧
      grp₁.Alike d.call grp₁' := by
  obtain ⟨r', grp₁', hloop, rfl, halike⟩ := Act.loop_mirrored (I := ElementFollows d δ o)
    (J := fun r' grp' => r' = (r.1 + δ, r.2) ∧ grp₁.Alike d.call grp')
    (fun _ _ _ _ _ _ hI h hrest => mirrored_groupTurn hF hN hI h hrest)
    (fun _ _ _ _ hI h => mirrored_groupEnd hF hend hI h) hI h
  exact ⟨grp₁', hloop, halike⟩

/-! ### Groups -/

/-- A group that has come to an end has read all, or something since. -/
theorem elementRuns_stay (hN : NestedFollows d d' δ nestedGroup nestedGroup') {c : GroupClass}
    (hc : c.Tabled d.cx) {fuel fnum x s : Nat}
    (h : Act.Runs (elementTurn d fuel nestedGroup c fnum) x m s m₁) (hx : x = s) : d.fsize ≤ s := by
  induction h with
  | done h =>
    generalize hres : Sum.inr _ = res at h
    cases elementTurn_ok h with
    | ended hsize =>
      cases hres
      exact hsize
    | element x₁ ok grp hlt hloop =>
      cases ok with
      | true => cases hres
      | false =>
        cases hres
        subst hx
        obtain ⟨r, grp₁, hturn, honward⟩ := (Act.runs_of_loop hloop).onward
        cases groupTurn_ok hturn with
        | ended => cases honward.1
        | repeated => cases honward.1
        | foreign e he hpresent hpos hforeign =>
          -- the first element of a group is of the group
          exfalso
          have hone : c.traits.getPos (fastAtoiU16 e.tag) = 1 := by
            by_contra hne
            exact hpos ⟨rfl, hne⟩
          have hhas : c.traits.find (fastAtoiU16 e.tag) ≠ none := by
            intro hnone
            rw [FieldTraits.getPos, hnone] at hone
            cases hone
          obtain ⟨itr, hitr⟩ := Option.ne_none_iff_exists'.1 hhas
          obtain hbe | hnone := hforeign
          · exact hc.traits _ (FieldTraits.has_of_find hitr) hbe
          · exact hhas hnone
        | field e be itr he =>
          have hle := (consumed_groupRuns hN.consumed honward).le
          obtain ⟨-, -, hlen, -⟩ := extractElement_some he
          dsimp only at hle
          omega
        | group e be itr sOffset _ he _ _ _ _ _ hnested =>
          have hle := (consumed_groupRuns hN.consumed honward).le
          have hinner := (hN.consumed _ _ _ _ _ hnested).le
          obtain ⟨-, -, hlen, -⟩ := extractElement_some he
          dsimp only at hle hinner
          omega
  | next h hrest ih =>
    generalize hres : Sum.inl _ = res at h
    cases elementTurn_ok h with
    | ended => cases hres
    | element x₁ ok grp hlt hloop =>
      cases ok with
      | false => cases hres
      | true =>
        cases hres
        have hle := (consumed_groupRuns hN.consumed (Act.runs_of_loop hloop)).le
        have hle' := (consumed_elementRuns hN.consumed hrest).le
        dsimp only at hle
        exact ih (by omega)

/-- Where the outer loops stand. -/
structure GroupFollows (d : Feed) (δ o x : Nat) (m : MessageBase D) (x' : Nat)
    (m' : MessageBase D) : Prop where
  offset : x' = x + δ
  start : o ≤ x
  alike : m.Alike d.call m'
  groups : GroupsTabled d.cx m

omit [FpType D] in
/-- A new element. -/
theorem elementFollows_new {c : GroupClass} (hc : c.Tabled d.cx) (x : Nat) :
    ElementFollows d δ x (x, 0) (c.createGroup (D := D) false) (x + δ, 0) (c.createGroup false) :=
  ⟨rfl, le_refl _, .refl _, hc.traits, fun _ hg => absurd hg List.not_mem_nil⟩

/-- An element, and the group goes on. -/
theorem mirrored_elementTurn (hF : Follows d d' δ o s)
    (hN : NestedFollows d d' δ nestedGroup nestedGroup') {c : GroupClass} (hc : c.Tabled d.cx)
    {fuel fnum x x₁ x' : Nat} {m₂ : MessageBase D} (hI : GroupFollows d δ o x m x' m')
    (h : elementTurn d fuel nestedGroup c fnum x m = .ok (.inl x₁) m₁)
    (hrest : Act.Runs (elementTurn d fuel nestedGroup c fnum) x₁ m₁ s m₂) :
    ∃ x₁' m₁', elementTurn d' fuel nestedGroup' c fnum x' m' = .ok (.inl x₁') m₁' ∧
      GroupFollows d δ o x₁ m₁ x₁' m₁' := by
  obtain ⟨rfl, hfrom, halike, hgroups⟩ := hI
  have hconsumed := consumed_elementRuns hN.consumed hrest
  generalize hres : Sum.inl x₁ = res at h
  cases elementTurn_ok h with
  | ended => cases hres
  | element x₁ ok grp hlt hloop hmissing =>
    cases ok with
    | false => cases hres
    | true =>
      cases hres
      have hle : x ≤ x₁ := (consumed_groupRuns hN.consumed (Act.runs_of_loop hloop)).le
      have hsame := hF.same (hfrom.trans hle) hconsumed (elementRuns_stay hN hc hrest)
      obtain ⟨grp', hloop', hgrp⟩ := mirrored_groupLoop (r := (x₁, true))
        (hF.upTo hfrom hle hconsumed) hN (fun _ => hsame) (elementFollows_new hc x) hloop
      have hturn : ElementTurn d' fuel nestedGroup' c fnum (x + δ) m' _ _ :=
        .element (x₁ + δ) true grp' (Nat.lt_of_lt_of_le (Nat.add_lt_add_right hlt δ) hF.fsize)
          hloop' (hgrp.fp ▸ hmissing)
      exact ⟨_, _, hturn.run, rfl, hfrom.trans hle, halike.addElement hgrp fnum,
        tabled_addElement hgroups⟩

/-- The group ends, with an element or at the end of the text. -/
theorem mirrored_elementEnd (hF : Follows d d' δ o s)
    (hN : NestedFollows d d' δ nestedGroup nestedGroup') {c : GroupClass} (hc : c.Tabled d.cx)
    {fuel fnum x x' : Nat} (hI : GroupFollows d δ o x m x' m')
    (h : elementTurn d fuel nestedGroup c fnum x m = .ok (.inr s) m₁) :
    ∃ s' m₁', elementTurn d' fuel nestedGroup' c fnum x' m' = .ok (.inr s') m₁' ∧
      s' = s + δ ∧ m₁.Alike d.call m₁' := by
  obtain ⟨rfl, hfrom, halike, hgroups⟩ := hI
  generalize hres : Sum.inr s = res at h
  cases elementTurn_ok h with
  | ended hsize =>
    cases hres
    obtain ⟨-, hend⟩ | ⟨hlt, -⟩ := hF.ending
    · have hturn : ElementTurn d' fuel nestedGroup' c fnum (s + δ) m' _ _ := .ended (hend hsize)
      exact ⟨_, _, hturn.run, rfl, halike⟩
    · exact absurd hsize (Nat.not_le.2 hlt)
  | element x₁ ok grp hlt hloop hmissing =>
    cases ok with
    | true => cases hres
    | false =>
      cases hres
      have hle : x ≤ s := (consumed_groupRuns hN.consumed (Act.runs_of_loop hloop)).le
      obtain ⟨grp', hloop', hgrp⟩ := mirrored_groupLoop (r := (s, false))
        (hF.upTo hfrom hle (.inl rfl)) hN (fun h => absurd h Bool.false_ne_true)
          (elementFollows_new hc x) hloop
      have hturn : ElementTurn d' fuel nestedGroup' c fnum (x + δ) m' _ _ :=
        .element (s + δ) false grp' (Nat.lt_of_lt_of_le (Nat.add_lt_add_right hlt δ) hF.fsize)
          hloop' (hgrp.fp ▸ hmissing)
      exact ⟨_, _, hturn.run, rfl, halike.addElement hgrp fnum⟩

/-- The elements of a group. -/
theorem mirrored_elementLoop (hF : Follows d d' δ o s)
    (hN : NestedFollows d d' δ nestedGroup nestedGroup') {c : GroupClass} (hc : c.Tabled d.cx)
    {fuel fnum n x x' : Nat} (hI : GroupFollows d δ o x m x' m')
    (h : Act.loop .fuel (elementTurn d fuel nestedGroup c fnum) n x m = .ok s m₁) :
    ∃ m₁', Act.loop .fuel (elementTurn d' fuel nestedGroup' c fnum) n x' m' = .ok (s + δ) m₁' ∧
      m₁.Alike d.call m₁' := by
  obtain ⟨s', m₁', hloop, rfl, halike⟩ := Act.loop_mirrored (I := GroupFollows d δ o)
    (J := fun s' m' => s' = s + δ ∧ m₁.Alike d.call m')
    (fun _ _ _ _ _ _ hI h hrest => mirrored_elementTurn hF hN hc hI h hrest)
    (fun _ _ _ _ hI h => mirrored_elementEnd hF hN hc hI h) hI h
  exact ⟨m₁', hloop, halike⟩

/-- **A group in step.** -/
theorem mirrored_decodeGroup {fuel : Nat} : ∀ {classes : List GroupClass} {fnum o s : Nat}
    {m m₁ m' : MessageBase D}, decodeGroup d fuel classes fnum o m = .ok s m₁ →
      Follows d d' δ o s → (∀ c ∈ classes, c.Tabled d.cx) → GroupsTabled d.cx m →
      m.Alike d.call m' → ∃ m₁', decodeGroup d' fuel classes fnum (o + δ) m' = .ok (s + δ) m₁' ∧
        m₁.Alike d.call m₁' := by
  induction fuel with
  | zero =>
    intro classes fnum o s m m₁ m' h
    cases h
  | succ fuel ih =>
    intro classes fnum o s m m₁ m' h hF hclasses hgroups halike
    obtain ⟨n, c, m₂, hfuel, hadd, hloop⟩ := decodeGroup_ok h
    cases hfuel
    obtain ⟨hc, hgroups₂⟩ := tabled_findAddGroup hadd hclasses hgroups
    obtain ⟨m₂', hadd', halike₂⟩ := alike_findAddGroup halike hadd
    have hN : NestedFollows (D := D) d d' δ (decodeGroup d fuel c.nested)
        (decodeGroup d' fuel c.nested) :=
      ⟨fun _ _ => keeps_decodeGroup, fun _ _ _ _ _ h => consumed_decodeGroup h,
        fun _ _ _ _ _ h => tabled_decodeGroup h hc.nested,
        fun _ _ _ _ _ _ h hF => ih h hF hc.nested⟩
    obtain ⟨m₁', hloop', halike₁⟩ := mirrored_elementLoop hF hN hc
      ⟨rfl, le_refl _, halike₂, hgroups₂⟩ hloop
    refine ⟨m₁', ?_, halike₁⟩
    rw [decodeGroup, Act.bind_ok hadd']
    exact hloop'

/-! ## The fields of a section in step -/

omit [FpType D] in
/-- The groups of a section, and those it can make, are of classes that the schema knows. -/
structure MessageBase.Tabled (cx : F8MetaCntx) (m : MessageBase D) : Prop where
  nested : ∀ c ∈ m.nested, c.Tabled cx
  groups : GroupsTabled cx m

/-- A field that counts no group. -/
theorem mirrored_field {fuel tv start : Nat} {itr : FieldTrait} {val : F8String} {c c' : Cursor}
    {be : BaseEntry} (hbe : d.cx.findBe tv = some be)
    (hplain : (itr.group && (d.createField (D := D) be tv start val).hasGroupCount) = false)
    (hS : SameCall d d') (halike : m.Alike d.call m') (hpos : c'.pos = c.pos) :
    ∃ m₁', Stored d' fuel itr tv (start + δ) val c' m' { c' with pos := c.pos + 1 } m₁' ∧
      (m.store tv (c.pos + 1) (d.createField be tv start val)).Alike d.call m₁' := by
  refine ⟨m'.store tv (c.pos + 1) (d'.createField be tv (start + δ) val), ?_,
    halike.store (createField_unplaced hS)⟩
  have hstored : Stored d' fuel itr tv (start + δ) val c' m' _ _ :=
    .field be (hS.cx ▸ hbe) (by rw [createField_value hS]; exact hplain)
  rw [hpos] at hstored
  exact hstored

/-- The field that both store. -/
theorem mirrored_stored {fuel tv start : Nat} {itr : FieldTrait} {val : F8String}
    {c c₁ c' : Cursor} (h : Stored d fuel itr tv start val c m c₁ m₁)
    (hF : Follows d d' δ c.sOffset c₁.sOffset) (hm : m.Tabled d.cx) (halike : m.Alike d.call m')
    (hoffset : c'.sOffset = c.sOffset + δ) (hpos : c'.pos = c.pos) :
    ∃ m₁', Stored d' fuel itr tv (start + δ) val c' m'
        { c' with sOffset := c₁.sOffset + δ, pos := c₁.pos } m₁' ∧ m₁.Alike d.call m₁' := by
  cases h with
  | field be hbe hplain =>
    obtain ⟨m₁', hstored, halike₁⟩ :=
      mirrored_field (δ := δ) hbe hplain hF.toSameCall halike hpos
    refine ⟨m₁', ?_, halike₁⟩
    rw [← hoffset]
    exact hstored
  | group be sOffset _ hbe hcount hgroup =>
    obtain ⟨m₁', hgroup', halike₁⟩ := mirrored_decodeGroup hgroup hF hm.nested hm.groups
      (halike.store (createField_unplaced hF.toSameCall))
    refine ⟨m₁', ?_, halike₁⟩
    rw [← hoffset, ← hpos, ← halike.nested] at hgroup'
    have hstored : Stored d' fuel itr tv (start + δ) val c' m' _ _ :=
      .group be _ _ (hF.cx ▸ hbe) (by rw [createField_value hF.toSameCall]; exact hcount) hgroup'
    rw [hpos] at hstored
    exact hstored

end

end Fix8.Codec
