import Fix8.Codec.Proof.Lockstep
import Fix8.Codec.Proof.Seqnum
import Fix8.Lib.Splice

/-!
# Unknown elements between the fields

A permissive pass over a section goes through the fields as a strict one does, and puts aside what
is inserted between them.

* `ForeignElement`, `TurnsAt`: what can be inserted, and where;
* `Reads`: where a strict pass goes on, it reads an element;
* `LengthsUndisturbed`: what stands behind a Length field is read as without the insertions;
* **`Woven`**: where a permissive pass over the text with the insertions stands when a strict one
  has come to some field; **`woven_reaches`**: it comes there.
-/

namespace Fix8.Codec

open Lib

/-! ## Insertions -/

/-- The schema does not know the tag. -/
structure UnknownTag (cx : F8MetaCntx) (k : Nat) : Prop where
  findBe : cx.findBe k = none
  header : cx.header.traits.find k = none
  body : ∀ mtype bme, cx.findBme mtype = some bme → bme.traits.find k = none
  trailer : cx.trailer.traits.find k = none

/-- The digits in front of an element. -/
def elementTag (u : F8String) : F8String := u.takeWhile isdigit

/-- An element under a tag that the schema does not know, which the decoder has room for. -/
def ForeignElement (cx : F8MetaCntx) (u : F8String) : Prop :=
  ∃ tag val, u = tag ++ assignmentSeparator :: (val ++ [fieldSeparator]) ∧
    (∀ c ∈ tag, isdigit c = true) ∧ fieldSeparator ∉ val ∧ tag.length < maxFldLength ∧
    val.length < maxFldLength ∧ UnknownTag cx (fastAtoiU16 tag)

theorem elementTag_append {tag rest : F8String} (h : ∀ c ∈ tag, isdigit c = true) :
    elementTag (tag ++ assignmentSeparator :: rest) = tag := by
  unfold elementTag
  rw [List.takeWhile_append_of_pos h, List.takeWhile_cons_of_neg (by decide), List.append_nil]

/-- It is read as it stands, whatever follows it. -/
theorem foreign_read {cx : F8MetaCntx} {u : F8String} (h : ForeignElement cx u) (rest : F8String) :
    ∃ e, extractElement (u ++ rest) = some e ∧ e.tag = elementTag u ∧
      UnknownTag cx (fastAtoiU16 e.tag) ∧ e.result = u.length := by
  obtain ⟨tag, val, rfl, htag, hval, -, -, hunknown⟩ := h
  refine ⟨⟨tag, val, tag.length + val.length + 2⟩, ?_, ?_, hunknown, ?_⟩
  · simp only [List.append_assoc, List.cons_append, List.nil_append]
    exact extractElement_append htag hval
  · rw [elementTag_append htag]
  · simp only [List.length_append, List.length_cons, List.length_nil]
    omega

/-- The turn from `c` reads the Length field `e` and goes on to what follows it. -/
structure ReadsLength {D : Type} (d : Feed) (c : Cursor) (m : MessageBase D) (e : Element) :
    Prop where
  read : extractElement (d.rest c.sOffset) = some e
  field : ∃ itr, m.own.fp.find (fastAtoiU16 e.tag) = some itr ∧ itr.present = false ∧
    itr.ftype = .length
  tag : fastAtoiU16 e.tag ≠ commonBodyLength

section
variable {D : Type} [FpType D]

/-- The strict decode of a part begins to read a field at `o`, or ends there. What follows a Length
field is read in the turn of that field. -/
def TurnsAt (d : Feed) (fuel start : Nat) (m : MessageBase D) (o : Nat) : Prop :=
  ∃ c m', Act.Reaches (decodeTurn d false fuel) (sectionStart m start) m c m' ∧
    (c.sOffset = o ∨ ∃ e, ReadsLength d c m' e ∧ c.sOffset + e.result = o)

/-! ## Where a strict pass goes on -/

/-- Between `x` and `y`, if there is anything, an element can be read at `x`. -/
def Reads (text : F8String) (x y : Nat) : Prop :=
  x = y ∨ ∃ e, extractElement (text.drop x) = some e ∧ x + e.result ≤ y

section
variable {text : F8String} {x y z : Nat}

omit [FpType D] in
theorem Reads.le (h : Reads text x y) : x ≤ y := by
  rcases h with rfl | ⟨e, -, hle⟩
  · exact le_refl _
  · exact Nat.le_of_add_right_le hle

theorem Reads.trans (h : Reads text x y) (h' : Reads text y z) : Reads text x z := by
  rcases h with rfl | ⟨e, he, hle⟩
  · exact h'
  · exact .inr ⟨e, he, hle.trans h'.le⟩

/-- Behind what cannot be read nothing is read. -/
theorem Reads.eq_of_none (h : Reads text x y) (hnone : extractElement (text.drop x) = none) :
    y = x := by
  rcases h with rfl | ⟨e, he, -⟩
  · rfl
  · rw [hnone] at he
    cases he

/-- What is read at `x` is read in front of `y`. -/
theorem Reads.element (h : Reads text x y) (hlt : x < y) {e : Element}
    (he : extractElement (text.drop x) = some e) : x + e.result ≤ y := by
  rcases h with rfl | ⟨e', he', hle⟩
  · exact absurd hlt (Nat.lt_irrefl _)
  · rw [he] at he'
    cases he'
    exact hle

end

section
variable {d : Feed} {fuel start o : Nat} {m m' m₁ m₀ : MessageBase D} {c c' c₁ : Cursor}
  {e : Element}

theorem element_rest (he : extractElement (d.rest o) = some e) :
    extractElement (d.text.drop o) = some e := by
  unfold Feed.rest at he
  rw [List.drop_take] at he
  exact extractElement_of_take he

omit [FpType D] in
theorem ReadsLength.reads (h : ReadsLength d c m e) :
    Reads d.text c.sOffset (c.sOffset + e.result) :=
  .inr ⟨e, element_rest h.read, le_refl _⟩

/-- A turn that goes on reads what is there. -/
theorem turn_reads (h : decodeTurn d false fuel c m = .ok (.inl c') m') :
    Reads d.text c.sOffset c'.sOffset := by
  obtain ⟨⟨e, he, hle⟩, -⟩ := strict_turn h
  exact .inr ⟨e, element_rest he, hle⟩

theorem reaches_reads (h : Act.Reaches (decodeTurn d false fuel) c m c₁ m₁) :
    Reads d.text c.sOffset c₁.sOffset := by
  induction h with
  | here => exact .inl rfl
  | next _ h ih => exact ih.trans (turn_reads h)

/-- Also the last one, which ends behind a Length field or where it began. -/
theorem last_reads (h : decodeTurn d false fuel c m = .ok (.inr c') m') :
    Reads d.text c.sOffset c'.sOffset ∧ c'.last = c.last := by
  generalize hr : Sum.inr c' = r at h
  cases decodeTurn_ok h with
  | ended =>
    cases hr
    exact ⟨.inl rfl, rfl⟩
  | unknown e _ _ _ _ hunknown =>
    subst hr
    obtain ⟨hc, -⟩ := unknownField_strict hunknown
    cases hc
    exact ⟨.inl rfl, rfl⟩
  | skipped => cases hr
  | field => cases hr
  | length e itr c₁ m₁ _ _ he _ _ hstored _ _ _ hdata =>
    subst hr
    cases hdata with
    | unknown x tag _ _ _ _ _ hunknown =>
      obtain ⟨hc, -⟩ := unknownField_strict hunknown
      cases hc
      exact ⟨.inr ⟨e, element_rest he, (consumed_stored hstored).1.le⟩, hstored.last⟩

theorem runs_reads (h : Act.Runs (decodeTurn d false fuel) c m c' m') :
    Reads d.text c.sOffset c'.sOffset ∧ c'.last = c.last := by
  obtain ⟨c₁, m₁, hreach, hlast⟩ := Act.runs_reaches h
  obtain ⟨hreads, hsame⟩ := last_reads hlast
  exact ⟨(reaches_reads hreach).trans hreads, hsame.trans (strict_reaches hreach).2.1⟩

theorem turnsAt_reads (h : TurnsAt d fuel start m₀ o) : Reads d.text start o := by
  obtain ⟨c, m, hreach, rfl | ⟨e, hlength, rfl⟩⟩ := h
  · exact reaches_reads hreach
  · exact (reaches_reads hreach).trans hlength.reads

/-- Nothing is between the fields that a turn reads, but behind a Length field. -/
theorem turnsAt_turn
    (hreach : Act.Reaches (decodeTurn d false fuel) (sectionStart m₀ start) m₀ c m)
    (hat : TurnsAt d fuel start m₀ o) (hlt : c.sOffset < o) :
    (∃ e, ReadsLength d c m e ∧ c.sOffset + e.result = o) ∨
      ∃ c₁ m₁, decodeTurn d false fuel c m = .ok (.inl c₁) m₁ ∧ Reads d.text c₁.sOffset o := by
  obtain ⟨c₂, m₂, hreach₂, ho⟩ := hat
  have hreads : Reads d.text c₂.sOffset o := by
    obtain rfl | ⟨e, hlength, rfl⟩ := ho
    · exact .inl rfl
    · exact hlength.reads
  have hhere : c₂ = c ∧ m₂ = m → ∃ e, ReadsLength d c m e ∧ c.sOffset + e.result = o := by
    rintro ⟨rfl, rfl⟩
    exact ho.resolve_left (Nat.ne_of_lt hlt)
  rcases hreach.linear hreach₂ with hon | hback
  · rcases hon.cases_head with heq | ⟨c₁, m₁, hturn, hon⟩
    · exact .inl (hhere heq)
    · exact .inr ⟨c₁, m₁, hturn, (reaches_reads hon).trans hreads⟩
  · rcases hback.cases_head with ⟨rfl, rfl⟩ | ⟨c₃, m₃, hturn, hback⟩
    · exact .inl (hhere ⟨rfl, rfl⟩)
    · -- what that turn reads ends in front of `c`
      exfalso
      have hle := (reaches_reads hback).le
      obtain ⟨⟨e, he, hend⟩, -⟩ := strict_turn hturn
      obtain rfl | ⟨e', hlength, rfl⟩ := ho
      · exact absurd hlt (by omega)
      · have hsame := hlength.read
        rw [he] at hsame
        cases hsame
        omega

end

/-! ## The text with the insertions -/

/-- The decode of the text with the insertions. -/
def Feed.splice (d : Feed) (ins : List (Nat × F8String)) : Feed :=
  { d with text := Lib.splice d.text ins }

/-- Unknown elements, in order, where `between` allows them. The CheckSum stands behind them all. -/
structure Insertions (cx : F8MetaCntx) (text : F8String) (between : Nat → Prop)
    (ins : List (Nat × F8String)) : Prop where
  sorted : ins.Pairwise fun i j => i.1 ≤ j.1
  room : ∀ i ∈ ins, i.1 + 7 ≤ text.length
  between : ∀ i ∈ ins, between i.1
  element : ∀ i ∈ ins, ForeignElement cx i.2

section
variable {d : Feed} {ins done todo : List (Nat × F8String)} {i : Nat × F8String} {o s x y : Nat}
  {between : Nat → Prop} {e : Element}

omit [FpType D] in
theorem rest_of_whole (hd : d.ignore = 0) : d.rest o = d.text.drop o := by
  unfold Feed.rest Feed.fsize
  rw [hd, Nat.sub_zero, List.take_length]

omit [FpType D] in
theorem fsize_of_whole (hd : d.ignore = 0) : d.fsize = d.text.length := by
  rw [Feed.fsize, hd, Nat.sub_zero]

omit [FpType D] in
theorem ignore_splice (hd : d.ignore = 0) : (d.splice ins).ignore = 0 := hd

omit [FpType D] in
theorem fsize_splice (hd : d.ignore = 0) :
    (d.splice ins).fsize = d.fsize + (inserted ins).length := by
  rw [fsize_of_whole hd, fsize_of_whole (ignore_splice hd)]
  exact length_splice

omit [FpType D] in
/-- What is read is what stands in the text. -/
theorem bytes_rest {u tail : F8String} (h : d.rest o = u ++ tail) : d.bytes o u.length = u := by
  unfold Feed.rest at h
  rw [List.drop_take] at h
  have hdrop : d.text.drop o = u ++ (tail ++ (d.text.drop o).drop (d.fsize - o)) := by
    rw [← List.append_assoc, ← h, List.take_append_drop]
  unfold Feed.bytes
  rw [List.drop_append, hdrop, List.append_assoc, List.take_left]

variable (hd : d.ignore = 0) (hins : Insertions d.cx d.text between (done ++ todo))
include hd hins

omit [FpType D] in
theorem splice_rest (hdone : ∀ i ∈ done, i.1 ≤ x) :
    (d.splice (done ++ todo)).rest (x + (inserted done).length) =
      (Lib.splice d.text todo).drop x := by
  rw [rest_of_whole (ignore_splice hd)]
  refine drop_splice fun i hi => ⟨hdone i hi, ?_⟩
  have hroom := hins.room i (List.mem_append_left _ hi)
  omega

omit [FpType D] in
/-- In front of the next insertion the text is the same. -/
theorem splice_rest_take (hdone : ∀ i ∈ done, i.1 ≤ x) (htodo : ∀ i ∈ todo, x + y ≤ i.1)
    (hy : x + y ≤ d.text.length) :
    ((d.splice (done ++ todo)).rest (x + (inserted done).length)).take y = (d.rest x).take y := by
  rw [splice_rest hd hins hdone, rest_of_whole hd]
  have htake := congrArg (List.drop x) (take_splice hy htodo)
  rwa [List.drop_take, List.drop_take, Nat.add_sub_cancel_left] at htake

omit [FpType D] in
theorem splice_element_of_le (hdone : ∀ i ∈ done, i.1 ≤ x)
    (he : extractElement (d.rest x) = some e) (htodo : ∀ i ∈ todo, x + e.result ≤ i.1) :
    extractElement ((d.splice (done ++ todo)).rest (x + (inserted done).length)) = some e := by
  have hle := element_le he
  rw [fsize_of_whole hd] at hle
  exact extractElement_prefix he (splice_rest_take hd hins hdone htodo hle)

omit [FpType D] in
/-- So the element in front of the next insertion is. -/
theorem splice_element (hdone : ∀ i ∈ done, i.1 ≤ s) (htodo : ∀ i ∈ todo, Reads d.text s i.1)
    (hgap : ∀ i ∈ todo, s < i.1) :
    extractElement ((d.splice (done ++ todo)).rest (s + (inserted done).length)) =
      extractElement (d.rest s) := by
  cases todo with
  | nil =>
    rw [splice_rest hd hins hdone, rest_of_whole hd]
    rfl
  | cons i todo =>
    obtain heq | ⟨e, he, -⟩ := htodo i List.mem_cons_self
    · exact absurd heq (Nat.ne_of_lt (hgap i List.mem_cons_self))
    · have he' : extractElement (d.rest s) = some e := by rwa [rest_of_whole hd]
      rw [he']
      exact splice_element_of_le hd hins hdone he' fun j hj =>
        (htodo j hj).element (hgap j hj) he

omit [FpType D] in
/-- And the next insertion is read as it stands. -/
theorem splice_inserted (hdone : ∀ j ∈ done, j.1 ≤ i.1) (htodo : todo.head? = some i) :
    ∃ e, extractElement ((d.splice (done ++ todo)).rest (i.1 + (inserted done).length)) = some e ∧
      e.tag = elementTag i.2 ∧ UnknownTag d.cx (fastAtoiU16 e.tag) ∧ e.result = i.2.length ∧
        (d.splice (done ++ todo)).bytes (i.1 + (inserted done).length) e.result = i.2 := by
  obtain ⟨todo, rfl⟩ := List.head?_eq_some_iff.1 htodo
  have hmem : i ∈ done ++ i :: todo := List.mem_append_right _ List.mem_cons_self
  have hroom := hins.room i hmem
  have hrest : (d.splice (done ++ i :: todo)).rest (i.1 + (inserted done).length) =
      i.2 ++ (Lib.splice d.text todo).drop i.1 := by
    rw [splice_rest hd hins hdone]
    exact drop_splice_cons (by omega)
  obtain ⟨e, he, htag, hunknown, hlength⟩ := foreign_read (hins.element i hmem) _
  exact ⟨e, hrest ▸ he, htag, hunknown, hlength, hlength ▸ bytes_rest hrest⟩

omit [FpType D] in
/-- In front of the next insertion a tag is the same, with as much text behind it. -/
theorem splice_fixedWidth {valSz : Nat} (hdone : ∀ i ∈ done, i.1 ≤ s)
    (htodo : ∀ i ∈ todo, Reads d.text s i.1) (hgap : ∀ i ∈ todo, s < i.1)
    (he : extractElementFixedWidth valSz (d.rest s) = some e) :
    ∃ e', extractElementFixedWidth valSz
      ((d.splice (done ++ todo)).rest (s + (inserted done).length)) = some e' ∧ e'.tag = e.tag := by
  cases todo with
  | nil =>
    refine ⟨e, ?_, rfl⟩
    rw [splice_rest hd hins hdone, ← he, rest_of_whole hd]
    rfl
  | cons i todo =>
    obtain heq | ⟨e₁, he₁, -⟩ := htodo i List.mem_cons_self
    · exact absurd heq (Nat.ne_of_lt (hgap i List.mem_cons_self))
    · obtain ⟨htag, -, -, rest, hrest⟩ := extractElementFixedWidth_some he
      obtain ⟨htag₁, -, hresult, rest₁, hrest₁⟩ := extractElement_some he₁
      rw [rest_of_whole hd] at hrest
      have hsame := tag_eq htag htag₁ (hrest.symm.trans hrest₁)
      have hnear : ∀ j ∈ i :: todo, s + (e.tag.length + 1) ≤ j.1 := by
        intro j hj
        have hle := (htodo j hj).element (hgap j hj) he₁
        rw [hsame]
        omega
      have hroom := hins.room i (List.mem_append_right _ List.mem_cons_self)
      have hfirst := hnear i List.mem_cons_self
      refine extractElementFixedWidth_tag he
        (splice_rest_take hd hins hdone hnear (by omega)) ?_
      rw [length_rest, length_rest, fsize_splice hd, inserted_append, List.length_append]
      omega

omit [FpType D] in
/-- The text with the insertions, from behind those that are done up to the next. -/
theorem follows_splice (hdone : ∀ i ∈ done, i.1 ≤ o) (hos : o ≤ s)
    (htodo : ∀ i ∈ todo, Reads d.text s i.1) :
    Follows d (d.splice (done ++ todo)) (inserted done).length o s where
  cx := rfl
  now := rfl
  call := rfl
  fsize := by
    rw [fsize_splice hd, inserted_append, List.length_append]
    omega
  element := fun x e hx he hle => splice_element_of_le hd hins (fun i hi => (hdone i hi).trans hx)
    he fun i hi => hle.trans (htodo i hi).le
  ending := by
    have hdone' : ∀ i ∈ done, i.1 ≤ s := fun i hi => (hdone i hi).trans hos
    rcases hhead : todo.head? with _ | i
    · obtain rfl := List.head?_eq_none_iff.1 hhead
      refine .inl ⟨splice_element hd hins hdone' htodo fun i hi => absurd hi List.not_mem_nil, ?_⟩
      rw [fsize_splice hd, List.append_nil]
      omega
    · have hmem := List.mem_of_mem_head? hhead
      have hroom := hins.room i (List.mem_append_right _ hmem)
      have hle := (htodo i hmem).le
      rcases Nat.eq_or_lt_of_le hle with rfl | hlt
      · obtain ⟨e, he, -, hunknown, -, -⟩ := splice_inserted hd hins hdone' hhead
        exact .inr ⟨by rw [fsize_of_whole hd]; omega, e, he, hunknown.findBe⟩
      · -- the others stand behind the first
        have hgap : ∀ j ∈ todo, s < j.1 := by
          obtain ⟨rest, rfl⟩ := List.head?_eq_some_iff.1 hhead
          have hsorted := (List.pairwise_append.1 hins.sorted).2.1
          intro j hj
          obtain rfl | hj := List.mem_cons.1 hj
          · exact hlt
          · exact Nat.lt_of_lt_of_le hlt (List.rel_of_pairwise_cons hsorted hj)
        refine .inl ⟨splice_element hd hins hdone' htodo hgap, fun h => ?_⟩
        rw [fsize_of_whole hd] at h
        omega

end

/-! ## What a pass keeps of its section -/

omit [FpType D] in
/-- A section of the schema: it does not know the inserted tags, and no Length field counts a
group. -/
structure MessageBase.InSection (cx : F8MetaCntx) (m : MessageBase D) : Prop where
  tabled : m.Tabled cx
  foreign : ∀ k, UnknownTag cx k → m.own.fp.find k = none
  lengths : ∀ k itr, m.own.fp.find k = some itr → itr.group = true → itr.ftype ≠ .length

section
variable {d : Feed} {fuel tv start : Nat} {itr : FieldTrait} {val : F8String} {c c' : Cursor}
  {m m' : MessageBase D} {r : Cursor ⊕ Cursor}

omit [FpType D] in
theorem inSection_setPresent {cx : F8MetaCntx} (hm : m.InSection cx) (htabled : m'.Tabled cx)
    (hfp : m'.own.fp = m.own.fp.setPresent tv) : m'.InSection cx where
  tabled := htabled
  foreign := by
    intro k hk
    rw [hfp, FieldTraits.find_setPresent, hm.foreign k hk]
    rfl
  lengths := by
    intro k t ht hgroup
    rw [hfp, FieldTraits.find_setPresent] at ht
    obtain ⟨t₀, ht₀, rfl⟩ := Option.map_eq_some_iff.1 ht
    have hlength := hm.lengths k t₀ ht₀
    by_cases htag : t₀.fnum = tv
    · rw [if_pos htag] at hgroup ⊢
      exact hlength hgroup
    · rw [if_neg htag] at hgroup ⊢
      exact hlength hgroup

omit [FpType D] in
theorem inSection_store {cx : F8MetaCntx} {pos : Nat} {bf : BaseField D} (hm : m.InSection cx) :
    (m.store tv pos bf).InSection cx :=
  inSection_setPresent hm ⟨hm.tabled.nested, hm.tabled.groups⟩ rfl

theorem inSection_stored (h : Stored d fuel itr tv start val c m c' m') (hm : m.InSection d.cx) :
    m'.InSection d.cx := by
  refine inSection_setPresent hm ?_ h.fp
  cases h with
  | field => exact ⟨hm.tabled.nested, hm.tabled.groups⟩
  | group be sOffset _ _ _ hgroup =>
    have hnested : (decodeGroup d fuel m.nested tv c.sOffset
        (m.store tv (c.pos + 1) (d.createField be tv start val))).state.nested = m.nested :=
      nested_decodeGroup _
    rw [hgroup, Res.state_ok] at hnested
    exact ⟨hnested ▸ hm.tabled.nested,
      tabled_decodeGroup hgroup hm.tabled.nested hm.tabled.groups⟩

theorem inSection_turn (h : decodeTurn d false fuel c m = .ok r m') (hm : m.InSection d.cx) :
    m'.InSection d.cx := by
  cases decodeTurn_ok h with
  | ended => exact hm
  | unknown e _ _ _ _ hunknown =>
    obtain ⟨-, rfl⟩ := unknownField_strict hunknown
    exact hm
  | skipped => exact hm
  | field e itr _ _ _ _ _ hstored => exact inSection_stored hstored hm
  | length e itr _ m₁ _ _ _ _ _ hstored _ _ _ hdata =>
    have hm₁ := inSection_stored hstored hm
    cases hdata with
    | unknown x tag _ _ _ _ _ hunknown =>
      obtain ⟨-, rfl⟩ := unknownField_strict hunknown
      exact hm₁
    | other => exact hm₁
    | data x tag itr _ _ _ _ _ _ _ hstored => exact inSection_stored hstored hm₁

/-- BodyLength is the only Length of the table. -/
def OneLength (fp : FieldTraits) : Prop :=
  ∀ k itr, fp.find k = some itr → itr.ftype = .length → k = commonBodyLength

omit [FpType D] in
theorem OneLength.setPresent {fp : FieldTraits} (h : OneLength fp) :
    OneLength (fp.setPresent tv) := by
  intro k t ht htype
  rw [FieldTraits.find_setPresent] at ht
  obtain ⟨t₀, ht₀, rfl⟩ := Option.map_eq_some_iff.1 ht
  refine h k t₀ ht₀ ?_
  by_cases htag : t₀.fnum = tv
  · rwa [if_pos htag] at htype
  · rwa [if_neg htag] at htype

theorem oneLength_turn {permissive : Bool} (h : decodeTurn d permissive fuel c m = .ok r m')
    (hm : OneLength m.own.fp) : OneLength m'.own.fp := by
  have hkept : Kept d (fun _ _ => True) 0 fun s : MessageBase D => OneLength s.own.fp :=
    kept_of_own (I := fun o => OneLength o.fp) (fun o u ho => ho)
      fun o pos itr start be tv val ho _ _ _ _ => ho.setPresent
  exact ((leaves_decodeTurn hkept (Nat.zero_le _)).ok ⟨trivial, hm⟩ h).2

theorem inSection_reaches (h : Act.Reaches (decodeTurn d false fuel) c m c' m')
    (hm : m.InSection d.cx) : m'.InSection d.cx := by
  induction h with
  | here => exact hm
  | next _ h ih => exact inSection_turn h ih

end

/-! ## Two passes -/

omit [FpType D] in
/-- The message with an element put aside. -/
def MessageBase.aside (m : MessageBase D) (u : F8String) : MessageBase D :=
  m.withOwn { m.own with unknown := m.own.unknown ++ u }

omit [FpType D] in
@[simp] theorem unknown_aside {m : MessageBase D} {u : F8String} :
    (m.aside u).own.unknown = m.own.unknown ++ u := rfl

omit [FpType D] in
theorem unknownField_aside {d : Feed} {c : Cursor} {n : Nat} {m : MessageBase D} :
    unknownField d true c n m = .ok (.inl { c with
      sOffset := c.sOffset + n, last := c.last.or (some (c.pos, c.sOffset)) })
      (m.aside (d.bytes c.sOffset n)) := rfl

/-- What stands behind a Length field is read as without the insertions: nothing is inserted there,
and what earlier tags have left in the tag buffer is the same. -/
structure LengthsUndisturbed (d : Feed) (fuel start : Nat) (m₀ : MessageBase D)
    (ins : List (Nat × F8String)) : Prop where
  behind : ∀ c m e, Act.Reaches (decodeTurn d false fuel) (sectionStart m₀ start) m₀ c m →
    ReadsLength d c m e → ∀ i ∈ ins, i.1 ≠ c.sOffset + e.result
  tag : ∀ c m e x, Act.Reaches (decodeTurn d false fuel) (sectionStart m₀ start) m₀ c m →
    ReadsLength d c m e →
    extractElementFixedWidth (fastAtoiU32 e.val) (d.rest (c.sOffset + e.result)) = some x →
    x.tag.length ≤ e.tag.length ∨
      ∀ i ∈ ins, i.1 ≤ c.sOffset → (elementTag i.2).length < x.tag.length

/-- Where BodyLength is the only Length, there is nothing to disturb. -/
theorem lengthsUndisturbed_of {d : Feed} {fuel start : Nat} {m₀ : MessageBase D}
    {ins : List (Nat × F8String)} (h : OneLength m₀.own.fp) :
    LengthsUndisturbed d fuel start m₀ ins := by
  have hnone : ∀ c m e, Act.Reaches (decodeTurn d false fuel) (sectionStart m₀ start) m₀ c m →
      ¬ ReadsLength d c m e := by
    intro c m e hreach hlength
    have hm : OneLength m.own.fp := by
      clear hlength
      induction hreach with
      | here => exact h
      | next _ hturn ih => exact oneLength_turn hturn ih
    obtain ⟨itr, hitr, -, htype⟩ := hlength.field
    exact hlength.tag (hm _ _ hitr htype)
  exact ⟨fun c m e hreach hlength => absurd hlength (hnone c m e hreach),
    fun c m e x hreach hlength => absurd hlength (hnone c m e hreach)⟩

/-- A strict pass that began at `start` has come to `c` and `m`. Then a permissive pass over the
text with the insertions is at `c'` and `m'`; it has put aside those of `done`. -/
structure Woven (d : Feed) (fuel start : Nat) (m₀ : MessageBase D)
    (ins done todo : List (Nat × F8String)) (c : Cursor) (m : MessageBase D) (c' : Cursor)
    (m' : MessageBase D) : Prop where
  split : done ++ todo = ins
  passed : ∀ i ∈ done, i.1 ≤ c.sOffset
  ahead : ∀ i ∈ todo, Reads d.text c.sOffset i.1
  offset : c'.sOffset = c.sOffset + (inserted done).length
  pos : c'.pos = c.pos
  tag : ∀ n, (∀ i ∈ done, (elementTag i.2).length < n) → c'.tag.drop n = c.tag.drop n
  alike : m.Alike d.call m'
  fields : ∀ k, FieldAlike d.call k m m'
  unknown : m'.own.unknown = inserted done
  fresh : done = [] → c'.last = none
  first : ∀ i, done.head? = some i → ∃ c₀ m₁,
    Act.Reaches (decodeTurn d false fuel) (sectionStart m₀ start) m₀ c₀ m₁ ∧ c₀.sOffset = i.1 ∧
      c₀.pos ≤ c.pos ∧ c'.last = some (c₀.pos, i.1)

section
variable {d : Feed} {fuel start : Nat} {m₀ m m' m₁ m₁' : MessageBase D}
  {ins done todo : List (Nat × F8String)} {i : Nat × F8String} {c c' c₁ c₁' : Cursor}
  {between : Nat → Prop}

/-- The next insertion is put aside. -/
theorem woven_aside (hd : d.ignore = 0) (hins : Insertions d.cx d.text between ins)
    (hreach : Act.Reaches (decodeTurn d false fuel) (sectionStart m₀ start) m₀ c m)
    (hm : m.InSection d.cx) (hw : Woven d fuel start m₀ ins done (i :: todo) c m c' m')
    (hi : i.1 = c.sOffset) :
    ∃ c₁' m₁', decodeTurn (d.splice ins) true fuel c' m' = .ok (.inl c₁') m₁' ∧
      Woven d fuel start m₀ ins (done ++ [i]) todo c m c₁' m₁' := by
  have hread := hw.split ▸ hins
  obtain ⟨e, he, htag, hunknown, hresult, hbytes⟩ :=
    splice_inserted hd hread (fun j hj => hi ▸ hw.passed j hj) rfl
  rw [hw.split, hi, ← hw.offset] at he hbytes
  have hfind : m'.own.fp.find (fastAtoiU16 e.tag) = none := by
    rw [hw.alike.fp]
    exact hm.foreign _ hunknown
  refine ⟨_, _, (decodeTurn_unknown he hfind).trans unknownField_aside, ?_⟩
  refine { hw with
    split := ?_, passed := ?_, ahead := ?_, offset := ?_, tag := ?_, alike := ?_, unknown := ?_
    fresh := ?_, first := ?_ }
  · rw [List.append_assoc]
    exact hw.split
  · intro j hj
    obtain hj | hj := List.mem_append.1 hj
    · exact hw.passed j hj
    · obtain rfl := List.mem_singleton.1 hj
      exact hi.le
  · exact fun j hj => hw.ahead j (List.mem_cons_of_mem _ hj)
  · show c'.sOffset + e.result = _
    simp only [hw.offset, hresult, inserted_append, inserted_cons, inserted_nil, List.length_append,
      List.append_nil]
    omega
  · intro n hn
    have hlt := hn i (List.mem_append_right _ (List.mem_singleton_self i))
    show (overwrite c'.tag (e.tag ++ [0])).drop n = c.tag.drop n
    rw [drop_overwrite (by rw [List.length_append, htag]; exact hlt)]
    exact hw.tag n fun j hj => hn j (List.mem_append_left _ hj)
  · exact hw.alike.putAside _
  · rw [unknown_aside, hw.unknown]
    refine (congrArg _ hbytes).trans ?_
    simp
  · intro hnil
    simp at hnil
  · intro j hj
    cases done with
    | nil =>
      obtain rfl : i = j := Option.some.inj hj
      refine ⟨c, m, hreach, hi.symm, le_refl _, ?_⟩
      show c'.last.or (some (c'.pos, c'.sOffset)) = some (c.pos, i.1)
      rw [hw.fresh rfl, hw.pos, hw.offset, hi]
      rfl
    | cons j' done =>
      obtain ⟨c₀, m₁, hreach₀, hoffset, hpos, hlast⟩ := hw.first j hj
      refine ⟨c₀, m₁, hreach₀, hoffset, hpos, ?_⟩
      show c'.last.or (some (c'.pos, c'.sOffset)) = some (c₀.pos, j.1)
      rw [hlast]
      rfl

/-- What a turn of both does. -/
theorem Woven.next (hw : Woven d fuel start m₀ ins done todo c m c' m')
    (hle : c.sOffset ≤ c₁.sOffset) (hahead : ∀ i ∈ todo, Reads d.text c₁.sOffset i.1)
    (hpos : c.pos ≤ c₁.pos) (hoffset' : c₁'.sOffset = c₁.sOffset + (inserted done).length)
    (hpos' : c₁'.pos = c₁.pos) (hlast' : c₁'.last = c'.last)
    (htag : ∀ n, c'.tag.drop n = c.tag.drop n → c₁'.tag.drop n = c₁.tag.drop n)
    (halike : m₁.Alike d.call m₁') (hfields : ∀ k, FieldAlike d.call k m₁ m₁')
    (hunknown : m₁'.own.unknown = m'.own.unknown) :
    Woven d fuel start m₀ ins done todo c₁ m₁ c₁' m₁' where
  split := hw.split
  passed := fun i hi => (hw.passed i hi).trans hle
  ahead := hahead
  offset := hoffset'
  pos := hpos'
  tag := fun n hn => htag n (hw.tag n hn)
  alike := halike
  fields := hfields
  unknown := hunknown.trans hw.unknown
  fresh := fun h => hlast'.trans (hw.fresh h)
  first := fun i hi => by
    obtain ⟨c₀, m₁, hreach, hoffset, hpos₀, hlast⟩ := hw.first i hi
    exact ⟨c₀, m₁, hreach, hoffset, hpos₀.trans hpos, hlast'.trans hlast⟩

theorem fieldAlike_stored {d' : Feed} {tv o o' : Nat} {itr : FieldTrait} {val : F8String}
    {e₁ e₂ e₁' e₂' : Cursor} (h : Stored d fuel itr tv o val e₁ m e₂ m₁)
    (h' : Stored d' fuel itr tv o' val e₁' m' e₂' m₁') (hS : SameCall d d')
    (hm : ∀ k, FieldAlike d.call k m m') (k : Nat) : FieldAlike d.call k m₁ m₁' := by
  obtain ⟨be, hbe, hown⟩ := h.own
  obtain ⟨be', hbe', hown'⟩ := h'.own
  rw [hS.cx, hbe] at hbe'
  obtain rfl := Option.some.inj hbe'
  unfold FieldAlike
  rw [hown, hown']
  show ((m'.own.fields.insert tv _).get? k).map _ = ((m.own.fields.insert tv _).get? k).map _
  rw [OrdMap.get?_insert, OrdMap.get?_insert]
  split
  · have hsame := hm tv
    unfold FieldAlike at hsame
    cases hget : m.own.fields.get? tv with
    | none =>
      rw [hget] at hsame
      rw [Option.map_eq_none_iff.1 hsame]
      exact congrArg some (createField_unplaced hS)
    | some f =>
      rw [hget] at hsame
      obtain ⟨f', hget', heq⟩ := Option.map_eq_some_iff.1 hsame
      rw [hget']
      exact congrArg some heq
  · exact hm k

/-- Where no insertion stands in front of it, both passes read the same element. -/
theorem woven_element (hd : d.ignore = 0) (hins : Insertions d.cx d.text between ins)
    (hw : Woven d fuel start m₀ ins done todo c m c' m') (hgap : ∀ i ∈ todo, c.sOffset < i.1) :
    extractElement ((d.splice ins).rest c'.sOffset) = extractElement (d.rest c.sOffset) := by
  obtain rfl := hw.split
  rw [hw.offset]
  exact splice_element hd hins hw.passed hw.ahead hgap

theorem woven_behind (hw : Woven d fuel start m₀ ins done todo c m c' m') (n : Nat) :
    c'.sOffset + n = c.sOffset + n + (inserted done).length := by
  rw [hw.offset]
  omega

/-- Both find the same number in the tag buffer behind a Length field. -/
theorem woven_buffer {e x : Element} (hw : Woven d fuel start m₀ ins done todo c m c' m')
    (h : x.tag.length ≤ e.tag.length ∨
      ∀ i ∈ ins, i.1 ≤ c.sOffset → (elementTag i.2).length < x.tag.length) :
    bufferText ((c'.behind e).looked x).tag = bufferText ((c.behind e).looked x).tag := by
  obtain rfl := hw.split
  refine bufferText_same (h.imp_right fun h => hw.tag _ fun i hi => ?_)
  exact h i (List.mem_append_left _ hi) (hw.passed i hi)

/-- A Length field that the strict pass stores is stored by both, and what stands behind it makes
the turn. -/
theorem woven_length {e : Element} {itr : FieldTrait} (hd : d.ignore = 0)
    (hins : Insertions d.cx d.text between ins) (hm : m.InSection d.cx)
    (hw : Woven d fuel start m₀ ins done todo c m c' m') (hgap : ∀ i ∈ todo, c.sOffset < i.1)
    (he : extractElement (d.rest c.sOffset) = some e)
    (hitr : m.own.fp.find (fastAtoiU16 e.tag) = some itr) (habsent : itr.present = false)
    (hstored : Stored d fuel itr (fastAtoiU16 e.tag) c.sOffset e.val (c.behind e) m c₁ m₁)
    (htype : itr.ftype = .length) (htag : fastAtoiU16 e.tag ≠ commonBodyLength)
    (hsize : fastAtoiU32 e.val ≤ maxFldLength - 1) :
    c₁ = { c.behind e with pos := c.pos + 1 } ∧ ReadsLength d c m e ∧
      ∃ m₁', m₁.Alike d.call m₁' ∧ (∀ k, FieldAlike d.call k m₁ m₁') ∧
        m₁'.own.unknown = m'.own.unknown ∧
        ∀ {r m₂}, DataTurn (d.splice ins) true fuel (fastAtoiU16 e.tag) e.val
            { c'.behind e with pos := c.pos + 1 } m₁' r m₂ →
          decodeTurn (d.splice ins) true fuel c' m' = .ok r m₂ := by
  have hS : SameCall d (d.splice ins) := ⟨rfl, rfl, rfl⟩
  cases hstored with
  | group be _ _ _ hcount =>
    exact absurd htype (hm.lengths _ _ hitr (Bool.and_eq_true_iff.1 hcount).1)
  | field be hbe hcount =>
    obtain ⟨m₁', (hstored' : Stored (d.splice ins) fuel _ _ _ _ _ _ _ _), halike⟩ :=
      mirrored_field (δ := (inserted done).length) hbe hcount hS hw.alike
        (show (c'.behind e).pos = (c.behind e).pos from hw.pos)
    rw [← hw.offset] at hstored'
    refine ⟨rfl, ⟨he, ⟨itr, hitr, habsent, htype⟩, htag⟩, m₁', halike,
      fieldAlike_stored (.field be hbe hcount) hstored' hS hw.fields, hstored'.unknown,
      fun hdata => ?_⟩
    have hread := (woven_element hd hins hw hgap).trans he
    rw [decodeTurn_absent hread (hw.alike.fp ▸ hitr) habsent, Act.bind_ok hstored'.run,
      if_neg (not_or.2 ⟨not_not.2 htype, htag⟩)]
    exact hdata.run hsize

/-- What follows a Length field. -/
theorem woven_data {e : Element} {tv : Nat} {m₂ m₂' : MessageBase D} (hd : d.ignore = 0)
    (hins : Insertions d.cx d.text between ins)
    (hw : Woven d fuel start m₀ ins done todo c m c' m') (hm₂ : m₂.InSection d.cx)
    (halike : m₂.Alike d.call m₂') (hfields : ∀ k, FieldAlike d.call k m₂ m₂')
    (hunknown : m₂'.own.unknown = m'.own.unknown)
    (hbehind : ∀ i ∈ ins, i.1 ≠ c.sOffset + e.result)
    (hbuffer : ∀ x,
      extractElementFixedWidth (fastAtoiU32 e.val) (d.rest (c.sOffset + e.result)) = some x →
      x.tag.length ≤ e.tag.length ∨
        ∀ i ∈ ins, i.1 ≤ c.sOffset → (elementTag i.2).length < x.tag.length)
    (hdata : DataTurn d false fuel tv e.val { c.behind e with pos := c.pos + 1 } m₂ (.inl c₁) m₁)
    (hnext : ∀ i ∈ todo, Reads d.text c₁.sOffset i.1) :
    ∃ c₁' m₁', DataTurn (d.splice ins) true fuel tv e.val { c'.behind e with pos := c.pos + 1 } m₂'
        (.inl c₁') m₁' ∧ Woven d fuel start m₀ ins done todo c₁ m₁ c₁' m₁' := by
  obtain rfl := hw.split
  have hS : SameCall d (d.splice (done ++ todo)) := ⟨rfl, rfl, rfl⟩
  have hpassed : ∀ i ∈ done, i.1 ≤ c.sOffset + e.result :=
    fun i hi => (hw.passed i hi).trans (Nat.le_add_right _ _)
  have hoffset := woven_behind hw e.result
  have hlooked : ∀ (x : Element) n, c'.tag.drop n = c.tag.drop n →
      ((c'.behind e).looked x).tag.drop n = ((c.behind e).looked x).tag.drop n := fun x n hn =>
    drop_overwrite_congr (drop_overwrite_congr (drop_overwrite_congr hn))
  generalize hr : Sum.inl c₁ = r at hdata
  cases hdata with
  | unknown x tag _ _ _ _ _ hunknown =>
    subst hr
    cases (unknownField_strict hunknown).1
  | other x tag itr hx htag hitr hother =>
    cases hr
    have hgap : ∀ i ∈ todo, c.sOffset + e.result < i.1 := fun i hi =>
      Nat.lt_of_le_of_ne (hnext i hi).le (hbehind i (List.mem_append_right _ hi)).symm
    obtain ⟨x', hx', hsame⟩ := splice_fixedWidth hd hins hpassed hnext hgap hx
    have hcursor : Cursor.looked { c'.behind e with pos := c.pos + 1 } x' =
        Cursor.looked { c'.behind e with pos := c.pos + 1 } x := by
      unfold Cursor.looked
      rw [hsame]
    rw [← hoffset] at hx'
    refine ⟨_, m₂', .other x' tag itr hx' ?_ (halike.fp ▸ hitr) hother, ?_⟩
    · rw [hcursor]
      exact (woven_buffer hw (hbuffer x hx)).trans htag
    · rw [hcursor]
      exact hw.next (Nat.le_add_right _ _) hnext (Nat.le_succ _) hoffset rfl rfl (hlooked x) halike
        hfields hunknown
  | data x tag itr _ _ hx htag hitr htype htv hstored =>
    cases hr
    have hconsumed := (consumed_stored hstored).1.le
    have hfollows := follows_splice hd hins (fun i hi => (hpassed i hi).trans
      (Nat.le_add_right _ x.result)) hconsumed hnext
    have hend : c.sOffset + e.result + x.result ≤ d.text.length + 1 := by
      rw [← fsize_of_whole hd]
      exact fixedWidth_le hx
    have hx' : extractElementFixedWidth (fastAtoiU32 e.val)
        ((d.splice (done ++ todo)).rest (c'.sOffset + e.result)) = some x := by
      rw [hoffset]
      refine extractElementFixedWidth_prefix hx (splice_rest_take hd hins hpassed ?_ ?_)
      · intro i hi
        have hle : c.sOffset + e.result + x.result ≤ i.1 := hconsumed.trans (hnext i hi).le
        omega
      · obtain ⟨-, -, hlen, -⟩ := extractElementFixedWidth_some hx
        omega
    have hoffset₂ : c'.sOffset + e.result + x.result =
        c.sOffset + e.result + x.result + (inserted done).length := by
      rw [hoffset]
      omega
    obtain ⟨m₁', hstored', halike₁⟩ := mirrored_stored (D := D) hstored hfollows hm₂.tabled halike
      (show Cursor.sOffset { Cursor.looked { c'.behind e with pos := c.pos + 1 } x with
        sOffset := c'.sOffset + e.result + x.result } = _ from hoffset₂) rfl
    have hstart : (c.behind e).sOffset + (inserted done).length = c'.sOffset + e.result :=
      hoffset.symm
    dsimp only at hstored'
    rw [hstart] at hstored'
    refine ⟨_, m₁', .data x tag itr _ m₁' hx' ((woven_buffer hw (hbuffer x hx)).trans htag)
      (halike.fp ▸ hitr) htype htv hstored', ?_⟩
    refine hw.next ?_ hnext ?_ rfl rfl rfl ?_ halike₁
      (fieldAlike_stored hstored hstored' hS hfields) (hstored'.unknown.trans hunknown)
    · exact (Nat.le_add_right _ e.result).trans ((Nat.le_add_right _ x.result).trans hconsumed)
    · rw [hstored.pos]
      exact Nat.le_add_right c.pos 2
    · intro n hn
      rw [hstored.tag]
      exact hlooked x n hn

/-- A field that both passes read, where nothing is inserted in front of it. -/
theorem woven_turn (hd : d.ignore = 0) (hins : Insertions d.cx d.text between ins)
    (hundist : LengthsUndisturbed d fuel start m₀ ins)
    (hreach : Act.Reaches (decodeTurn d false fuel) (sectionStart m₀ start) m₀ c m)
    (hm : m.InSection d.cx) (hw : Woven d fuel start m₀ ins done todo c m c' m')
    (hgap : ∀ i ∈ todo, c.sOffset < i.1)
    (hturn : decodeTurn d false fuel c m = .ok (.inl c₁) m₁)
    (hnext : ∀ i ∈ todo, Reads d.text c₁.sOffset i.1) :
    ∃ c₁' m₁', decodeTurn (d.splice ins) true fuel c' m' = .ok (.inl c₁') m₁' ∧
      Woven d fuel start m₀ ins done todo c₁ m₁ c₁' m₁' := by
  obtain rfl := hw.split
  have hS : SameCall d (d.splice (done ++ todo)) := ⟨rfl, rfl, rfl⟩
  have hle := (turn_reads hturn).le
  have hread := woven_element hd hins hw hgap
  generalize hr : Sum.inl c₁ = r at hturn
  cases decodeTurn_ok hturn with
  | ended => cases hr
  | unknown e _ _ _ _ hunknown =>
    subst hr
    cases (unknownField_strict hunknown).1
  | skipped e itr he hitr hpresent hautomatic =>
    cases hr
    exact ⟨c'.behind e, m',
      decodeTurn_skipped (hread.trans he) (hw.alike.fp ▸ hitr) hpresent hautomatic,
      hw.next hle hnext (le_refl _) (woven_behind hw e.result) hw.pos rfl
        (fun n => drop_overwrite_congr) hw.alike hw.fields rfl⟩
  | field e itr _ _ he hitr habsent hstored hplain =>
    cases hr
    have hfollows := follows_splice hd hins (fun i hi => (hw.passed i hi).trans
      (Nat.le_add_right _ e.result)) (consumed_stored hstored).1.le hnext
    obtain ⟨m₁', hstored', halike⟩ :=
      mirrored_stored hstored hfollows hm.tabled hw.alike
        (show (c'.behind e).sOffset = _ from woven_behind hw e.result) hw.pos
    rw [← hw.offset] at hstored'
    refine ⟨{ c'.behind e with
      sOffset := c₁.sOffset + (inserted done).length, pos := c₁.pos }, m₁', ?_,
      hw.next hle hnext ?_ rfl rfl rfl ?_ halike
        (fieldAlike_stored hstored hstored' hS hw.fields) hstored'.unknown⟩
    · rw [decodeTurn_absent (hread.trans he) (hw.alike.fp ▸ hitr) habsent,
        Act.bind_ok hstored'.run, if_pos hplain]
      rfl
    · rw [hstored.pos]
      exact Nat.le_succ _
    · intro n hn
      rw [hstored.tag]
      exact drop_overwrite_congr hn
  | length e itr c₂ m₂ _ _ he hitr habsent hstored htype htag hsize hdata =>
    subst hr
    have hm₂ := inSection_stored hstored hm
    obtain ⟨rfl, hlength, m₂', halike₂, hfields, hunknown, hrun⟩ :=
      woven_length hd hins hm hw hgap he hitr habsent hstored htype htag hsize
    obtain ⟨c₁', m₁', hdata', hwoven⟩ := woven_data hd hins hw hm₂ halike₂ hfields hunknown
      (hundist.behind c m e hreach hlength) (fun x => hundist.tag c m e x hreach hlength) hdata
      hnext
    exact ⟨c₁', m₁', hrun hdata', hwoven⟩

/-- All that is inserted where the strict pass is, is put aside. -/
theorem woven_asides (hd : d.ignore = 0) (hins : Insertions d.cx d.text between ins)
    (hreach : Act.Reaches (decodeTurn d false fuel) (sectionStart m₀ start) m₀ c m)
    (hm : m.InSection d.cx) : ∀ {todo done : List (Nat × F8String)} {c' : Cursor}
      {m' : MessageBase D}, Woven d fuel start m₀ ins done todo c m c' m' →
    ∃ done' todo' c₁' m₁', Act.Reaches (decodeTurn (d.splice ins) true fuel) c' m' c₁' m₁' ∧
      Woven d fuel start m₀ ins done' todo' c m c₁' m₁' ∧ ∀ i ∈ todo', c.sOffset < i.1 := by
  intro todo
  induction todo with
  | nil =>
    intro done c' m' hw
    exact ⟨done, [], c', m', .here, hw, fun i hi => absurd hi List.not_mem_nil⟩
  | cons i todo ih =>
    intro done c' m' hw
    rcases Nat.eq_or_lt_of_le (hw.ahead i List.mem_cons_self).le with heq | hlt
    · obtain ⟨c₁', m₁', hturn, hw₁⟩ := woven_aside hd hins hreach hm hw heq.symm
      obtain ⟨done', todo', c₂', m₂', hrest, hw₂, hgap⟩ := ih hw₁
      exact ⟨done', todo', c₂', m₂', hrest.head hturn, hw₂, hgap⟩
    · refine ⟨done, i :: todo, c', m', .here, hw, ?_⟩
      have hsorted := (List.pairwise_append.1 (hw.split ▸ hins.sorted)).2.1
      intro j hj
      obtain rfl | hj := List.mem_cons.1 hj
      · exact hlt
      · exact Nat.lt_of_lt_of_le hlt (List.rel_of_pairwise_cons hsorted hj)

/-- **Where a strict pass comes to, a permissive one comes to with the insertions**, and has put
aside those in front of it. -/
theorem woven_reaches (hd : d.ignore = 0) (hins : Insertions d.cx d.text between ins)
    (hundist : LengthsUndisturbed d fuel start m₀ ins) (hm₀ : m₀.InSection d.cx)
    (hunknown : m₀.own.unknown = [])
    (hbegin : ∀ i ∈ ins, Reads d.text start i.1)
    (hturns : ∀ c m c₁ m₁, Act.Reaches (decodeTurn d false fuel) (sectionStart m₀ start) m₀ c m →
      decodeTurn d false fuel c m = .ok (.inl c₁) m₁ →
      ∀ i ∈ ins, c.sOffset < i.1 → (∃ e, ReadsLength d c m e ∧ c.sOffset + e.result = i.1) ∨
        Reads d.text c₁.sOffset i.1)
    (hreach : Act.Reaches (decodeTurn d false fuel) (sectionStart m₀ start) m₀ c m) :
    ∃ done todo c' m',
      Act.Reaches (decodeTurn (d.splice ins) true fuel) (sectionStart m₀ start) m₀ c' m' ∧
      Woven d fuel start m₀ ins done todo c m c' m' ∧ ∀ i ∈ todo, c.sOffset < i.1 := by
  induction hreach with
  | here =>
    have hw : Woven d fuel start m₀ ins [] ins (sectionStart m₀ start) m₀
        (sectionStart m₀ start) m₀ :=
      ⟨rfl, fun i hi => absurd hi List.not_mem_nil, hbegin, rfl, rfl, fun _ _ => rfl, .refl _,
        fun _ => rfl, hunknown, fun _ => rfl, fun i hi => absurd hi (by simp)⟩
    exact woven_asides hd hins .here hm₀ hw
  | @next c c₁ m m₁ hreach hturn ih =>
    obtain ⟨done, todo, c', m', hreach', hw, hgap⟩ := ih
    have hm := inSection_reaches hreach hm₀
    have hnext : ∀ i ∈ todo, Reads d.text c₁.sOffset i.1 := by
      intro i hi
      have hmem : i ∈ ins := hw.split ▸ List.mem_append_right _ hi
      refine (hturns _ _ _ _ hreach hturn i hmem (hgap i hi)).resolve_left ?_
      rintro ⟨e, hlength, heq⟩
      exact hundist.behind _ _ e hreach hlength i hmem heq.symm
    obtain ⟨c₁', m₁', hturn', hw₁⟩ := woven_turn hd hins hundist hreach hm hw hgap hturn hnext
    obtain ⟨done', todo', c₂', m₂', hrest, hw₂, hgap₂⟩ :=
      woven_asides hd hins (hreach.next hturn) (inSection_turn hturn hm) hw₁
    exact ⟨done', todo', c₂', m₂', (hreach'.next hturn').trans hrest, hw₂, hgap₂⟩

end

end

end Fix8.Codec
