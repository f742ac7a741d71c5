import Fix8.Codec.Proof.Element
import Fix8.Codec.Proof.Reread
import Mathlib.Order.Filter.AtTopBot.Basic

/-!
# Reading a group back

`decode_group` splits a flat run of elements by two tests: a tag that the element has already is
the first of the next one, and a tag that the class does not have ends the group.

* `Legible`: a field whose text can be read back; `Heads`: the tag that stands next in a text;
* `GroupClass.Apart`: the tags of a class are none that may stand behind its elements;
* **`groupFields_read`**, **`elementTurn_read`**, **`groupReads_of_elements`**: the fields of an
  element, an element, a group.
-/

namespace Fix8.Codec

open Lib Filter

/-! ## The text that is left -/

theorem Feed.rest_add {d : Feed} {o : Nat} {a b : F8String} (h : d.rest o = a ++ b) :
    d.rest (o + a.length) = b := by
  have hdrop : d.rest (o + a.length) = (d.rest o).drop a.length := by
    simp [Feed.rest, List.drop_drop]
  rw [hdrop, h, List.drop_left]

/-- Behind an element. -/
theorem Feed.rest_element {d : Feed} {o : Nat} {tag val rest : F8String} {b : UInt8}
    (h : d.rest o = tag ++ assignmentSeparator :: (val ++ b :: rest)) :
    d.rest (o + (tag.length + val.length + 2)) = rest := by
  have hsplit : d.rest o = (tag ++ assignmentSeparator :: (val ++ [b])) ++ rest := by
    simp [h]
  have hlen : (tag ++ assignmentSeparator :: (val ++ [b])).length = tag.length + val.length + 2 := by
    simp
    omega
  rw [← hlen]
  exact Feed.rest_add hsplit

theorem Feed.lt_fsize {d : Feed} {o : Nat} (h : d.rest o ≠ []) : o < d.fsize := by
  by_contra hle
  refine h (List.drop_eq_nil_of_le ?_)
  rw [List.length_take]
  omega

theorem Feed.fsize_le {d : Feed} {o : Nat} (h : d.rest o = []) : d.fsize ≤ o := by
  have hlen := congrArg List.length h
  rw [Feed.rest, List.length_drop, List.length_take, List.length_nil, Feed.fsize] at hlen
  rw [Feed.fsize]
  omega

/-- The text is empty, or begins with an element under a tag in `P`. -/
def Heads (P : Nat → Prop) (s : F8String) : Prop :=
  s = [] ∨ ∃ e, extractElement s = some e ∧ P (fastAtoiU16 e.tag)

section
variable {D : Type} [FpType D] {f : BaseField D} {rest : F8String}

theorem encode_append : f.encode ++ rest =
    itoa f.fnum ++ assignmentSeparator :: (f.value.print ++ fieldSeparator :: rest) := by
  simp [BaseField.encode]

/-- A field begins with its tag, whatever its value. -/
theorem extractElement_encode (f : BaseField D) (rest : F8String) :
    ∃ e, extractElement (f.encode ++ rest) = some e ∧
    e.tag = itoa f.fnum ∧ fieldSeparator ∉ e.val := by
  obtain ⟨v, r, hsplit, hv⟩ : ∃ v r, f.value.print ++ fieldSeparator :: rest =
      v ++ fieldSeparator :: r ∧ fieldSeparator ∉ v :=
    List.eq_append_cons_of_mem (by simp)
  rw [encode_append, hsplit]
  exact ⟨_, extractElement_append isdigit_itoa hv, rfl, hv⟩

theorem extractElement_encode_of (rest : F8String) (h : fieldSeparator ∉ f.value.print) :
    extractElement (f.encode ++ rest) =
      some ⟨itoa f.fnum, f.value.print, f.encode.length⟩ := by
  rw [encode_append, extractElement_append isdigit_itoa h]
  simp [BaseField.encode]
  omega

theorem heads_fieldText {P : Nat → Prop} {m : MessageBase D} (hlt : f.fnum < 65536)
    (hP : P f.fnum) : Heads P (m.fieldText f ++ rest) := by
  obtain ⟨e, he, htag, -⟩ := extractElement_encode f
    ((if m.counts f then elementsText (m.elements f.fnum) else []) ++ rest)
  refine .inr ⟨e, ?_, ?_⟩
  · rw [MessageBase.fieldText, List.append_assoc]
    exact he
  · rw [htag, fastAtoiU16_itoa hlt]
    exact hP

end

/-! ## Fields that can be read -/

section
variable {D : Type}

/-- The field can be read back under the traits `fp`; the group that it counts is of `classes`. -/
structure Legible (cx : F8MetaCntx) (fp : FieldTraits) (classes : List GroupClass)
    (m : MessageBase D) (f : BaseField D) : Prop where
  fnum_lt : f.fnum < 65536
  known : ∃ be, cx.findBe f.fnum = some be
  trait : ∃ t, fp.find f.fnum = some t ∧ t.present = false ∧ t.group = m.own.fp.isGroup f.fnum
  /-- The field that counts a group is an int and has the number of its elements. -/
  count : m.own.fp.isGroup f.fnum = true →
    f.value = .int (m.elements f.fnum).length ∧ (m.elements f.fnum).length < 2147483648 ∧
      ∀ be, cx.findBe f.fnum = some be → be.cls = .int
  group : m.counts f = true →
    ∃ g, m.findGroup f.fnum = some g ∧ createNestedGroup classes f.fnum = some g.cls

variable {cx : F8MetaCntx} {fp : FieldTraits} {classes : List GroupClass} {m : MessageBase D}
  {f : BaseField D} {k : Nat}

theorem Legible.mark (h : Legible cx fp classes m f) {tags : List Nat} (hf : f.fnum ∉ tags) :
    Legible cx (fp.mark tags) classes m f := by
  obtain ⟨hlt, hknown, ⟨t, ht, htrait⟩, hcount, hgroup⟩ := h
  refine ⟨hlt, hknown, ⟨t, ?_, htrait⟩, hcount, hgroup⟩
  rw [find_mark, ht, Option.map_some, if_neg]
  rw [FieldTraits.find_fnum ht]
  exact hf

theorem Legible.counts_iff (h : Legible cx fp classes m f)
    (hgroup : m.own.fp.isGroup f.fnum = true) :
    m.counts f = decide (0 < (m.elements f.fnum).length) := by
  rw [MessageBase.counts, hgroup, BaseField.hasGroupCount, (h.count hgroup).1]
  simp

/-- The field that is made from the text counts a group as the written one does. -/
theorem Legible.hasGroupCount [FpType D] (h : Legible cx fp classes m f) {d : Feed}
    {be : BaseEntry} {t : FieldTrait} {o : Nat}
    (hbe : cx.findBe f.fnum = some be) (ht : fp.find f.fnum = some t) :
    (t.group && (d.createField (D := D) be f.fnum o f.value.print).hasGroupCount) = m.counts f := by
  obtain ⟨t', ht', -, hgroup⟩ := h.trait
  rw [ht] at ht'
  obtain rfl := Option.some.inj ht'
  rw [hgroup, MessageBase.counts]
  cases hg : m.own.fp.isGroup f.fnum with
  | false => rfl
  | true =>
    obtain ⟨hvalue, hlt, hcls⟩ := h.count hg
    have hcreated : (d.createField (D := D) be f.fnum o f.value.print).value = f.value := by
      show Value.create d.now be.cls f.value.print = f.value
      rw [hcls be hbe, hvalue]
      have hprint : (Value.int ((m.elements f.fnum).length : Int) : Value D).print =
          itoa (m.elements f.fnum).length := itoaInt_natCast
      rw [hprint, Value.create, cstr_digits isdigit_itoa, fastAtoiInt_itoa hlt]
    rw [BaseField.hasGroupCount, hcreated, BaseField.hasGroupCount]

/-- The field that a decode makes of the text of `f` at `o`. -/
theorem reread_createField [FpType D] {d : Feed} {be : BaseEntry} {o : Nat}
    (hbe : d.cx.findBe f.fnum = some be) :
    Reread d.cx d.now f (d.createField be f.fnum o f.value.print) :=
  ⟨rfl, be, hbe, rfl⟩

end

/-! ## Classes -/

/-- The tags of the class are none that may stand behind its elements, which are in `outer`; only
one is the first of an element, and none is present in a new one. -/
inductive GroupClass.Apart : (Nat → Prop) → GroupClass → Prop where
  | mk (outer : Nat → Prop) (fnum : Nat) (traits : FieldTraits) (nested : List GroupClass)
      (htags : ∀ k, traits.has k = true → ¬ outer k)
      (hfirst : ∀ j k, traits.getPos j = 1 → traits.getPos k = 1 → j = k)
      (habsent : ∀ t ∈ traits, t.present = false)
      (hsuppress : ∀ t ∈ traits, t.suppress = false)
      (hnested : ∀ c ∈ nested, Apart (fun k => traits.has k = true ∨ outer k) c) :
      Apart outer (.mk fnum traits nested)

theorem GroupClass.Apart.tags {outer : Nat → Prop} {c : GroupClass} (h : c.Apart outer) :
    ∀ k, c.traits.has k = true → ¬ outer k := by
  obtain ⟨_, _, _, _, htags, -, -, -, -⟩ := h
  exact htags

theorem GroupClass.Apart.first {outer : Nat → Prop} {c : GroupClass} (h : c.Apart outer) :
    ∀ j k, c.traits.getPos j = 1 → c.traits.getPos k = 1 → j = k := by
  obtain ⟨_, _, _, _, -, hfirst, -, -, -⟩ := h
  exact hfirst

theorem GroupClass.Apart.suppress {outer : Nat → Prop} {c : GroupClass} (h : c.Apart outer) :
    ∀ k, c.traits.suppress k = false := by
  obtain ⟨_, _, _, _, -, -, -, hsuppress, -⟩ := h
  intro k
  rw [FieldTraits.suppress]
  cases ht : FieldTraits.find _ k with
  | none => rfl
  | some t => exact hsuppress t (List.mem_of_find?_eq_some ht)

theorem GroupClass.Apart.nested {outer : Nat → Prop} {c : GroupClass} (h : c.Apart outer) :
    ∀ c' ∈ c.nested, c'.Apart fun k => c.traits.has k = true ∨ outer k := by
  obtain ⟨_, _, _, _, -, -, -, -, hnested⟩ := h
  exact hnested

/-! ## The fields of an element -/

section
variable {D : Type} [FpType D] {d : Feed} {m grp : MessageBase D} {f : BaseField D}
  {classes : List GroupClass} {outer : Nat → Prop} {o n : Nat} {rest : F8String}

/-- The elements of a group are read back into a message that does not have the group yet. -/
def GroupReads (d : Feed) (classes : List GroupClass) (outer : Nat → Prop) (fnum : Nat)
    (ms : List (MessageBase D)) : Prop :=
  ∀ (o : Nat) (rest : F8String) (m₀ : MessageBase D), d.rest o = elementsText ms ++ rest →
    Heads outer rest → m₀.findGroup fnum = none →
    ∃ c ms', c.fnum = fnum ∧ List.Forall₂ (Mirrors d.cx d.now) ms ms' ∧ ∀ᶠ k in atTop,
      decodeGroup d k classes fnum o m₀ = .ok (o + (elementsText ms).length) (m₀.openGroup c ms')

/-- The turn that reads a field, up to the group that it may count. -/
theorem groupTurn_field (hf : Legible d.cx grp.own.fp classes m f)
    (hv : fieldSeparator ∉ f.value.print) (hpos : n = 0 → grp.own.fp.getPos f.fnum = 1)
    (hrest : d.rest o = f.encode ++ rest) :
    ∃ bf, Reread d.cx d.now f bf ∧ ∀ nestedGroup, groupTurn d nestedGroup (o, n) grp =
      if m.counts f then
        (nestedGroup f.fnum (o + f.encode.length) >>= fun o' => pure (.inl (o', n + 1)))
          (grp.store f.fnum (n + 1) bf)
      else .ok (.inl (o + f.encode.length, n + 1)) (grp.store f.fnum (n + 1) bf) := by
  obtain ⟨be, hbe⟩ := hf.known
  obtain ⟨t, ht, habsent, -⟩ := hf.trait
  refine ⟨_, reread_createField (o := o) hbe, fun nestedGroup => ?_⟩
  have hpresent : grp.isPresent f.fnum = false := by
    rw [MessageBase.isPresent, FieldTraits.present, ht]
    exact habsent
  unfold groupTurn
  rw [hrest, extractElement_encode_of _ hv]
  dsimp only
  rw [Act.get_bind_apply, fastAtoiU16_itoa hf.fnum_lt, hpresent, if_neg Bool.false_ne_true,
    if_neg fun h => h.2 (hpos h.1), hbe, ht]
  dsimp only
  rw [Act.modify_bind_apply, hf.hasGroupCount hbe ht]
  split <;> rfl

theorem tagsOf_reread {fs bfs : List (BaseField D)} {cx : F8MetaCntx} {now : Ticks}
    (h : List.Forall₂ (Reread cx now) fs bfs) : tagsOf bfs = tagsOf fs := by
  induction h with
  | nil => rfl
  | cons hbf _ ih => exact congrArg₂ List.cons hbf.fnum ih

theorem ReadInto.fp {fs : List (BaseField D)} {m₀ m' : MessageBase D} {cx : F8MetaCntx} {now : Ticks}
    (h : ReadInto cx now m fs n m₀ m') : m'.own.fp = m₀.own.fp.mark (tagsOf fs) := by
  obtain ⟨bfs, hbfs, hown⟩ := h.own
  rw [hown, fp_storeAll, tagsOf_reread hbfs]

theorem ReadInto.getField {fs : List (BaseField D)} {m₀ m' : MessageBase D} {cx : F8MetaCntx}
    {now : Ticks} (h : ReadInto cx now m fs n m₀ m') {k : Nat} : ∃ bfs,
      List.Forall₂ (Reread cx now) fs bfs ∧
        m'.getField k = (m₀.getField k).or (bfs.find? fun f => f.fnum == k) := by
  obtain ⟨bfs, hbfs, hown⟩ := h.own
  exact ⟨bfs, hbfs, by rw [MessageBase.getField, hown, get?_storeAll]; rfl⟩

theorem ReadInto.getField_of_not_mem {fs : List (BaseField D)} {m₀ m' : MessageBase D}
    {cx : F8MetaCntx} {now : Ticks} (h : ReadInto cx now m fs n m₀ m') {k : Nat}
    (hk : k ∉ tagsOf fs) : m'.getField k = m₀.getField k := by
  obtain ⟨bfs, hbfs, hget⟩ := h.getField (k := k)
  have hnone : bfs.find? (fun f => f.fnum == k) = none := by
    refine List.find?_eq_none.2 fun f hf hfk => hk ?_
    rw [← tagsOf_reread hbfs, ← beq_iff_eq.1 hfk]
    exact List.mem_map_of_mem hf
  rw [hget, hnone, Option.or_none]

/-- One field of an element, with the group that it counts. -/
theorem groupField_read (hf : Legible d.cx grp.own.fp classes m f)
    (hv : fieldSeparator ∉ f.value.print) (hpos : n = 0 → grp.own.fp.getPos f.fnum = 1)
    (hnone : grp.findGroup f.fnum = none)
    (hgroup : m.counts f = true → GroupReads d classes outer f.fnum (m.elements f.fnum))
    (hrest : d.rest o = m.fieldText f ++ rest) (hheads : Heads outer rest) :
    ∃ grp', ReadInto d.cx d.now m [f] n grp grp' ∧ ∀ᶠ k in atTop,
      groupTurn d (decodeGroup d k classes) (o, n) grp =
        .ok (.inl (o + (m.fieldText f).length, n + 1)) grp' := by
  rw [MessageBase.fieldText, List.append_assoc] at hrest
  obtain ⟨bf, hbf, hturn⟩ := groupTurn_field hf hv hpos hrest
  cases hcounts : m.counts f with
  | false =>
    refine ⟨_, .field hbf hcounts, Eventually.of_forall fun k => ?_⟩
    rw [hturn, hcounts, MessageBase.fieldText, hcounts, if_neg Bool.false_ne_true,
      if_neg Bool.false_ne_true, List.append_nil]
  | true =>
    have hbehind := Feed.rest_add hrest
    rw [hcounts, if_pos rfl] at hbehind
    obtain ⟨c, ms', hc, hms, hread⟩ :=
      hgroup hcounts _ _ (grp.store f.fnum (n + 1) bf) hbehind hheads hnone
    refine ⟨_, .group hbf hcounts hc hnone hms, hread.mono fun k hk => ?_⟩
    rw [hturn, hcounts, if_pos rfl, Act.bind_ok hk, MessageBase.fieldText, hcounts, if_pos rfl,
      List.length_append, Nat.add_assoc]
    rfl

theorem heads_fields {fs : List (BaseField D)} (hfs : ∀ f ∈ fs, f.fnum < 65536)
    (houter : ∀ f ∈ fs, outer f.fnum) (hheads : Heads outer rest) :
    Heads outer (fs.flatMap m.fieldText ++ rest) := by
  cases fs with
  | nil => exact hheads
  | cons f fs =>
    rw [List.flatMap_cons, List.append_assoc]
    exact heads_fieldText (hfs f List.mem_cons_self) (houter f List.mem_cons_self)

/-- **The fields of an element are read back**, one turn for each. -/
theorem groupFields_read : ∀ {fs : List (BaseField D)} {o n : Nat} (grp : MessageBase D),
    (∀ f ∈ fs, Legible d.cx grp.own.fp classes m f) →
    (∀ f ∈ fs, fieldSeparator ∉ f.value.print) → (tagsOf fs).Nodup →
    (n = 0 → ∀ f ∈ fs.head?, grp.own.fp.getPos f.fnum = 1) →
    (∀ f ∈ fs, grp.findGroup f.fnum = none) →
    (∀ f ∈ fs, m.counts f = true → GroupReads d classes outer f.fnum (m.elements f.fnum)) →
    (∀ f ∈ fs, outer f.fnum) → d.rest o = fs.flatMap m.fieldText ++ rest → Heads outer rest →
    ∃ grp', ReadInto d.cx d.now m fs n grp grp' ∧ ∀ᶠ k in atTop, ∀ j,
      Act.loop .fuel (groupTurn d (decodeGroup d k classes)) (j + fs.length) (o, n) grp =
        Act.loop .fuel (groupTurn d (decodeGroup d k classes)) j
          (o + (fs.flatMap m.fieldText).length, n + fs.length) grp' := by
  intro fs
  induction fs with
  | nil =>
    intro o n grp _ _ _ _ _ _ _ _ _
    exact ⟨grp, .nil, Eventually.of_forall fun k j => rfl⟩
  | cons f fs ih =>
    intro o n grp hfs hv hnodup hfirst hnone hgroups houter hrest hheads
    obtain ⟨hf, hfs⟩ := List.forall_mem_cons.1 hfs
    obtain ⟨hvf, hv⟩ := List.forall_mem_cons.1 hv
    obtain ⟨hnonef, hnone⟩ := List.forall_mem_cons.1 hnone
    obtain ⟨hgroupf, hgroups⟩ := List.forall_mem_cons.1 hgroups
    obtain ⟨-, houter⟩ := List.forall_mem_cons.1 houter
    have hnodup' := hnodup
    obtain ⟨hfresh, hnodup⟩ := List.nodup_cons.1 hnodup
    rw [List.flatMap_cons, List.append_assoc] at hrest
    have hbehind : Heads outer (fs.flatMap m.fieldText ++ rest) :=
      heads_fields (fun f hf => (hfs f hf).fnum_lt) houter hheads
    obtain ⟨grp₁, hread₁, hturn⟩ := groupField_read hf hvf
      (fun h => hfirst h f (by simp)) hnonef hgroupf hrest hbehind
    have hne : ∀ f' ∈ fs, f'.fnum ≠ f.fnum := fun f' hf' heq =>
      hfresh (List.mem_map.2 ⟨f', hf', heq⟩)
    obtain ⟨grp', hread, hloop⟩ := ih (n := n + 1) grp₁
      (fun f' hf' => by
        rw [hread₁.fp]
        exact (hfs f' hf').mark (by simpa using hne f' hf'))
      hv hnodup (fun h => absurd h (Nat.succ_ne_zero n))
      (fun f' hf' => by
        rw [hread₁.others _ fun g hg _ => by
          rw [List.mem_singleton.1 hg]
          exact (hne f' hf').symm]
        exact hnone f' hf')
      hgroups houter (Feed.rest_add hrest) hheads
    refine ⟨grp', hread₁.trans hread hnodup', ?_⟩
    filter_upwards [hturn, hloop] with k hturn hloop j
    rw [List.length_cons, ← Nat.add_assoc, Act.loop_next hturn, hloop, List.flatMap_cons,
      List.length_append, Nat.add_assoc, Nat.add_assoc, Nat.add_comm 1]

/-! ## Elements -/

omit [FpType D] in
/-- `m` can be written and read back as an element of the class; its fields are in `R`. -/
inductive Written (cx : F8MetaCntx) (R : FieldTraits → BaseField D → Prop) :
    GroupClass → MessageBase D → Prop where
  | mk (c : GroupClass) (m : MessageBase D) (hunknown : m.own.unknown = [])
      (hfields : ∀ f ∈ m.own.shown, Legible cx c.traits c.nested m f)
      (hR : ∀ f ∈ m.own.shown, R c.traits f) (hnodup : (tagsOf m.own.shown).Nodup)
      (hfirst : ∃ f ∈ m.own.shown.head?, c.traits.getPos f.fnum = 1)
      (hmandatory : ∀ t ∈ c.traits, t.mandatory = true → t.fnum ∈ tagsOf m.own.shown)
      (hmsgs : ∀ f ∈ m.own.shown, m.counts f = true → ∀ g, m.findGroup f.fnum = some g →
        ∀ e ∈ g.msgs, Written cx R g.cls e) : Written cx R c m

/-- What stands behind an element of the class, and whether the group goes on there. -/
inductive ElementEnd (c : GroupClass) (outer : Nat → Prop) (rest : F8String) : Bool → Prop where
  | ended (h : rest = []) : ElementEnd c outer rest true
  | next (e : Element) (he : extractElement rest = some e)
      (hpos : c.traits.getPos (fastAtoiU16 e.tag) = 1) : ElementEnd c outer rest true
  | outer (e : Element) (he : extractElement rest = some e)
      (houter : outer (fastAtoiU16 e.tag)) : ElementEnd c outer rest false

theorem FieldTraits.has_of_getPos {fp : FieldTraits} {k : Nat} (h : fp.getPos k = 1) :
    fp.has k = true := by
  rw [FieldTraits.has]
  cases hk : fp.find k with
  | some t => rfl
  | none =>
    rw [FieldTraits.getPos, hk] at h
    cases h

variable {c : GroupClass} {e grp' : MessageBase D} {ok : Bool}

theorem ElementEnd.heads (h : ElementEnd c outer rest ok) :
    Heads (fun k => c.traits.has k = true ∨ outer k) rest := by
  cases h with
  | ended h => exact .inl h
  | next e he hpos => exact .inr ⟨e, he, .inl (FieldTraits.has_of_getPos hpos)⟩
  | outer e he houter => exact .inr ⟨e, he, .inr houter⟩

/-- An element is read back and added to its group. -/
def ElementReads (d : Feed) (outer : Nat → Prop) (c : GroupClass) (e : MessageBase D) : Prop :=
  ∀ (o : Nat) (rest : F8String) (ok : Bool), d.rest o = e.text ++ rest →
    ElementEnd c outer rest ok →
    ∃ e', Mirrors d.cx d.now e e' ∧ ∀ᶠ k in atTop, ∀ (fnum : Nat) (s : MessageBase D),
      elementTurn d k (decodeGroup d k c.nested) c fnum o s =
        .ok (if ok then .inl (o + e.text.length) else .inr (o + e.text.length))
          (MessageBase.addElement fnum e' s)

omit [FpType D] in
theorem find?_of_nodup {f : BaseField D} {fs : List (BaseField D)} (hnodup : (tagsOf fs).Nodup)
    (hf : f ∈ fs) : fs.find? (fun g => g.fnum == f.fnum) = some f := by
  induction fs with
  | nil => exact absurd hf List.not_mem_nil
  | cons g fs ih =>
    obtain ⟨hfresh, hnodup⟩ := List.nodup_cons.1 hnodup
    rcases List.mem_cons.1 hf with rfl | hf
    · simp
    · have hne : g.fnum ≠ f.fnum := fun heq => hfresh (List.mem_map.2 ⟨f, hf, heq.symm⟩)
      rw [List.find?_cons, beq_eq_false_iff_ne.2 hne]
      exact ih hnodup hf

/-- An element into which another was read mirrors it. -/
theorem ReadInto.mirrors {cx : F8MetaCntx} {now : Ticks}
    (h : ReadInto cx now e e.own.shown 0 (c.createGroup false) grp')
    (hsuppress : ∀ k, c.traits.suppress k = false) (hnodup : (tagsOf e.own.shown).Nodup)
    (hgroup : ∀ f ∈ e.own.shown, c.traits.isGroup f.fnum = e.own.fp.isGroup f.fnum) :
    Mirrors cx now e grp' := by
  obtain ⟨bfs, hbfs, hown⟩ := h.own
  have hranked : Ranked 0 (c.createGroup (D := D) false).own :=
    ⟨List.Pairwise.nil, fun _ he => absurd he List.not_mem_nil⟩
  have hshown : grp'.own.shown = bfs := by
    rw [hown, shown_storeAll hranked fun f _ => hsuppress f.fnum]
    rfl
  have htags : tagsOf bfs = tagsOf e.own.shown := tagsOf_reread hbfs
  have hget : ∀ k, grp'.getField k = bfs.find? fun f => f.fnum == k := by
    intro k
    rw [MessageBase.getField, hown, get?_storeAll]
    rfl
  constructor
  · rw [hshown]
    exact hbfs
  · intro f hf
    rw [hshown] at hf
    rw [hget]
    exact find?_of_nodup (htags ▸ hnodup) hf
  · intro k f hf
    rw [hget] at hf
    rw [hshown]
    exact .inl (List.mem_of_find?_eq_some hf)
  · intro f hf
    rw [h.fp, isGroup_mark]
    exact hgroup f hf
  · exact h.counted

/-- The turn behind the last field of an element. -/
theorem groupTurn_end (hend : ElementEnd c outer rest ok) (hc : c.Apart outer)
    (hread : ReadInto d.cx d.now e e.own.shown 0 (c.createGroup false) grp')
    (hfirst : ∃ f ∈ e.own.shown.head?, c.traits.getPos f.fnum = 1) (hrest : d.rest o = rest)
    {nestedGroup : Nat → Nat → Act (MessageBase D) Stop Nat} :
    groupTurn d nestedGroup (o, 0 + e.own.shown.length) grp' = .ok (.inr (o, ok)) grp' := by
  obtain ⟨f, hf, hpos⟩ := hfirst
  have hmem : f ∈ e.own.shown := List.mem_of_mem_head? hf
  have hfp : grp'.own.fp = c.traits.mark (tagsOf e.own.shown) := hread.fp
  unfold groupTurn
  rw [hrest]
  cases hend with
  | ended h =>
    subst h
    rfl
  | next e' he hpos' =>
    have htag : fastAtoiU16 e'.tag = f.fnum := hc.first _ _ hpos' hpos
    obtain ⟨t, ht⟩ := Option.isSome_iff_exists.1 (FieldTraits.has_of_getPos hpos)
    have hpresent : grp'.isPresent f.fnum = true := by
      rw [MessageBase.isPresent, FieldTraits.present, hfp, find_mark, ht, Option.map_some,
        if_pos (by rw [FieldTraits.find_fnum ht]; exact List.mem_map_of_mem hmem)]
      rfl
    rw [he]
    dsimp only
    rw [Act.get_bind_apply, htag, hpresent, if_pos rfl]
    rfl
  | outer e' he houter =>
    have hnone : c.traits.find (fastAtoiU16 e'.tag) = none := by
      cases hfind : c.traits.find (fastAtoiU16 e'.tag) with
      | none => rfl
      | some t => exact absurd houter (hc.tags _ (FieldTraits.has_of_find hfind))
    have hnone' : grp'.own.fp.find (fastAtoiU16 e'.tag) = none := by
      rw [hfp, find_mark, hnone]
      rfl
    have hlen : ¬ (0 + e.own.shown.length = 0) := by
      have := List.length_pos_of_mem hmem
      omega
    rw [he]
    dsimp only
    rw [Act.get_bind_apply, MessageBase.isPresent, FieldTraits.present, hnone']
    rw [if_neg (by simp), if_neg fun h => hlen h.1]
    cases d.cx.findBe (fastAtoiU16 e'.tag) <;> rfl

/-- **An element is read back**, if the groups that its fields count are. -/
theorem element_read {R : FieldTraits → BaseField D → Prop} (hw : Written d.cx R c e)
    (hR : ∀ fp f, R fp f → fieldSeparator ∉ f.value.print) (hc : c.Apart outer)
    (hgroups : ∀ f ∈ e.own.shown, e.counts f = true →
      GroupReads d c.nested (fun k => c.traits.has k = true ∨ outer k) f.fnum
        (e.elements f.fnum)) : ElementReads d outer c e := by
  obtain ⟨c, e, hunknown, hfields, hRf, hnodup, hfirst, hmandatory, -⟩ := hw
  have htext : e.text = e.own.shown.flatMap e.fieldText := by
    rw [text_eq, hunknown, List.append_nil]
  intro o rest ok hrest hend
  obtain ⟨f₀, hf₀, hpos₀⟩ := hfirst
  rw [htext] at hrest
  obtain ⟨grp', hread, hloop⟩ := groupFields_read (n := 0) (c.createGroup false) hfields
    (fun f hf => hR _ f (hRf f hf)) hnodup
    (fun _ f hf => by obtain rfl := Option.some.inj (hf.symm.trans hf₀); exact hpos₀)
    (fun _ _ => rfl) hgroups
    (fun f hf => by
      obtain ⟨t, ht, -⟩ := (hfields f hf).trait
      exact .inl (FieldTraits.has_of_find ht))
    hrest hend.heads
  have hbehind : d.rest (o + e.text.length) = rest := by
    rw [htext]
    exact Feed.rest_add hrest
  refine ⟨grp', hread.mirrors hc.suppress hnodup fun f hf => ?_, ?_⟩
  · obtain ⟨t, ht, -, hgroup⟩ := (hfields f hf).trait
    rw [FieldTraits.isGroup, ht]
    exact hgroup
  have hlt : o < d.fsize := by
    apply Feed.lt_fsize
    rw [hrest]
    intro hnil
    have hmem := List.mem_of_mem_head? hf₀
    have hf : e.fieldText f₀ = [] :=
      List.flatMap_eq_nil_iff.1 (List.append_eq_nil_iff.1 hnil).1 f₀ hmem
    exact absurd (List.append_eq_nil_iff.1 hf).1 (by simp [BaseField.encode])
  have hmissing : grp'.own.fp.findMissing = 0 := by
    rw [hread.fp]
    exact findMissing_mark fun t ht hm => .inr (hmandatory t ht hm)
  filter_upwards [hloop, eventually_ge_atTop (e.own.shown.length + 1)] with k hloop hk fnum s
  obtain ⟨j, rfl⟩ : ∃ j, k = j + 1 + e.own.shown.length := ⟨k - 1 - e.own.shown.length, by omega⟩
  have hturns := hloop (j + 1)
  rw [← htext, Act.loop_done (groupTurn_end hend hc hread ⟨f₀, hf₀, hpos₀⟩ hbehind)] at hturns
  have hbody : (do
      let r ← Act.loop .fuel (groupTurn d (decodeGroup d (j + 1 + e.own.shown.length) c.nested))
        (j + 1 + e.own.shown.length) (o, 0)
      let grp ← Act.get
      checkMissing d.cx grp.own.fp
      pure r : Act (MessageBase D) Stop (Nat × Bool)) (c.createGroup false) =
        .ok (o + e.text.length, ok) grp' := by
    rw [Act.bind_ok hturns, Act.get_bind_apply, checkMissing, hmissing]
    rfl
  unfold elementTurn
  rw [if_pos hlt, Act.bind_ok (Act.onLocal_ok hbody s)]
  rfl

/-! ## Groups -/

omit [FpType D] in
theorem addElement_openGroup {m₀ : MessageBase D} {ms : List (MessageBase D)}
    (hnone : m₀.findGroup c.fnum = none) :
    MessageBase.addElement c.fnum e (m₀.openGroup c ms) = m₀.openGroup c (ms ++ [e]) := by
  have hmap : m₀.groups.map (fun g => if g.fnum = c.fnum then g.add e else g) = m₀.groups := by
    conv_rhs => rw [← List.map_id m₀.groups]
    refine List.map_congr_left fun g hg => if_neg ?_
    simpa using List.find?_eq_none.1 hnone g hg
  unfold MessageBase.addElement MessageBase.openGroup
  rw [MessageBase.groups_withGroups, List.map_append, hmap, List.map_singleton,
    if_pos (show (GroupBase.mk c ms).fnum = c.fnum from rfl)]
  rfl

/-- The last element of a group. -/
theorem elements_last {m₀ : MessageBase D} (ms₀ : List (MessageBase D))
    (hnone : m₀.findGroup c.fnum = none) (hread : ElementReads d outer c e)
    (hrest : d.rest o = e.text ++ rest) (hheads : Heads outer rest) :
    ∃ e', Mirrors d.cx d.now e e' ∧ ∀ᶠ k in atTop, ∀ j,
      Act.loop .fuel (elementTurn d k (decodeGroup d k c.nested) c c.fnum) (j + 2) o
        (m₀.openGroup c ms₀) = .ok (o + e.text.length) (m₀.openGroup c (ms₀ ++ [e'])) := by
  rcases hheads with hnil | ⟨e₁, he₁, houter⟩
  · obtain ⟨e', he', hturn⟩ := hread o rest true hrest (.ended hnil)
    refine ⟨e', he', hturn.mono fun k hk j => ?_⟩
    have hend : ¬ o + e.text.length < d.fsize :=
      Nat.not_lt.2 (Feed.fsize_le ((Feed.rest_add hrest).trans hnil))
    rw [Act.loop_next (hk c.fnum _), addElement_openGroup hnone]
    refine Act.loop_done ?_
    unfold elementTurn
    rw [if_neg hend]
    rfl
  · obtain ⟨e', he', hturn⟩ := hread o rest false hrest (.outer e₁ he₁ houter)
    refine ⟨e', he', hturn.mono fun k hk j => ?_⟩
    rw [Act.loop_done (hk c.fnum _), addElement_openGroup hnone]

/-- **The elements of a group are read back**, one turn for each. -/
theorem elements_read {m₀ : MessageBase D} (hnone : m₀.findGroup c.fnum = none) :
    ∀ {ms : List (MessageBase D)} (ms₀ : List (MessageBase D)) {o : Nat}, ms ≠ [] → (∀ e ∈ ms, ElementReads d outer c e) →
      (∀ e ∈ ms, ∀ rest, ElementEnd c outer (e.text ++ rest) true) →
      d.rest o = elementsText ms ++ rest → Heads outer rest →
      ∃ ms', List.Forall₂ (Mirrors d.cx d.now) ms ms' ∧ ∀ᶠ k in atTop, ∀ j,
        Act.loop .fuel (elementTurn d k (decodeGroup d k c.nested) c c.fnum) (j + ms.length + 1) o
          (m₀.openGroup c ms₀) =
          .ok (o + (elementsText ms).length) (m₀.openGroup c (ms₀ ++ ms')) := by
  intro ms
  induction ms with
  | nil => exact fun _ _ h => absurd rfl h
  | cons e ms ih =>
    intro ms₀ o _ hreads hfirst hrest hheads
    obtain ⟨hread, hreads⟩ := List.forall_mem_cons.1 hreads
    obtain ⟨-, hfirst⟩ := List.forall_mem_cons.1 hfirst
    rw [elementsText, List.flatMap_cons, List.append_assoc] at hrest
    cases ms with
    | nil =>
      obtain ⟨e', he', hlast⟩ := elements_last ms₀ hnone hread hrest hheads
      refine ⟨[e'], .cons he' .nil, hlast.mono fun k hk j => ?_⟩
      rw [elementsText, List.flatMap_singleton]
      exact hk j
    | cons e₁ ms =>
      have hnext : ElementEnd c outer ((e₁ :: ms).flatMap MessageBase.text ++ rest) true := by
        rw [List.flatMap_cons, List.append_assoc]
        exact hfirst e₁ List.mem_cons_self _
      obtain ⟨e', he', hturn⟩ := hread o _ true hrest hnext
      obtain ⟨ms', hms', hloop⟩ := ih (ms₀ ++ [e']) (List.cons_ne_nil _ _) hreads hfirst
        (Feed.rest_add hrest) hheads
      refine ⟨e' :: ms', .cons he' hms', ?_⟩
      filter_upwards [hturn, hloop] with k hturn hloop j
      have hlen : o + (elementsText (e :: e₁ :: ms)).length =
          o + e.text.length + (elementsText (e₁ :: ms)).length := by
        rw [elementsText, List.flatMap_cons, List.length_append, Nat.add_assoc]
        rfl
      rw [List.length_cons, ← Nat.add_assoc, Act.loop_next (hturn c.fnum _),
        addElement_openGroup hnone, hlen]
      have hloop := hloop j
      rw [List.append_assoc] at hloop
      exact hloop

/-- **A group is read back**, if its elements are. -/
theorem groupReads_of_elements {fnum : Nat} {ms : List (MessageBase D)}
    (hc : createNestedGroup classes fnum = some c) (hne : ms ≠ [])
    (hreads : ∀ e ∈ ms, ElementReads d outer c e)
    (hfirst : ∀ e ∈ ms, ∀ rest, ElementEnd c outer (e.text ++ rest) true) :
    GroupReads d classes outer fnum ms := by
  have hfnum : c.fnum = fnum := by simpa using List.find?_some hc
  subst hfnum
  intro o rest m₀ hrest hheads hnone
  obtain ⟨ms', hms', hloop⟩ := elements_read hnone [] hne hreads hfirst hrest hheads
  refine ⟨c, ms', rfl, hms', ?_⟩
  obtain ⟨N, hN⟩ := eventually_atTop.1 hloop
  refine eventually_atTop.2 ⟨N + ms.length + 2, fun k hk => ?_⟩
  obtain ⟨j, rfl⟩ : ∃ j, k = j + ms.length + 1 + 1 := ⟨k - ms.length - 2, by omega⟩
  have hadd : MessageBase.findAddGroup classes c.fnum m₀ = .ok c (m₀.openGroup c []) := by
    unfold MessageBase.findAddGroup
    have hadd : m₀.addGroup (.mk c []) = m₀.openGroup c [] := by
      have hfind : m₀.findGroup (GroupBase.mk c ([] : List (MessageBase D))).fnum = none := hnone
      rw [MessageBase.addGroup, hfind]
      rfl
    rw [hnone]
    dsimp only
    rw [hc]
    dsimp only
    rw [hadd]
  unfold decodeGroup
  rw [Act.bind_ok hadd]
  exact hN _ (by omega) j

/-- An element begins with the field at the first position of its class. -/
theorem Written.begins {cx : F8MetaCntx} {R : FieldTraits → BaseField D → Prop}
    (hw : Written cx R c e) (rest : F8String) : ElementEnd c outer (e.text ++ rest) true := by
  obtain ⟨c, e, hunknown, hfields, -, -, ⟨f, hf, hpos⟩, -, -⟩ := hw
  obtain ⟨fs, hfs⟩ := List.head?_eq_some_iff.1 hf
  have hmem : f ∈ e.own.shown := List.mem_of_mem_head? hf
  rw [text_eq, hfs, List.flatMap_cons, List.append_assoc, List.append_assoc]
  have hheads : Heads (fun k => c.traits.getPos k = 1) (e.fieldText f ++
      (fs.flatMap e.fieldText ++ (e.own.unknown ++ rest))) :=
    heads_fieldText (hfields f hmem).fnum_lt hpos
  rcases hheads with hnil | ⟨e', he', hpos'⟩
  · exact absurd (List.append_eq_nil_iff.1 hnil).1 (by simp [MessageBase.fieldText, BaseField.encode])
  · exact .next e' he' hpos'

/-- A group that a legible field counts is read back, if its elements are. -/
theorem Legible.groupReads {R : FieldTraits → BaseField D → Prop} {fp : FieldTraits}
    (hf : Legible d.cx fp classes m f) (hcounts : m.counts f = true)
    (hclasses : ∀ c ∈ classes, c.Apart outer)
    (hmsgs : ∀ g, m.findGroup f.fnum = some g → ∀ e ∈ g.msgs, Written d.cx R g.cls e)
    (hreads : ∀ g, m.findGroup f.fnum = some g → g.cls.Apart outer →
      ∀ e ∈ g.msgs, ElementReads d outer g.cls e) :
    GroupReads d classes outer f.fnum (m.elements f.fnum) := by
  obtain ⟨g, hg, hcls⟩ := hf.group hcounts
  have helements : m.elements f.fnum = g.msgs := by
    rw [MessageBase.elements, hg]
    rfl
  have hisGroup : m.own.fp.isGroup f.fnum = true := (Bool.and_eq_true_iff.1 hcounts).1
  have hpos := hcounts
  rw [hf.counts_iff hisGroup, decide_eq_true_iff] at hpos
  rw [helements] at hpos ⊢
  exact groupReads_of_elements hcls (List.ne_nil_of_length_pos hpos)
    (hreads g hg (hclasses _ (List.mem_of_find?_eq_some hcls)))
    fun e he rest => (hmsgs g hg e he).begins rest

/-- **What can be written is read back**, at every depth. -/
theorem written_reads {R : FieldTraits → BaseField D → Prop}
    (hR : ∀ fp f, R fp f → fieldSeparator ∉ f.value.print) (hw : Written d.cx R c e) :
    ∀ {outer : Nat → Prop}, c.Apart outer → ElementReads d outer c e := by
  induction hw with
  | mk c m hunknown hfields hRf hnodup hfirst hmandatory hmsgs ih =>
    intro outer hc
    refine element_read ⟨c, m, hunknown, hfields, hRf, hnodup, hfirst, hmandatory, hmsgs⟩ hR hc ?_
    intro f hf hcounts
    exact (hfields f hf).groupReads hcounts hc.nested (hmsgs f hf hcounts)
      fun g hg hapart e he => ih f hf hcounts g hg e he hapart

end

end Fix8.Codec
