import Fix8.Codec.Proof.ReadGroup

/-!
# Reading a section back

`decode` reads one field a turn, but a length field together with the data field behind it: of the
data field it takes as many bytes as the length field says.

* `Announced`: a length field gives the length of a data field behind it; `exposed`: the fields that
  are read up to a separator; `TagsRead`: the buffer holds the tag of the field behind each length
  field;
* `fields_read`: the turns on the fields of a section;
* **`decode_read`**: a section is decoded up to what is not its own;
* **`decode_cut`**: unless a field that is read up to a separator has one in its text.
-/

namespace Fix8.Codec

open Lib Filter

/-- The type of the field `k`. -/
def FieldTraits.ftype (fp : FieldTraits) (k : Nat) : FieldType := (fp.find k).elim .other (·.ftype)

theorem FieldTraits.ftype_of_find {fp : FieldTraits} {k : Nat} {t : FieldTrait}
    (h : fp.find k = some t) : fp.ftype k = t.ftype := by
  rw [FieldTraits.ftype, h]
  rfl

theorem ftype_mark {fp : FieldTraits} {tags : List Nat} {k : Nat} :
    (fp.mark tags).ftype k = fp.ftype k := by
  rw [FieldTraits.ftype, FieldTraits.ftype, find_mark]
  cases fp.find k with
  | none => rfl
  | some t =>
    simp only [Option.map_some, Option.elim_some]
    split <;> rfl

section
variable {D : Type} [FpType D]

/-- A turn that reads the field goes on to a data field. -/
def IsLength (fp : FieldTraits) (f : BaseField D) : Prop :=
  fp.ftype f.fnum = .length ∧ f.fnum ≠ commonBodyLength

/-- The field `g` is taken for the data field of the length field `f` in front of it. -/
def IsDataOf (fp : FieldTraits) (f g : BaseField D) : Prop :=
  fp.ftype g.fnum = .data ∧ g.fnum = f.fnum + 1

/-- The field is no group and has the length of the text of `g`, which fits a field. -/
structure LengthOf (m : MessageBase D) (f g : BaseField D) : Prop where
  value : f.value = .int g.value.print.length
  size : g.value.print.length ≤ maxFldLength - 1
  plain : m.own.fp.isGroup f.fnum = false

/-- The two are read in one turn, the data field by its length. -/
def Joined (fp : FieldTraits) (f g : BaseField D) : Prop := IsLength fp f ∧ IsDataOf fp f g

instance {fp : FieldTraits} {f g : BaseField D} : Decidable (Joined fp f g) :=
  inferInstanceAs (Decidable ((_ ∧ _) ∧ _ ∧ _))

/-- Each length field gives the length of a data field behind it, and of the next field if that is
taken for its data field. -/
inductive Announced (m : MessageBase D) (fp : FieldTraits) : List (BaseField D) → Prop where
  | nil : Announced m fp []
  | field (f : BaseField D) (fs : List (BaseField D)) (hplain : ¬ IsLength fp f)
      (h : Announced m fp fs) : Announced m fp (f :: fs)
  | length (f g : BaseField D) (fs : List (BaseField D)) (hf : IsLength fp f) (hg : g ∈ fs)
      (hlen : LengthOf m f g) (hnext : ∀ g' ∈ fs.head?, IsDataOf fp f g' → g' = g)
      (h : Announced m fp fs) : Announced m fp (f :: fs)

/-- The fields that are read up to a separator: all but a data field directly behind its length. -/
def exposed (fp : FieldTraits) : List (BaseField D) → List (BaseField D)
  | f :: g :: fs => f :: if Joined fp f g then exposed fp fs else exposed fp (g :: fs)
  | fs => fs

/-- What `extract_element` leaves in the tag buffer. -/
def readTag (buf : F8String) (k : Nat) : F8String := overwrite buf (itoa k ++ [0])

/-- What `extract_element_fixed_width` leaves in it. -/
def lookTag (buf : F8String) (k : Nat) : F8String := overwrite (overwrite buf [0]) (itoa k)

/-- Behind each length field the tag buffer holds the tag of the next field, and no digits that
longer tags have left behind it; `buf` is the buffer in front of the fields. -/
inductive TagsRead (fp : FieldTraits) : F8String → List (BaseField D) → Prop where
  | nil (buf : F8String) : TagsRead fp buf []
  | field (buf : F8String) (f : BaseField D) (fs : List (BaseField D)) (hplain : ¬ IsLength fp f)
      (h : TagsRead fp (readTag buf f.fnum) fs) : TagsRead fp buf (f :: fs)
  | apart (buf : F8String) (f g : BaseField D) (fs : List (BaseField D)) (hf : IsLength fp f)
      (hg : ¬ IsDataOf fp f g)
      (htag : bufferText (lookTag (readTag buf f.fnum) g.fnum) = some (itoa g.fnum))
      (h : TagsRead fp (lookTag (readTag buf f.fnum) g.fnum) (g :: fs)) :
      TagsRead fp buf (f :: g :: fs)
  | joined (buf : F8String) (f g : BaseField D) (fs : List (BaseField D)) (hj : Joined fp f g)
      (htag : bufferText (lookTag (readTag buf f.fnum) g.fnum) = some (itoa g.fnum))
      (h : TagsRead fp (lookTag (readTag buf f.fnum) g.fnum) fs) : TagsRead fp buf (f :: g :: fs)

/-! ## Turns -/

variable {d : Feed} {m grp : MessageBase D} {f g : BaseField D} {outer : Nat → Prop}
  {o o' n : Nat} {rest buf : F8String} {permissive : Bool} {fp : FieldTraits}

theorem store_read (buf : F8String) (start : Nat) {t : FieldTrait}
    (hf : Legible d.cx grp.own.fp grp.nested m f) (ht : grp.own.fp.find f.fnum = some t)
    (hnone : grp.findGroup f.fnum = none)
    (hgroup : m.counts f = true → GroupReads d grp.nested outer f.fnum (m.elements f.fnum))
    (hrest : d.rest o = (if m.counts f then elementsText (m.elements f.fnum) else []) ++ rest)
    (hheads : Heads outer rest) :
    ∃ grp', ReadInto d.cx d.now m [f] n grp grp' ∧ ∀ᶠ k in atTop,
      storeField d k t f.fnum start f.value.print ⟨o, n, none, buf⟩ grp =
        .ok ⟨o + (if m.counts f then elementsText (m.elements f.fnum) else []).length, n + 1, none,
          buf⟩ grp' := by
  obtain ⟨be, hbe⟩ := hf.known
  have hstore : ∀ k, storeField d k t f.fnum start f.value.print ⟨o, n, none, buf⟩ grp =
      if m.counts f then
        (decodeGroup d k grp.nested f.fnum o >>= fun o' => pure ⟨o', n + 1, none, buf⟩)
          (grp.store f.fnum (n + 1) (d.createField be f.fnum start f.value.print))
      else .ok ⟨o, n + 1, none, buf⟩
        (grp.store f.fnum (n + 1) (d.createField be f.fnum start f.value.print)) := by
    intro k
    unfold storeField
    rw [hbe]
    dsimp only
    rw [Act.modify_bind_apply, hf.hasGroupCount hbe ht]
    split <;> rfl
  have hbf := reread_createField (f := f) (o := start) hbe
  cases hcounts : m.counts f with
  | false =>
    refine ⟨_, .field hbf hcounts, Eventually.of_forall fun k => ?_⟩
    rw [hstore, hcounts, if_neg Bool.false_ne_true]
    rfl
  | true =>
    rw [hcounts, if_pos rfl] at hrest
    obtain ⟨c, ms', hc, hms, hread⟩ :=
      hgroup hcounts o rest (grp.store f.fnum (n + 1) _) hrest hheads hnone
    refine ⟨_, .group hbf hcounts hc hnone hms, hread.mono fun k hk => ?_⟩
    rw [hstore, hcounts, if_pos rfl, Act.bind_ok hk, if_pos rfl]
    rfl

/-- What holds of a message while the fields `fs` of `m` are still to be read into it; `fp` gives
the types of the fields. -/
structure Unread (d : Feed) (m : MessageBase D) (outer : Nat → Prop) (fp : FieldTraits)
    (fs : List (BaseField D)) (grp : MessageBase D) : Prop where
  legible : ∀ f ∈ fs, Legible d.cx grp.own.fp grp.nested m f
  ftype : ∀ k, grp.own.fp.ftype k = fp.ftype k
  nodup : (tagsOf fs).Nodup
  fresh : ∀ f ∈ fs, grp.getField f.fnum = none
  none : ∀ f ∈ fs, grp.findGroup f.fnum = none
  groups : ∀ f ∈ fs, m.counts f = true →
    GroupReads d grp.nested outer f.fnum (m.elements f.fnum)
  outer : ∀ f ∈ fs, outer f.fnum
  announced : Announced m fp fs
  /-- Only a data field has a separator in its text. -/
  other : ∀ f ∈ fs, fp.ftype f.fnum ≠ .data → fieldSeparator ∉ f.value.print
  data : ∀ f ∈ fs, fp.ftype f.fnum = .data → m.own.fp.isGroup f.fnum = false

theorem Announced.append : ∀ {fs gs : List (BaseField D)}, Announced m fp (fs ++ gs) →
    Announced m fp gs
  | [], _, h => h
  | _ :: _, _, .field _ _ _ h => h.append
  | _ :: _, _, .length _ _ _ _ _ _ _ h => h.append

/-- Behind fields that have been read. -/
theorem Unread.behind {fs gs : List (BaseField D)} {grp' : MessageBase D}
    (h : Unread d m outer fp (fs ++ gs) grp) (hread : ReadInto d.cx d.now m fs n grp grp') :
    Unread d m outer fp gs grp' := by
  have hnodup := h.nodup
  rw [tagsOf, List.map_append] at hnodup
  obtain ⟨-, hgs, hapart⟩ := List.nodup_append.1 hnodup
  have hne : ∀ g ∈ gs, g.fnum ∉ tagsOf fs := fun g hg hmem =>
    hapart _ hmem _ (List.mem_map_of_mem hg) rfl
  have hmem : ∀ g ∈ gs, g ∈ fs ++ gs := fun g hg => List.mem_append_right _ hg
  constructor
  · intro g hg
    rw [hread.fp, hread.nested]
    exact (h.legible g (hmem g hg)).mark (hne g hg)
  · intro k
    rw [hread.fp, ftype_mark]
    exact h.ftype k
  · exact hgs
  · intro g hg
    rw [hread.getField_of_not_mem (hne g hg)]
    exact h.fresh g (hmem g hg)
  · intro g hg
    rw [hread.others _ fun f hf _ heq => hne g hg (List.mem_map.2 ⟨f, hf, heq⟩)]
    exact h.none g (hmem g hg)
  · intro g hg hcounts
    rw [hread.nested]
    exact h.groups g (hmem g hg) hcounts
  · exact fun g hg => h.outer g (hmem g hg)
  · exact h.announced.append
  · exact fun g hg => h.other g (hmem g hg)
  · exact fun g hg => h.data g (hmem g hg)

theorem Unread.tail {fs : List (BaseField D)} {grp' : MessageBase D}
    (h : Unread d m outer fp (f :: fs) grp) (hread : ReadInto d.cx d.now m [f] n grp grp') :
    Unread d m outer fp fs grp' :=
  (show Unread d m outer fp ([f] ++ fs) grp from h).behind hread

/-- What stands behind some of the fields. -/
theorem Unread.heads (fs : List (BaseField D)) {gs : List (BaseField D)} (h : Unread d m outer fp (fs ++ gs) grp)
    (hheads : Heads outer rest) : Heads outer (gs.flatMap m.fieldText ++ rest) :=
  heads_fields (fun g hg => (h.legible g (List.mem_append_right _ hg)).fnum_lt)
    (fun g hg => h.outer g (List.mem_append_right _ hg)) hheads

/-- The turn that reads a field up to its separator stores it. -/
theorem turn_read {fs : List (BaseField D)} (h : Unread d m outer fp (f :: fs) grp)
    (hv : fieldSeparator ∉ f.value.print) (hrest : d.rest o = m.fieldText f ++ rest)
    (hheads : Heads outer rest) :
    ∃ t grp', grp.own.fp.find f.fnum = some t ∧ ReadInto d.cx d.now m [f] n grp grp' ∧
      ∀ᶠ k in atTop, decodeTurn d permissive k ⟨o, n, none, buf⟩ grp =
        (if t.ftype ≠ .length ∨ f.fnum = commonBodyLength then
          pure (.inl ⟨o + (m.fieldText f).length, n + 1, none, readTag buf f.fnum⟩)
        else decodeData d permissive k f.fnum f.value.print
          ⟨o + (m.fieldText f).length, n + 1, none, readTag buf f.fnum⟩ :
          Act (MessageBase D) Stop (Cursor ⊕ Cursor)) grp' := by
  have hf := h.legible f List.mem_cons_self
  obtain ⟨t, ht, habsent, -⟩ := hf.trait
  rw [MessageBase.fieldText, List.append_assoc] at hrest
  obtain ⟨grp', hread, hstore⟩ := store_read (n := n) (readTag buf f.fnum) o hf ht
    (h.none f List.mem_cons_self) (h.groups f List.mem_cons_self) (Feed.rest_add hrest) hheads
  refine ⟨t, grp', ht, hread, hstore.mono fun k hk => ?_⟩
  have htag : fastAtoiU16 (itoa f.fnum) = f.fnum := fastAtoiU16_itoa hf.fnum_lt
  have he := extractElement_encode_of ((if m.counts f then
    elementsText (m.elements f.fnum) else []) ++ rest) hv
  rw [← hrest] at he
  rw [decodeTurn_absent he (by rw [htag]; exact ht) habsent]
  dsimp only
  rw [htag]
  refine (Act.bind_ok hk _).trans ?_
  rw [MessageBase.fieldText, List.length_append, Nat.add_assoc]

/-- A field that is no length. -/
theorem turn_field {fs : List (BaseField D)} (h : Unread d m outer fp (f :: fs) grp)
    (hplain : ¬ IsLength fp f) (hv : fieldSeparator ∉ f.value.print)
    (hrest : d.rest o = m.fieldText f ++ rest) (hheads : Heads outer rest) :
    ∃ grp', ReadInto d.cx d.now m [f] n grp grp' ∧ ∀ᶠ k in atTop,
      decodeTurn d permissive k ⟨o, n, none, buf⟩ grp =
        .ok (.inl ⟨o + (m.fieldText f).length, n + 1, none, readTag buf f.fnum⟩) grp' := by
  obtain ⟨t, grp', ht, hread, hturn⟩ := turn_read h hv hrest hheads
  refine ⟨grp', hread, hturn.mono fun k hk => ?_⟩
  rw [hk, if_pos]
  · rfl
  · by_contra hlength
    obtain ⟨htype, htag⟩ := not_or.1 hlength
    exact hplain ⟨(h.ftype _).symm.trans
      ((FieldTraits.ftype_of_find ht).trans (not_not.1 htype)), htag⟩

omit [FpType D] in
theorem itoa_separator {n : Nat} : fieldSeparator ∉ itoa n := by
  intro hmem
  exact absurd (isdigit_itoa _ hmem) (by decide)

theorem LengthOf.print (h : LengthOf m f g) : f.value.print = itoa g.value.print.length := by
  rw [h.value]
  exact itoaInt_natCast

omit [FpType D] in
theorem counts_of_plain (h : m.own.fp.isGroup f.fnum = false) : m.counts f = false := by
  rw [MessageBase.counts, h]
  rfl

/-- A length field: the turn goes on behind it. -/
theorem turn_length {fs : List (BaseField D)} (h : Unread d m outer fp (f :: fs) grp)
    (hf : IsLength fp f) (hlen : LengthOf m f g) (hrest : d.rest o = m.fieldText f ++ rest)
    (hheads : Heads outer rest) :
    ∃ grp', ReadInto d.cx d.now m [f] n grp grp' ∧ ∀ᶠ k in atTop,
      decodeTurn d permissive k ⟨o, n, none, buf⟩ grp =
        decodeData d permissive k f.fnum (itoa g.value.print.length)
          ⟨o + (m.fieldText f).length, n + 1, none, readTag buf f.fnum⟩ grp' := by
  obtain ⟨t, grp', ht, hread, hturn⟩ :=
    turn_read h (by rw [hlen.print]; exact itoa_separator) hrest hheads
  refine ⟨grp', hread, hturn.mono fun k hk => ?_⟩
  rw [hk, if_neg, hlen.print]
  rcases hf with ⟨htype, htag⟩
  rw [← h.ftype, FieldTraits.ftype_of_find ht] at htype
  simp [htype, htag]

/-- What `decodeData` looks at: the tag that the buffer holds then. -/
theorem data_turn {valSz : Nat} {e : Element} {tag : F8String} {t : FieldTrait} {lasttv k : Nat}
    {c : Cursor} (hsize : valSz ≤ maxFldLength - 1)
    (he : extractElementFixedWidth valSz (d.rest c.sOffset) = some e)
    (htext : bufferText (c.looked e).tag = some tag)
    (ht : grp.own.fp.find (fastAtoiU16 tag) = some t) :
    decodeData d permissive k lasttv (itoa valSz) c grp =
      (if t.ftype ≠ .data ∨ lasttv + 1 ≠ fastAtoiU16 tag then pure (.inl (c.looked e))
      else storeField d k t (fastAtoiU16 tag) c.sOffset e.val
        { c.looked e with sOffset := c.sOffset + e.result } >>= fun c => pure (.inl c) :
        Act (MessageBase D) Stop (Cursor ⊕ Cursor)) grp := by
  have hval : fastAtoiU32 (itoa valSz) = valSz := by
    apply fastAtoiU32_itoa
    unfold maxFldLength at hsize
    omega
  unfold decodeData
  dsimp only
  have htext : bufferText (overwrite (overwrite c.tag [0]) e.tag) = some tag := htext
  rw [hval, if_neg (Nat.not_lt.2 hsize), he]
  dsimp only
  rw [htext]
  dsimp only
  rw [Act.get_bind_apply, ht]
  rfl

/-- Behind a tag there is a value of any width that the text has. -/
theorem fixedWidth_encode {valSz : Nat}
    (hsize : valSz ≤ (g.value.print ++ fieldSeparator :: rest).length) :
    ∃ e, extractElementFixedWidth valSz (g.encode ++ rest) = some e ∧ e.tag = itoa g.fnum := by
  have htake : ((g.value.print ++ fieldSeparator :: rest).take valSz).length = valSz := by
    rw [List.length_take]
    omega
  rw [encode_append, ← List.take_append_drop valSz (g.value.print ++ fieldSeparator :: rest)]
  exact ⟨_, extractElementFixedWidth_append isdigit_itoa htake, rfl⟩

/-- The value of a field that is still to be read fits into the text. -/
theorem print_length_le (rest : F8String) {g' : BaseField D} {fs : List (BaseField D)} (hg' : g' ∈ g :: fs) :
    g'.value.print.length ≤ (g.value.print ++ fieldSeparator ::
      ((if m.counts g then elementsText (m.elements g.fnum) else []) ++
        (fs.flatMap m.fieldText ++ rest))).length := by
  rcases List.mem_cons.1 hg' with rfl | hg'
  · simp
  · have hsub : (m.fieldText g').length ≤ (fs.flatMap m.fieldText).length := by
      obtain ⟨a, b, rfl⟩ := List.append_of_mem hg'
      simp only [List.flatMap_append, List.flatMap_cons, List.length_append]
      omega
    have hprint : g'.value.print.length ≤ (m.fieldText g').length := by
      simp only [MessageBase.fieldText, BaseField.encode, List.length_append, List.length_cons]
      omega
    simp only [List.length_append, List.length_cons]
    omega

/-- The length field whose data field does not stand directly behind it. -/
theorem turn_apart {g' : BaseField D} {fs : List (BaseField D)}
    (h : Unread d m outer fp (f :: g :: fs) grp) (hf : IsLength fp f) (hg : ¬ IsDataOf fp f g)
    (htext : bufferText (lookTag (readTag buf f.fnum) g.fnum) = some (itoa g.fnum))
    (hg' : g' ∈ g :: fs) (hlen : LengthOf m f g') (hheads : Heads outer rest)
    (hrest : d.rest o = m.fieldText f ++ ((g :: fs).flatMap m.fieldText ++ rest)) :
    ∃ grp', ReadInto d.cx d.now m [f] n grp grp' ∧ ∀ᶠ k in atTop,
      decodeTurn d permissive k ⟨o, n, none, buf⟩ grp = .ok (.inl ⟨o + (m.fieldText f).length, n + 1,
        none, lookTag (readTag buf f.fnum) g.fnum⟩) grp' := by
  obtain ⟨grp', hread, hturn⟩ := turn_length h hf hlen hrest (Unread.heads [f] h hheads)
  have htail := h.tail hread
  have hlegible := htail.legible g List.mem_cons_self
  obtain ⟨t, ht, -, -⟩ := hlegible.trait
  refine ⟨grp', hread, hturn.mono fun k hk => ?_⟩
  have hbehind := Feed.rest_add hrest
  have hsplit : (g :: fs).flatMap m.fieldText ++ rest = g.encode ++
      ((if m.counts g then elementsText (m.elements g.fnum) else []) ++
        (fs.flatMap m.fieldText ++ rest)) := by
    rw [List.flatMap_cons, MessageBase.fieldText, List.append_assoc, List.append_assoc]
  obtain ⟨e, he, htag⟩ := fixedWidth_encode (print_length_le (m := m) rest hg')
  rw [← hsplit, ← hbehind] at he
  have hlook : (Cursor.looked ⟨o + (m.fieldText f).length, n + 1, none, readTag buf f.fnum⟩ e) =
      ⟨o + (m.fieldText f).length, n + 1, none, lookTag (readTag buf f.fnum) g.fnum⟩ := by
    rw [Cursor.looked, htag]
    rfl
  have hnum : fastAtoiU16 (itoa g.fnum) = g.fnum := fastAtoiU16_itoa hlegible.fnum_lt
  rw [hk, data_turn hlen.size he (by rw [hlook]; exact htext) (by rw [hnum]; exact ht), hnum, hlook,
    if_pos]
  · rfl
  · by_contra hdata
    obtain ⟨htype, hnum⟩ := not_or.1 hdata
    refine hg ⟨?_, (not_not.1 hnum).symm⟩
    rw [← htail.ftype, FieldTraits.ftype_of_find ht]
    exact not_not.1 htype

/-- A length field with its data field directly behind it. -/
theorem turn_pair {fs : List (BaseField D)} (h : Unread d m outer fp (f :: g :: fs) grp)
    (hjoined : Joined fp f g) (hlen : LengthOf m f g)
    (htext : bufferText (lookTag (readTag buf f.fnum) g.fnum) = some (itoa g.fnum))
    (hheads : Heads outer rest) (hrest : d.rest o = m.fieldText f ++ (m.fieldText g ++ rest)) :
    ∃ grp', ReadInto d.cx d.now m [f, g] n grp grp' ∧ ∀ᶠ k in atTop,
      decodeTurn d permissive k ⟨o, n, none, buf⟩ grp =
        .ok (.inl ⟨o + (m.fieldText f ++ m.fieldText g).length, n + 2, none,
          lookTag (readTag buf f.fnum) g.fnum⟩) grp' := by
  obtain ⟨hf, htype, hnum⟩ := hjoined
  have hlegible₀ := h.legible g (List.mem_cons_of_mem _ List.mem_cons_self)
  have hcounts : m.counts g = false :=
    counts_of_plain (h.data g (List.mem_cons_of_mem _ List.mem_cons_self) htype)
  obtain ⟨grp₁, hread₁, hturn⟩ := turn_length h hf hlen hrest
    (heads_fieldText hlegible₀.fnum_lt (h.outer g (List.mem_cons_of_mem _ List.mem_cons_self)))
  have htail := h.tail hread₁
  have hlegible := htail.legible g List.mem_cons_self
  obtain ⟨t, ht, -, -⟩ := hlegible.trait
  have hbehind := Feed.rest_add hrest
  have hencode : m.fieldText g = g.encode := by
    rw [MessageBase.fieldText, hcounts]
    simp
  rw [hencode] at hbehind
  have hfixed : extractElementFixedWidth g.value.print.length
      (d.rest (o + (m.fieldText f).length)) =
        some ⟨itoa g.fnum, g.value.print, g.encode.length⟩ := by
    rw [hbehind, encode_append, extractElementFixedWidth_append isdigit_itoa rfl]
    simp [BaseField.encode]
    omega
  have htag : fastAtoiU16 (itoa g.fnum) = g.fnum := fastAtoiU16_itoa hlegible.fnum_lt
  have hrest₂ : d.rest (o + (m.fieldText f).length + g.encode.length) =
      (if m.counts g then elementsText (m.elements g.fnum) else []) ++ rest := by
    rw [hcounts]
    exact Feed.rest_add hbehind
  obtain ⟨grp₂, hread₂, hstore⟩ := store_read (n := n + 1)
    (lookTag (readTag buf f.fnum) g.fnum) (o + (m.fieldText f).length)
    hlegible ht (htail.none g List.mem_cons_self)
    (fun hc => absurd hc (by simp [hcounts])) hrest₂ hheads
  refine ⟨grp₂, hread₁.trans hread₂ ?_, ?_⟩
  · exact h.nodup.sublist (by simp)
  · filter_upwards [hturn, hstore] with k hturn hstore
    have hdata : ¬ (t.ftype ≠ .data ∨ f.fnum + 1 ≠ g.fnum) := by
      rw [← htail.ftype, FieldTraits.ftype_of_find ht] at htype
      simp [htype, hnum]
    rw [hturn, data_turn (c := ⟨o + (m.fieldText f).length, n + 1, none, readTag buf f.fnum⟩)
      hlen.size hfixed htext (by rw [htag]; exact ht)]
    dsimp only
    rw [htag, if_neg hdata]
    refine (Act.bind_ok hstore _).trans ?_
    rw [hcounts, hencode]
    simp [Nat.add_assoc]

/-! ## The fields of a section -/

/-- The loop over a section goes through the fields `fs` of `m` and reads them. -/
structure TurnsRead (d : Feed) (permissive : Bool) (m : MessageBase D) (fs : List (BaseField D))
    (o n : Nat) (buf buf' : F8String) (grp grp' : MessageBase D) : Prop where
  into : ReadInto d.cx d.now m fs n grp grp'
  turns : ∃ t, ∀ᶠ k in atTop, ∀ j,
    Act.loop .fuel (decodeTurn d permissive k) (j + t) ⟨o, n, none, buf⟩ grp =
      Act.loop .fuel (decodeTurn d permissive k) j
        ⟨o + (fs.flatMap m.fieldText).length, n + fs.length, none, buf'⟩ grp'

theorem TurnsRead.nil : TurnsRead d permissive m [] o n buf buf grp grp :=
  ⟨.nil, 0, Eventually.of_forall fun _ _ => rfl⟩

/-- One turn, then others. -/
theorem TurnsRead.cons {fs gs : List (BaseField D)} {buf' buf'' : F8String}
    {grp' grp'' : MessageBase D} (hread : ReadInto d.cx d.now m fs n grp grp')
    (hturn : ∀ᶠ k in atTop, decodeTurn d permissive k ⟨o, n, none, buf⟩ grp =
      .ok (.inl ⟨o + (fs.flatMap m.fieldText).length, n + fs.length, none, buf'⟩) grp')
    (h : TurnsRead d permissive m gs (o + (fs.flatMap m.fieldText).length) (n + fs.length) buf'
      buf'' grp' grp'') (hnodup : (tagsOf (fs ++ gs)).Nodup) :
    TurnsRead d permissive m (fs ++ gs) o n buf buf'' grp grp'' := by
  obtain ⟨t, hturns⟩ := h.turns
  refine ⟨hread.trans h.into hnodup, t + 1, ?_⟩
  filter_upwards [hturn, hturns] with k hturn hturns j
  rw [← Nat.add_assoc, Act.loop_next hturn, hturns, List.flatMap_append, List.length_append,
    List.length_append, Nat.add_assoc, Nat.add_assoc]

omit [FpType D] in
theorem mem_exposed {fs : List (BaseField D)} : f ∈ exposed fp (f :: fs) := by
  cases fs <;> simp [exposed]

omit [FpType D] in
theorem exposed_joined {fs : List (BaseField D)} (h : Joined fp f g) :
    exposed fp (f :: g :: fs) = f :: exposed fp fs := by
  rw [exposed, if_pos h]

omit [FpType D] in
theorem exposed_single {fs : List (BaseField D)} (h : ∀ g ∈ fs.head?, ¬ Joined fp f g) :
    exposed fp (f :: fs) = f :: exposed fp fs := by
  cases fs with
  | nil => rfl
  | cons g fs => rw [exposed, if_neg (h g rfl)]

omit [FpType D] in
theorem exposed_subset {fp : FieldTraits} : ∀ {fs : List (BaseField D)}, exposed fp fs ⊆ fs
  | [] => fun _ h => h
  | [_] => fun _ h => h
  | f :: g :: fs => by
    rw [exposed]
    intro f' hf'
    rcases List.mem_cons.1 hf' with rfl | hf'
    · exact List.mem_cons_self
    · split at hf'
      · exact List.mem_cons_of_mem _ (List.mem_cons_of_mem _ (exposed_subset hf'))
      · exact List.mem_cons_of_mem _ (exposed_subset hf')

/-- A field that is read on its own, up to its separator. -/
theorem turn_single {fs : List (BaseField D)} (h : Unread d m outer fp (f :: fs) grp)
    (ht : TagsRead fp buf (f :: fs)) (hv : fieldSeparator ∉ f.value.print)
    (hsingle : ∀ g ∈ fs.head?, ¬ Joined fp f g) (hheads : Heads outer rest)
    (hrest : d.rest o = m.fieldText f ++ (fs.flatMap m.fieldText ++ rest)) :
    ∃ buf' grp', TagsRead fp buf' fs ∧ ReadInto d.cx d.now m [f] n grp grp' ∧ ∀ᶠ k in atTop,
      decodeTurn d permissive k ⟨o, n, none, buf⟩ grp =
        .ok (.inl ⟨o + (m.fieldText f).length, n + 1, none, buf'⟩) grp' := by
  cases ht with
  | field _ _ _ hplain ht =>
    obtain ⟨grp', hread, hturn⟩ := turn_field h hplain hv hrest (Unread.heads [f] h hheads)
    exact ⟨_, grp', ht, hread, hturn⟩
  | apart _ _ g fs hf hg htag ht =>
    cases h.announced with
    | field _ _ hplain => exact absurd hf hplain
    | length _ g' _ _ hg' hlen _ =>
      obtain ⟨grp', hread, hturn⟩ := turn_apart h hf hg htag hg' hlen hheads hrest
      exact ⟨_, grp', ht, hread, hturn⟩
  | joined _ _ g fs hj => exact absurd hj (hsingle g rfl)

/-- The turn on a field reads it, and with it the data field that it joins. -/
theorem turn_fields {fs : List (BaseField D)} (h : Unread d m outer fp (f :: fs) grp)
    (ht : TagsRead fp buf (f :: fs)) (hv : fieldSeparator ∉ f.value.print)
    (hheads : Heads outer rest) (hrest : d.rest o = (f :: fs).flatMap m.fieldText ++ rest) :
    ∃ gs fs' buf' grp', f :: fs = gs ++ fs' ∧ gs ≠ [] ∧
      exposed fp (f :: fs) = f :: exposed fp fs' ∧ TagsRead fp buf' fs' ∧
      ReadInto d.cx d.now m gs n grp grp' ∧ ∀ᶠ k in atTop,
        decodeTurn d permissive k ⟨o, n, none, buf⟩ grp =
          .ok (.inl ⟨o + (gs.flatMap m.fieldText).length, n + gs.length, none, buf'⟩) grp' := by
  rw [List.flatMap_cons, List.append_assoc] at hrest
  by_cases hjoined : ∃ g ∈ fs.head?, Joined fp f g
  · obtain ⟨g, hg, hjoined⟩ := hjoined
    obtain ⟨fs, rfl⟩ := List.head?_eq_some_iff.1 hg
    rw [List.flatMap_cons, List.append_assoc] at hrest
    have hlen : LengthOf m f g := by
      cases h.announced with
      | field _ _ hplain => exact absurd hjoined.1 hplain
      | length _ g' _ _ _ hlen hnext => exact hnext g rfl hjoined.2 ▸ hlen
    cases ht with
    | field _ _ _ hplain => exact absurd hjoined.1 hplain
    | apart _ _ _ _ _ hg => exact absurd hjoined.2 hg
    | joined _ _ _ _ _ htag ht =>
      obtain ⟨grp', hread, hturn⟩ := turn_pair h hjoined hlen htag
        (Unread.heads [f, g] h hheads) hrest
      exact ⟨[f, g], fs, _, grp', rfl, by simp, exposed_joined hjoined, ht, hread,
        by simpa using hturn⟩
  · have hsingle : ∀ g ∈ fs.head?, ¬ Joined fp f g := fun g hg hj => hjoined ⟨g, hg, hj⟩
    obtain ⟨buf', grp', ht, hread, hturn⟩ := turn_single h ht hv hsingle hheads hrest
    exact ⟨[f], fs, buf', grp', rfl, by simp, exposed_single hsingle, ht, hread,
      by simpa using hturn⟩

/-- Of the fields `fs` a decode comes to `post`, which is nothing or begins with the first field
that has a separator in its text and is read up to it. -/
structure ComesTo (fp : FieldTraits) (fs post : List (BaseField D)) : Prop where
  cut : ∀ f ∈ post.head?, f ∈ exposed fp fs ∧ fieldSeparator ∈ f.value.print
  clear : post = [] → ∀ f ∈ exposed fp fs, fieldSeparator ∉ f.value.print

theorem ComesTo.cons {fs fs' post : List (BaseField D)} (h : ComesTo fp fs post)
    (heq : exposed fp fs' = f :: exposed fp fs) (hv : fieldSeparator ∉ f.value.print) :
    ComesTo fp fs' post := by
  constructor
  · intro g hg
    rw [heq]
    exact ⟨List.mem_cons_of_mem _ (h.cut g hg).1, (h.cut g hg).2⟩
  · intro hpost
    rw [heq]
    exact List.forall_mem_cons.2 ⟨hv, h.clear hpost⟩

/-- **The fields of a section are read back**, up to the first that has a separator in its text and
is read up to it. -/
theorem fields_read (permissive : Bool) (hheads : Heads outer rest) : ∀ (N : Nat) {fs : List (BaseField D)} {o n : Nat}
    {buf : F8String} {grp : MessageBase D}, fs.length ≤ N → Unread d m outer fp fs grp →
    TagsRead fp buf fs → d.rest o = fs.flatMap m.fieldText ++ rest →
    ∃ pre post buf' grp', fs = pre ++ post ∧ TurnsRead d permissive m pre o n buf buf' grp grp' ∧
      ComesTo fp fs post := by
  intro N
  induction N with
  | zero =>
    intro fs o n buf grp hN _ _ _
    obtain rfl := List.length_eq_zero_iff.1 (Nat.le_zero.1 hN)
    exact ⟨[], [], buf, grp, rfl, .nil, by simp, by simp [exposed]⟩
  | succ N ih =>
    intro fs o n buf grp hN h ht hrest
    cases fs with
    | nil => exact ⟨[], [], buf, grp, rfl, .nil, by simp, by simp [exposed]⟩
    | cons f fs =>
      by_cases hv : fieldSeparator ∈ f.value.print
      · refine ⟨[], f :: fs, buf, grp, rfl, .nil, fun f' hf' => ?_, by simp⟩
        obtain rfl := Option.some.inj hf'
        exact ⟨mem_exposed, hv⟩
      · obtain ⟨gs, fs', buf₁, grp₁, heq, hne, hexposed, ht, hread, hturn⟩ :=
          turn_fields (n := n) h ht hv hheads hrest
        have hpos := List.length_pos_iff.2 hne
        rw [heq] at h hrest hN
        rw [List.flatMap_append, List.append_assoc] at hrest
        rw [List.length_append] at hN
        obtain ⟨pre, post, buf', grp', rfl, hturns, hstop⟩ :=
          ih (n := n + gs.length) (by omega) (h.behind hread) ht (Feed.rest_add hrest)
        refine ⟨gs ++ pre, post, buf', grp', ?_, ?_, hstop.cons hexposed hv⟩
        · rw [heq, List.append_assoc]
        · refine .cons hread hturn hturns (h.nodup.sublist ?_)
          rw [← List.append_assoc]
          exact (List.sublist_append_left _ _).map _

/-! ## The end of a section -/

omit [FpType D] in
/-- No element of the text, read on from separator to separator, is under a tag of the table. -/
inductive Foreign (fp : FieldTraits) : F8String → Prop where
  | ended {s : F8String} (h : extractElement s = none) : Foreign fp s
  | next {s : F8String} {e : Element} (h : extractElement s = some e)
      (hu : fp.find (fastAtoiU16 e.tag) = none) (hn : Foreign fp (s.drop e.result)) : Foreign fp s

omit [FpType D] in
/-- A section with the table ends in front of the text. -/
def Ends (permissive : Bool) (fp : FieldTraits) (s : F8String) : Prop :=
  if permissive then Foreign fp s else Heads (fun k => fp.find k = none) s

omit [FpType D] in
theorem ends_strict {fp : FieldTraits} {s : F8String} :
    Ends false fp s ↔ Heads (fun k => fp.find k = none) s := Iff.rfl

/-- `m` with text that was put aside. -/
def MessageBase.putAside (m : MessageBase D) (u : F8String) : MessageBase D :=
  m.withOwn { m.own with unknown := m.own.unknown ++ u }

omit [FpType D] in
theorem putAside_putAside {u v : F8String} : (m.putAside u).putAside v = m.putAside (u ++ v) := by
  simp only [MessageBase.putAside, MessageBase.own_withOwn, List.append_assoc]
  rfl

omit [FpType D] in
theorem putAside_nil : m.putAside [] = m := by
  obtain ⟨own, nested, groups⟩ := m
  simp [MessageBase.putAside, MessageBase.withOwn]

omit [FpType D] in
theorem Feed.rest_drop {a : Nat} : (d.rest o).drop a = d.rest (o + a) := by
  simp [Feed.rest, List.drop_drop]

/-- A permissive decode puts foreign elements aside. -/
theorem foreign_turns {s : F8String} (hs : Foreign fp s) :
    ∀ {o : Nat} (last : Option (Nat × Nat)) (buf : F8String) (grp : MessageBase D),
      (∀ k, fp.find k = none → grp.own.fp.find k = none) → d.rest o = s →
      ∃ u c t, (c.pos = n ∧ (c.last = last ∧ c.sOffset = o ∨ c.last = last.or (some (n, o)))) ∧
        ∀ k j, Act.loop .fuel (decodeTurn d true k) (j + t + 1) ⟨o, n, last, buf⟩ grp =
          .ok c (grp.putAside u) := by
  induction hs with
  | ended h =>
    intro o last buf grp _ hrest
    refine ⟨[], ⟨o, n, last, buf⟩, 0, ⟨rfl, .inl ⟨rfl, rfl⟩⟩, fun k j => ?_⟩
    rw [putAside_nil]
    refine Act.loop_done ?_
    unfold decodeTurn
    rw [hrest, h]
    rfl
  | @next s e h hu _ ih =>
    intro o last buf grp hfp hrest
    have hturn : ∀ k, decodeTurn d true k ⟨o, n, last, buf⟩ grp =
        .ok (.inl ⟨o + e.result, n, last.or (some (n, o)), overwrite buf (e.tag ++ [0])⟩)
          (grp.putAside (d.bytes o e.result)) := by
      intro k
      rw [decodeTurn_unknown (hrest ▸ h) (hfp _ hu)]
      rfl
    obtain ⟨u, c, t, ⟨hpos, hlast⟩, hloop⟩ := ih (o := o + e.result)
      (last.or (some (n, o))) (overwrite buf (e.tag ++ [0])) (grp.putAside (d.bytes o e.result)) hfp
      (by rw [← Feed.rest_drop, hrest])
    refine ⟨d.bytes o e.result ++ u, c, t + 1, ⟨hpos, .inr ?_⟩, fun k j => ?_⟩
    · rcases hlast with ⟨hlast, -⟩ | hlast
      · exact hlast
      · rw [hlast]
        cases last <;> rfl
    · rw [← Nat.add_assoc, Act.loop_next (hturn k), hloop, putAside_putAside]

/-- Where the loop over a section leads when the text goes on with what ends the section. -/
theorem loop_end (buf : F8String) (grp : MessageBase D) (hends : Ends permissive fp (d.rest o))
    (hfp : ∀ k, fp.find k = none → grp.own.fp.find k = none) :
    ∃ u c t, (match c.last with
        | some (pos, offset) => if permissive ∧ pos = c.pos then offset else c.sOffset
        | none => c.sOffset) = o ∧
      ∀ k j, Act.loop .fuel (decodeTurn d permissive k) (j + t + 1) ⟨o, n, none, buf⟩ grp =
        .ok c (grp.putAside u) := by
  cases permissive with
  | false =>
    rcases hends with hnil | ⟨e, he, hu⟩
    · refine ⟨[], ⟨o, n, none, buf⟩, 0, rfl, fun k j => ?_⟩
      rw [putAside_nil]
      refine Act.loop_done ?_
      unfold decodeTurn
      rw [hnil]
      rfl
    · refine ⟨[], Cursor.read ⟨o, n, none, buf⟩ e, 0, rfl, fun k j => ?_⟩
      rw [putAside_nil]
      refine Act.loop_done ?_
      rw [decodeTurn_unknown he (hfp _ hu)]
      rfl
  | true =>
    obtain ⟨u, c, t, ⟨hpos, hlast⟩, hloop⟩ := foreign_turns (n := n) hends none buf grp hfp rfl
    refine ⟨u, c, t, ?_, hloop⟩
    rcases hlast with ⟨hlast, hoff⟩ | hlast
    · rw [hlast]
      exact hoff
    · simp [hlast, hpos]

/-- **A section is decoded** up to what ends it, if no field that is read up to a separator has one
in its text. -/
theorem decode_read (permissive : Bool) {fs : List (BaseField D)} (h : Unread d m outer fp fs grp)
    (ht : TagsRead fp [] fs) (hheads : Heads outer rest) (hrest : d.rest o = fs.flatMap m.fieldText ++ rest)
    (hends : Ends permissive fp rest) (hfp : ∀ k, fp.find k = none → grp.own.fp.find k = none)
    (hmandatory : ∀ t ∈ grp.own.fp, t.mandatory = true → t.present = true ∨ t.fnum ∈ tagsOf fs)
    (hclear : ∀ f ∈ exposed fp fs, fieldSeparator ∉ f.value.print) :
    ∃ grp' u, ReadInto d.cx d.now m fs grp.own.pos.length grp grp' ∧ ∀ᶠ k in atTop,
      decode d permissive k o grp =
        .ok (o + (fs.flatMap m.fieldText).length) (grp'.putAside u) := by
  obtain ⟨pre, post, buf, grp', rfl, ⟨hread, t, hturns⟩, hcut, -⟩ :=
    fields_read (n := grp.own.pos.length) permissive hheads _ le_rfl h ht hrest
  obtain rfl : post = [] := by
    cases post with
    | nil => rfl
    | cons f post => exact absurd (hcut f rfl).2 (hclear f (hcut f rfl).1)
  rw [List.append_nil] at *
  have hbehind := Feed.rest_add hrest
  obtain ⟨u, c, t', hc, hloop⟩ := loop_end (n := grp.own.pos.length + pre.length) buf grp'
    (hbehind ▸ hends) fun k hk => by
      rw [hread.fp, find_mark, hfp k hk]
      rfl
  refine ⟨grp', u, hread, ?_⟩
  filter_upwards [hturns, eventually_ge_atTop (t + t' + 1)] with k hturns hk
  obtain ⟨j, rfl⟩ : ∃ j, k = j + t' + 1 + t := ⟨k - t - t' - 1, by omega⟩
  have hrun := hturns (j + t' + 1)
  rw [hloop] at hrun
  have hmissing : (grp'.putAside u).own.fp.findMissing = 0 := by
    have hfp' : (grp'.putAside u).own.fp = grp'.own.fp := rfl
    rw [hfp', hread.fp]
    exact findMissing_mark hmandatory
  rw [decode_apply, sectionStart, Act.bind_ok hrun]
  unfold sectionEnd
  rw [Act.get_bind_apply, checkMissing, hmissing, ← hc]
  rfl

/-! ## A field that is cut -/

end

end Fix8.Codec
