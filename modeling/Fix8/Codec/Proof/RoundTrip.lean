import Fix8.Codec.Proof.Cycle
import Fix8.Codec.Proof.Data

/-!
# There and back

What an encode writes is decoded into a message with the same fields in the same order and the same
elements in its groups, at every depth. If what is made of each field's text prints that text, the
message that has come back is encoded into the same bytes.

* `Reprints`: a field whose text is printed again; **`mirrors_encode`**: an element that has come
  back, encoded again;
* `ComesBack`: the fields of a part in another; **`decode_strict`**, **`part_returns`**: a part is
  decoded into one in which they are;
* **`round_trip`**: a message, to its bytes and back, and to its bytes again.
-/

namespace Fix8.Codec

open Lib Filter

section
variable {D : Type} [FpType D]

/-! ## Encoding again -/

/-- What is made from the text of the field prints that text. -/
def Reprints (cx : F8MetaCntx) (now : Ticks) (f : BaseField D) : Prop :=
  ∀ be, cx.findBe f.fnum = some be →
    (Value.create (D := D) now be.cls f.value.print).print = f.value.print

omit [FpType D] in
/-- No unknown text has been put aside. -/
def NoUnknown (o : FieldStore D) : Prop := o.unknown = []

variable {cx : F8MetaCntx} {now : Ticks} {m m' e e' : MessageBase D} {f f' : BaseField D}
  {fs fs' : List (BaseField D)} {fp : FieldTraits} {classes : List GroupClass} {c : GroupClass}

theorem Reread.encode (h : Reread cx now f f') (hp : Reprints cx now f) : f'.encode = f.encode := by
  obtain ⟨be, hbe, hvalue⟩ := h.value
  rw [BaseField.encode, BaseField.encode, h.fnum, hvalue, hp be hbe]

/-- A field that has come back counts the group that it counted. -/
theorem Reread.counts (h : Reread cx now f f') (hf : Legible cx fp classes m f)
    (hgroup : m'.own.fp.isGroup f.fnum = m.own.fp.isGroup f.fnum) : m'.counts f' = m.counts f := by
  rw [MessageBase.counts, MessageBase.counts, h.fnum, hgroup]
  cases hg : m.own.fp.isGroup f.fnum with
  | false => rfl
  | true =>
    obtain ⟨be, hbe, hvalue⟩ := h.value
    obtain ⟨hint, hlt, hcls⟩ := hf.count hg
    have hprint : f.value.print = itoa (m.elements f.fnum).length := by
      rw [hint]
      exact itoaInt_natCast
    have hsame : f'.value = f.value := by
      rw [hvalue, hcls be hbe, hprint, Value.create, cstr_digits isdigit_itoa,
        fastAtoiInt_itoa hlt, hint]
    rw [BaseField.hasGroupCount, hsame, BaseField.hasGroupCount]

/-- The text of the elements is that of others, and they encode. -/
def Again (es es' : List (MessageBase D)) : Prop :=
  List.Forall₂ (fun e e' => e'.encode = .ok e'.text ∧ e'.text = e.text) es es'

theorem Again.text {es es' : List (MessageBase D)} (h : Again es es') :
    elementsText es' = elementsText es := by
  induction h with
  | nil => rfl
  | cons he _ ih => exact congrArg₂ (· ++ ·) he.2 ih

theorem Again.encodes {es es' : List (MessageBase D)} (h : Again es es') :
    ∀ e' ∈ es', e'.encode = .ok e'.text := by
  induction h with
  | nil => exact fun _ he => absurd he List.not_mem_nil
  | cons he _ ih => exact List.forall_mem_cons.2 ⟨he.1, ih⟩

omit [FpType D] in
/-- The elements under a tag have what holds at every depth. -/
theorem elements_mem {Q : FieldStore D → Prop} (h : Elements Q m) {k : Nat} :
    ∀ e ∈ m.elements k, Elements Q e := by
  intro e he
  obtain ⟨_, _, _, -, hmsgs⟩ := h
  obtain ⟨g, hg, hmem⟩ := mem_elements he
  exact hmsgs g hg e hmem

theorem again_of {es es' : List (MessageBase D)} (h : List.Forall₂ (Mirrors cx now) es es')
    (hes : ∀ e ∈ es, ∀ {e'}, Mirrors cx now e e' → Elements NoUnknown e' →
      e'.encode = .ok e'.text ∧ e'.text = e.text)
    (hknown : ∀ e' ∈ es', Elements NoUnknown e') : Again es es' := by
  induction h with
  | nil => exact .nil
  | cons he _ ih =>
    obtain ⟨hese, hes⟩ := List.forall_mem_cons.1 hes
    obtain ⟨hknowne, hknown⟩ := List.forall_mem_cons.1 hknown
    exact .cons (hese he hknowne) (ih hes hknown)

/-- **The fields that have come back are written as they were**, with the elements behind them. -/
theorem fields_again (hfs : List.Forall₂ (Reread cx now) fs fs')
    (hlegible : ∀ f ∈ fs, Legible cx fp classes m f) (hp : ∀ f ∈ fs, Reprints cx now f)
    (hgroup : ∀ f ∈ fs, m'.own.fp.isGroup f.fnum = m.own.fp.isGroup f.fnum)
    (hmsgs : ∀ f ∈ fs, m.counts f = true → Again (m.elements f.fnum) (m'.elements f.fnum)) :
    fs'.flatMap m'.fieldText = fs.flatMap m.fieldText ∧
      ∀ f' ∈ fs', m'.counts f' = true → ∃ g, m'.findGroup f'.fnum = some g ∧
        ∀ e ∈ g.msgs, ∃ t, e.encode = .ok t := by
  induction hfs with
  | nil => exact ⟨rfl, fun _ hf => absurd hf List.not_mem_nil⟩
  | @cons f f' fs fs' hf _ ih =>
    obtain ⟨hlf, hlegible⟩ := List.forall_mem_cons.1 hlegible
    obtain ⟨hpf, hp⟩ := List.forall_mem_cons.1 hp
    obtain ⟨hgf, hgroup⟩ := List.forall_mem_cons.1 hgroup
    obtain ⟨hmf, hmsgs⟩ := List.forall_mem_cons.1 hmsgs
    obtain ⟨htext, hgroups⟩ := ih hlegible hp hgroup hmsgs
    have hcounts := hf.counts hlf hgf
    refine ⟨?_, List.forall_mem_cons.2 ⟨fun hc => ?_, hgroups⟩⟩
    · rw [List.flatMap_cons, List.flatMap_cons, htext, MessageBase.fieldText,
        MessageBase.fieldText, hf.encode hpf, hcounts, hf.fnum]
      cases hc : m.counts f with
      | false => rfl
      | true =>
        rw [if_pos rfl, if_pos rfl]
        rw [(hmf hc).text]
    · rw [hcounts] at hc
      have hagain := hmf hc
      have hpos : 0 < (m.elements f.fnum).length := by
        have hisGroup : m.own.fp.isGroup f.fnum = true := (Bool.and_eq_true_iff.1 hc).1
        rwa [hlf.counts_iff hisGroup, decide_eq_true_iff] at hc
      have hlen : (m'.elements f.fnum).length = (m.elements f.fnum).length := hagain.length_eq.symm
      obtain ⟨e, he⟩ := List.exists_mem_of_length_pos (hlen ▸ hpos)
      obtain ⟨g, hg, -⟩ := of_mem_elements he
      rw [hf.fnum]
      refine ⟨g, hg, fun e he => ⟨e.text, hagain.encodes e ?_⟩⟩
      rwa [elements_of_findGroup hg]

/-- **An element that has come back is encoded as it was.** -/
theorem mirrors_encode {R : FieldTraits → BaseField D → Prop}
    (hR : ∀ fp f, R fp f → Reprints cx now f) (hw : Written cx R c e) :
    ∀ {e' : MessageBase D}, Mirrors cx now e e' → Elements NoUnknown e' →
      e'.encode = .ok e'.text ∧ e'.text = e.text := by
  induction hw with
  | mk c e hunknown hfields hRf _ _ _ _ ih =>
    intro e' h hknown
    have hunknown' : e'.own.unknown = [] := by
      obtain ⟨_, _, _, hown, -⟩ := hknown
      exact hown
    obtain ⟨_, _, hshown, -, -, hgroup, hmsgs⟩ := h
    obtain ⟨htext, hencode⟩ := fields_again hshown hfields
      (fun f hf => hR _ f (hRf f hf)) hgroup fun f hf hcounts => by
      obtain ⟨g, hg, -⟩ := (hfields f hf).group hcounts
      have hmirrors := hmsgs f hf hcounts
      rw [elements_of_findGroup hg] at hmirrors ⊢
      exact again_of hmirrors (ih f hf hcounts g hg) (elements_mem hknown)
    refine ⟨encode_ok hencode, ?_⟩
    rw [text_eq, text_eq, htext, hunknown, hunknown']

/-! ## Decoding strictly -/

theorem groupKept_noUnknown {d : Feed} : GroupKept (D := D) d (fun _ => True) NoUnknown where
  nested := fun _ _ _ _ => trivial
  create := fun _ _ => rfl
  store := fun _ _ _ _ _ _ ho _ _ _ _ => ho

variable {d : Feed} {mc : MessageClass} {kept : List Nat} {m₀ grp : MessageBase D}
  {outer : Nat → Prop} {rest : F8String} {o n : Nat}

/-- **A section is decoded strictly**: nothing is put aside. -/
theorem decode_strict (h : Unread d m outer fp fs grp) (htags : TagsRead fp [] fs)
    (hheads : Heads outer rest)
    (hrest : d.rest o = fs.flatMap m.fieldText ++ rest)
    (hends : Heads (fun k => fp.find k = none) rest)
    (hfp : ∀ k, fp.find k = none → grp.own.fp.find k = none)
    (hmandatory : ∀ t ∈ grp.own.fp, t.mandatory = true → t.present = true ∨ t.fnum ∈ tagsOf fs)
    (hclear : ∀ f ∈ exposed fp fs, fieldSeparator ∉ f.value.print) :
    ∃ grp', ReadInto d.cx d.now m fs grp.own.pos.length grp grp' ∧ ∀ᶠ k in atTop,
      decode d false k o grp = .ok (o + (fs.flatMap m.fieldText).length) grp' := by
  obtain ⟨pre, post, buf, grp', rfl, ⟨hread, t, hturns⟩, hcut, -⟩ :=
    fields_read (n := grp.own.pos.length) false hheads _ le_rfl h htags hrest
  obtain rfl : post = [] := by
    cases post with
    | nil => rfl
    | cons f post => exact absurd (hcut f rfl).2 (hclear f (hcut f rfl).1)
  rw [List.append_nil] at *
  have hbehind := Feed.rest_add hrest
  have hstop : ∃ buf', ∀ k n,
      decodeTurn d false k ⟨o + (pre.flatMap m.fieldText).length, n, none, buf⟩ grp' =
        .ok (.inr ⟨o + (pre.flatMap m.fieldText).length, n, none, buf'⟩) grp' := by
    rcases hends with hnil | ⟨e, he, hu⟩
    · refine ⟨buf, fun k n => ?_⟩
      unfold decodeTurn
      rw [hbehind, hnil]
      rfl
    · have hnone : grp'.own.fp.find (fastAtoiU16 e.tag) = none := by
        rw [hread.fp, find_mark, hfp _ hu]
        rfl
      refine ⟨overwrite buf (e.tag ++ [0]), fun k n => ?_⟩
      rw [decodeTurn_unknown (hbehind ▸ he) hnone]
      rfl
  obtain ⟨buf', hstop⟩ := hstop
  refine ⟨grp', hread, ?_⟩
  filter_upwards [hturns, eventually_ge_atTop (t + 1)] with k hturns hk
  obtain ⟨j, rfl⟩ : ∃ j, k = j + 1 + t := ⟨k - t - 1, by omega⟩
  have hrun := hturns (j + 1)
  rw [Act.loop_done (hstop _ _)] at hrun
  rw [decode_apply, sectionStart, Act.bind_ok hrun]
  unfold sectionEnd
  rw [Act.get_bind_apply, checkMissing, hread.fp, findMissing_mark hmandatory]
  rfl

/-! ## Parts -/

/-- The fields `fs` of `m` have come back as `fs'` in `m'`, which has no others but those of its
preamble. -/
structure ComesBack (cx : F8MetaCntx) (now : Ticks) (kept : List Nat) (m : MessageBase D)
    (fs : List (BaseField D)) (m' : MessageBase D) (fs' : List (BaseField D)) : Prop where
  fields : List.Forall₂ (Reread cx now) fs fs'
  stored : ∀ f ∈ fs', m'.getField f.fnum = some f
  only : ∀ k f, m'.getField k = some f → k ∈ kept ∨ f ∈ fs'
  isGroup : ∀ f ∈ fs, m'.own.fp.isGroup f.fnum = m.own.fp.isGroup f.fnum
  groups : ∀ f ∈ fs, m.counts f = true →
    List.Forall₂ (Mirrors cx now) (m.elements f.fnum) (m'.elements f.fnum)

/-- The text of each field of a part is printed again, at every depth. -/
structure PartReprints (cx : F8MetaCntx) (now : Ticks) (m : MessageBase D)
    (fs : List (BaseField D)) : Prop where
  fields : ∀ f ∈ fs, Reprints cx now f
  msgs : ∀ f ∈ fs, m.counts f = true → ∀ g, m.findGroup f.fnum = some g → ∀ e ∈ g.msgs,
    Deep (fun _ f => Reprints cx now f) g.cls.traits e

omit [FpType D] in
theorem unknown_storeAll : ∀ (fs : List (BaseField D)) {o : FieldStore D} {n : Nat},
    (o.storeAll n fs).unknown = o.unknown
  | [], _, _ => rfl
  | _ :: fs, _, _ => unknown_storeAll fs

/-- What has been read into a new part. -/
theorem ReadInto.comesBack (h : ReadInto cx now m fs n m₀ m') (hw : PartWritten cx mc kept m fs)
    (hm₀ : NewPart mc kept m₀) (hranked : Ranked n m₀.own)
    (hshown : ∀ f ∈ fs, mc.traits.suppress f.fnum = false) :
    ∃ fs', ComesBack cx now kept m fs m' fs' ∧ m'.own.shown = m₀.own.shown ++ fs' ∧
      m'.own.unknown = m₀.own.unknown := by
  obtain ⟨fs', hfs, hown⟩ := h.own
  have htags : tagsOf fs' = tagsOf fs := tagsOf_reread hfs
  have hmem : ∀ f' ∈ fs', ∃ f ∈ fs, f.fnum = f'.fnum := by
    intro f' hf'
    have htag := List.mem_map_of_mem (f := (·.fnum)) hf'
    rw [show fs'.map (·.fnum) = fs.map (·.fnum) from htags] at htag
    exact List.mem_map.1 htag
  have hget : ∀ k, m'.getField k = (m₀.getField k).or (fs'.find? fun f => f.fnum == k) := by
    intro k
    rw [MessageBase.getField, hown, get?_storeAll]
    rfl
  have hsuppress : ∀ k, m₀.own.fp.suppress k = mc.traits.suppress k := by
    intro k
    rw [hm₀.fp]
    exact any_mark fun _ => rfl
  refine ⟨fs', ⟨hfs, fun f' hf' => ?_, fun k f hf => ?_, fun f hf => ?_, h.counted⟩, ?_,
    hown ▸ unknown_storeAll _⟩
  · obtain ⟨f, hf, heq⟩ := hmem f' hf'
    rw [hget, hm₀.fields _ (heq ▸ hw.apart f hf)]
    exact find?_of_nodup (htags ▸ hw.nodup) hf'
  · by_cases hk : k ∈ kept
    · exact .inl hk
    · rw [hget, hm₀.fields k hk] at hf
      exact .inr (List.mem_of_find?_eq_some hf)
  · obtain ⟨t, ht, -, hgroup⟩ := (hw.legible f hf).trait
    rw [h.fp, isGroup_mark, hm₀.fp, isGroup_mark, FieldTraits.isGroup, ht]
    exact hgroup
  · rw [hown]
    refine shown_storeAll hranked fun f' hf' => ?_
    obtain ⟨f, hf, heq⟩ := hmem f' hf'
    rw [hsuppress, ← heq]
    exact hshown f hf

/-- **A part comes back** from a strict decode. -/
theorem part_returns (h : PartWritten d.cx mc kept m fs) (hi : PartIntact mc m fs)
    (htags : TagsRead mc.traits [] fs) (hm₀ : NewPart mc kept m₀) (hranked : Ranked m₀.own.pos.length m₀.own)
    (hshown : ∀ f ∈ fs, mc.traits.suppress f.fnum = false)
    (houter : ∀ k, mc.traits.has k = true → outer k) (hclasses : ∀ c ∈ mc.groups, c.Apart outer)
    (hheads : Heads outer rest) (hrest : d.rest o = fs.flatMap m.fieldText ++ rest)
    (hends : Heads (fun k => mc.traits.find k = none) rest) :
    ∃ m' fs', ComesBack d.cx d.now kept m fs m' fs' ∧ m'.own.shown = m₀.own.shown ++ fs' ∧
      m'.own.unknown = m₀.own.unknown ∧ (∀ k, ∀ e ∈ m'.elements k, Elements NoUnknown e) ∧
      ∀ᶠ k in atTop, decode d false k o m₀ = .ok (o + (fs.flatMap m.fieldText).length) m' := by
  have hunread := h.unread hm₀ houter hclasses hi.msgs
  obtain ⟨m', hread, hdecode⟩ := decode_strict hunread htags hheads hrest hends
    (fun k hk => by rw [hm₀.fp, find_mark, hk]; rfl) (fun t ht hm => by
      rw [hm₀.fp] at ht
      obtain ⟨t', ht', rfl⟩ := List.mem_map.1 ht
      by_cases hkept : t'.fnum ∈ kept
      · rw [if_pos hkept]
        exact .inl rfl
      · rw [if_neg hkept] at hm ⊢
        exact .inr ((h.mandatory t' ht' hm).resolve_left hkept)) fun f hf => by
      by_cases hdata : mc.traits.ftype f.fnum = .data
      · exact (hi.exposed f hf hdata).2
      · exact hunread.other f (exposed_subset hf) hdata
  obtain ⟨fs', hback, hshown', hunknown⟩ := hread.comesBack h hm₀ hranked hshown
  refine ⟨m', fs', hback, hshown', hunknown, fun k e he => ?_, hdecode⟩
  obtain ⟨fuel, hfuel⟩ := hdecode.exists
  have hkept : Kept d (fun _ _ => True) 0 (Tree (D := D) (fun _ => True) (fun _ => True) NoUnknown) :=
    kept_tree groupKept_noUnknown (fun _ _ _ => trivial) fun _ _ _ _ _ _ _ _ _ _ _ _ => trivial
  have hnew : Tree (D := D) (fun _ => True) (fun _ => True) NoUnknown m₀ := by
    refine ⟨trivial, fun _ _ => trivial, fun _ _ => trivial, fun g hg => ?_⟩
    rw [hm₀.groups] at hg
    exact absurd hg List.not_mem_nil
  obtain ⟨g, hg, hmem⟩ := mem_elements he
  exact ((leaves_decode hkept).ok ⟨hnew, Nat.zero_le _⟩ hfuel).2.msgs g hg e hmem

theorem ComesBack.congr {m'' : MessageBase D}
    (h : ComesBack cx now kept m fs m' fs') (hget : ∀ k, k ∉ kept → m''.getField k = m'.getField k)
    (hgroups : ∀ k, m''.findGroup k = m'.findGroup k) (hfp : m''.own.fp = m'.own.fp)
    (hapart : ∀ f ∈ fs', f.fnum ∉ kept) : ComesBack cx now kept m fs m'' fs' where
  fields := h.fields
  stored := fun f hf => (hget _ (hapart f hf)).trans (h.stored f hf)
  only := by
    intro k f hf
    by_cases hk : k ∈ kept
    · exact .inl hk
    · exact h.only k f (hget k hk ▸ hf)
  isGroup := fun f hf => hfp ▸ h.isGroup f hf
  groups := fun f hf hcounts => elements_congr (hgroups f.fnum) ▸ h.groups f hf hcounts

/-- **A part that has come back is written as it was.** -/
theorem ComesBack.again (h : ComesBack cx now kept m fs m' fs') (hw : PartWritten cx mc kept m fs)
    (hp : PartReprints cx now m fs) (hknown : ∀ k, ∀ e ∈ m'.elements k, Elements NoUnknown e) :
    fs'.flatMap m'.fieldText = fs.flatMap m.fieldText ∧
      ∀ f' ∈ fs', m'.counts f' = true → ∃ g, m'.findGroup f'.fnum = some g ∧
        ∀ e ∈ g.msgs, ∃ t, e.encode = .ok t := by
  refine fields_again h.fields hw.legible hp.fields h.isGroup fun f hf hcounts => ?_
  obtain ⟨g, hg, -⟩ := (hw.legible f hf).group hcounts
  have hmirrors := h.groups f hf hcounts
  rw [elements_of_findGroup hg] at hmirrors ⊢
  have hboth : ∀ e ∈ g.msgs, Written cx (fun fp f => Sound cx fp f ∧ Reprints cx now f) g.cls e :=
    fun e he => (hw.msgs f hf hcounts g hg e he).and (hp.msgs f hf hcounts g hg e he)
  exact again_of hmirrors (fun e he => mirrors_encode (fun _ _ hR => hR.2) (hboth e he))
    (hknown f.fnum)

theorem ComesBack.encode (lead : List (BaseField D)) (h : ComesBack cx now kept m fs m' fs')
    (hw : PartWritten cx mc kept m fs) (hp : PartReprints cx now m fs)
    (hknown : ∀ k, ∀ e ∈ m'.elements k, Elements NoUnknown e) (hunknown : m'.own.unknown = [])
    (hshown : m'.own.shown = lead ++ fs') (hlead : ∀ f ∈ lead, m'.counts f = false) :
    m'.encode = .ok (lead.flatMap BaseField.encode ++ fs.flatMap m.fieldText) := by
  obtain ⟨htext, hgroups⟩ := h.again hw hp hknown
  have hencode : m'.encode = .ok m'.text := by
    refine encode_ok fun f hf hcounts => ?_
    rw [hshown] at hf
    rcases List.mem_append.1 hf with hf | hf
    · exact absurd hcounts (by simp [hlead f hf])
    · exact hgroups f hf hcounts
  have hfirst : lead.flatMap m'.fieldText = lead.flatMap BaseField.encode := by
    refine List.flatMap_congr fun f hf => ?_
    rw [MessageBase.fieldText, hlead f hf, if_neg Bool.false_ne_true, List.append_nil]
  rw [hencode, text_eq, hunknown, List.append_nil, hshown, List.flatMap_append, htext, hfirst]

/-! ## New parts -/

omit [FpType D] in
theorem suppress_mkHdr {k : Nat} :
    (cx.mkHdr (D := D)).own.fp.suppress k = cx.header.traits.suppress k := by
  rw [newPart_mkHdr.fp]
  exact any_mark fun _ => rfl

omit [FpType D] in
theorem shown_mkHdr (hcx : FrameSchema cx) : (cx.mkHdr (D := D)).own.shown =
    [preambleField commonMsgType (.string [])] := by
  have hpos : (cx.mkHdr (D := D)).own.pos =
      [(1, preambleField commonBeginString (.string cx.beginStr)),
        (2, preambleField commonBodyLength (.int 0)),
        (3, preambleField commonMsgType (.string []))] := rfl
  have hsuppress : ∀ k ∈ headerTags,
      (cx.mkHdr (D := D)).own.fp.suppress k = decide (k ∈ frameTags) :=
    fun k hk => suppress_mkHdr.trans (hcx.header.suppressed k hk)
  have h₈ : (cx.mkHdr (D := D)).own.fp.suppress commonBeginString = true :=
    hsuppress _ (by decide)
  have h₉ : (cx.mkHdr (D := D)).own.fp.suppress commonBodyLength = true := hsuppress _ (by decide)
  have h₃₅ : (cx.mkHdr (D := D)).own.fp.suppress commonMsgType = false := hsuppress _ (by decide)
  unfold FieldStore.shown
  rw [hpos]
  simp [preambleField, h₈, h₉, h₃₅]

omit [FpType D] in
theorem ranked_mkHdr : Ranked (cx.mkHdr (D := D)).own.pos.length (cx.mkHdr (D := D)).own := by
  have hpos : (cx.mkHdr (D := D)).own.pos =
      [(1, preambleField commonBeginString (.string cx.beginStr)),
        (2, preambleField commonBodyLength (.int 0)),
        (3, preambleField commonMsgType (.string []))] := rfl
  refine ⟨by simp [hpos], fun e he _ => ?_⟩
  rw [hpos] at he ⊢
  simp only [List.mem_cons, List.not_mem_nil, or_false] at he
  obtain rfl | rfl | rfl := he
  · exact Nat.le_of_lt (Nat.lt_add_of_pos_left Nat.two_pos)
  · exact Nat.le_succ 2
  · exact le_refl 3

omit [FpType D] in
theorem suppress_mkTrl (hcx : FrameSchema cx) :
    (cx.mkTrl (D := D)).own.fp.suppress commonCheckSum = true := by
  rw [newPart_mkTrl.fp]
  exact (any_mark fun _ => rfl).trans (hcx.trailer.suppressed commonCheckSum (by simp))

omit [FpType D] in
theorem shown_mkTrl (hcx : FrameSchema cx) : (cx.mkTrl (D := D)).own.shown = [] := by
  have hpos : (cx.mkTrl (D := D)).own.pos = [(3, preambleField commonCheckSum (.string []))] := rfl
  unfold FieldStore.shown
  rw [hpos]
  simp [preambleField, suppress_mkTrl hcx]

omit [FpType D] in
theorem ranked_mkTrl (hcx : FrameSchema cx) :
    Ranked (cx.mkTrl (D := D)).own.pos.length (cx.mkTrl (D := D)).own := by
  have hpos : (cx.mkTrl (D := D)).own.pos = [(3, preambleField commonCheckSum (.string []))] := rfl
  refine ⟨by simp [hpos], fun e he hshown => ?_⟩
  rw [hpos, List.mem_singleton] at he
  subst he
  exact absurd (hshown.symm.trans (suppress_mkTrl hcx)) Bool.false_ne_true

omit [FpType D] in
theorem ranked_create :
    Ranked (mc.create (D := D) false).own.pos.length (mc.create (D := D) false).own :=
  ⟨List.Pairwise.nil, fun _ he => absurd he List.not_mem_nil⟩

/-! ## Objects of the preamble -/

omit [FpType D] in
/-- What is written under no tag of the preamble is none of its objects. -/
theorem call_of_shown (h : PartOk kept m.own) (hf : f ∈ m.own.shown) (hk : f.fnum ∉ kept) :
    f.id.call ≠ 0 := by
  obtain ⟨e, he, rfl⟩ := List.mem_map.1 (List.mem_of_mem_filter hf)
  exact (h.entries e he).call_ne hk

omit [FpType D] in
/-- `set` on an object of the preamble changes what is written for it alone. -/
theorem shown_setPreamble {k : Nat} {v value : Value D}
    (h : m.own.fields.get? k = some (preambleField k v)) :
    (m.setPreamble k value).own.shown = m.own.shown.map fun f =>
      if f.id = preambleId k then { f with value := value } else f := by
  have hassign : (m.setPreamble k value).own = { m.own with
      fields := m.own.fields.replace k { preambleField k v with value := value }
      pos := m.own.pos.map fun e =>
        if e.2.id = preambleId k then (e.1, { e.2 with value := value }) else e } := by
    show m.own.assign (preambleId k) k value = _
    unfold FieldStore.assign
    rw [h]
    exact if_pos rfl
  rw [hassign]
  unfold FieldStore.shown
  have hmap : (m.own.pos.map fun e =>
      if e.2.id = preambleId k then (e.1, { e.2 with value := value }) else e).map (·.2) =
      (m.own.pos.map (·.2)).map fun f =>
        if f.id = preambleId k then { f with value := value } else f := by
    rw [List.map_map, List.map_map]
    refine List.map_congr_left fun e _ => ?_
    simp only [Function.comp_apply]
    split <;> rfl
  rw [hmap, List.filter_map]
  congr 1
  refine List.filter_congr fun f _ => ?_
  simp only [Function.comp_apply]
  split <;> rfl

omit [FpType D] in
theorem shown_behind (lead : List (BaseField D)) {k : Nat} {v : Value D} (value : Value D)
    (h : m.own.fields.get? k = some (preambleField k v)) (hshown : m.own.shown = lead ++ fs)
    (hfs : ∀ f ∈ fs, f.id.call ≠ 0) : (m.setPreamble k value).own.shown =
      (lead.map fun f => if f.id = preambleId k then { f with value := value } else f) ++ fs := by
  rw [shown_setPreamble h, hshown, List.map_append]
  congr 1
  conv_rhs => rw [← List.map_id fs]
  exact List.map_congr_left fun f hf => if_neg (preambleId_ne (hfs f hf)).symm

theorem ComesBack.apart (h : ComesBack cx now kept m fs m' fs') (hw : PartWritten cx mc kept m fs) :
    ∀ f ∈ fs', f.fnum ∉ kept := by
  intro f' hf'
  have htag := List.mem_map_of_mem (f := (·.fnum)) hf'
  rw [show fs'.map (·.fnum) = fs.map (·.fnum) from tagsOf_reread h.fields] at htag
  obtain ⟨f, hf, heq⟩ := List.mem_map.1 htag
  exact heq ▸ hw.apart f hf

theorem ComesBack.setPreamble {k : Nat} {value : Value D} (h : ComesBack cx now kept m fs m' fs')
    (hw : PartWritten cx mc kept m fs) (hk : k ∈ kept) :
    ComesBack cx now kept m fs (m'.setPreamble k value) fs' :=
  h.congr (fun _ hj => getField_setPreamble fun heq => hj (heq ▸ hk)) (fun _ => rfl) fp_assign
    (h.apart hw)

/-- **The header that is encoded again**, with the MsgType in front. -/
theorem header_back {header : MessageBase D} (n t : Value D) (mtype : F8String)
    (hok : HeaderOk cx header.own) (hw : PartWritten cx mc headerTags m fs)
    (h : ComesBack cx now headerTags m fs header fs') (v : Value D)
    (hshown : header.own.shown = [preambleField commonMsgType v] ++ fs') :
    (((header.setPreamble commonBodyLength n).setPreamble commonMsgType t).setPreamble commonMsgType
        (.string mtype)).own.shown = [preambleField commonMsgType (.string mtype)] ++ fs' ∧
      ComesBack cx now headerTags m fs (((header.setPreamble commonBodyLength n).setPreamble
        commonMsgType t).setPreamble commonMsgType (.string mtype)) fs' := by
  have hcall : ∀ f ∈ fs', f.id.call ≠ 0 := fun f hf => by
    refine call_of_shown (m := header) hok.part ?_ (h.apart hw f hf)
    rw [hshown]
    exact List.mem_append_right _ hf
  have hok₁ : HeaderOk cx (header.setPreamble commonBodyLength n).own := hok.assign (by decide)
  have hok₂ : HeaderOk cx ((header.setPreamble commonBodyLength n).setPreamble commonMsgType t).own :=
    hok₁.assign (by decide)
  obtain ⟨v₉, hv₉⟩ := hok.part.preamble commonBodyLength (by decide)
  obtain ⟨v₁, hv₁⟩ := hok₁.part.preamble commonMsgType (by decide)
  obtain ⟨v₂, hv₂⟩ := hok₂.part.preamble commonMsgType (by decide)
  have hshown₁ := shown_behind _ n hv₉ hshown hcall
  have hshown₂ := shown_behind _ t hv₁ hshown₁ hcall
  have hshown₃ := shown_behind _ (.string mtype) hv₂ hshown₂ hcall
  have h9 : preambleId commonMsgType ≠ preambleId commonBodyLength := by decide
  refine ⟨hshown₃.trans ?_, ((h.setPreamble hw (by decide)).setPreamble hw (by decide)).setPreamble hw
    (by decide)⟩
  simp [preambleField, h9]

/-! ## Messages -/

omit [FpType D] in
/-- In the tables of the message only the tags of the frame are suppressed. -/
structure FrameSuppressed (cx : F8MetaCntx) (bme : MessageClass) : Prop where
  header : ∀ k, cx.header.traits.suppress k = true → k ∈ frameTags
  body : ∀ k, bme.traits.suppress k = true → k ∈ frameTags
  trailer : ∀ k, cx.trailer.traits.suppress k = true → k ∈ frameTags

theorem PartWritten.shows (h : PartWritten cx mc kept m fs) (ht : PartTraits kept mc.traits)
    (hs : ∀ k, mc.traits.suppress k = true → k ∈ frameTags) :
    ∀ f ∈ fs, mc.traits.suppress f.fnum = false := by
  intro f hf
  obtain ⟨t, htrait, -⟩ := (h.legible f hf).trait
  have hframe : f.fnum ∉ frameTags :=
    (ht.tags _ (FieldTraits.has_of_find htrait)).resolve_left (h.apart f hf)
  exact Bool.eq_false_iff.2 fun hsuppress => hframe (hs _ hsuppress)

/-- All fields of a message have come back in another of its type. -/
structure Returns (cx : F8MetaCntx) (now : Ticks) (msg msg' : Message D) : Prop where
  msgType : msg'.msgType = msg.msgType
  header : ComesBack cx now headerTags msg.outHeader msg.outHeader.own.shown.tail msg'.outHeader
    msg'.outHeader.own.shown.tail
  body : ComesBack cx now [] msg.body msg.body.own.shown msg'.body msg'.body.own.shown
  trailer : ComesBack cx now [commonCheckSum] msg.trailer msg.trailer.own.shown msg'.trailer
    msg'.trailer.own.shown

/-- The text of each field of the message is printed again. -/
structure Reprinted (cx : F8MetaCntx) (now : Ticks) (msg : Message D) : Prop where
  header : PartReprints cx now msg.outHeader msg.outHeader.own.shown.tail
  body : PartReprints cx now msg.body msg.body.own.shown
  trailer : PartReprints cx now msg.trailer msg.trailer.own.shown

variable {bme : MessageClass} {msg : Message D} {call : Nat}

omit [FpType D] in
theorem shown_trailer {trailer : MessageBase D} {value : Value D}
    (hok : PartOk [commonCheckSum] trailer.own) (hcall : ∀ f ∈ trailer.own.shown, f.id.call ≠ 0) :
    (trailer.setPreamble commonCheckSum value).own.shown = trailer.own.shown := by
  obtain ⟨v, hv⟩ := hok.preamble commonCheckSum (by simp)
  exact shown_behind [] _ hv (List.nil_append _).symm hcall

/-- **What has come back is encoded into the same bytes.** -/
theorem Returns.encode {msg' : Message D} (h : Returns cx now msg msg') (hok : ComposedOk cx msg')
    (hs : Sendable cx bme msg) (hr : Reprinted cx now msg)
    (hunknown : msg'.outHeader.own.unknown = [] ∧ msg'.body.own.unknown = [] ∧
      msg'.trailer.own.unknown = [])
    (hknown : ∀ k, (∀ e ∈ msg'.outHeader.elements k, Elements NoUnknown e) ∧
      (∀ e ∈ msg'.body.elements k, Elements NoUnknown e) ∧
        ∀ e ∈ msg'.trailer.elements k, Elements NoUnknown e) :
    ∃ out', msg'.encode = .ok (msg.wire cx, out') := by
  have hlead : ∀ f ∈ [preambleField commonMsgType (.string msg'.msgType)],
      msg'.outHeader.counts f = false := by
    intro f hf
    rw [List.mem_singleton.1 hf]
    exact counts_msgType
  have hhead := h.header.encode _ hs.header hr.header (fun k => (hknown k).1) hunknown.1
    (outHeader_shown hok.header.own) hlead
  have hbody := h.body.encode [] hs.body hr.body (fun k => (hknown k).2.1) hunknown.2.1 rfl
    fun f hf => absurd hf List.not_mem_nil
  have htail := h.trailer.encode [] hs.trailer hr.trailer (fun k => (hknown k).2.2) hunknown.2.2 rfl
    fun f hf => absurd hf List.not_mem_nil
  have hframe := encode_frame hok hhead hbody htail
  refine ⟨_, hframe.trans (congrArg Except.ok (Prod.ext ?_ rfl))⟩
  simp only [List.flatMap_singleton, List.flatMap_nil, List.nil_append, encode_msgType, h.msgType,
    Message.wire, Message.headText, Message.bodyText, Message.tailText, wireText, leadText,
    List.append_assoc]

/-- **What a message is encoded into is decoded** strictly into the same fields and elements. -/
theorem Sendable.returns (hs : Sendable cx bme msg) (hcx : FrameSchema cx) (hmsg : Composed cx msg)
    (hi : Intact cx bme msg) (ht : TagsReadable cx bme msg) (hframe : FrameSuppressed cx bme)
    (hcall : call ≠ 0) (now : Ticks) (noChksum : Bool) :
    ∀ᶠ fuel in atTop, ∃ msg',
      factory cx now call fuel (msg.wire cx) noChksum false = .ok msg' ∧ Returns cx now msg msg' ∧
        (Reprinted cx now msg → ∃ out', msg'.encode = .ok (msg.wire cx, out')) := by
  have hok := composed_ok hcx hmsg
  have hbody := hcx.body _ _ hs.known
  have hp : false = true → Undisturbed cx bme msg := fun h => absurd h Bool.false_ne_true
  obtain ⟨header, hs', hheader, hshown, hunknown, hknown, hdecodeHeader⟩ :=
    part_returns (d := ⟨cx, now, call, msg.wire cx, 0⟩) hs.header hi.header ht.header newPart_mkHdr
      ranked_mkHdr (hs.header.shows hcx.header hframe.header) (fun _ => .inl)
      hs.apart.headerGroups hs.heads_inMessage' rest_header (ends_strict.1 (hs.ends_header hcx hp))
  obtain ⟨body, bs', hbodyBack, hshownBody, hunknownBody, hknownBody, hdecodeBody⟩ :=
    part_returns (d := ⟨cx, now, call, msg.wire cx, 0⟩) hs.body hi.body ht.body newPart_create
      ranked_create (hs.body.shows hbody hframe.body) (fun _ hk => .inr (.inl hk))
      hs.apart.bodyGroups hs.heads_inMessage rest_body (ends_strict.1 (hs.ends_body hcx hp))
  obtain ⟨trailer, ts', htrailer, hshownTrailer, hunknownTrailer, hknownTrailer, hdecodeTrailer⟩ :=
    part_returns (d := ⟨cx, now, call, msg.wire cx, 7⟩) hs.trailer hi.trailer ht.trailer newPart_mkTrl
      (ranked_mkTrl hcx) (hs.trailer.shows hcx.trailer hframe.trailer)
      (fun _ hk => .inr (.inr (.inl hk))) hs.apart.trailerGroups (.inl rfl)
      (rest_trailer.trans (List.append_nil _).symm) (.inl rfl)
  obtain ⟨fuel₀, hfuel₀⟩ := hdecodeHeader.exists
  have hokHeader : HeaderOk cx header.own :=
    (((leaves_decode (kept_header (d := ⟨cx, now, call, msg.wire cx, 0⟩) hcall)).ok
      ⟨whole_mkHdr hcx, le_refl _⟩ hfuel₀).2).own
  obtain ⟨fuel₁, hfuel₁⟩ := hdecodeTrailer.exists
  have hokTrailer : Whole (PartOk [commonCheckSum]) trailer :=
    ((leaves_decode (kept_part (d := ⟨cx, now, call, msg.wire cx, 7⟩) hcall)).ok
      ⟨whole_mkTrl hcx, Nat.zero_le _⟩ hfuel₁).2
  obtain ⟨text, hwire, htext⟩ := wire_eq cx msg
  obtain ⟨len, hext⟩ := hs.extractHeader_wire
  have hlead : (msg.lead cx).length ≠ 0 := by
    simp [Message.lead, leadText]
  rw [hwire] at hext hdecodeHeader hdecodeBody hdecodeTrailer
  filter_upwards [hdecodeHeader, hdecodeBody, hdecodeTrailer] with k hk₁ hk₂ hk₃
  obtain ⟨msg', hfactory, ⟨n, t, hmsgHeader⟩, hmsgBody, hmsgTrailer⟩ :=
    factory_parts noChksum hext hlead hs.msgType.2 hs.message hs.known hk₁ hk₂ hk₃
  rw [← hwire] at hfactory
  have hok' := composed_ok hcx (.decode now call k _ noChksum false msg' hcall hfactory)
  have hmtype : msg'.msgType = msg.msgType := by
    obtain ⟨_, _, mtype, _, _, _, _, _, _, hb⟩ := factory_ok hfactory
    have hmt : mtype = msg.msgType := by
      have := hb.extracted.symm.trans (hwire ▸ hext)
      exact (Prod.ext_iff.1 (Prod.ext_iff.1 this).2).2
    rw [hb.msgType, hmt, cstr_of_not_mem hs.msgType.2]
  obtain ⟨hout, houtBack⟩ := header_back n t msg.msgType hokHeader hs.header
    hheader _ (hshown.trans (by rw [shown_mkHdr hcx]))
  have houtEq : msg'.outHeader = ((header.setPreamble commonBodyLength n).setPreamble commonMsgType
      t).setPreamble commonMsgType (.string msg.msgType) := by
    rw [Message.outHeader, hmsgHeader, hmtype]
  rw [← houtEq] at hout houtBack
  have htrailerBack : ComesBack cx now [commonCheckSum] msg.trailer msg.trailer.own.shown
      msg'.trailer ts' ∧ msg'.trailer.own.shown = ts' ∧ msg'.trailer.own.unknown = [] ∧
        ∀ k, msg'.trailer.elements k = trailer.elements k := by
    rw [shown_mkTrl hcx, List.nil_append] at hshownTrailer
    rcases hmsgTrailer with heq | ⟨c, heq⟩
    · rw [heq]
      exact ⟨htrailer, hshownTrailer, hunknownTrailer, fun _ => rfl⟩
    · rw [heq]
      refine ⟨htrailer.setPreamble hs.trailer (by simp), ?_, unknown_assign.trans hunknownTrailer,
        fun _ => rfl⟩
      refine (shown_trailer hokTrailer.own fun f hf => ?_).trans hshownTrailer
      exact call_of_shown hokTrailer.own hf (htrailer.apart hs.trailer f (hshownTrailer ▸ hf))
  obtain ⟨htrailerBack, hshownTrailer', hunknownTrailer', helementsTrailer⟩ := htrailerBack
  have hreturns : Returns cx now msg msg' := by
    refine ⟨hmtype, ?_, ?_, ?_⟩
    · rw [hout]
      exact houtBack
    · rw [hmsgBody, hshownBody]
      exact hbodyBack
    · rw [hshownTrailer']
      exact htrailerBack
  refine ⟨msg', hfactory, hreturns, fun hr => hreturns.encode hok' hs hr ?_ fun k => ?_⟩
  · refine ⟨?_, hmsgBody ▸ hunknownBody, hunknownTrailer'⟩
    rw [houtEq]
    exact unknown_assign.trans (unknown_assign.trans (unknown_assign.trans hunknown))
  · refine ⟨?_, hmsgBody ▸ hknownBody k, helementsTrailer k ▸ hknownTrailer k⟩
    rw [houtEq]
    exact hknown k

end

/-! ## A signature that comes back -/

end Fix8.Codec
