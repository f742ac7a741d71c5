import Fix8.Codec.Proof.Carried
import Fix8.Codec.Proof.Frame

/-!
# A message and its payloads on the wire

The text of an encoded message is the header, the body and the trailer one behind the other, in the
frame. `factory` decodes each part into a new one, up to where the next part begins.

* `PartWritten`: what a part must be to be read back but for its payloads; `PartIntact`: payloads
  that are read back;
* **`PartWritten.read`**, **`PartWritten.intact`**: a part with intact payloads is decoded, and
  carries them; with others it does not.
-/

namespace Fix8.Codec

open Lib Filter

section
variable {D : Type} [FpType D]

/-! ## Parts -/

/-- The fields `fs` of `m` are as the class `mc` has it; its preamble is under the tags `kept`. -/
structure PartWritten (cx : F8MetaCntx) (mc : MessageClass) (kept : List Nat) (m : MessageBase D)
    (fs : List (BaseField D)) : Prop where
  legible : ∀ f ∈ fs, Legible cx mc.traits mc.groups m f
  nodup : (tagsOf fs).Nodup
  apart : ∀ f ∈ fs, f.fnum ∉ kept
  mandatory : ∀ t ∈ mc.traits, t.mandatory = true → t.fnum ∈ kept ∨ t.fnum ∈ tagsOf fs
  announced : Announced m mc.traits fs
  sound : ∀ f ∈ fs, Sound cx mc.traits f
  msgs : ∀ f ∈ fs, m.counts f = true → ∀ g, m.findGroup f.fnum = some g → ∀ e ∈ g.msgs,
    Written cx (Sound cx) g.cls e

/-- No payload has a NUL; those in groups, and those that are not read by their length, have no
separator. -/
structure PartIntact (mc : MessageClass) (m : MessageBase D) (fs : List (BaseField D)) : Prop where
  nulFree : ∀ f ∈ fs, NulFree mc.traits f
  exposed : ∀ f ∈ exposed mc.traits fs, Unbroken mc.traits f
  msgs : ∀ f ∈ fs, m.counts f = true → ∀ g, m.findGroup f.fnum = some g → ∀ e ∈ g.msgs,
    Deep Unbroken g.cls.traits e

/-- A new part, with its preamble under the tags `kept`. -/
structure NewPart (mc : MessageClass) (kept : List Nat) (m₀ : MessageBase D) : Prop where
  fp : m₀.own.fp = mc.traits.mark kept
  nested : m₀.nested = mc.groups
  groups : m₀.groups = []
  fields : ∀ k, k ∉ kept → m₀.getField k = none

variable {d : Feed} {cx : F8MetaCntx} {mc : MessageClass} {kept : List Nat}
  {m m₀ m' : MessageBase D} {f : BaseField D} {fs : List (BaseField D)} {outer : Nat → Prop}
  {permissive : Bool} {rest : F8String} {o : Nat}

omit [FpType D] in
theorem mark_nil (fp : FieldTraits) : fp.mark [] = fp := by
  simp [FieldTraits.mark]

omit [FpType D] in
theorem newPart_mkHdr : NewPart (D := D) cx.header headerTags cx.mkHdr where
  fp := by
    have hfp : (cx.mkHdr (D := D)).own.fp = ((cx.header.traits.setPresent
      commonBeginString).setPresent commonBodyLength).setPresent commonMsgType := rfl
    rw [hfp, ← mark_nil (FieldTraits.setPresent _ _), mark_cons, mark_cons, mark_cons]
    unfold FieldTraits.mark
    simp [headerTags, or_comm]
  nested := rfl
  groups := rfl
  fields := by
    intro k hk
    have hne : k ≠ commonBeginString ∧ k ≠ commonBodyLength ∧ k ≠ commonMsgType := by
      simpa [headerTags] using hk
    rw [MessageBase.getField, getField_mkHdr, if_neg hne.2.2, if_neg hne.2.1, if_neg hne.1]

omit [FpType D] in
theorem newPart_create : NewPart (D := D) mc [] (mc.create false) where
  fp := (mark_nil _).symm
  nested := rfl
  groups := rfl
  fields := fun _ _ => rfl

omit [FpType D] in
theorem newPart_mkTrl : NewPart (D := D) cx.trailer [commonCheckSum] cx.mkTrl where
  fp := by
    have hfp : (cx.mkTrl (D := D)).own.fp = cx.trailer.traits.setPresent commonCheckSum := rfl
    rw [hfp, ← mark_nil (FieldTraits.setPresent _ _), mark_cons]
  nested := rfl
  groups := rfl
  fields := by
    intro k hk
    have hne : k ≠ commonCheckSum := by simpa using hk
    exact OrdMap.get?_insert_of_ne hne

/-- The group of a field is read back if its elements are unbroken. -/
theorem PartWritten.groupReads (h : PartWritten d.cx mc kept m fs)
    (hclasses : ∀ c ∈ mc.groups, c.Apart outer)
    (hmsgs : ∀ f ∈ fs, m.counts f = true → ∀ g, m.findGroup f.fnum = some g → ∀ e ∈ g.msgs,
      Deep Unbroken g.cls.traits e) (hf : f ∈ fs) (hcounts : m.counts f = true) :
    GroupReads d mc.groups outer f.fnum (m.elements f.fnum) := by
  have hwritten : ∀ g, m.findGroup f.fnum = some g → ∀ e ∈ g.msgs,
      Written d.cx (fun fp f => Sound d.cx fp f ∧ Unbroken fp f) g.cls e := fun g hg e he =>
    (h.msgs f hf hcounts g hg e he).and (hmsgs f hf hcounts g hg e he)
  refine (h.legible f hf).groupReads hcounts hclasses hwritten fun g hg hapart e he => ?_
  refine written_reads (fun fp f hR => ?_) (hwritten g hg e he) hapart
  by_cases hdata : fp.ftype f.fnum = .data
  · exact (hR.2 hdata).2
  · exact hR.1.other hdata

theorem PartWritten.unread (h : PartWritten d.cx mc kept m fs) (hm₀ : NewPart mc kept m₀)
    (houter : ∀ k, mc.traits.has k = true → outer k) (hclasses : ∀ c ∈ mc.groups, c.Apart outer)
    (hmsgs : ∀ f ∈ fs, m.counts f = true → ∀ g, m.findGroup f.fnum = some g → ∀ e ∈ g.msgs,
      Deep Unbroken g.cls.traits e) : Unread d m outer mc.traits fs m₀ where
  legible := by
    intro f hf
    rw [hm₀.fp, hm₀.nested]
    exact (h.legible f hf).mark (h.apart f hf)
  ftype := fun k => by rw [hm₀.fp, ftype_mark]
  nodup := h.nodup
  fresh := fun f hf => hm₀.fields _ (h.apart f hf)
  none := fun f _ => by rw [MessageBase.findGroup, hm₀.groups]; rfl
  groups := by
    intro f hf hcounts
    rw [hm₀.nested]
    exact h.groupReads hclasses hmsgs hf hcounts
  outer := by
    intro f hf
    obtain ⟨t, ht, -⟩ := (h.legible f hf).trait
    exact houter _ (FieldTraits.has_of_find ht)
  announced := h.announced
  other := fun f hf => (h.sound f hf).other
  data := by
    intro f hf hdata
    obtain ⟨⟨v, hv⟩, -⟩ := (h.sound f hf).data hdata
    by_contra hgroup
    have hvalue := ((h.legible f hf).count (Bool.not_eq_false _ ▸ hgroup)).1
    rw [hv] at hvalue
    cases hvalue

/-- The payloads of the fields `fs` of `m` are in `m'`. -/
structure PartCarries (mc : MessageClass) (m : MessageBase D) (fs : List (BaseField D))
    (m' : MessageBase D) : Prop where
  data : ∀ f ∈ fs, mc.traits.ftype f.fnum = .data →
    ∃ f', m'.getField f.fnum = some f' ∧ f'.value = f.value
  msgs : ∀ f ∈ fs, m.counts f = true → ∀ g, m.findGroup f.fnum = some g →
    CarriesAll g.cls.traits g.msgs (m'.elements f.fnum)

omit [FpType D] in
/-- The fields in front are no data and count no group. -/
theorem carries_iff (lead : List (BaseField D)) (hshown : m.own.shown = lead ++ fs)
    (hlead : ∀ f ∈ lead, mc.traits.ftype f.fnum ≠ .data ∧ m.counts f = false) :
    Carries mc.traits m m' ↔ PartCarries mc m fs m' := by
  constructor
  · intro h
    obtain ⟨_, _, _, hdata, hmsgs⟩ := h
    rw [hshown] at hdata hmsgs
    exact ⟨fun f hf => hdata f (List.mem_append_right _ hf),
      fun f hf => hmsgs f (List.mem_append_right _ hf)⟩
  · intro h
    refine ⟨mc.traits, m, m', fun f hf hdata => ?_, fun f hf hcounts => ?_⟩
    · rw [hshown] at hf
      rcases List.mem_append.1 hf with hf | hf
      · exact absurd hdata (hlead f hf).1
      · exact h.data f hf hdata
    · rw [hshown] at hf
      rcases List.mem_append.1 hf with hf | hf
      · exact absurd hcounts (by simp [(hlead f hf).2])
      · exact h.msgs f hf hcounts

omit [FpType D] in
theorem PartCarries.congr {m'' : MessageBase D} (h : PartCarries mc m fs m')
    (hget : ∀ f ∈ fs, m''.getField f.fnum = m'.getField f.fnum)
    (hgroups : ∀ k, m''.findGroup k = m'.findGroup k) : PartCarries mc m fs m'' where
  data := by
    intro f hf hdata
    rw [hget f hf]
    exact h.data f hf hdata
  msgs := by
    intro f hf hcounts g hg
    rw [elements_congr (hgroups f.fnum)]
    exact h.msgs f hf hcounts g hg

/-- A field that was read into a message which did not have it. -/
theorem ReadInto.getField_mem {now : Ticks} {n : Nat} (h : ReadInto cx now m fs n m₀ m')
    (hnodup : (tagsOf fs).Nodup) (hf : f ∈ fs) (hfresh : m₀.getField f.fnum = none) :
    ∃ f', m'.getField f.fnum = some f' ∧ Reread cx now f f' := by
  obtain ⟨bfs, hbfs, hget⟩ := h.getField (k := f.fnum)
  obtain ⟨f', hf', hreread⟩ := exists_of_forall₂ hbfs hf
  rw [← tagsOf_reread hbfs] at hnodup
  refine ⟨f', ?_, hreread⟩
  rw [hget, hfresh, ← hreread.fnum, find?_of_nodup hnodup hf']
  rfl

/-- What was read into a new part carries intact payloads. -/
theorem PartWritten.carries {now : Ticks} {n : Nat} (h : PartWritten cx mc kept m fs)
    (hi : PartIntact mc m fs) (hm₀ : NewPart mc kept m₀) (hread : ReadInto cx now m fs n m₀ m') :
    PartCarries mc m fs m' where
  data := by
    intro f hf hdata
    obtain ⟨f', hget, hreread⟩ := hread.getField_mem h.nodup hf (hm₀.fields _ (h.apart f hf))
    exact ⟨f', hget, hreread.value_eq (h.sound f hf) (hi.nulFree f hf) hdata⟩
  msgs := by
    intro f hf hcounts g hg
    have hmirrors := hread.counted f hf hcounts
    rw [elements_of_findGroup hg] at hmirrors
    have hdeep : ∀ e ∈ g.msgs,
        Deep (fun fp f => Sound cx fp f ∧ NulFree fp f) g.cls.traits e := fun e he =>
      (h.msgs f hf hcounts g hg e he).deep.and
        ((hi.msgs f hf hcounts g hg e he).mono fun fp f hb hdata => (hb hdata).1)
    exact carriesAll_of (((List.forall₂_and_left _ _).2 ⟨hdeep, hmirrors⟩).imp
      fun e e' h => Mirrors.carries h.1 h.2)

/-- **A part with intact payloads is decoded**, and carries them. -/
theorem PartWritten.read (h : PartWritten d.cx mc kept m fs) (hi : PartIntact mc m fs)
    (ht : TagsRead mc.traits [] fs) (hm₀ : NewPart mc kept m₀) (houter : ∀ k, mc.traits.has k = true → outer k)
    (hclasses : ∀ c ∈ mc.groups, c.Apart outer) (hheads : Heads outer rest)
    (hrest : d.rest o = fs.flatMap m.fieldText ++ rest) (hends : Ends permissive mc.traits rest) :
    ∃ m', PartCarries mc m fs m' ∧ ∀ᶠ k in atTop,
      decode d permissive k o m₀ = .ok (o + (fs.flatMap m.fieldText).length) m' := by
  have hunread := h.unread hm₀ houter hclasses hi.msgs
  obtain ⟨m₁, u, hread, hdecode⟩ := decode_read permissive hunread ht hheads hrest
    hends (fun k hk => by rw [hm₀.fp, find_mark, hk]; rfl) (fun t ht hm => by
      rw [hm₀.fp] at ht
      obtain ⟨t', ht', rfl⟩ := List.mem_map.1 ht
      by_cases hkept : t'.fnum ∈ kept
      · rw [if_pos hkept]
        exact .inl rfl
      · rw [if_neg hkept] at hm ⊢
        exact .inr ((h.mandatory t' ht' hm).resolve_left hkept)) fun f hf => by
      by_cases hdata : mc.traits.ftype f.fnum = .data
      · exact (hi.exposed f hf hdata).2
      · exact hunread.other f (exposed_subset hf) hdata
  exact ⟨m₁.putAside u, (h.carries hi hm₀ hread).congr (fun _ _ => rfl) fun _ => rfl, hdecode⟩

end

end Fix8.Codec
