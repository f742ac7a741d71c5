import Fix8.Codec.Proof.ReadSection
import Fix8.Codec.Proof.Seqnum
import Fix8.Codec.Proof.Tag

/-!
# The payloads of data fields

A decode makes the string of a data field from a C string, so that it has no NUL, and inside a group
from the text up to a separator.

* `Carries`: the data fields of a part are in another with the same payloads, at every depth;
* **`Mirrors.carries`**: what comes back carries the payloads that have no NUL;
* **`Carries.unbroken`**: a group that a decode makes carries no others.
-/

namespace Fix8.Codec

open Lib

section
variable {D : Type} [FpType D]

/-- The field is a string if the table types it data, and has no separator in its text if not. -/
structure Sound (cx : F8MetaCntx) (fp : FieldTraits) (f : BaseField D) : Prop where
  data : fp.ftype f.fnum = .data →
    (∃ v, f.value = .string v) ∧ ∀ be, cx.findBe f.fnum = some be → be.cls = .string
  other : fp.ftype f.fnum ≠ .data → fieldSeparator ∉ f.value.print

/-- The field has no NUL in its text if the table types it data. -/
def NulFree (fp : FieldTraits) (f : BaseField D) : Prop :=
  fp.ftype f.fnum = .data → 0 ∉ f.value.print

/-- Nor has it a separator. -/
def Unbroken (fp : FieldTraits) (f : BaseField D) : Prop :=
  fp.ftype f.fnum = .data → 0 ∉ f.value.print ∧ fieldSeparator ∉ f.value.print

omit [FpType D] in
/-- The fields that `m` writes are in `P`, at every depth, each with the table of its class. -/
inductive Deep (P : FieldTraits → BaseField D → Prop) : FieldTraits → MessageBase D → Prop where
  | mk (fp : FieldTraits) (m : MessageBase D) (hfields : ∀ f ∈ m.own.shown, P fp f)
      (hmsgs : ∀ f ∈ m.own.shown, m.counts f = true → ∀ g, m.findGroup f.fnum = some g →
        ∀ e ∈ g.msgs, Deep P g.cls.traits e) : Deep P fp m

mutual

/-- The data fields that `m` writes are in `m'` with the same payloads, at every depth. -/
inductive Carries : FieldTraits → MessageBase D → MessageBase D → Prop where
  | mk (fp : FieldTraits) (m m' : MessageBase D)
      (hdata : ∀ f ∈ m.own.shown, fp.ftype f.fnum = .data →
        ∃ f', m'.getField f.fnum = some f' ∧ f'.value = f.value)
      (hmsgs : ∀ f ∈ m.own.shown, m.counts f = true → ∀ g, m.findGroup f.fnum = some g →
        CarriesAll g.cls.traits g.msgs (m'.elements f.fnum)) : Carries fp m m'

/-- The elements of a group carry those of another, one by one. -/
inductive CarriesAll : FieldTraits → List (MessageBase D) → List (MessageBase D) → Prop where
  | nil (fp : FieldTraits) : CarriesAll fp [] []
  | cons (fp : FieldTraits) (e e' : MessageBase D) (es es' : List (MessageBase D))
      (h : Carries fp e e') (hs : CarriesAll fp es es') : CarriesAll fp (e :: es) (e' :: es')

end

variable {cx : F8MetaCntx} {now : Ticks} {fp : FieldTraits} {m m' : MessageBase D}
  {f f' : BaseField D} {c : GroupClass} {P R : FieldTraits → BaseField D → Prop}

omit [FpType D] in
theorem carriesAll_of {es es' : List (MessageBase D)} (h : List.Forall₂ (Carries fp) es es') :
    CarriesAll fp es es' := by
  induction h with
  | nil => exact .nil fp
  | cons h _ ih => exact .cons fp _ _ _ _ h ih

omit [FpType D] in
theorem CarriesAll.forall₂ : ∀ {es es' : List (MessageBase D)}, CarriesAll fp es es' →
    List.Forall₂ (Carries fp) es es'
  | _, _, .nil _ => .nil
  | _, _, .cons _ _ _ _ _ h hs => .cons h hs.forall₂

theorem exists_of_forall₂ {α β : Type} {S : α → β → Prop} {l : List α} {u : List β} {a : α}
    (h : List.Forall₂ S l u) (ha : a ∈ l) : ∃ b ∈ u, S a b := by
  induction h with
  | nil => exact absurd ha List.not_mem_nil
  | @cons a' b' l u hab _ ih =>
    rcases List.mem_cons.1 ha with rfl | ha
    · exact ⟨b', List.mem_cons_self, hab⟩
    · obtain ⟨b, hb, hS⟩ := ih ha
      exact ⟨b, List.mem_cons_of_mem _ hb, hS⟩

omit [FpType D] in
theorem Deep.and (h : Deep P fp m) (h' : Deep R fp m) : Deep (fun fp f => P fp f ∧ R fp f) fp m := by
  induction h with
  | mk fp m hfields hmsgs ih =>
    obtain ⟨_, _, hfields', hmsgs'⟩ := h'
    exact ⟨fp, m, fun f hf => ⟨hfields f hf, hfields' f hf⟩,
      fun f hf hcounts g hg e he => ih f hf hcounts g hg e he (hmsgs' f hf hcounts g hg e he)⟩

omit [FpType D] in
theorem Deep.mono (h : Deep P fp m) (hPR : ∀ fp f, P fp f → R fp f) : Deep R fp m := by
  induction h with
  | mk fp m hfields _ ih => exact ⟨fp, m, fun f hf => hPR _ _ (hfields f hf), ih⟩

omit [FpType D] in
theorem Written.deep (h : Written cx R c m) : Deep R c.traits m := by
  induction h with
  | mk c m _ _ hR _ _ _ _ ih => exact ⟨c.traits, m, hR, ih⟩

omit [FpType D] in
theorem Written.and (h : Written cx R c m) (hP : Deep P c.traits m) :
    Written cx (fun fp f => R fp f ∧ P fp f) c m := by
  induction h with
  | mk c m hunknown hfields hR hnodup hfirst hmandatory _ ih =>
    obtain ⟨_, _, hPfields, hPmsgs⟩ := hP
    exact ⟨c, m, hunknown, hfields, fun f hf => ⟨hR f hf, hPfields f hf⟩, hnodup, hfirst, hmandatory,
      fun f hf hcounts g hg e he => ih f hf hcounts g hg e he (hPmsgs f hf hcounts g hg e he)⟩

/-! ## What comes back -/

/-- A string without a NUL is made again. -/
theorem Reread.value_eq (h : Reread cx now f f') (hs : Sound cx fp f) (hn : NulFree fp f)
    (hdata : fp.ftype f.fnum = .data) : f'.value = f.value := by
  obtain ⟨⟨v, hv⟩, hcls⟩ := hs.data hdata
  obtain ⟨be, hbe, hvalue⟩ := h.value
  have hnul : 0 ∉ v := by
    have := hn hdata
    rwa [hv] at this
  rw [hvalue, hcls be hbe, hv]
  exact congrArg Value.string (cstr_of_not_mem hnul)

/-- **What comes back carries the payloads** that have no NUL. -/
theorem Mirrors.carries (hs : Deep (fun fp f => Sound cx fp f ∧ NulFree fp f) fp m) :
    ∀ {m' : MessageBase D}, Mirrors cx now m m' → Carries fp m m' := by
  induction hs with
  | mk fp m hfields _ ih =>
    intro m' h
    obtain ⟨_, _, hshown, hget, -, -, hmsgs⟩ := h
    constructor
    · intro f hf hdata
      obtain ⟨f', hf', hreread⟩ := exists_of_forall₂ hshown hf
      rw [← hreread.fnum]
      exact ⟨f', hget f' hf', hreread.value_eq (hfields f hf).1 (hfields f hf).2 hdata⟩
    · intro f hf hcounts g hg
      have hmirrors := hmsgs f hf hcounts
      rw [elements_of_findGroup hg] at hmirrors
      exact carriesAll_of (((List.forall₂_and_left _ _).2 ⟨ih f hf hcounts g hg, hmirrors⟩).imp
        fun e e' h => h.1 h.2)

/-! ## What a decode makes -/

omit [FpType D] in
/-- The string of the field has neither NUL nor separator. -/
def UpToSeparator (_ : Nat) (f : BaseField D) : Prop :=
  ∀ v, f.value = .string v → 0 ∉ v ∧ fieldSeparator ∉ v

/-- **A group that carries payloads of a decode** has none with a NUL or a separator. -/
theorem Carries.unbroken (hs : Deep (Sound cx) fp m) : ∀ {m' : MessageBase D}, Carries fp m m' →
    Elements (EachField UpToSeparator) m' → Deep Unbroken fp m := by
  induction hs with
  | mk fp m hfields _ ih =>
    intro m' h helements
    obtain ⟨_, _, _, hdata, hmsgs⟩ := h
    obtain ⟨own, nested, groups, hown, hgroups⟩ := helements
    refine ⟨fp, m, fun f hf hd => ?_, fun f hf hcounts g hg e he => ?_⟩
    · obtain ⟨f', hget, hvalue⟩ := hdata f hf hd
      obtain ⟨⟨v, hv⟩, -⟩ := (hfields f hf).data hd
      rw [hv]
      exact hown _ _ hget v (hvalue.trans hv)
    · obtain ⟨e', he', hcarries⟩ := exists_of_forall₂ (hmsgs f hf hcounts g hg).forall₂ he
      obtain ⟨g', hg', he'⟩ := mem_elements he'
      exact ih f hf hcounts g hg e he hcarries (hgroups g' hg' e' he')

end

end Fix8.Codec
