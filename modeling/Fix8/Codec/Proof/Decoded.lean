import Fix8.Codec.Proof.Cycle
import Fix8.Codec.Proof.Forced
import Fix8.Codec.Proof.Turns

/-!
# What the factory accepts

A decode stores a field only under a tag of the table, and ends with a look for what is mandatory; a
group does so for each of its elements, whose first field must be the one at position 1.

* `Complies`: the fields of a part or an element, by the table of its class;
* `elementLaw_complies`: the elements of groups, at every depth;
* **`factory_complies`**: the three parts of a message that the factory returns.
-/

namespace Fix8.Codec

open Lib

/-! ## Tables -/

/-- The fields of the class, and of those it nests, are numbered from 1. -/
inductive GroupClass.Numbered : GroupClass → Prop where
  | mk (fnum : Nat) (traits : FieldTraits) (nested : List GroupClass)
      (htraits : ∀ t ∈ traits, t.fnum ≠ 0) (hnested : ∀ c ∈ nested, Numbered c) :
      Numbered (.mk fnum traits nested)

theorem GroupClass.Numbered.traits {c : GroupClass} (h : c.Numbered) :
    ∀ t ∈ c.traits, t.fnum ≠ 0 := by
  obtain ⟨_, _, _, htraits, -⟩ := h
  exact htraits

theorem GroupClass.Numbered.nested {c : GroupClass} (h : c.Numbered) :
    ∀ c' ∈ c.nested, c'.Numbered := by
  obtain ⟨_, _, _, -, hnested⟩ := h
  exact hnested

/-- The tables of a message, with what every schema has: fields that are numbered from 1, and the
frame of a message in its header and trailer. -/
structure FixSchema (cx : F8MetaCntx) (bme : MessageClass) : Prop extends TableSchema cx bme where
  headerNumbered : cx.header.cls.Numbered
  bodyNumbered : bme.cls.Numbered
  trailerNumbered : cx.trailer.cls.Numbered
  headerFrame : ∀ k ∈ headerTags, cx.header.traits.has k = true
  trailerFrame : cx.trailer.traits.has commonCheckSum = true

/-- The tables have the same mandatory fields. -/
def SameMandatory (fp fp' : FieldTraits) : Prop :=
  ∀ k, (fp'.find k).map (·.mandatory) = (fp.find k).map (·.mandatory)

theorem SameMandatory.setPresent {fp fp' : FieldTraits} {k : Nat} (h : SameMandatory fp fp') :
    SameMandatory fp (fp'.setPresent k) := by
  intro j
  rw [FieldTraits.find_setPresent, Option.map_map, ← h j]
  refine congrArg (Option.map · (fp'.find j)) (funext fun t => ?_)
  dsimp only [Function.comp_apply]
  split <;> rfl

/-- What is mandatory is present, when nothing is missing. -/
theorem present_of_findMissing {fp : FieldTraits} (h : fp.findMissing = 0) {t : FieldTrait}
    (ht : t ∈ fp) (hm : t.mandatory = true) (hne : ∀ t ∈ fp, t.fnum ≠ 0) : t.present = true := by
  unfold FieldTraits.findMissing at h
  cases hfind : List.find? (fun t => t.mandatory && !t.present) fp with
  | none =>
    have hnone := List.find?_eq_none.1 hfind t ht
    simpa [hm] using hnone
  | some t' =>
    rw [hfind] at h
    exact absurd h (hne t' (List.mem_of_find?_eq_some hfind))

/-! ## Parts and elements -/

section
variable {D : Type}

/-- The fields of a part or an element are in the table of its class, and all that are mandatory
there are stored. -/
structure Complies (c : GroupClass) (m : MessageBase D) : Prop where
  legal : ∀ k f, m.getField k = some f → f.fnum = k ∧ c.traits.has k = true
  mandatory : ∀ t ∈ c.traits, t.mandatory = true → (m.getField t.fnum).isSome

/-- An element of a group, whose field in front is the one at position 1 of its class. -/
structure ElementComplies (c : GroupClass) (e : MessageBase D) : Prop extends Complies c e where
  first : ∀ x ∈ e.own.pos.head?, x.1 = 1 ∧ c.traits.getPos x.2.fnum = 1

/-- A part with its groups, which are of the classes that its own nests, and their elements at every
depth. -/
structure PartComplies (c : GroupClass) (m : MessageBase D) : Prop extends Complies c m where
  groups : Housed ElementComplies c m

/-- The containers over a table, with what the constructor puts under the tags of `lead`. -/
structure Tabled (lead : List (Nat × Nat)) (c : GroupClass) (o : FieldStore D) : Prop where
  inStep : InStep lead c.traits o
  mandatory : SameMandatory c.traits o.fp
  lead : ∀ k, (lead.lookup k).isSome → c.traits.has k = true

variable {lead : List (Nat × Nat)} {c : GroupClass} {m : MessageBase D} {o : FieldStore D}
  {k pos : Nat} {f : BaseField D}

theorem SameMandatory.refl {fp : FieldTraits} : SameMandatory fp fp := fun _ => rfl

theorem tabled_create (hc : c.Tables) : Tabled (D := D) [] c (.create c.traits) where
  inStep := (placed_create hc.traits).inStep (.refl _)
  mandatory := .refl
  lead := fun _ hk => absurd hk (by simp)

theorem Tabled.store (h : Tabled lead c o) (hhas : o.fp.has f.fnum = true) :
    Tabled lead c ((o.addFieldDecoder f.fnum pos f).setPresent f.fnum) :=
  ⟨h.inStep.store hhas, h.mandatory.setPresent, h.lead⟩

theorem Tabled.assign {id : ObjId} {v : Value D} (h : Tabled lead c o) :
    Tabled lead c (o.assign id k v) :=
  ⟨h.inStep.assign, by rw [fp_assign]; exact h.mandatory, h.lead⟩

/-- What is stored under a table that misses nothing complies with it. -/
theorem Tabled.complies (h : Tabled lead c m.own) (hc : c.Tables) (hn : c.Numbered)
    (hmissing : m.own.fp.findMissing = 0) : Complies c m where
  legal := by
    intro k f hf
    refine ⟨h.inStep.field k f hf, ?_⟩
    cases hk : lead.lookup k with
    | none => exact (h.inStep.traits.has k).symm.trans (h.inStep.legal k f hf hk)
    | some n => exact h.lead k (by rw [hk]; rfl)
  mandatory := by
    intro t ht hm
    have hfind : c.traits.find t.fnum = some t := find_of_mem hc.traits.tags ht
    have hmandatory := h.mandatory t.fnum
    rw [hfind, Option.map_some, hm] at hmandatory
    obtain ⟨t', ht', hm'⟩ := Option.map_eq_some_iff.1 hmandatory
    have htags : ∀ t ∈ m.own.fp, t.fnum ≠ 0 := by
      intro t₁ ht₁
      have hmem : t₁.fnum ∈ c.traits.map FieldTrait.fnum := by
        rw [← h.inStep.traits.tags]
        exact List.mem_map_of_mem ht₁
      obtain ⟨t₂, ht₂, heq⟩ := List.mem_map.1 hmem
      exact heq ▸ hn.traits t₂ ht₂
    have hpresent := present_of_findMissing hmissing (List.mem_of_find?_eq_some ht') hm' htags
    have hhas := FieldTraits.has_of_find ht'
    have hstep := h.inStep.present t.fnum hhas
    rw [FieldTraits.present_of_find ht', hpresent] at hstep
    exact hstep.symm

/-- The fields of an element so far: `n` of them, the one in front at position 1 of the table. -/
structure Fronted (fp : FieldTraits) (n : Nat) (o : FieldStore D) : Prop where
  length : o.pos.length = n
  behind : ∀ x ∈ o.pos, x.1 ≤ n
  first : ∀ x ∈ o.pos.head?, x.1 = 1 ∧ fp.getPos x.2.fnum = 1

/-- A field at a position behind all others. -/
theorem insert_behind {n pos : Nat} {f : BaseField D} : ∀ {l : Positions D},
    (∀ x ∈ l, x.1 ≤ n) → n ≤ pos → Positions.insert pos f l = l ++ [(pos, f)]
  | [], _, _ => rfl
  | x :: l, h, hn => by
    rw [Positions.insert_cons_of_le ((h x List.mem_cons_self).trans hn),
      insert_behind (fun y hy => h y (List.mem_cons_of_mem _ hy)) hn]
    rfl

theorem Fronted.add {fp : FieldTraits} {n k : Nat} {f : BaseField D} (h : Fronted fp n o)
    (hfirst : n = 0 → fp.getPos f.fnum = 1) :
    Fronted fp (n + 1) ((o.addFieldDecoder k (n + 1) f).setPresent k) := by
  have hpos : ((o.addFieldDecoder k (n + 1) f).setPresent k).pos = o.pos ++ [(n + 1, f)] :=
    insert_behind h.behind (Nat.le_succ n)
  refine ⟨?_, ?_, ?_⟩
  · rw [hpos, List.length_append, h.length]
    rfl
  · intro x hx
    rw [hpos] at hx
    rcases List.mem_append.1 hx with hx | hx
    · exact (h.behind x hx).trans (Nat.le_succ n)
    · rw [List.mem_singleton.1 hx]
  · intro x hx
    rw [hpos, List.head?_append] at hx
    cases hhead : o.pos.head? with
    | some y =>
      rw [hhead] at hx
      exact h.first x (hhead ▸ hx)
    | none =>
      rw [hhead] at hx
      have hzero : n = 0 := by rw [← h.length, List.head?_eq_none_iff.1 hhead]; rfl
      obtain rfl := Option.some.inj hx
      exact ⟨by rw [hzero], hfirst hzero⟩

theorem fronted_create {fp : FieldTraits} : Fronted (D := D) fp 0 (.create fp) :=
  ⟨rfl, fun _ hx => absurd hx List.not_mem_nil, fun _ hx => absurd hx (by simp [FieldStore.create])⟩

/-! ## Decodes -/

variable [FpType D] {d : Feed} {m' : MessageBase D} {permissive : Bool} {fuel offset n : Nat}

/-- **The elements that a decode makes comply with their classes.** -/
theorem elementLaw_complies : ElementLaw (D := D) d (fun c => c.Tables ∧ c.Numbered)
    (fun c n o => Tabled [] c o ∧ Fronted c.traits n o) ElementComplies where
  nested := fun _ hc c' hc' => ⟨hc.1.nested c' hc', hc.2.nested c' hc'⟩
  create := fun _ hc => ⟨tabled_create hc.1, fronted_create⟩
  store := by
    intro c n o itr start be e ho _ _ hitr _ hfirst
    let bf : BaseField D := d.createField be (fastAtoiU16 e.tag) start e.val
    have hhas : o.fp.has bf.fnum = true := FieldTraits.has_of_find hitr
    refine ⟨ho.1.store hhas, ho.2.add (f := bf) fun hn => ?_⟩
    exact (ho.1.inStep.traits.getPos bf.fnum).symm.trans (hfirst hn)
  done := fun _ _ _ hc he _ hmissing => ⟨he.1.complies hc.1 hc.2 hmissing, he.2.first⟩

/-- A decode that returns has found what is mandatory. -/
theorem findMissing_of_decode (h : decode d permissive fuel offset m = .ok n m') :
    m'.own.fp.findMissing = 0 := by
  rw [decode_apply] at h
  obtain ⟨c, m₁, -, hend⟩ := Act.bind_eq_ok h
  unfold sectionEnd at hend
  rw [Act.get_bind_apply] at hend
  obtain ⟨_, m₂, hcheck, hr⟩ := Act.bind_eq_ok hend
  obtain ⟨hmissing, rfl⟩ := checkMissing_ok hcheck
  cases hr
  exact hmissing

/-- A part that a decode has completed. -/
structure Completed (lead : List (Nat × Nat)) (c : GroupClass) (m : MessageBase D) : Prop where
  tabled : Tabled lead c m.own
  missing : m.own.fp.findMissing = 0
  groups : Housed ElementComplies c m

omit [FpType D] in
theorem Completed.complies (h : Completed lead c m) (hc : c.Tables) (hn : c.Numbered) :
    PartComplies c m := ⟨h.tabled.complies hc hn h.missing, h.groups⟩

omit [FpType D] in
theorem Completed.setPreamble {v : Value D} (h : Completed lead c m) :
    Completed lead c (m.setPreamble k v) := by
  refine ⟨h.tabled.assign, ?_, h.groups.withOwn⟩
  show (m.own.assign (preambleId k) k v).fp.findMissing = 0
  rw [fp_assign]
  exact h.missing

theorem completed_of_decode (hc : c.Tables) (hn : c.Numbered) (hm : Tabled lead c m.own)
    (hnested : m.nested = c.nested) (hgroups : m.groups = [])
    (h : decode d permissive fuel offset m = .ok n m') : Completed lead c m' := by
  have hkept : Kept _ (fun _ _ => True) 0 _ := (elementLaw_complies (D := D) (d := d)).part (R := Tabled lead c)
    ⟨hc, hn⟩ (fun o _ ho => ⟨⟨ho.inStep.traits, ho.inStep.present, ho.inStep.field,
      ho.inStep.legal⟩, ho.mandatory, ho.lead⟩)
    fun o pos itr start be tv val ho hitr =>
      ho.store (f := d.createField be tv start val) (FieldTraits.has_of_find hitr)
  have hnew : Housed (D := D) ElementComplies c m := by
    refine ⟨fun g hg => ?_, fun g hg => ?_⟩
    all_goals
      rw [hgroups] at hg
      exact absurd hg List.not_mem_nil
  obtain ⟨-, ⟨htabled, -⟩, hhoused⟩ := (leaves_decode hkept).ok
    ⟨⟨⟨hm, hnested⟩, hnew⟩, Nat.zero_le _⟩ h
  exact ⟨htabled, findMissing_of_decode h, hhoused⟩

end

/-! ## Messages -/

section
variable {D : Type} {cx : F8MetaCntx} {bme : MessageClass}

theorem tabled_mkHdr (h : FixSchema cx bme) :
    Tabled (D := D) headerLead cx.header.cls cx.mkHdr.own where
  inStep := (placed_mkHdr h.header.traits).inStep (sameTraits_mkHdr cx)
  mandatory := SameMandatory.refl.setPresent.setPresent.setPresent
  lead := by
    intro k hk
    apply h.headerFrame
    rw [lookup_headerLead] at hk
    split_ifs at hk with h₁ h₂ h₃
    · simp [headerTags, h₁]
    · simp [headerTags, h₂]
    · simp [headerTags, h₃]
    · exact absurd hk (by simp)

theorem tabled_mkTrl (h : FixSchema cx bme) :
    Tabled (D := D) trailerLead cx.trailer.cls cx.mkTrl.own where
  inStep := (placed_mkTrl h.trailer.traits).inStep (sameTraits_mkTrl cx)
  mandatory := SameMandatory.refl.setPresent
  lead := by
    intro k hk
    obtain rfl : k = commonCheckSum := by
      by_contra hne
      simp [trailerLead, List.lookup_cons, beq_false_of_ne hne] at hk
    exact h.trailerFrame

variable [FpType D] {now : Ticks} {call fuel : Nat} {text : F8String} {noChksum permissive : Bool}
  {msg : Message D}

/-- **A message that the factory returns complies with its tables**, and so does each element of its
groups. -/
theorem factory_complies (hschema : ∀ bme, cx.findBme msg.msgType = some bme → FixSchema cx bme)
    (h : factory cx now call fuel text noChksum permissive = .ok msg) :
    ∃ bme, cx.findBme msg.msgType = some bme ∧ PartComplies cx.header.cls msg.header ∧
      PartComplies bme.cls msg.body ∧ PartComplies cx.trailer.cls msg.trailer := by
  obtain ⟨hlen, len, mtype, bme, header, body, trailer, bodyStart, trailerStart, hbuilt⟩ :=
    factory_ok h
  have hbme := hbuilt.msgType ▸ hbuilt.findBme
  have hs := hschema bme hbme
  refine ⟨bme, hbme, ?_, ?_, ?_⟩
  · have hheader := hbuilt.msgHeader
    have hcompleted := completed_of_decode hs.header hs.headerNumbered (tabled_mkHdr hs) rfl rfl
      hbuilt.headerDecoded
    rw [hheader]
    exact hcompleted.setPreamble.setPreamble.complies hs.header hs.headerNumbered
  · rw [hbuilt.msgBody]
    exact (completed_of_decode hs.body hs.bodyNumbered (tabled_create hs.body) rfl rfl
      hbuilt.bodyDecoded).complies hs.body hs.bodyNumbered
  · obtain ⟨n, htrailer⟩ := hbuilt.trailerDecoded
    have hcompleted := completed_of_decode hs.trailer hs.trailerNumbered (tabled_mkTrl hs) rfl rfl
      htrailer
    obtain heq | ⟨sum, heq⟩ := hbuilt.msgTrailer
    · rw [heq]
      exact hcompleted.complies hs.trailer hs.trailerNumbered
    · rw [heq]
      exact hcompleted.setPreamble.complies hs.trailer hs.trailerNumbered

end

/-! ## An order with a leg -/

/-- With NoLegs and LegSymbol in the table of fields. -/
def legDict : F8MetaCntx :=
  { legCntx with
    be := (demoCntx.be.insert 555 ⟨ascii "NoLegs", .int⟩).insert 600 ⟨ascii "LegSymbol", .string⟩ }

theorem legDict_schema : FixSchema legDict legBme where
  header := demoCntx_tables.header
  body := legBme_tables
  trailer := demoCntx_tables.trailer
  headerNumbered := .mk _ _ _ (by decide +kernel) fun _ hc => absurd hc List.not_mem_nil
  bodyNumbered := by
    refine .mk _ _ _ (by decide +kernel) fun c hc => ?_
    obtain rfl := List.mem_singleton.1 hc
    exact .mk _ _ _ (by decide +kernel) fun _ hc => absurd hc List.not_mem_nil
  trailerNumbered := .mk _ _ _ (by decide +kernel) fun _ hc => absurd hc List.not_mem_nil
  headerFrame := by decide +kernel
  trailerFrame := by decide +kernel

def legText : F8String :=
  demoElement "8" "FIX.4.2" ++ demoElement "9" "33" ++ demoElement "35" "AB" ++
    demoElement "49" "A" ++ demoElement "34" "5" ++ demoElement "555" "1" ++
    demoElement "600" "A" ++ demoElement "10" "000"

/-- What the factory makes of it, without a look at the CheckSum. -/
def legDecoded : Except Stop (Message Unit) := factory legDict 0 1 30 legText true false

theorem factory_complies_leg : ∃ msg : Message Unit, legDecoded = .ok msg ∧
    (msg.body.elements 555).length = 1 ∧
    ∃ bme, legDict.findBme msg.msgType = some bme ∧ PartComplies legDict.header.cls msg.header ∧
      PartComplies bme.cls msg.body ∧ PartComplies legDict.trailer.cls msg.trailer := by
  have hread : (legDecoded.toOption.map fun msg =>
      (msg.msgType, (msg.body.elements 555).length)) = some (ascii "AB", 1) := by
    decide +kernel
  obtain ⟨msg, hmsg, hdata⟩ := Option.map_eq_some_iff.1 hread
  obtain ⟨htype, hlength⟩ := Prod.mk.inj hdata
  have hmsg := toOption_eq_some hmsg
  refine ⟨msg, hmsg, hlength, factory_complies (fun bme hbme => ?_) hmsg⟩
  rw [htype] at hbme
  obtain rfl : legBme = bme := Option.some.inj hbme
  exact legDict_schema

end Fix8.Codec
