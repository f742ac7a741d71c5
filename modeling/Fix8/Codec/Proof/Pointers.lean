import Fix8.Codec.Reuse
import Fix8.Codec.Proof.Assembled
import Fix8.Codec.Proof.Frame
import Fix8.Codec.Proof.Section
import Fix8.Codec.Proof.Seqnum
import Fix8.Codec.Proof.Shown
import Fix8.Codec.Proof.Traits
import Fix8.Lib.Run

/-!
# The cached pointers

The header and the trailer keep pointers to the fields of `add_preamble`. They stay valid along
every run that neither adds, replaces, removes nor copies by force a field under their tags, nor
clears the object. Clearing always leaves them stale, so a cleared message cannot be encoded.

* `Held`: the containers of an object whose pointers are valid; `held_addField`, `held_decode`,
  `held_copyLegal`: what the calls keep;
* **`cached_valid`**: the run;
* **`clear_resets_never`**.
-/

namespace Fix8.Codec

open Lib

section
variable {D : Type} {kept : List Nat} {o own : FieldStore D} {f : BaseField D} {fnum pos : Nat}

/-- `_fields` holds the objects of `add_preamble` under their tags, and these are present. -/
structure Held (kept : List Nat) (o : FieldStore D) : Prop where
  present : ∀ k ∈ kept, ∀ t, o.fp.find k = some t → t.present = true
  object : ∀ k ∈ kept, (o.fields.get? k).map (·.id) = some (preambleId k)

theorem Held.of_fields (h : Held kept o)
    (hpresent : ∀ k ∈ kept, ∀ t, own.fp.find k = some t → t.present = true)
    (hget : ∀ k ∈ kept, own.fields.get? k = o.fields.get? k) : Held kept own :=
  ⟨hpresent, fun k hk => hget k hk ▸ h.object k hk⟩

theorem Held.not_absent (h : Held kept o) (hmem : fnum ∈ kept) (hhas : o.fp.has fnum = true) :
    o.fp.present fnum = true := by
  obtain ⟨t, ht⟩ := Option.isSome_iff_exists.1 hhas
  rw [FieldTraits.present, ht, Option.any_some]
  exact h.present fnum hmem t ht

theorem held_store (h : Held kept o) :
    Held kept ((o.addFieldDecoder fnum pos f).setPresent fnum) := by
  refine ⟨fun k hk => FieldTraits.present_setPresent (h.present k hk), fun k hk => ?_⟩
  -- An entry that is there already stays.
  show ((o.fields.insert fnum f).get? k).map (·.id) = _
  have hobject := h.object k hk
  rw [OrdMap.get?_insert]
  split
  · rename_i heq
    subst heq
    cases hget : o.fields.get? k with
    | none => simp [hget] at hobject
    | some old => rwa [hget] at hobject
  · exact hobject

theorem held_replace (h : Held kept o) (hk : fnum ∉ kept) : Held kept (o.replace fnum f) := by
  unfold FieldStore.replace
  split
  · exact h
  · refine h.of_fields (fun k hk => FieldTraits.present_setPresent (h.present k hk)) ?_
    intro k hmem
    show (o.fields.replace fnum f).get? k = _
    rw [OrdMap.get?_replace, if_neg]
    rintro rfl
    exact hk hmem

theorem held_remove (h : Held kept o) (hk : fnum ∉ kept) : Held kept (o.remove fnum) := by
  unfold FieldStore.remove
  split
  · exact h
  · have hne : ∀ k ∈ kept, k ≠ fnum := by
      rintro k hmem rfl
      exact hk hmem
    refine h.of_fields ?_ ?_
    · intro k hmem t ht
      rw [FieldTraits.find_clearPresent_of_ne (hne k hmem)] at ht
      exact h.present k hmem t ht
    · intro k hmem
      show (o.fields.erase fnum).get? k = _
      rw [OrdMap.get?_erase, if_neg (hne k hmem)]

theorem held_addField (h : Held kept o) (hk : f.fnum ∉ kept) (hadd : o.addField f = .ok own) :
    Held kept own := by
  unfold FieldStore.addField FieldStore.addFieldAt at hadd
  split at hadd
  · obtain rfl := Except.ok.inj hadd
    split
    · exact held_replace h hk
    · exact held_store h
  · exact absurd hadd (by simp)

/-! ## The calls -/

theorem held_decode [FpType D] (d : Feed) (permissive : Bool) (fuel sOffset : Nat)
    {m : MessageBase D} (h : Held kept m.own) :
    Held kept (decode d permissive fuel sOffset m).state.own := by
  have hkept : Kept d (fun _ _ => True) 0 fun m : MessageBase D => Held kept m.own :=
    kept_of_own (fun o u ho => ⟨ho.present, ho.object⟩) fun o pos itr start be tv val ho _ _ _ _ =>
      held_store ho
  have hdone : Leaves _ _ _ (decode d permissive fuel sOffset) := leaves_decode hkept
  cases hrun : decode d permissive fuel sOffset m with
  | ok n m' => exact (hdone.ok ⟨h, Nat.zero_le _⟩ hrun).2
  | throw e m' => exact hdone.throw ⟨h, Nat.zero_le _⟩ hrun

theorem keeps_copyElements {c : GroupClass} (fnum : Nat) :
    ∀ elements : List (Act (MessageBase D) Stop Nat),
      Act.Keeps (MessageBase.own (D := D)) (copyElements fnum c elements)
  | [] => Act.moves_pure _
  | copy :: rest => by
    unfold copyElements
    refine Act.moves_bind (Act.moves_onLocal _ _) fun r => ?_
    refine Act.moves_bind (Act.moves_modify fun m => rfl) fun _ => ?_
    exact Act.moves_bind (keeps_copyElements fnum rest) fun _ => Act.moves_pure _

/-- The groups of the source go to the groups of the target. -/
theorem keeps_copyGroup {copiers : List (Nat × List (Act (MessageBase D) Stop Nat))}
    {pp : FieldTrait} : Act.Keeps (MessageBase.own (D := D)) (copyGroup copiers pp) := by
  unfold copyGroup
  split
  · refine Act.moves_bind Act.moves_get fun target => ?_
    split
    · exact keeps_copyElements _ _
    · exact Act.moves_ite (Act.moves_pure _) (Act.moves_throw _)
  · exact Act.moves_pure _

/-- A field of the source that `copy_legal` can copy without a change under the tags `kept`. -/
def CopySpares (kept : List Nat) (force : Bool) (pp : FieldTrait) (f : BaseField D) : Prop :=
  f.fnum ∉ kept ∧ pp.fnum ∉ kept ∨ force = false ∧ f.fnum = pp.fnum

theorem held_copyField (call : Nat) {force : Bool} {src : FieldStore D} {pp : FieldTrait}
    {m : MessageBase D} (h : Held kept m.own)
    (hguard : (force || m.own.fp.has pp.fnum && !m.own.fp.present pp.fnum) = true)
    (hspares : ∀ f, src.fields.get? pp.fnum = some f → CopySpares kept force pp f) :
    Held kept (copyField call force src pp.fnum m).state.own := by
  have hfield : ∀ f, src.fields.get? pp.fnum = some f →
      f.fnum ∉ kept ∧ (force = true → pp.fnum ∉ kept) := by
    intro f hf
    obtain ⟨hnum, hpp⟩ | ⟨hforce, heq⟩ := hspares f hf
    · exact ⟨hnum, fun _ => hpp⟩
    · subst hforce
      refine ⟨fun hmem => ?_, fun hforce => absurd hforce (by decide)⟩
      simp only [Bool.false_or, Bool.and_eq_true, Bool.not_eq_true'] at hguard
      rw [heq] at hmem
      simp [h.not_absent hmem hguard.1] at hguard
  unfold copyField
  cases hget : src.fields.get? pp.fnum with
  | none => exact h
  | some f =>
    obtain ⟨hnum, hpp⟩ := hfield f hget
    simp only [Act.get_bind_apply]
    split
    · rename_i hforce
      simp only [Bool.and_eq_true] at hforce
      exact held_replace h (hpp hforce.1)
    · cases hadd : m.own.addField { f with id := ⟨call, pp.fnum⟩ } with
      | ok own' => exact held_addField (f := { f with id := ⟨call, pp.fnum⟩ }) h hnum hadd
      | error e => exact h

theorem held_copyFields (call : Nat) (force : Bool) (src : FieldStore D)
    (copiers : List (Nat × List (Act (MessageBase D) Stop Nat))) : ∀ (fp : FieldTraits),
    (∀ pp ∈ fp, pp.present = true → ∀ f, src.fields.get? pp.fnum = some f →
      CopySpares kept force pp f) →
    Act.Triple (fun m => Held kept m.own) (copyFields call force src copiers fp)
      (fun _ m => Held kept m.own) (fun _ m => Held kept m.own)
  | [], _ => Act.triple_pure fun _ h => h
  | pp :: rest, hspares => by
    have hrest := held_copyFields call force src copiers rest fun pp hpp =>
      hspares pp (List.mem_cons_of_mem _ hpp)
    unfold copyFields
    refine Act.triple_get fun m hm => Act.triple_ite (fun hguard => ?_) fun _ => ?_
    · rw [Bool.and_eq_true] at hguard
      have hgroup : Act.Triple (fun s => s = m) (copyGroup copiers pp)
          (fun _ s => s.own = m.own) (fun _ s => Held kept s.own) := by
        refine (keeps_copyGroup.triple (P := fun s => s.own = m.own)
          fun s s' hs h => hs.trans h).conseq ?_ (fun _ _ h => h) ?_
        · rintro s rfl
          rfl
        · exact fun _ s hs => hs ▸ hm
      refine Act.triple_bind hgroup fun copied =>
        Act.triple_bind (R := fun _ s => Held kept s.own) ?_ fun _ =>
          Act.triple_bind hrest fun more => Act.triple_pure fun _ h => h
      intro s hs
      have hheld := held_copyField call (m := s) (hs ▸ hm) (hs ▸ hguard.2)
        (hspares pp (List.mem_cons_self ..) hguard.1)
      cases hrun : copyField call force src pp.fnum s with
      | ok u s' => rwa [hrun] at hheld
      | throw e s' => rwa [hrun] at hheld
    · exact hrest.conseq (fun s hs => hs ▸ hm) (fun _ _ h => h) fun _ _ h => h

end

/-! ## Runs -/

section
variable {D : Type} {kept : List Nat} {cx : F8MetaCntx}

/-- The call does not touch what is under the tags `kept`. -/
def PartOp.Spares (kept : List Nat) : PartOp D → Prop
  | .decode .. => True
  | .addField what => what.fnum ∉ kept
  | .replace fnum _ => fnum ∉ kept
  | .remove fnum => fnum ∉ kept
  | .copyLegal _ force src => ∀ pp ∈ src.own.fp, pp.present = true →
      ∀ f, src.getField pp.fnum = some f → CopySpares kept force pp f
  | .clear => False

theorem Held.valid {p : Part D} (h : Held kept p.base.own) : p.Valid kept := by
  intro k hk
  rw [Part.cached, if_pos hk]
  exact (h.object k hk).symm

theorem held_apply [FpType D] {p : Part D} {op : PartOp D} (h : Held kept p.base.own)
    (hop : op.Spares kept) : Held kept (p.apply op).base.own := by
  cases op with
  | decode d permissive fuel sOffset =>
    have hdone := held_decode d permissive fuel sOffset (m := .mk p.base.own
      (p.base.nested.filter fun c => c.fnum ∉ p.nulls) p.base.groups) h
    unfold Part.apply Part.decode
    dsimp only
    split
    · rename_i hrun
      rwa [hrun] at hdone
    · rename_i hrun
      rwa [hrun] at hdone
  | addField what =>
    simp only [Part.apply]
    split
    · rename_i hadd
      exact held_addField h hop hadd
    · exact h
  | replace fnum what => exact held_replace h hop
  | remove fnum => exact held_remove h hop
  | copyLegal call force src =>
    obtain ⟨own, nested, groups⟩ := src
    have hdone := held_copyFields call force own (copiers call force groups) own.fp hop p.base h
    unfold Part.apply MessageBase.copyLegal
    dsimp only
    cases hrun : copyFields call force own (copiers call force groups) own.fp p.base with
    | ok n m => rwa [hrun] at hdone
    | throw e m => rwa [hrun] at hdone
  | clear => exact absurd hop id

theorem held_mkHdr : Held (D := D) headerTags cx.mkHdr.own := by
  refine ⟨?_, ?_⟩
  · exact fun k hk t ht => present_mkHdr hk ht
  · intro k hk
    obtain rfl | rfl | rfl : k = commonBeginString ∨ k = commonBodyLength ∨ k = commonMsgType := by
      simpa [headerTags] using hk
    all_goals rfl

theorem held_mkTrl : Held (D := D) [commonCheckSum] cx.mkTrl.own := by
  refine ⟨?_, ?_⟩
  · intro k hk
    obtain rfl := List.mem_singleton.1 hk
    exact FieldTraits.present_setPresent_self
  · intro k hk
    obtain rfl := List.mem_singleton.1 hk
    rfl

/-- In every run whose calls leave the tags of `add_preamble` alone, each accessor returns the
object that `_fields` holds under its tag, in every state of a header or a trailer. -/
theorem cached_valid [FpType D] (cx : F8MetaCntx) (ops : List (PartOp D)) :
    (Along Part.apply (fun _ op => op.Spares headerTags) (.ofBase cx.mkHdr) ops →
      Throughout Part.apply (Part.Valid headerTags) (.ofBase cx.mkHdr) ops) ∧
    (Along Part.apply (fun _ op => op.Spares [commonCheckSum]) (.ofBase cx.mkTrl) ops →
      Throughout Part.apply (Part.Valid [commonCheckSum]) (.ofBase cx.mkTrl) ops) := by
  have hrun : ∀ {kept : List Nat} {p : Part D}, Held kept p.base.own →
      Along Part.apply (fun _ op => op.Spares kept) p ops →
      Throughout Part.apply (Part.Valid kept) p ops := fun hp hops =>
    (throughout_of_step (P := fun p => Held _ p.base.own) (fun _ _ => held_apply) hp hops).mono
      fun _ => Held.valid
  exact ⟨hrun held_mkHdr, hrun held_mkTrl⟩

/-- A MsgSeqNum that is added, replaced and removed. -/
def demoSeqnumOps : List (PartOp Unit) :=
  [.addField ⟨⟨1, 0⟩, 34, .int 7⟩, .replace 34 ⟨⟨1, 1⟩, 34, .int 8⟩, .remove 34]

theorem cached_valid_seqnum :
    Throughout Part.apply (Part.Valid headerTags) (.ofBase demoCntx.mkHdr) demoSeqnumOps ∧
      Throughout Part.apply (Part.Valid [commonCheckSum]) (.ofBase demoCntx.mkTrl)
        demoSeqnumOps := by
  have hops : ∀ {kept : List Nat} {p : Part Unit}, commonMsgSeqNum ∉ kept →
      Along Part.apply (fun _ op => op.Spares kept) p demoSeqnumOps :=
    fun h => ⟨h, h, h, trivial⟩
  obtain ⟨hheader, htrailer⟩ := cached_valid demoCntx demoSeqnumOps
  exact ⟨hheader (hops (by decide)), htrailer (hops (by decide))⟩

/-- `clear(true)` deletes the fields that the header keeps its pointers to. -/
theorem cached_deleted : ¬ ∀ (cx : F8MetaCntx) (ops : List (PartOp Unit)),
    Throughout Part.apply (Part.Valid headerTags) (.ofBase cx.mkHdr) ops := by
  intro h
  have hlast := (h demoCntx [.clear]).last commonMsgType (by decide)
  exact absurd hlast (by decide)

end

/-! ## `clear(true)` -/

section
variable {D : Type} [FpType D]

/-- No sequence of calls tells the two messages apart. -/
def BehavesAs (a b : Parts D) : Prop := ∀ ops, a.run ops = b.run ops

/-- The MsgType that the header points to is gone. -/
theorem encodeLive_clear (msg : Parts D) : msg.clear.message.encodeLive = .error .undefined := rfl

theorem encode_empty {m : MessageBase D} (h : ∀ f ∈ m.own.shown, f.hasGroupCount = false) :
    m.encode = .ok m.text := by
  refine encode_ok fun f hf hcounts => ?_
  rw [MessageBase.counts, h f hf, Bool.and_false] at hcounts
  exact absurd hcounts (by decide)

theorem encodeLive_newMessage (cx : F8MetaCntx) (msgType : F8String) (bme : MessageClass)
    (deepctor : Bool) :
    ∃ r, (cx.newMessage (D := D) msgType bme deepctor).encodeLive = .ok r := by
  let msg := cx.newMessage (D := D) msgType bme deepctor
  have hhead : (msg.header.setPreamble commonMsgType (.string msg.msgType)).encode =
      .ok (msg.header.setPreamble commonMsgType (.string msg.msgType)).text := by
    refine encode_empty fun f hf => ?_
    have hmem : f ∈ [preambleField (D := D) commonBeginString (.string cx.beginStr),
      preambleField commonBodyLength (.int 0), preambleField commonMsgType (.string msgType)] :=
      (List.mem_filter.1 hf).1
    simp only [List.mem_cons, List.not_mem_nil, or_false] at hmem
    rcases hmem with rfl | rfl | rfl
    all_goals rfl
  have hbody : msg.body.encode = .ok msg.body.text :=
    encode_empty fun f hf => absurd (List.mem_filter.1 hf).1 List.not_mem_nil
  have htail : msg.trailer.encode = .ok msg.trailer.text := by
    refine encode_empty fun f hf => ?_
    obtain rfl : f = preambleField commonCheckSum (.string []) :=
      List.mem_singleton.1 (List.mem_filter.1 hf).1
    rfl
  have hpayload : ∃ content, msg.payload = .ok content := by
    unfold Message.payload
    rw [hhead, ok_bind, hbody, ok_bind, htail, ok_bind]
    exact ⟨_, rfl⟩
  obtain ⟨content, hcontent⟩ := hpayload
  exact ⟨_, encodeLive_of_payload leads_mkHdr leads_mkTrl rfl hcontent⟩

theorem run_clear (msg : Parts D) : msg.clear.run [.encode] = .error .undefined := by
  simp only [Parts.run, Parts.apply, encodeLive_clear]
  rfl

theorem run_newMessage (cx : F8MetaCntx) (msgType : F8String) (bme : MessageClass)
    (deepctor : Bool) :
    ∃ texts, (Parts.ofMessage (cx.newMessage (D := D) msgType bme deepctor)).run [.encode] =
      .ok texts := by
  have hmessage : (Parts.ofMessage (cx.newMessage (D := D) msgType bme deepctor)).message =
      cx.newMessage msgType bme deepctor := rfl
  obtain ⟨⟨text, m⟩, hnew⟩ := encodeLive_newMessage (D := D) cx msgType bme deepctor
  simp only [Parts.run, Parts.apply, hmessage, hnew]
  exact ⟨_, rfl⟩

/-- A message is never reset by `clear(true)`: a new message can be encoded, and what is left of
a cleared one cannot. -/
theorem clear_resets_never (cx : F8MetaCntx) (msg : Parts D) (bme : MessageClass)
    (deepctor : Bool) :
    ¬ BehavesAs msg.clear (.ofMessage (cx.newMessage msg.msgType bme deepctor)) := by
  intro h
  obtain ⟨texts, hnew⟩ := run_newMessage (D := D) cx msg.msgType bme deepctor
  have hrun := h [.encode]
  rw [run_clear, hnew] at hrun
  exact absurd hrun (by simp)

/-- A heartbeat. -/
theorem heartbeat_cleared :
    ¬ BehavesAs (D := Unit) (Parts.ofMessage (demoCntx.newMessage (ascii "0") ⟨[], []⟩ true)).clear
      (Parts.ofMessage (demoCntx.newMessage (ascii "0") ⟨[], []⟩ true)) := by
  intro h
  obtain ⟨texts, hnew⟩ := run_newMessage (D := Unit) demoCntx (ascii "0") ⟨[], []⟩ true
  have hrun := h [.encode]
  rw [run_clear, hnew] at hrun
  exact absurd hrun (by simp)

end

end Fix8.Codec
