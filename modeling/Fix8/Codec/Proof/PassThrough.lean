import Fix8.Codec.Proof.Accepted
import Fix8.Codec.Proof.Fuel
import Fix8.Codec.Proof.Inserted

/-!
# Permissive decodes

Permissive mode is to store what strict mode stores and to pass through what the schema does not
know. But a permissive pass over the header puts aside everything behind the header's fields, up to
the end of the text, before it goes back to where the body begins; the pass over the body puts the
trailer aside again.

* `PassesThrough`: a permissive decode delivers the known fields of the strict one and exactly the
  elements that are inserted;
* `HeaderClosed`: the header's fields are the last that can be read, and one of them is stored
  behind the first insertion;
* `not_passesThrough`: in a text of fewer than three elements `extract_header` takes the first
  insertions for those that are missing;
* **`passThrough_iff`**: the one exactly when the other.
-/

namespace Fix8.Codec

open Lib

/-! ## Known fields and unknown elements -/

/-- What a message holds, without the objects that hold it. -/
inductive Known (D : Type) where
  | mk (fields : List (Nat × Value D)) (groups : List (Nat × List (Known D)))

section
variable {D : Type}

mutual

def MessageBase.known : MessageBase D → Known D
  | .mk own _ groups => .mk (own.pos.map fun e => (e.2.fnum, e.2.value)) (knownGroups groups)

def knownGroups : List (GroupBase D) → List (Nat × List (Known D))
  | [] => []
  | g :: gs => (g.fnum, GroupBase.known g) :: knownGroups gs

def GroupBase.known : GroupBase D → List (Known D)
  | .mk _ msgs => knownElements msgs

def knownElements : List (MessageBase D) → List (Known D)
  | [] => []
  | m :: ms => m.known :: knownElements ms

end

/-- The fields and groups of a message, but for the CheckSum, which every insertion changes. -/
def Message.known (msg : Message D) : F8String × Known D × Known D × Known D :=
  (msg.msgType, msg.header.known, msg.body.known,
    (msg.trailer.setPreamble commonCheckSum (.string [])).known)

/-- The `_unknown` strings of the three parts. -/
def Message.unknown (msg : Message D) : F8String :=
  msg.header.own.unknown ++ msg.body.own.unknown ++ msg.trailer.own.unknown

mutual

theorem known_unplaced {call : Nat} : ∀ m : MessageBase D, (m.unplaced call).known = m.known
  | .mk own _ groups => by
    have hfields : (own.unplaced call).pos.map (fun e => (e.2.fnum, e.2.value)) =
        own.pos.map fun e => (e.2.fnum, e.2.value) := by
      simp [FieldStore.unplaced]
    simp only [MessageBase.unplaced, MessageBase.known, hfields, knownGroups_unplaced groups]

theorem knownGroups_unplaced {call : Nat} :
    ∀ gs : List (GroupBase D), knownGroups (unplacedGroups call gs) = knownGroups gs
  | [] => rfl
  | g :: gs => by
    have hfnum : (g.unplaced call).fnum = g.fnum := congrArg GroupClass.fnum unplaced_cls
    simp only [unplacedGroups, knownGroups, hfnum, knownGroup_unplaced g, knownGroups_unplaced gs]

theorem knownGroup_unplaced {call : Nat} :
    ∀ g : GroupBase D, (g.unplaced call).known = g.known
  | .mk _ msgs => by
    simp only [GroupBase.unplaced, GroupBase.known, knownElements_unplaced msgs]

theorem knownElements_unplaced {call : Nat} :
    ∀ ms : List (MessageBase D), knownElements (unplacedElements call ms) = knownElements ms
  | [] => rfl
  | m :: ms => by
    simp only [unplacedElements, knownElements, known_unplaced m, knownElements_unplaced ms]

end

/-- Messages that are alike hold the same. -/
theorem MessageBase.Alike.known {call : Nat} {m m' : MessageBase D} (h : m.Alike call m') :
    m'.known = m.known := by
  have hknown := congrArg MessageBase.known h
  rwa [known_unplaced, known_unplaced] at hknown

/-- The CheckSum that was set first does not show. -/
theorem known_mkTrl {cx : F8MetaCntx} {c : Value D} :
    ((cx.mkTrl.setPreamble commonCheckSum c).setPreamble commonCheckSum (.string [])).known =
      (cx.mkTrl.setPreamble commonCheckSum (.string [])).known := by
  rfl

/-! ## The condition -/

variable [FpType D]

/-- `o` is between two fields that the strict decodes of the three parts of a text read. -/
inductive BetweenFields (D : Type) [FpType D] (cx : F8MetaCntx) (now : Ticks) (call fuel : Nat)
    (text : F8String) (o : Nat) : Prop where
  | header (h : TurnsAt ⟨cx, now, call, text, 0⟩ fuel (extractHeader text).1
      (cx.mkHdr (D := D)) o)
  | body (bme : MessageClass) (header : MessageBase D) (bodyStart : Nat)
      (hbme : cx.findBme (cstr (extractHeader text).2.2) = some bme)
      (hheader : decode ⟨cx, now, call, text, 0⟩ false fuel (extractHeader text).1 cx.mkHdr =
        .ok bodyStart header)
      (h : TurnsAt ⟨cx, now, call, text, 0⟩ fuel bodyStart (bme.create (D := D) false) o)
  | trailer (bme : MessageClass) (header body : MessageBase D) (bodyStart trailerStart : Nat)
      (hbme : cx.findBme (cstr (extractHeader text).2.2) = some bme)
      (hheader : decode ⟨cx, now, call, text, 0⟩ false fuel (extractHeader text).1 cx.mkHdr =
        .ok bodyStart header)
      (hbody : decode ⟨cx, now, call, text, 0⟩ false fuel bodyStart (bme.create false) =
        .ok trailerStart body)
      (h : TurnsAt ⟨cx, now, call, text, 7⟩ fuel trailerStart (cx.mkTrl (D := D)) o)

/-- A permissive decode of the text with the insertions makes the message that strict mode makes of
the text, with the insertions put aside. -/
def PassesThrough (cx : F8MetaCntx) (now : Ticks) (call : Nat) (text : F8String) (msg : Message D)
    (ins : List (Nat × F8String)) : Prop :=
  ∃ fuel noChksum msg', factory cx now call fuel (splice text ins) noChksum true = .ok msg' ∧
    msg'.known = msg.known ∧ msg'.unknown = inserted ins

/-- The fields of the header are the last that can be read of the text, and one of them is stored
behind the first insertion. -/
def HeaderClosed (D : Type) [FpType D] (cx : F8MetaCntx) (now : Ticks) (call fuel : Nat)
    (text : F8String) (ins : List (Nat × F8String)) : Prop :=
  ∃ (c : Cursor) (m : MessageBase D),
    Act.Reaches (decodeTurn ⟨cx, now, call, text, 0⟩ false fuel)
      (sectionStart (cx.mkHdr (D := D)) (extractHeader text).1) cx.mkHdr c m ∧
    extractElement (text.drop c.sOffset) = none ∧
    ∀ i, ins.head? = some i → ∃ (c₁ : Cursor) (m₁ : MessageBase D),
      Act.Reaches (decodeTurn ⟨cx, now, call, text, 0⟩ false fuel)
        (sectionStart (cx.mkHdr (D := D)) (extractHeader text).1) cx.mkHdr c₁ m₁ ∧
      c₁.sOffset = i.1 ∧ c₁.pos < c.pos

/-- What the schema compiler makes of a header: the fields of its groups are in the field table, and
a count of elements is no Length. -/
structure HeaderSchema (cx : F8MetaCntx) : Prop where
  groups : ∀ c ∈ cx.header.groups, c.Tabled cx
  lengths : ∀ k itr, cx.header.traits.find k = some itr → itr.group = true → itr.ftype ≠ .length

omit [FpType D] in
theorem inSection_mkHdr {cx : F8MetaCntx} (h : HeaderSchema cx) :
    (cx.mkHdr (D := D)).InSection cx := by
  have hstart : (MessageBase.mk (D := D) (.create cx.header.traits) cx.header.groups []).InSection
      cx := ⟨⟨h.groups, fun g hg => absurd hg List.not_mem_nil⟩, fun k hk => hk.header, h.lengths⟩
  exact inSection_store (inSection_store (inSection_store hstart))

/-! ## Decodes -/

section
variable {d : Feed} {permissive : Bool} {fuel o n : Nat} {c c' c₁ : Cursor}
  {m m' m₁ m₂ : MessageBase D} {e : Element}

/-- Where a decode says that the next part begins. -/
def Cursor.stop (permissive : Bool) (c : Cursor) : Nat :=
  match c.last with
  | some (pos, offset) => if permissive ∧ pos = c.pos then offset else c.sOffset
  | none => c.sOffset

theorem decode_ok (h : decode d permissive fuel o m = .ok n m') :
    ∃ c, Act.Runs (decodeTurn d permissive fuel) (sectionStart m o) m c m' ∧
      m'.own.fp.findMissing = 0 ∧ n = c.stop permissive := by
  rw [decode_apply] at h
  obtain ⟨c, m₁, hloop, h⟩ := Act.bind_eq_ok h
  unfold sectionEnd at h
  rw [Act.get_bind_apply] at h
  obtain ⟨_, m₂, hcheck, h⟩ := Act.bind_eq_ok h
  cases h
  obtain ⟨hmissing, rfl⟩ := checkMissing_ok hcheck
  exact ⟨c, Act.runs_of_loop hloop, hmissing, rfl⟩

/-- A strict decode stops where its pass ends. -/
theorem decode_runs (h : decode d false fuel o m = .ok n m') :
    ∃ c, Act.Runs (decodeTurn d false fuel) (sectionStart m o) m c m' ∧
      m'.own.fp.findMissing = 0 ∧ n = c.sOffset := by
  obtain ⟨c, hruns, hmissing, rfl⟩ := decode_ok h
  refine ⟨c, hruns, hmissing, ?_⟩
  unfold Cursor.stop
  rw [(runs_reads hruns).2]
  rfl

/-- A decode that comes to a last turn returns, with fuel enough. -/
theorem decode_of
    (hreach : Act.Reaches (decodeTurn d permissive fuel) (sectionStart m o) m c m₁)
    (hlast : decodeTurn d permissive fuel c m₁ = .ok (.inr c₁) m₂)
    (hmissing : m₂.own.fp.findMissing = 0) :
    ∃ n, ∀ fuel', n ≤ fuel' → decode d permissive fuel' o m = .ok (c₁.stop permissive) m₂ := by
  obtain ⟨n, hloop⟩ : ∃ n, Act.loop .fuel (decodeTurn d permissive fuel) n (sectionStart m o) m =
    .ok c₁ m₂ := hreach.loop hlast
  refine ⟨max n fuel, fun fuel' hle => ?_⟩
  have hmore : Act.Extends .fuel
      (Act.loop .fuel (decodeTurn (D := D) d permissive fuel) n (sectionStart m o))
      (Act.loop .fuel (decodeTurn d permissive fuel') fuel' (sectionStart m o)) :=
    Act.extends_loop (fun c => extends_decodeTurn ((le_max_right n fuel).trans hle) c)
      ((le_max_left n fuel).trans hle) _
  have hext := hmore m (hloop ▸ Act.inTime_ok)
  have hcheck : checkMissing d.cx m₂.own.fp m₂ = .ok () m₂ := by
    unfold checkMissing
    rw [if_pos hmissing]
    rfl
  rw [decode_apply, Act.bind_ok (hext.trans hloop)]
  unfold sectionEnd
  rw [Act.get_bind_apply, Act.bind_ok hcheck]
  rfl

theorem decodeTurn_none (hnone : extractElement (d.rest c.sOffset) = none) :
    decodeTurn d permissive fuel c m = .ok (.inr c) m := by
  unfold decodeTurn
  rw [hnone]
  rfl

theorem runs_none (hnone : extractElement (d.rest c.sOffset) = none)
    (h : Act.Runs (decodeTurn d permissive fuel) c m c' m') : c' = c ∧ m' = m := by
  obtain ⟨r, m₁, hturn, honward⟩ := h.onward
  rw [decodeTurn_none hnone] at hturn
  cases hturn
  obtain ⟨rfl, rfl⟩ := honward
  exact ⟨rfl, rfl⟩

/-- A decode that finds nothing to read leaves its part as it is. -/
theorem decode_stays (h : decode d permissive fuel o m = .ok n m')
    (hnone : extractElement (d.rest o) = none) :
    n = o ∧ m' = m ∧ m.own.fp.findMissing = 0 := by
  obtain ⟨c, hruns, hmissing, rfl⟩ := decode_ok h
  obtain ⟨rfl, rfl⟩ := runs_none (c := sectionStart m o) hnone hruns
  exact ⟨rfl, rfl, hmissing⟩

theorem decode_of_none (hnone : extractElement (d.rest o) = none)
    (hmissing : m.own.fp.findMissing = 0) :
    ∃ n, ∀ fuel, n ≤ fuel → decode d permissive fuel o m = .ok o m :=
  decode_of (.here : Act.Reaches (decodeTurn d permissive 0) (sectionStart m o) m _ _)
    (decodeTurn_none hnone) hmissing

/-- What has been put aside stays in front. -/
theorem unknown_runs (h : Act.Runs (decodeTurn d permissive fuel) c m c' m') :
    m.own.unknown <+: m'.own.unknown := by
  have hturn : ∀ {c : Cursor} {r : Cursor ⊕ Cursor} {m m' : MessageBase D},
      decodeTurn d permissive fuel c m = .ok r m' → m.own.unknown <+: m'.own.unknown := by
    intro c r m m' h
    have hkept : Kept d (fun _ _ => True) 0 fun s : MessageBase D =>
        m.own.unknown <+: s.own.unknown :=
      kept_of_own (I := fun o => m.own.unknown <+: o.unknown)
        (fun o u ho => ho.trans (List.prefix_append _ _))
        fun o pos itr start be tv val ho _ _ _ _ => ho
    exact ((leaves_decodeTurn hkept (Nat.zero_le _)).ok ⟨trivial, List.prefix_refl _⟩ h).2
  induction h with
  | done h => exact hturn h
  | next h _ ih => exact (hturn h).trans ih

theorem unknown_onward {r : Cursor ⊕ Cursor}
    (h : Act.Onward (decodeTurn d permissive fuel) r m c' m') :
    m.own.unknown <+: m'.own.unknown := by
  cases r with
  | inl c => exact unknown_runs h
  | inr c =>
    obtain ⟨-, rfl⟩ := h
    exact List.prefix_refl _

end

/-! ## Where insertions stand -/

section
variable {d : Feed} {fuel start o : Nat} {c cs : Cursor} {m ms m₀ : MessageBase D}
  {r : Cursor ⊕ Cursor}

theorem decode_reads {n : Nat} (h : decode d false fuel start m = .ok n ms) :
    Reads d.text start n := by
  obtain ⟨c, hruns, -, rfl⟩ := decode_runs h
  exact (runs_reads hruns).1

/-- A strict turn that does not stay where it is knows the tag that it reads. -/
theorem turn_knows (h : decodeTurn d false fuel c m = .ok r ms) :
    (∃ c', r = .inr c' ∧ c'.sOffset = c.sOffset) ∨
      ∃ e, extractElement (d.rest c.sOffset) = some e ∧
        m.own.fp.find (fastAtoiU16 e.tag) ≠ none := by
  cases decodeTurn_ok h with
  | ended => exact .inl ⟨c, rfl, rfl⟩
  | unknown e _ _ _ _ hunknown =>
    obtain ⟨rfl, -⟩ := unknownField_strict hunknown
    exact .inl ⟨_, rfl, rfl⟩
  | skipped e itr he hitr => exact .inr ⟨e, he, by simp [hitr]⟩
  | field e itr _ _ he hitr => exact .inr ⟨e, he, by simp [hitr]⟩
  | length e itr _ _ _ _ he hitr => exact .inr ⟨e, he, by simp [hitr]⟩

theorem turnsAt_knows (h : TurnsAt d fuel start m o) (hne : o ≠ start) :
    ∃ e, extractElement (d.rest start) = some e ∧ m.own.fp.find (fastAtoiU16 e.tag) ≠ none := by
  obtain ⟨c, m', hreach, ho⟩ := h
  rcases hreach.cases_head with ⟨rfl, rfl⟩ | ⟨c₁, m₁, hturn, -⟩
  · obtain ho | ⟨e, hlength, -⟩ := ho
    · exact absurd ho.symm hne
    · obtain ⟨itr, hitr, -⟩ := hlength.field
      exact ⟨e, hlength.read, by simp [hitr]⟩
  · obtain ⟨c', heq, -⟩ | hknown := turn_knows hturn
    · cases heq
    · exact hknown

theorem decode_knows {n : Nat} (h : decode d false fuel start m = .ok n ms) (hne : n ≠ start) :
    ∃ e, extractElement (d.rest start) = some e ∧ m.own.fp.find (fastAtoiU16 e.tag) ≠ none := by
  obtain ⟨c, hruns, -, rfl⟩ := decode_runs h
  obtain ⟨r, m₁, hturn, honward⟩ := hruns.onward
  obtain ⟨c', rfl, hstays⟩ | hknown := turn_knows hturn
  · obtain ⟨rfl, -⟩ := honward
    exact absurd hstays hne
  · exact hknown

/-- The turn that ends a pass at a Length field ends it behind that. -/
theorem readsLength_le {e : Element} {c' : Cursor} (h : ReadsLength d c m e)
    (hturn : decodeTurn d false fuel c m = .ok (.inr c') ms) :
    c.sOffset + e.result ≤ c'.sOffset := by
  obtain ⟨itr, hitr, habsent, htype⟩ := h.field
  have hsame : ∀ e', extractElement (d.rest c.sOffset) = some e' → e' = e := by
    intro e' he'
    rw [h.read] at he'
    exact (Option.some.inj he').symm
  generalize hr : Sum.inr c' = r at hturn
  cases decodeTurn_ok hturn with
  | ended hnone => simp [h.read] at hnone
  | unknown e' _ _ he' hnone =>
    cases hsame e' he'
    simp [hitr] at hnone
  | skipped => cases hr
  | field => cases hr
  | length e' itr' c₁ m₁ _ _ he' _ _ hstored _ _ _ hdata =>
    cases hsame e' he'
    subst hr
    cases hdata with
    | unknown x tag _ _ _ _ _ hunknown =>
      obtain ⟨heq, -⟩ := unknownField_strict hunknown
      cases heq
      exact (consumed_stored hstored).1.le

/-- No field is read behind the end of a pass. -/
theorem turnsAt_le (h : TurnsAt d fuel start m o)
    (hruns : Act.Runs (decodeTurn d false fuel) (sectionStart m start) m cs ms) :
    o ≤ cs.sOffset := by
  obtain ⟨c, m', hreach, ho⟩ := h
  have hrest := hreach.runs hruns
  obtain rfl | ⟨e, hlength, rfl⟩ := ho
  · exact (runs_reads hrest).1.le
  · cases hrest with
    | done hturn => exact readsLength_le hlength hturn
    | next hturn hrest =>
      obtain ⟨⟨e', he', hle⟩, -⟩ := strict_turn hturn
      rw [hlength.read] at he'
      cases he'
      exact hle.trans (runs_reads hrest).1.le

end

section
variable {cx : F8MetaCntx} {now : Ticks} {call fuel o hlen bodyStart trailerStart : Nat}
  {text len mtype : F8String} {ins : List (Nat × F8String)} {msg : Message D} {bme : MessageClass}
  {header body trailer : MessageBase D} {cs : Cursor}

/-- What is inserted behind the header stands behind where the body begins. -/
theorem BetweenFields.behind (h : BetweenFields D cx now call fuel text o)
    (hbuilt : Built cx now call fuel text false msg hlen len mtype bme header body trailer bodyStart
      trailerStart) :
    TurnsAt ⟨cx, now, call, text, 0⟩ fuel (extractHeader text).1 (cx.mkHdr (D := D)) o ∨
      Reads text bodyStart o := by
  have hdecoded := hbuilt.headerDecoded
  cases h with
  | header h => exact .inl h
  | body _ _ _ _ hheader h =>
    rw [hbuilt.extracted, hdecoded] at hheader
    cases hheader
    exact .inr (turnsAt_reads h)
  | trailer _ _ _ _ trailerStart _ hheader hbody h =>
    rw [hbuilt.extracted, hdecoded] at hheader
    cases hheader
    have htrailer : Reads text trailerStart o := turnsAt_reads h
    exact .inr ((decode_reads hbody).trans htrailer)

/-- Nothing is inserted in front of where the header begins. -/
theorem BetweenFields.le (h : BetweenFields D cx now call fuel text o)
    (hbuilt : Built cx now call fuel text false msg hlen len mtype bme header body trailer bodyStart
      trailerStart) : (extractHeader text).1 ≤ o := by
  obtain h | h := h.behind hbuilt
  · exact (turnsAt_reads h).le
  · rw [hbuilt.extracted]
    exact ((decode_reads hbuilt.headerDecoded).trans h).le

/-- And then the schema knows the tag that stands there. -/
theorem BetweenFields.knows (h : BetweenFields D cx now call fuel text o)
    (hbuilt : Built cx now call fuel text false msg hlen len mtype bme header body trailer bodyStart
      trailerStart) (hlt : bodyStart < o) :
    ∃ e, extractElement (text.drop bodyStart) = some e ∧ ¬ UnknownTag cx (fastAtoiU16 e.tag) := by
  have hdecoded := hbuilt.headerDecoded
  have hbody : ∀ {bme}, cx.findBme (cstr (extractHeader text).2.2) = some bme →
      (∃ e, extractElement ((Feed.mk cx now call text 0).rest bodyStart) = some e ∧
        (bme.create (D := D) false).own.fp.find (fastAtoiU16 e.tag) ≠ none) →
      ∃ e, extractElement (text.drop bodyStart) = some e ∧ ¬ UnknownTag cx (fastAtoiU16 e.tag) := by
    rintro bme hbme ⟨e, he, hknown⟩
    exact ⟨e, element_rest he, fun hunknown => hknown (hunknown.body _ _ hbme)⟩
  cases h with
  | header h =>
    obtain ⟨cs, hruns, -, hstop⟩ := decode_runs hdecoded
    rw [hbuilt.extracted] at h
    have hle := turnsAt_le h hruns
    exact absurd hlt (Nat.not_lt.2 (hstop ▸ hle))
  | body _ _ _ hbme hheader h =>
    rw [hbuilt.extracted, hdecoded] at hheader
    cases hheader
    exact hbody hbme (turnsAt_knows h (Nat.ne_of_gt hlt))
  | trailer _ _ _ _ trailerStart hbme hheader hdecode h =>
    rw [hbuilt.extracted, hdecoded] at hheader
    cases hheader
    by_cases hstay : trailerStart = bodyStart
    · subst hstay
      obtain ⟨e, he, hknown⟩ := turnsAt_knows h (Nat.ne_of_gt hlt)
      refine ⟨e, element_rest he, fun hunknown => hknown ?_⟩
      show ((cx.trailer.traits).setPresent commonCheckSum).find _ = none
      rw [FieldTraits.find_setPresent, hunknown.trailer]
      rfl
    · exact hbody hbme (decode_knows hdecode hstay)

end

/-- Behind its first three elements an insertion does not change what `extract_header` finds. -/
theorem extractHeader_splice {text : F8String} {ins : List (Nat × F8String)} {e₁ e₂ e₃ : Element}
    (hthree : FirstThree text e₁ e₂ e₃) (h0 : (extractHeader text).1 ≠ 0)
    (h : ∀ i ∈ ins, (extractHeader text).1 ≤ i.1) :
    extractHeader (splice text ins) = extractHeader text := by
  obtain ⟨h₁, h₂, h₃⟩ := extractHeader_tags hthree h0
  have hhlen : (extractHeader text).1 = e₁.result + e₂.result + e₃.result := by
    simp [extractHeader, hthree.first, hthree.second, hthree.third, h₁, h₂, h₃]
  have hread : ∀ {o : Nat} {e : Element}, extractElement (text.drop o) = some e →
      o + e.result ≤ (extractHeader text).1 →
        extractElement ((splice text ins).drop o) = some e := by
    intro o e he hle
    refine extractElement_prefix he ?_
    have htake := congrArg (List.drop o)
      (take_splice (drop_element_le he) fun i hi => hle.trans (h i hi))
    rwa [List.drop_take, List.drop_take, Nat.add_sub_cancel_left] at htake
  have hfirst : extractElement ((splice text ins).drop 0) = some e₁ :=
    hread (o := 0) hthree.first (by omega)
  rw [List.drop_zero] at hfirst
  have hsecond := hread hthree.second (by omega)
  have hthird := hread hthree.third (by omega)
  simp [extractHeader, hfirst, hsecond, hthird, hthree.first, hthree.second, hthree.third]

/-! ## What stops the header -/

section
variable {d : Feed} {fuel start n o : Nat} {c c' cs : Cursor} {m m' ms m₀ : MessageBase D}
  {ins done todo : List (Nat × F8String)} {between : Nat → Prop} {t r : F8String} {a : UInt8}

omit [FpType D] in
/-- What is put aside begins with what stands there. -/
theorem bytes_starts (hd : d.ignore = 0) (h : d.rest o = t ++ a :: r) (hn : t.length < n) :
    ∃ r', d.bytes o n = t ++ a :: r' := by
  rw [rest_of_whole hd] at h
  obtain ⟨k, rfl⟩ : ∃ k, n = t.length + (k + 1) := ⟨n - t.length - 1, by omega⟩
  refine ⟨(r ++ [0].drop (o - d.text.length)).take k, ?_⟩
  unfold Feed.bytes
  rw [List.drop_append, h, List.append_assoc, List.take_append, List.take_of_length_le (by omega)]
  simp

/-- An element that stops the strict pass over a section is put aside by the permissive one. -/
theorem stopped_aside (hd : d.ignore = 0) (hins : Insertions d.cx d.text between ins)
    (hundist : LengthsUndisturbed d fuel start m₀ ins)
    (hreach : Act.Reaches (decodeTurn d false fuel) (sectionStart m₀ start) m₀ c m)
    (hm : m.InSection d.cx) (hw : Woven d fuel start m₀ ins done todo c m c' m')
    (hgap : ∀ i ∈ todo, c.sOffset < i.1)
    (hlast : decodeTurn d false fuel c m = .ok (.inr cs) ms)
    (hsome : extractElement (d.rest c.sOffset) ≠ none)
    (hahead : ∀ i ∈ todo, Reads d.text cs.sOffset i.1 ∧ cs.sOffset < i.1) :
    ∃ t rest, (∀ b ∈ t, isdigit b = true) ∧
      d.text.drop cs.sOffset = t ++ assignmentSeparator :: rest ∧
      ∃ r m'' r', decodeTurn (d.splice ins) true fuel c' m' = .ok r m'' ∧
        m''.own.unknown = inserted done ++ (t ++ assignmentSeparator :: r') := by
  obtain rfl := hw.split
  have hread := woven_element hd hins hw hgap
  generalize hr : Sum.inr cs = r at hlast
  cases decodeTurn_ok hlast with
  | ended hnone => exact absurd hnone hsome
  | skipped => cases hr
  | field => cases hr
  | unknown e _ _ he hfind hunknown =>
    subst hr
    obtain ⟨hcs, -⟩ := unknownField_strict hunknown
    cases hcs
    obtain ⟨htag, -, hresult, rest, hrest⟩ := extractElement_some he
    obtain ⟨-, -, -, rest', hrest'⟩ := extractElement_some (hread.trans he)
    obtain ⟨r', hbytes⟩ := bytes_starts (n := e.result) (ignore_splice hd) hrest' (by omega)
    rw [rest_of_whole hd] at hrest
    refine ⟨e.tag, _, htag, hrest, _, _, r',
      (decodeTurn_unknown (hread.trans he) (hw.alike.fp ▸ hfind)).trans unknownField_aside, ?_⟩
    rw [unknown_aside, hw.unknown]
    exact congrArg _ hbytes
  | length e itr c₂ m₂ _ _ he hitr habsent hstored htype htag hsize hdata =>
    subst hr
    cases hdata with
    | unknown x tag _ _ hx htext hfind hunknown =>
      obtain ⟨hcs, -⟩ := unknownField_strict hunknown
      cases hcs
      obtain ⟨rfl, hlength, m₂', halike₂, -, hunknown₂, hrun⟩ :=
        woven_length hd hins hm hw hgap he hitr habsent hstored htype htag hsize
      obtain ⟨x', hx', hsame⟩ := splice_fixedWidth hd hins
        (fun i hi => (hw.passed i hi).trans (Nat.le_add_right _ e.result))
        (fun i hi => (hahead i hi).1) (fun i hi => (hahead i hi).2) hx
      rw [← woven_behind hw] at hx'
      have hcursor : Cursor.looked { c'.behind e with pos := c.pos + 1 } x' =
          Cursor.looked { c'.behind e with pos := c.pos + 1 } x := by
        unfold Cursor.looked
        rw [hsame]
      have htext' : bufferText (Cursor.looked { c'.behind e with pos := c.pos + 1 } x').tag =
          some tag := by
        rw [hcursor]
        exact (woven_buffer hw (hundist.tag c m e x hreach hlength hx)).trans htext
      obtain ⟨htag', -, hresult', rest', hrest'⟩ := extractElementFixedWidth_some hx'
      obtain ⟨-, -, -, rest, hrest⟩ := extractElementFixedWidth_some hx
      rw [rest_of_whole hd] at hrest
      obtain ⟨r', hbytes⟩ := bytes_starts (n := x'.result) (ignore_splice hd) hrest' (by omega)
      refine ⟨x'.tag, _, htag', hsame ▸ hrest, _, _, r',
        hrun (.unknown x' tag _ _ hx' htext' (halike₂.fp ▸ hfind) unknownField_aside), ?_⟩
      rw [unknown_aside, hunknown₂, hw.unknown]
      exact congrArg _ hbytes

/-- A permissive decode that begins with an element of another part puts it aside. -/
theorem decode_aside {e : Element} (h : decode d true fuel o m = .ok n m')
    (he : extractElement (d.rest o) = some e)
    (hfind : m.own.fp.find (fastAtoiU16 e.tag) = none) :
    m.own.unknown ++ d.bytes o e.result <+: m'.own.unknown := by
  obtain ⟨c, hruns, -, -⟩ := decode_ok h
  obtain ⟨r, m₁, hturn, honward⟩ := hruns.onward
  have haside : decodeTurn d true fuel (sectionStart m o) m = _ := decodeTurn_unknown he hfind
  rw [hturn, unknownField_aside] at haside
  cases haside
  exact unknown_onward honward

/-- Where a pass ends: where it began its last turn, or behind a Length field. -/
theorem last_offset (hm : m.InSection d.cx)
    (hlast : decodeTurn d false fuel c m = .ok (.inr cs) ms) :
    cs.sOffset = c.sOffset ∨ ∃ e, ReadsLength d c m e ∧ cs.sOffset = c.sOffset + e.result := by
  generalize hr : Sum.inr cs = r at hlast
  cases decodeTurn_ok hlast with
  | ended =>
    cases hr
    exact .inl rfl
  | skipped => cases hr
  | field => cases hr
  | unknown e _ _ _ _ hunknown =>
    subst hr
    obtain ⟨hcs, -⟩ := unknownField_strict hunknown
    cases hcs
    exact .inl rfl
  | length e itr c₂ m₂ _ _ he hitr habsent hstored htype htag hsize hdata =>
    subst hr
    cases hdata with
    | unknown x tag _ _ _ _ _ hunknown =>
      obtain ⟨hcs, -⟩ := unknownField_strict hunknown
      cases hcs
      cases hstored with
      | group be _ _ _ hcount =>
        exact absurd htype (hm.lengths _ _ hitr (Bool.and_eq_true_iff.1 hcount).1)
      | field => exact .inr ⟨e, ⟨he, ⟨itr, hitr, habsent, htype⟩, htag⟩, rfl⟩

/-- Where nothing stands behind the strict pass, all insertions have been put aside, and nothing
stands behind the permissive pass. -/
theorem woven_end (hd : d.ignore = 0) (hins : Insertions d.cx d.text between ins)
    (hw : Woven d fuel start m₀ ins done todo c m c' m') (hgap : ∀ i ∈ todo, c.sOffset < i.1)
    (hnone : extractElement (d.text.drop c.sOffset) = none) :
    done = ins ∧ todo = [] ∧ extractElement ((splice d.text ins).drop c'.sOffset) = none := by
  have htodo : todo = [] := by
    cases todo with
    | nil => rfl
    | cons i todo =>
      have heq := (hw.ahead i List.mem_cons_self).eq_of_none hnone
      exact absurd (hgap i List.mem_cons_self) (heq ▸ Nat.lt_irrefl _)
  subst htodo
  obtain rfl : done = ins := (List.append_nil done).symm.trans hw.split
  refine ⟨rfl, rfl, ?_⟩
  have hread := woven_element hd hins hw hgap
  rwa [rest_of_whole hd, rest_of_whole (ignore_splice hd), hnone] at hread

omit [FpType D] in
/-- The CheckSum stands at the end, as it did. -/
theorem tail_splice {cx : F8MetaCntx} {text : F8String} (hins : Insertions cx text between ins) :
    (splice text ins).drop ((splice text ins).length - 7) = text.drop (text.length - 7) := by
  cases ins with
  | nil => rfl
  | cons i ins =>
    have hseven := hins.room i List.mem_cons_self
    have hroom : ∀ j ∈ i :: ins, j.1 ≤ text.length - 7 ∧ j.1 ≤ text.length := by
      intro j hj
      have hroom := hins.room j hj
      omega
    have hlength : (splice text (i :: ins)).length - 7 =
        text.length - 7 + (inserted (i :: ins)).length := by
      rw [length_splice]
      omega
    have hdrop : (splice text (i :: ins ++ [])).drop
        (text.length - 7 + (inserted (i :: ins)).length) = text.drop (text.length - 7) :=
      drop_splice hroom
    rwa [List.append_nil, ← hlength] at hdrop

omit [FpType D] in
/-- Whatever is put aside next is the next insertion. -/
theorem inserted_next {cx : F8MetaCntx} {text : F8String} (hins : Insertions cx text between ins)
    (hsplit : done ++ todo = ins) (ht : ∀ b ∈ t, isdigit b = true)
    (hbegins : inserted done ++ (t ++ assignmentSeparator :: r) <+: inserted ins) :
    ∃ i ∈ todo, UnknownTag cx (fastAtoiU16 t) := by
  subst hsplit
  rw [inserted_append, List.prefix_append_right_inj] at hbegins
  cases todo with
  | nil =>
    have hnil := List.prefix_nil.1 hbegins
    simp at hnil
  | cons i todo =>
    obtain ⟨tag, val, hu, htag, -, -, -, hunknown⟩ :=
      hins.element i (List.mem_append_right _ List.mem_cons_self)
    obtain ⟨w, hw⟩ := hbegins
    refine ⟨i, List.mem_cons_self, ?_⟩
    have heq : t ++ assignmentSeparator :: (r ++ w) =
        tag ++ assignmentSeparator :: (val ++ [fieldSeparator] ++ inserted todo) := by
      rw [inserted_cons, hu] at hw
      simpa using hw
    rw [tag_eq ht htag heq]
    exact hunknown

end

/-! ## Pass-through -/

omit [FpType D] in
theorem fieldAlike_setPreamble {call k j : Nat} {value : Value D} {m m' : MessageBase D}
    (h : FieldAlike call k m m') (hne : k ≠ j) :
    FieldAlike call k (m.setPreamble j value) (m'.setPreamble j value) := by
  have hget : ∀ m : MessageBase D,
      (m.setPreamble j value).own.fields.get? k = m.own.fields.get? k :=
    fun m => getField_setPreamble hne
  unfold FieldAlike
  rw [hget, hget]
  exact h

omit [FpType D] in
/-- Headers that are alike hold the same when the factory has set their lengths and types. -/
theorem known_preamble {call : Nat} {m m' : MessageBase D} (h : m.Alike call m')
    (hfields : ∀ k, FieldAlike call k m m') (hcall : call ≠ 0) (len mtype : Value D) :
    ((m'.setPreamble commonBodyLength len).setPreamble commonMsgType mtype).known =
      ((m.setPreamble commonBodyLength len).setPreamble commonMsgType mtype).known := by
  have halike : (m.setPreamble commonBodyLength len).Alike call
      (m'.setPreamble commonBodyLength len) := h.setPreamble hcall (hfields _)
  have hfield : FieldAlike call commonMsgType (m.setPreamble commonBodyLength len)
      (m'.setPreamble commonBodyLength len) :=
    fieldAlike_setPreamble (hfields commonMsgType) (by decide)
  exact (halike.setPreamble hcall hfield).known

section
variable {cx : F8MetaCntx} {now : Ticks} {call fuel hlen bodyStart trailerStart : Nat}
  {text len mtype : F8String} {ins done todo : List (Nat × F8String)} {msg : Message D}
  {bme : MessageClass} {header body trailer m : MessageBase D} {c : Cursor}

/-- The permissive pass over the header, when the strict one has come to `c`. -/
theorem woven_header (hschema : HeaderSchema cx)
    (hbuilt : Built cx now call fuel text false msg hlen len mtype bme header body trailer bodyStart
      trailerStart)
    (hins : Insertions cx text (BetweenFields D cx now call fuel text) ins)
    (hundist : LengthsUndisturbed ⟨cx, now, call, text, 0⟩ fuel hlen (cx.mkHdr (D := D)) ins)
    (hreach : Act.Reaches (decodeTurn ⟨cx, now, call, text, 0⟩ false fuel)
      (sectionStart (cx.mkHdr (D := D)) hlen) cx.mkHdr c m) :
    ∃ done todo c' m', Act.Reaches (decodeTurn ⟨cx, now, call, splice text ins, 0⟩ true fuel)
        (sectionStart (cx.mkHdr (D := D)) hlen) cx.mkHdr c' m' ∧
      Woven ⟨cx, now, call, text, 0⟩ fuel hlen (cx.mkHdr (D := D)) ins done todo c m c' m' ∧
        ∀ i ∈ todo, c.sOffset < i.1 := by
  have hbehind : ∀ i ∈ ins, TurnsAt ⟨cx, now, call, text, 0⟩ fuel hlen (cx.mkHdr (D := D)) i.1 ∨
      Reads text bodyStart i.1 := by
    intro i hi
    have hat := (hins.between i hi).behind hbuilt
    rwa [hbuilt.extracted] at hat
  obtain ⟨cs, hruns, -, rfl⟩ := decode_runs hbuilt.headerDecoded
  refine woven_reaches rfl hins hundist (inSection_mkHdr hschema) rfl ?_ ?_ hreach
  · intro i hi
    obtain hat | hreads := hbehind i hi
    · exact turnsAt_reads hat
    · exact (decode_reads hbuilt.headerDecoded).trans hreads
  · intro c m c₁ m₁ hreach hturn i hi hlt
    obtain hat | hreads := hbehind i hi
    · obtain hlength | ⟨c₂, m₂, hturn₂, hreads⟩ := turnsAt_turn hreach hat hlt
      · exact .inl hlength
      · rw [hturn] at hturn₂
        cases hturn₂
        exact .inr hreads
    · exact .inr ((runs_reads ((hreach.next hturn).runs hruns)).1.trans hreads)

/-- What the three parts have put aside. -/
theorem Built.unknown {permissive : Bool}
    (h : Built cx now call fuel text permissive msg hlen len mtype bme header body trailer bodyStart
      trailerStart) :
    msg.unknown = header.own.unknown ++ body.own.unknown ++ msg.trailer.own.unknown := by
  unfold Message.unknown
  rw [h.msgHeader, h.msgBody]
  have hheader : ∀ {m : MessageBase D} {k : Nat} {value : Value D},
      (m.setPreamble k value).own.unknown = m.own.unknown := unknown_assign
  rw [hheader, hheader]

/-- The body does not put the first insertion aside again, so the header does not go back to it: a
field of the header is stored behind it. -/
theorem stored_behind_first {c' : Cursor} {i : Nat × F8String} {fuel' : Nat}
    (hbuilt : Built cx now call fuel' (splice text ins) true msg hlen len mtype bme header body
      trailer (c'.stop true) trailerStart)
    (hins : Insertions cx text (BetweenFields D cx now call fuel text) ins)
    (hw : Woven ⟨cx, now, call, text, 0⟩ fuel hlen (cx.mkHdr (D := D)) ins ins [] c m c' header)
    (hunknown : msg.unknown = inserted ins) (hi : ins.head? = some i) :
    ∃ (c₀ : Cursor) (m₀ : MessageBase D),
      Act.Reaches (decodeTurn ⟨cx, now, call, text, 0⟩ false fuel)
        (sectionStart (cx.mkHdr (D := D)) hlen) cx.mkHdr c₀ m₀ ∧
      c₀.sOffset = i.1 ∧ c₀.pos < c.pos := by
  obtain ⟨c₀, m₀, hreach₀, hoffset, hpos, hlast⟩ := hw.first i hi
  refine ⟨c₀, m₀, hreach₀, hoffset, Nat.lt_of_le_of_ne hpos fun heq => ?_⟩
  have hback : c'.stop true = i.1 := by
    unfold Cursor.stop
    rw [hlast]
    exact if_pos ⟨rfl, heq.trans hw.pos.symm⟩
  obtain ⟨e, he, -, hforeign, hresult, hbytes⟩ :=
    splice_inserted (d := ⟨cx, now, call, text, 0⟩) rfl
      (show Insertions cx text _ ([] ++ ins) from hins) (fun j hj => absurd hj List.not_mem_nil) hi
  have hdecoded := hbuilt.bodyDecoded
  rw [hback] at hdecoded
  have hbody := (decode_aside hdecoded he (hforeign.body _ _ hbuilt.findBme)).length_le
  have htwice : e.result ≤ body.own.unknown.length := by
    refine le_trans (le_of_eq ?_) hbody
    rw [List.length_append]
    exact hresult.trans ((congrArg List.length hbytes).symm.trans (Nat.zero_add _).symm)
  rw [hbuilt.unknown] at hunknown
  have htotal := congrArg List.length hunknown
  simp only [hw.unknown, List.length_append] at htotal
  have hpositive := (result_le (.inl he)).1
  omega

/-- Only where the header is closed are the insertions put aside once. -/
theorem PassesThrough.headerClosed (hschema : HeaderSchema cx)
    (hbuilt : Built cx now call fuel text false msg hlen len mtype bme header body trailer bodyStart
      trailerStart)
    (hins : Insertions cx text (BetweenFields D cx now call fuel text) ins)
    (hhead : extractHeader (splice text ins) = extractHeader text)
    (hundist : LengthsUndisturbed ⟨cx, now, call, text, 0⟩ fuel hlen (cx.mkHdr (D := D)) ins)
    (hpass : PassesThrough cx now call text msg ins) :
    HeaderClosed D cx now call fuel text ins := by
  obtain ⟨cs, hruns, -, hend⟩ := decode_runs hbuilt.headerDecoded
  obtain ⟨c, m, hreach, hlast⟩ := Act.runs_reaches hruns
  have hm := inSection_reaches hreach (inSection_mkHdr hschema)
  obtain ⟨done, todo, c', m', hreach', hw, hgap⟩ :=
    woven_header hschema hbuilt hins hundist hreach
  obtain ⟨fuel', noChksum, msg', hok, -, hunknown⟩ := hpass
  obtain ⟨hlen', len', mtype', bme', header', body', trailer', bodyStart', trailerStart',
    hbuilt'⟩ := factory_ok hok
  have hsame : (hlen', len', mtype') = (hlen, len, mtype) := by
    rw [← hbuilt'.extracted, hhead, hbuilt.extracted]
  cases hsame
  obtain ⟨ce, hruns', -, hstop'⟩ := decode_ok hbuilt'.headerDecoded
  have hon : Act.Runs
      (decodeTurn (D := D) ⟨cx, now, call, splice text ins, 0⟩ true (max fuel fuel')) c' m' ce
        header' :=
    (hreach'.extend fun c => extends_decodeTurn (le_max_left fuel fuel') c).runs
      (hruns'.extend fun c => extends_decodeTurn (le_max_right fuel fuel') c)
  by_cases hnone : extractElement ((Feed.mk cx now call text 0).rest c.sOffset) = none
  · -- nothing stands behind the header, so all insertions have been put aside
    rw [rest_whole] at hnone
    obtain ⟨rfl, rfl, hnone'⟩ := woven_end (d := ⟨cx, now, call, text, 0⟩) rfl hins hw hgap hnone
    obtain ⟨rfl, rfl⟩ := runs_none (by rwa [rest_whole]) hon
    rw [hstop'] at hbuilt'
    exact ⟨c, m, hbuilt.extracted ▸ hreach, hnone, fun i hi =>
      hbuilt.extracted ▸ stored_behind_first hbuilt' hins hw hunknown hi⟩
  · have hahead : ∀ i ∈ todo, Reads text cs.sOffset i.1 ∧ cs.sOffset < i.1 := by
      intro i hi
      have hmem : i ∈ ins := hw.split ▸ List.mem_append_right _ hi
      have hreads : Reads text cs.sOffset i.1 := by
        have hat := (hins.between i hmem).behind hbuilt
        rw [hbuilt.extracted, hend] at hat
        refine hat.resolve_left fun hat => ?_
        obtain ⟨e, hlength, heq⟩ | ⟨c₁, m₁, hturn, -⟩ := turnsAt_turn hreach hat (hgap i hi)
        · exact hundist.behind c m e hreach hlength i hmem heq.symm
        · rw [hlast] at hturn
          cases hturn
      refine ⟨hreads, Nat.lt_of_le_of_ne hreads.le ?_⟩
      obtain heq | ⟨e, hlength, heq⟩ := last_offset hm hlast
      · rw [heq]
        exact Nat.ne_of_lt (hgap i hi)
      · rw [heq]
        exact (hundist.behind c m e hreach hlength i hmem).symm
    obtain ⟨t, rest, ht, hrest, r, m'', r', hturn, haside⟩ := stopped_aside
      (d := ⟨cx, now, call, text, 0⟩) rfl hins hundist hreach hm hw hgap hlast hnone hahead
    -- the next insertion has the tag that stands behind the header
    have hbegins : inserted done ++ (t ++ assignmentSeparator :: r') <+: inserted ins := by
      obtain ⟨r₁, m₁, hturn₁, honward⟩ := hon.onward
      have hmore := extends_decodeTurn (le_max_left fuel fuel') c' m' (hturn ▸ Act.inTime_ok)
      cases hturn₁.symm.trans (hmore.trans hturn)
      rw [← haside, ← hunknown, hbuilt'.unknown, List.append_assoc]
      exact (unknown_onward honward).trans (List.prefix_append _ _)
    obtain ⟨i, hi, hforeign⟩ := inserted_next hins hw.split ht hbegins
    obtain ⟨e, he, hknown⟩ := (hins.between i (hw.split ▸ List.mem_append_right _ hi)).knows hbuilt
      (hend ▸ (hahead i hi).2)
    obtain ⟨htag, -, -, rest', hrest'⟩ := extractElement_some he
    rw [hend, hrest] at hrest'
    exact absurd (tag_eq ht htag hrest' ▸ hforeign) hknown

/-- A turn of a strict pass is known by its offset. -/
theorem reaches_offset {d : Feed} {c₀ c₁ c₂ : Cursor} {m₀ m₁ m₂ : MessageBase D}
    (h₁ : Act.Reaches (decodeTurn d false fuel) c₀ m₀ c₁ m₁)
    (h₂ : Act.Reaches (decodeTurn d false fuel) c₀ m₀ c₂ m₂) (heq : c₁.sOffset = c₂.sOffset) :
    c₁ = c₂ := by
  have hsame : ∀ {c c' : Cursor} {m m' : MessageBase D},
      Act.Reaches (decodeTurn d false fuel) c m c' m' → c.sOffset = c'.sOffset → c' = c := by
    intro c c' m m' h heq
    rcases h.cases_head with ⟨rfl, -⟩ | ⟨c₃, m₃, hturn, hrest⟩
    · rfl
    · obtain ⟨⟨e, he, hle⟩, -⟩ := strict_turn hturn
      obtain ⟨-, -, hresult, -⟩ := extractElement_some he
      have hrest := (strict_reaches hrest).1
      omega
  rcases h₁.linear h₂ with h | h
  · exact (hsame h heq).symm
  · exact hsame h heq.symm

/-- Where the header is closed, all insertions are put aside, by the header. -/
theorem HeaderClosed.passesThrough (hschema : HeaderSchema cx) (hcall : call ≠ 0)
    (hlen0 : hlen ≠ 0)
    (hbuilt : Built cx now call fuel text false msg hlen len mtype bme header body trailer bodyStart
      trailerStart)
    (hins : Insertions cx text (BetweenFields D cx now call fuel text) ins)
    (hhead : extractHeader (splice text ins) = extractHeader text)
    (hundist : LengthsUndisturbed ⟨cx, now, call, text, 0⟩ fuel hlen (cx.mkHdr (D := D)) ins)
    (hclosed : HeaderClosed D cx now call fuel text ins) :
    PassesThrough cx now call text msg ins := by
  obtain ⟨c, m, hreach, hnone, hfirst⟩ := hclosed
  rw [hbuilt.extracted] at hreach hfirst
  -- the strict decode ends there, and finds nothing behind it
  obtain ⟨cs, hruns, hmissing, rfl⟩ := decode_runs hbuilt.headerDecoded
  obtain ⟨rfl, rfl⟩ := runs_none (by rwa [rest_whole]) (hreach.runs hruns)
  obtain ⟨rfl, rfl, hbodyMissing⟩ := decode_stays hbuilt.bodyDecoded (by rwa [rest_whole])
  obtain ⟨n, htrailer⟩ := hbuilt.trailerDecoded
  obtain ⟨rfl, rfl, htrailerMissing⟩ := decode_stays htrailer (by
    by_contra hsome
    obtain ⟨e, he⟩ := Option.ne_none_iff_exists'.1 hsome
    have he := element_rest he
    rw [show Feed.text ⟨cx, now, call, text, 7⟩ = text from rfl, hnone] at he
    cases he)
  obtain ⟨done, todo, c', m', hreach', hw, hgap⟩ :=
    woven_header hschema hbuilt hins hundist hreach
  -- and so does the permissive one, which does not go back
  obtain ⟨rfl, rfl, hnone'⟩ := woven_end (d := ⟨cx, now, call, text, 0⟩) rfl hins hw hgap hnone
  rw [← rest_whole] at hnone'
  have hstay : c'.stop true = c'.sOffset := by
    unfold Cursor.stop
    cases hi : done.head? with
    | none =>
      rw [hw.fresh (List.head?_eq_none_iff.1 hi)]
    | some i =>
      obtain ⟨c₀, m₀, hreach₀, hoffset₀, -, hlast⟩ := hw.first i hi
      obtain ⟨c₁, m₁, hreach₁, hoffset₁, hlt⟩ := hfirst i hi
      obtain rfl := reaches_offset hreach₀ hreach₁ (hoffset₀.trans hoffset₁.symm)
      rw [hlast]
      refine if_neg fun h => ?_
      rw [hw.pos] at h
      exact Nat.ne_of_lt hlt h.2
  obtain ⟨n₁, hheader'⟩ := decode_of hreach' (decodeTurn_none hnone') (hw.alike.fp ▸ hmissing)
  rw [hstay] at hheader'
  obtain ⟨n₂, hbody'⟩ := decode_of_none (d := ⟨cx, now, call, splice text done, 0⟩) hnone'
    hbodyMissing
  obtain ⟨n₃, htrailer'⟩ := decode_of_none (d := ⟨cx, now, call, splice text done, 7⟩) (by
    by_contra hsome
    obtain ⟨e, he⟩ := Option.ne_none_iff_exists'.1 hsome
    have he : extractElement ((splice text done).drop c'.sOffset) = some e := element_rest he
    rw [rest_whole, he] at hnone'
    cases hnone') htrailerMissing
  have htag : ((splice text done).drop ((splice text done).length - 7)).take 2 = ascii "10" := by
    rw [tail_splice hins]
    exact hbuilt.checkSumTag
  have hok := factory_of hlen0 (hhead.trans hbuilt.extracted) hbuilt.message hbuilt.findBme
    (hheader' (max n₁ (max n₂ n₃)) (by omega)) (hbody' (max n₁ (max n₂ n₃)) (by omega))
    (htrailer' (max n₁ (max n₂ n₃)) (by omega)) htag
  refine ⟨_, _, _, hok, ?_, ?_⟩
  · have hheader := known_preamble hw.alike hw.fields hcall
      (.int ((fastAtoiU32 len : Int).bmod 4294967296)) (.string (cstr mtype))
    have htrailer : (msg.trailer.setPreamble commonCheckSum (.string [])).known =
        (cx.mkTrl.setPreamble commonCheckSum (.string [])).known := by
      rcases hbuilt.msgTrailer with h | ⟨value, h⟩
      · rw [h]
      · rw [h, known_mkTrl]
    unfold Message.known
    rw [htrailer, hbuilt.msgType, hbuilt.msgBody, hbuilt.msgHeader, hheader]
  · have hassign : ∀ {m : MessageBase D} {k : Nat} {value : Value D},
        (m.setPreamble k value).own.unknown = m.own.unknown := unknown_assign
    unfold Message.unknown
    rw [hassign, hassign, hw.unknown]
    exact (List.append_nil _).trans (List.append_nil _)

/-! ## A text without its first three elements -/

omit [FpType D] in
/-- Unknown elements are told apart in what they make together. -/
theorem inserted_inj : ∀ {a b : List (Nat × F8String)}, (∀ i ∈ a, ForeignElement cx i.2) →
    (∀ i ∈ b, ForeignElement cx i.2) → inserted a = inserted b → a.map (·.2) = b.map (·.2) := by
  intro a
  induction a with
  | nil =>
    intro b _ hb h
    cases b with
    | nil => rfl
    | cons j b =>
      obtain ⟨e, he, -⟩ := foreign_read (hb j List.mem_cons_self) (inserted b)
      rw [← inserted_cons, ← h] at he
      cases he
  | cons i a ih =>
    intro b ha hb h
    obtain ⟨e, he, -, -, hlength⟩ := foreign_read (ha i List.mem_cons_self) (inserted a)
    rw [← inserted_cons, h] at he
    cases b with
    | nil => cases he
    | cons j b =>
      obtain ⟨e', he', -, -, hlength'⟩ := foreign_read (hb j List.mem_cons_self) (inserted b)
      rw [← inserted_cons, he] at he'
      cases he'
      rw [inserted_cons, inserted_cons] at h
      obtain ⟨hhead, htail⟩ := List.append_inj h (hlength.symm.trans hlength')
      rw [List.map_cons, List.map_cons, hhead, ih (fun k hk => ha k (List.mem_cons_of_mem _ hk))
        (fun k hk => hb k (List.mem_cons_of_mem _ hk)) htail]

/-- A permissive pass puts the unknown elements in front of it aside, and would go back to where it
would have gone back to. -/
theorem reaches_asides {d : Feed} {tail : F8String} : ∀ {left : List (Nat × F8String)} {c : Cursor}
    {m : MessageBase D}, (∀ k, UnknownTag d.cx k → m.own.fp.find k = none) →
    (∀ i ∈ left, ForeignElement d.cx i.2) → d.rest c.sOffset = inserted left ++ tail →
    (∀ p, c.last = some p → p.1 = c.pos) →
    ∃ c' m', Act.Reaches (decodeTurn d true fuel) c m c' m' ∧ d.rest c'.sOffset = tail ∧
      c'.stop true = c.stop true ∧ m'.own.unknown = m.own.unknown ++ inserted left := by
  intro left
  induction left with
  | nil =>
    intro c m _ _ hrest _
    exact ⟨c, m, .here, hrest, rfl, (List.append_nil _).symm⟩
  | cons i left ih =>
    intro c m hm hleft hrest hlast
    rw [inserted_cons, List.append_assoc] at hrest
    obtain ⟨e, he, -, hunknown, hlength⟩ :=
      foreign_read (hleft i List.mem_cons_self) (inserted left ++ tail)
    rw [← hrest] at he
    have hturn : decodeTurn d true fuel c m = _ :=
      (decodeTurn_unknown he (hm _ hunknown)).trans unknownField_aside
    have hbytes : d.bytes c.sOffset e.result = i.2 := hlength ▸ bytes_rest hrest
    have hnext : d.rest (c.sOffset + e.result) = inserted left ++ tail := by
      have hdrop := congrArg (List.drop i.2.length) hrest
      rw [List.drop_left] at hdrop
      unfold Feed.rest at hdrop ⊢
      rwa [List.drop_drop, ← hlength] at hdrop
    obtain ⟨c', m', hreach, hrest', hstop, haside⟩ := ih
      (c := { c.read e with
        sOffset := c.sOffset + e.result, last := c.last.or (some (c.pos, c.sOffset)) })
      (m := m.aside (d.bytes c.sOffset e.result)) hm
      (fun j hj => hleft j (List.mem_cons_of_mem _ hj)) hnext (by
        intro p hp
        cases hl : c.last with
        | none =>
          rw [hl] at hp
          exact congrArg Prod.fst (Option.some.inj hp).symm
        | some q =>
          rw [hl] at hp
          cases hp
          exact hlast _ hl)
    refine ⟨c', m', hreach.head hturn, hrest', hstop.trans ?_, ?_⟩
    · unfold Cursor.stop
      cases hl : c.last with
      | none => exact if_pos ⟨rfl, rfl⟩
      | some q => exact (if_pos ⟨rfl, hlast q hl⟩).trans (if_pos ⟨rfl, hlast q hl⟩).symm
    · rw [haside, unknown_aside, hbytes, inserted_cons, List.append_assoc]

/-- A permissive decode that finds unknown elements and nothing else puts them aside, and the next
part begins where it began. -/
theorem decode_foreign {d : Feed} {left : List (Nat × F8String)} {tail : F8String} {o n : Nat}
    (h : decode d true fuel o m = .ok n header)
    (hm : ∀ k, UnknownTag d.cx k → m.own.fp.find k = none)
    (hleft : ∀ i ∈ left, ForeignElement d.cx i.2) (hrest : d.rest o = inserted left ++ tail)
    (hnone : extractElement tail = none) :
    n = o ∧ header.own.unknown = m.own.unknown ++ inserted left := by
  obtain ⟨ce, hruns, -, rfl⟩ := decode_ok h
  obtain ⟨c', m', (hreach : Act.Reaches (decodeTurn d true fuel) _ _ _ _), hrest', hstop, haside⟩ :=
    reaches_asides (c := sectionStart m o) hm hleft hrest (fun p hp => by cases hp)
  obtain ⟨rfl, rfl⟩ := runs_none (by rwa [hrest']) (hreach.runs hruns)
  exact ⟨hstop, haside⟩

omit [FpType D] in
/-- What `extract_header` has read when it returns an offset: one, two or three elements. -/
theorem extractHeader_cases (h0 : (extractHeader text).1 ≠ 0) :
    ∃ e₁, extractElement text = some e₁ ∧ e₁.tag.head? = some 56 ∧
      ((extractElement (text.drop e₁.result) = none ∧ (extractHeader text).1 = e₁.result) ∨
        ∃ e₂, extractElement (text.drop e₁.result) = some e₂ ∧ e₂.tag.head? = some 57 ∧
          ((extractElement (text.drop (e₁.result + e₂.result)) = none ∧
              (extractHeader text).1 = e₁.result + e₂.result) ∨
            ∃ e₃, extractElement (text.drop (e₁.result + e₂.result)) = some e₃ ∧
              e₃.tag.take 2 = ascii "35" ∧
              (extractHeader text).1 = e₁.result + e₂.result + e₃.result)) := by
  unfold extractHeader at h0 ⊢
  cases h₁ : extractElement text with
  | none => exact absurd (by simp [h₁]) h0
  | some e₁ =>
    simp only [h₁] at h0 ⊢
    split at h0
    · exact absurd rfl h0
    rename_i hfirst
    refine ⟨e₁, rfl, not_not.1 hfirst, ?_⟩
    rw [if_neg hfirst]
    cases h₂ : extractElement (text.drop e₁.result) with
    | none => exact .inl ⟨rfl, rfl⟩
    | some e₂ =>
      simp only [h₂] at h0 ⊢
      split at h0
      · exact absurd rfl h0
      rename_i hsecond
      refine .inr ⟨e₂, rfl, not_not.1 hsecond, ?_⟩
      rw [if_neg hsecond]
      cases h₃ : extractElement (text.drop (e₁.result + e₂.result)) with
      | none => exact .inl ⟨rfl, rfl⟩
      | some e₃ =>
        simp only [h₃] at h0 ⊢
        split at h0
        · exact absurd rfl h0
        rename_i hthird
        refine .inr ⟨e₃, rfl, not_not.1 hthird, ?_⟩
        rw [if_neg hthird]

omit [FpType D] in
/-- Where one of the first three elements cannot be read, nothing can be read behind the others. -/
theorem unfinished_none (hthree : ¬ ∃ e₁ e₂ e₃, FirstThree text e₁ e₂ e₃)
    (h0 : (extractHeader text).1 ≠ 0) :
    extractElement (text.drop (extractHeader text).1) = none := by
  obtain ⟨e₁, h₁, -, ⟨h₂, hlen⟩ | ⟨e₂, h₂, -, ⟨h₃, hlen⟩ | ⟨e₃, h₃, -, -⟩⟩⟩ :=
    extractHeader_cases h0
  · rwa [hlen]
  · rwa [hlen]
  · exact absurd ⟨e₁, e₂, e₃, h₁, h₂, h₃⟩ hthree

omit [FpType D] in
/-- `extract_header` takes the first insertions for the elements that are missing: one, or two that
are not the same. -/
theorem extractHeader_unfinished {text' tail : F8String} {i : Nat × F8String}
    {left : List (Nat × F8String)} (hthree : ¬ ∃ e₁ e₂ e₃, FirstThree text e₁ e₂ e₃)
    (h0 : (extractHeader text).1 ≠ 0) (h0' : (extractHeader text').1 ≠ 0)
    (hforeign : ∀ j ∈ i :: left, ForeignElement cx j.2)
    (htake : text'.take (extractHeader text).1 = text.take (extractHeader text).1)
    (hdrop : text'.drop (extractHeader text).1 = inserted (i :: left) ++ tail)
    (hnone : extractElement tail = none) :
    ∃ taken left', i :: left = taken ++ left' ∧
      (extractHeader text').1 = (extractHeader text).1 + (inserted taken).length ∧
      (taken.length = 1 ∨ ∃ i j, taken = [i, j] ∧ i.2 ≠ j.2) := by
  have hread : ∀ {o : Nat} {e : Element}, extractElement (text.drop o) = some e →
      o + e.result ≤ (extractHeader text).1 → extractElement (text'.drop o) = some e := by
    intro o e he hle
    refine extractElement_prefix he ?_
    have hsame := congrArg (fun t => (t.drop o).take e.result) htake
    simp only [List.drop_take, List.take_take] at hsame
    rwa [Nat.min_eq_left (by omega)] at hsame
  -- behind the elements of the text stands the first insertion, and behind it the others
  obtain ⟨ei, hei, htagi, -, hlengthi⟩ :=
    foreign_read (hforeign i List.mem_cons_self) (inserted left ++ tail)
  rw [← List.append_assoc, ← inserted_cons, ← hdrop] at hei
  have hbehind : text'.drop ((extractHeader text).1 + ei.result) = inserted left ++ tail := by
    rw [← List.drop_drop, hdrop, inserted_cons, List.append_assoc, hlengthi, List.drop_left]
  obtain ⟨e₁, h₁, -, hcases⟩ := extractHeader_cases h0
  obtain ⟨e₁', h₁', -, hcases'⟩ := extractHeader_cases h0'
  have hfirst : e₁' = e₁ := by
    have hle : 0 + e₁.result ≤ (extractHeader text).1 := by
      rcases hcases with ⟨-, hlen⟩ | ⟨e₂, -, -, ⟨-, hlen⟩ | ⟨e₃, -, -, hlen⟩⟩ <;> omega
    have hsame := hread (o := 0) h₁ hle
    rw [List.drop_zero, h₁'] at hsame
    exact Option.some.inj hsame
  subst hfirst
  rcases hcases with ⟨h₂, hlen⟩ | ⟨e₂, h₂, -, ⟨h₃, hlen⟩ | ⟨e₃, h₃, -, -⟩⟩
  · -- the first insertion is the second element
    rw [hlen] at hei hbehind ⊢
    rcases hcases' with ⟨h₂', -⟩ | ⟨e₂', h₂', hsecond, hcases'⟩
    · rw [hei] at h₂'
      cases h₂'
    rw [hei] at h₂'
    cases h₂'
    rcases hcases' with ⟨h₃', hlen'⟩ | ⟨ej, hej, hthird, hlen'⟩
    · refine ⟨[i], left, rfl, ?_, .inl rfl⟩
      rw [hlen', hlengthi]
      simp
    · cases left with
      | nil =>
        rw [hbehind, inserted_nil, List.nil_append, hnone] at hej
        cases hej
      | cons j left =>
        obtain ⟨ej', hej', htagj, -, hlengthj⟩ := foreign_read
          (hforeign j (List.mem_cons_of_mem _ List.mem_cons_self)) (inserted left ++ tail)
        rw [← List.append_assoc, ← inserted_cons, ← hbehind, hej] at hej'
        cases hej'
        refine ⟨[i, j], left, rfl, ?_, .inr ⟨i, j, rfl, fun heq => ?_⟩⟩
        · rw [hlen', hlengthi, hlengthj]
          simp [Nat.add_assoc]
        · -- one has a tag that begins with 9, the other one that begins with 35
          rw [htagj, ← heq, ← htagi] at hthird
          cases htag : ei.tag with
          | nil =>
            rw [htag] at hsecond
            cases hsecond
          | cons b t =>
            rw [htag] at hsecond hthird
            cases hsecond
            cases t <;> exact absurd hthird (by simp [ascii])
  · -- the first insertion is the third element
    have h₂' := hread h₂ (by omega)
    rw [hlen] at hei ⊢
    rcases hcases' with ⟨hmissing, -⟩ | ⟨e₂', hsecond, -, hcases'⟩
    · rw [h₂'] at hmissing
      cases hmissing
    rw [h₂'] at hsecond
    cases hsecond
    rcases hcases' with ⟨hmissing, -⟩ | ⟨e₃, h₃', -, hlen'⟩
    · rw [hei] at hmissing
      cases hmissing
    · rw [hei] at h₃'
      cases h₃'
      refine ⟨[i], left, rfl, ?_, .inl rfl⟩
      rw [hlen', hlengthi]
      simp
  · exact absurd ⟨_, e₂, e₃, h₁, h₂, h₃⟩ hthree

/-- Where the header reads nothing it is closed for no insertion: no field stands behind it. -/
theorem not_headerClosed {i : Nat × F8String}
    (hnone : extractElement (text.drop (extractHeader text).1) = none) (hi : ins.head? = some i) :
    ¬ HeaderClosed D cx now call fuel text ins := by
  rintro ⟨c, m, hreach, -, hfirst⟩
  obtain ⟨c₁, m₁, hreach₁, -, hlt⟩ := hfirst i hi
  have hstart : ∀ {c : Cursor} {m : MessageBase D},
      Act.Reaches (decodeTurn ⟨cx, now, call, text, 0⟩ false fuel)
        (sectionStart (cx.mkHdr (D := D)) (extractHeader text).1) cx.mkHdr c m →
      c = sectionStart (cx.mkHdr (D := D)) (extractHeader text).1 := by
    intro c m hreach
    rcases hreach.cases_head with ⟨rfl, -⟩ | ⟨c₁, m₁, hturn, -⟩
    · rfl
    · rw [decodeTurn_none (by rwa [rest_whole])] at hturn
      cases hturn
  rw [hstart hreach, hstart hreach₁] at hlt
  exact absurd hlt (Nat.lt_irrefl _)

/-- All insertions stand where nothing can be read. -/
theorem unfinished_place
    (hbuilt : Built cx now call fuel text false msg hlen len mtype bme header body trailer bodyStart
      trailerStart)
    (hnone : extractElement (text.drop (extractHeader text).1) = none)
    (hins : Insertions cx text (BetweenFields D cx now call fuel text) ins) :
    ∀ i ∈ ins, i.1 = (extractHeader text).1 := by
  intro i hi
  have hat := (hins.between i hi).behind hbuilt
  rw [hbuilt.extracted] at hat hnone ⊢
  obtain ⟨hstay, -, -⟩ := decode_stays hbuilt.headerDecoded (by rwa [rest_whole])
  have hreads : Reads text hlen i.1 := by
    rcases hat with hat | hreads
    · exact turnsAt_reads hat
    · rwa [hstay] at hreads
  exact hreads.eq_of_none hnone

/-- The first insertions are taken for elements of the header, and each of the three parts puts the
others aside. -/
theorem unfinished_unknown {i : Nat × F8String} {left : List (Nat × F8String)}
    (hschema : HeaderSchema cx)
    (hbuilt : Built cx now call fuel (splice text (i :: left)) true msg hlen len mtype bme header
      body trailer bodyStart trailerStart)
    (hthree : ¬ ∃ e₁ e₂ e₃, FirstThree text e₁ e₂ e₃) (h0 : (extractHeader text).1 ≠ 0)
    (h0' : (extractHeader (splice text (i :: left))).1 ≠ 0)
    (hforeign : ∀ j ∈ i :: left, ForeignElement cx j.2)
    (hplace : ∀ j ∈ i :: left, j.1 = (extractHeader text).1)
    (hroom : (extractHeader text).1 + 7 ≤ text.length) :
    ∃ taken left', i :: left = taken ++ left' ∧
      (taken.length = 1 ∨ ∃ i j, taken = [i, j] ∧ i.2 ≠ j.2) ∧
      msg.unknown = inserted left' ++ inserted left' ++ inserted left' := by
  have hnone := unfinished_none hthree h0
  have hdrop := drop_splice_same (l := text) (by omega) hplace
  obtain ⟨taken, left', hsplit, hlen', htaken⟩ := extractHeader_unfinished hthree h0 h0' hforeign
    (take_splice (by omega) fun j hj => (hplace j hj).ge) hdrop hnone
  refine ⟨taken, left', hsplit, htaken, ?_⟩
  have hleft : ∀ j ∈ left', ForeignElement cx j.2 :=
    fun j hj => hforeign j (hsplit ▸ List.mem_append_right _ hj)
  have hstart : hlen = (extractHeader text).1 + (inserted taken).length := by
    rwa [hbuilt.extracted] at hlen'
  have hrest : (splice text (i :: left)).drop hlen =
      inserted left' ++ text.drop (extractHeader text).1 := by
    rw [hstart, ← List.drop_drop, hdrop, hsplit, inserted_append, List.append_assoc,
      List.drop_left]
  -- the trailer does not see the last seven bytes, which stand behind the insertions
  have hrest₇ : (Feed.mk cx now call (splice text (i :: left)) 7).rest hlen = inserted left' ++
      (text.drop (extractHeader text).1).take (text.length - 7 - (extractHeader text).1) := by
    have hsize : (Feed.mk cx now call (splice text (i :: left)) 7).fsize - hlen =
        (inserted left').length + (text.length - 7 - (extractHeader text).1) := by
      unfold Feed.fsize
      dsimp only
      rw [length_splice, hstart, hsplit, inserted_append, List.length_append]
      omega
    unfold Feed.rest
    rw [List.drop_take, hsize, hrest, List.take_length_add_append]
  have hnone₇ : extractElement ((text.drop (extractHeader text).1).take
      (text.length - 7 - (extractHeader text).1)) = none := by
    cases h : extractElement ((text.drop (extractHeader text).1).take
        (text.length - 7 - (extractHeader text).1)) with
    | none => rfl
    | some e => exact absurd (extractElement_of_take h) (by simp [hnone])
  have htrailerFp : ∀ k, UnknownTag cx k → (cx.mkTrl (D := D)).own.fp.find k = none := by
    intro k hk
    show ((cx.trailer.traits).setPresent commonCheckSum).find k = none
    rw [FieldTraits.find_setPresent, hk.trailer]
    rfl
  obtain ⟨rfl, hheader⟩ := decode_foreign hbuilt.headerDecoded (inSection_mkHdr hschema).foreign
    hleft (rest_whole.trans hrest) hnone
  obtain ⟨rfl, hbody⟩ := decode_foreign hbuilt.bodyDecoded
    (fun k hk => hk.body _ _ hbuilt.findBme) hleft (rest_whole.trans hrest) hnone
  obtain ⟨n, htrailerDecoded⟩ := hbuilt.trailerDecoded
  obtain ⟨-, htrailer⟩ := decode_foreign htrailerDecoded htrailerFp hleft hrest₇ hnone₇
  have hmsgTrailer : msg.trailer.own.unknown = trailer.own.unknown := by
    rcases hbuilt.msgTrailer with h | ⟨value, h⟩
    · rw [h]
    · rw [h]
      exact unknown_assign
  rw [hbuilt.unknown, hmsgTrailer, hheader, hbody, htrailer]
  rfl

/-- What is inserted there is not passed through. -/
theorem not_passesThrough (hschema : HeaderSchema cx)
    (hbuilt : Built cx now call fuel text false msg hlen len mtype bme header body trailer bodyStart
      trailerStart)
    (hthree : ¬ ∃ e₁ e₂ e₃, FirstThree text e₁ e₂ e₃) (h0 : (extractHeader text).1 ≠ 0)
    (hins : Insertions cx text (BetweenFields D cx now call fuel text) ins) (hne : ins ≠ []) :
    ¬ PassesThrough cx now call text msg ins := by
  rintro ⟨fuel', noChksum, msg', hok, -, hunknown⟩
  obtain ⟨hlen', len', mtype', bme', header', body', trailer', bodyStart', trailerStart',
    hbuilt'⟩ := factory_ok hok
  have hplace := unfinished_place hbuilt (unfinished_none hthree h0) hins
  obtain ⟨i, left, rfl⟩ := List.exists_cons_of_ne_nil hne
  obtain ⟨taken, left', hsplit, htaken, hthrice⟩ := unfinished_unknown hschema hbuilt' hthree h0
    (factory_hlen hok) hins.element hplace
    (hplace i List.mem_cons_self ▸ hins.room i List.mem_cons_self)
  -- three times what is left is not what has been inserted
  have hleft : ∀ j ∈ left', ForeignElement cx j.2 :=
    fun j hj => hins.element j (hsplit ▸ List.mem_append_right _ hj)
  rw [hthrice, hsplit, ← inserted_append, ← inserted_append] at hunknown
  have hsame := inserted_inj (by
    intro j hj
    rcases List.mem_append.1 hj with hj | hj
    · rcases List.mem_append.1 hj with hj | hj <;> exact hleft j hj
    · exact hleft j hj) (hsplit ▸ hins.element) hunknown
  have hcount := congrArg List.length hsame
  simp only [List.length_map, List.length_append] at hcount
  rcases htaken with hone | ⟨i, j, rfl, hdiffer⟩
  · omega
  · match left', hcount, hsame with
    | [k], _, hsame =>
      simp only [List.cons_append, List.nil_append, List.map_cons, List.cons.injEq] at hsame
      exact hdiffer (hsame.1.symm.trans hsame.2.1)
    | [], hcount, _ => simp at hcount
    | _ :: _ :: _, hcount, _ =>
      simp only [List.length_cons, List.length_nil] at hcount
      omega

/-- **A permissive decode passes the insertions through exactly where the header is closed.** -/
theorem passThrough_iff {noChksum : Bool} (hschema : HeaderSchema cx) (hcall : call ≠ 0)
    (h : factory cx now call fuel text noChksum false = .ok msg)
    (hins : Insertions cx text (BetweenFields D cx now call fuel text) ins)
    (hundist : LengthsUndisturbed ⟨cx, now, call, text, 0⟩ fuel (extractHeader text).1
      (cx.mkHdr (D := D)) ins) :
    PassesThrough cx now call text msg ins ↔ HeaderClosed D cx now call fuel text ins := by
  have h0 := factory_hlen h
  obtain ⟨hlen, len, mtype, bme, header, body, trailer, bodyStart, trailerStart, hbuilt⟩ :=
    factory_ok h
  by_cases hunfinished : ins ≠ [] ∧ ¬ ∃ e₁ e₂ e₃, FirstThree text e₁ e₂ e₃
  · obtain ⟨hne, hthree⟩ := hunfinished
    obtain ⟨i, hi⟩ := Option.ne_none_iff_exists'.1 (mt List.head?_eq_none_iff.1 hne)
    exact iff_of_false (not_passesThrough hschema hbuilt hthree h0 hins hne)
      (not_headerClosed (unfinished_none hthree h0) hi)
  have hhead : extractHeader (splice text ins) = extractHeader text := by
    rcases not_and_or.1 hunfinished with hnil | hthree
    · rw [not_not.1 hnil]
      rfl
    · obtain ⟨e₁, e₂, e₃, hthree⟩ := not_not.1 hthree
      exact extractHeader_splice hthree h0 fun i hi => (hins.between i hi).le hbuilt
  rw [hbuilt.extracted] at h0 hundist
  exact ⟨fun hpass => hpass.headerClosed hschema hbuilt hins hhead hundist,
    fun hclosed => hclosed.passesThrough hschema hcall h0 hbuilt hins hhead hundist⟩

end

end

/-! ## Heartbeats -/

theorem demoCntx_unknownTag : UnknownTag demoCntx 5000 where
  findBe := by decide
  header := by decide +kernel
  body := by
    intro mtype bme h
    have hlist : demoCntx.bme = [(ascii "0", ⟨[], []⟩)] := rfl
    rw [F8MetaCntx.findBme, hlist, List.lookup_cons] at h
    split at h
    · obtain rfl := Option.some.inj h
      rfl
    · cases h
  trailer := by decide +kernel

theorem demoCntx_headerSchema : HeaderSchema demoCntx where
  groups := fun c hc => absurd hc List.not_mem_nil
  lengths := by
    have hplain : ∀ t ∈ demoCntx.header.traits, t.group = false := by decide +kernel
    intro k itr hitr hgroup
    rw [hplain itr (List.mem_of_find?_eq_some hitr)] at hgroup
    cases hgroup

theorem demoCntx_oneLength : OneLength demoCntx.header.traits := by
  have hlengths : ∀ t ∈ demoCntx.header.traits, t.ftype = .length → t.fnum = commonBodyLength := by
    decide +kernel
  intro k itr hitr htype
  rw [← FieldTraits.find_fnum hitr]
  exact hlengths itr (List.mem_of_find?_eq_some hitr) htype

/-- A heartbeat whose CheckSum has lost its separator. -/
def demoOpenText : F8String :=
  demoElement "8" "FIX.4.2" ++ demoElement "9" "20" ++ demoElement "35" "0" ++
    demoElement "49" "A" ++ demoElement "34" "5" ++ ascii "10=148."

/-- An element between its SenderCompID and its MsgSeqNum. -/
def demoInsertion : List (Nat × F8String) := [(25, demoElement "5000" "x")]

def demoOpenFeed : Feed := ⟨demoCntx, 0, 1, demoOpenText, 0⟩

def demoOpenTurn : Cursor → Act (MessageBase Unit) Stop (Cursor ⊕ Cursor) :=
  decodeTurn demoOpenFeed false 30

theorem ok_of_partOf {α : Type} {r : Res (MessageBase Unit) Stop α} {a : α}
    (h : (partOf r).toOption.map (·.1) = some a) : r = .ok a r.state := by
  obtain ⟨⟨a', m⟩, hr, rfl⟩ := Option.map_eq_some_iff.1 h
  rw [partOf_ok (toOption_eq_some hr)]
  rfl

/-- With nothing readable behind the header the insertion is passed through. -/
theorem openHeartbeat_passed : ∃ msg : Message Unit,
    factory demoCntx 0 1 30 demoOpenText true false = .ok msg ∧
      PassesThrough demoCntx 0 1 demoOpenText msg demoInsertion := by
  have hsome : (factory (D := Unit) demoCntx 0 1 30 demoOpenText true false).toOption.isSome =
      true := by decide +kernel
  obtain ⟨msg, hmsg⟩ := Option.isSome_iff_exists.1 hsome
  have hmsg := toOption_eq_some hmsg
  have hstart : (extractHeader demoOpenText).1 = 20 := by decide +kernel
  have hsender : (partOf (demoOpenTurn (sectionStart (demoCntx.mkHdr (D := Unit)) 20)
      demoCntx.mkHdr)).toOption.map (·.1) = some (.inl ⟨25, 4, none, ascii "49\x00"⟩) := by
    decide +kernel
  have hseqnum : (partOf (demoOpenTurn ⟨25, 4, none, ascii "49\x00"⟩ (demoOpenTurn
      (sectionStart (demoCntx.mkHdr (D := Unit)) 20) demoCntx.mkHdr).state)).toOption.map (·.1) =
        some (.inl ⟨30, 5, none, ascii "34\x00"⟩) := by decide +kernel
  have hfirst := Act.Reaches.here.next (ok_of_partOf hsender)
  refine ⟨msg, hmsg, (passThrough_iff demoCntx_headerSchema (by decide) hmsg ?_ ?_).2 ?_⟩
  · refine ⟨List.pairwise_singleton .., ?_, ?_, ?_⟩
    · decide +kernel
    · intro i hi
      obtain rfl := List.mem_singleton.1 hi
      refine .header ?_
      rw [hstart]
      exact ⟨_, _, hfirst, .inl rfl⟩
    · intro i hi
      obtain rfl := List.mem_singleton.1 hi
      have hdigits : ∀ c ∈ ascii "5000", isdigit c = true := by decide +kernel
      have hval : fieldSeparator ∉ ascii "x" := by decide +kernel
      have htag : fastAtoiU16 (ascii "5000") = 5000 := by decide +kernel
      exact ⟨ascii "5000", ascii "x", rfl, hdigits, hval, by decide, by decide,
        htag ▸ demoCntx_unknownTag⟩
  · exact lengthsUndisturbed_of demoCntx_oneLength.setPresent.setPresent.setPresent
  · rw [HeaderClosed, hstart]
    refine ⟨_, _, hfirst.next (ok_of_partOf hseqnum), by decide +kernel, fun i hi => ?_⟩
    obtain rfl : (25, demoElement "5000" "x") = i := Option.some.inj hi
    exact ⟨_, _, hfirst, rfl, by decide⟩

/-- A heartbeat with nothing inserted: the header puts the trailer aside. -/
theorem heartbeat_not_passed : ¬ ∀ (cx : F8MetaCntx) (now : Ticks) (call fuel : Nat)
    (text : F8String) (noChksum : Bool) (msg : Message Unit) (ins : List (Nat × F8String)),
    factory cx now call fuel text noChksum false = .ok msg →
    Insertions cx text (BetweenFields Unit cx now call fuel text) ins →
      PassesThrough cx now call text msg ins := by
  intro h
  have hsome : (demoFactory "A").toOption.isSome = true := by decide +kernel
  obtain ⟨msg, hmsg⟩ := Option.isSome_iff_exists.1 hsome
  have hmsg := toOption_eq_some hmsg
  obtain ⟨hlen, len, mtype, bme, header, body, trailer, bodyStart, trailerStart, hbuilt⟩ :=
    factory_ok hmsg
  have hins : Insertions demoCntx (demoHeartbeatText "A")
      (BetweenFields Unit demoCntx 0 1 30 (demoHeartbeatText "A")) [] :=
    ⟨.nil, fun i hi => absurd hi List.not_mem_nil, fun i hi => absurd hi List.not_mem_nil,
      fun i hi => absurd hi List.not_mem_nil⟩
  have hpass := h _ _ _ _ _ _ msg [] hmsg hins
  obtain ⟨c, m, hreach, hnone, -⟩ := hpass.headerClosed demoCntx_headerSchema hbuilt hins rfl
    ⟨fun c m e _ _ i hi => absurd hi List.not_mem_nil,
      fun c m e x _ _ _ => .inr fun i hi => absurd hi List.not_mem_nil⟩
  obtain ⟨cs, hruns, -, hend⟩ := decode_runs hbuilt.headerDecoded
  rw [hbuilt.extracted] at hreach
  obtain ⟨rfl, -⟩ := runs_none (by rwa [rest_whole]) (hreach.runs hruns)
  have hext : extractHeader (demoHeartbeatText "A") = (20, ascii "20", ascii "0") := by
    decide +kernel
  have hsame : (20, ascii "20", ascii "0") = (hlen, len, mtype) := hext.symm.trans hbuilt.extracted
  cases hsame
  have hoffset : (partOf (decode (D := Unit) ⟨demoCntx, 0, 1, demoHeartbeatText "A", 0⟩ false 30 20
      demoCntx.mkHdr)).toOption.map (·.1) = some 30 := by
    decide +kernel
  rw [hbuilt.headerDecoded] at hoffset
  obtain rfl : bodyStart = 30 := Option.some.inj hoffset
  rw [← hend] at hnone
  exact absurd hnone (by decide +kernel)

end Fix8.Codec
