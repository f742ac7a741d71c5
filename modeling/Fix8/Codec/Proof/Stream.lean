import Fix8.Codec.Stream
import Fix8.Codec.Proof.Seqnum
import Fix8.Codec.Proof.Shown
import Fix8.Codec.Proof.Tree

/-!
# The buffer and the stream

Both encoders of a message write the same bytes and count them alike, if no field is of a
floating-point type: these alone are inserted into a stream in another way than they are printed
into a buffer.

* `insertInt_eq`, `insertBuffer_dateTime`: the numbers and the dates;
* `encodeVia_congr`: what the encoders of the fields have in common, those of the messages have;
* **`encode_agree`**;
* `encodeChars_message`: what they write is the text that `encode` returns.
-/

namespace Fix8.Codec

open Lib

/-! ## Values -/

theorem insertNat_eq (n : Nat) : insertNat n = itoa n := by
  simp [insertNat, itoa, ascii, Nat.toList_repr]

theorem insertInt_eq (v : Int) : insertInt v = itoaInt v := by
  have hneg : ascii "-" = [45] := rfl
  have happ : ∀ s t : String, ascii (s ++ t) = ascii s ++ ascii t := by simp [ascii]
  unfold insertInt itoaInt
  rw [Int.toString_eq_repr, Int.repr_eq_if]
  split_ifs with h₁ h₂ h₂
  · omega
  · rw [show v.toNat = v.natAbs by omega]
    exact insertNat_eq _
  · rw [happ, hneg, show (-v).toNat = v.natAbs by omega]
    exact congrArg ([45] ++ ·) (insertNat_eq _)
  · omega

/-- No character that `format0` writes is NUL, also of a negative number. -/
theorem zero_not_mem_format0 : ∀ (width : Nat) (data : Int), 0 ∉ format0 data width
  | 0, _ => List.not_mem_nil
  | width + 1, data => by
    have hlt : (data.tmod 10).natAbs < 10 := by
      rw [Int.natAbs_tmod]
      exact Nat.mod_lt _ (by decide)
    rw [format0, List.mem_append, List.mem_singleton, not_or]
    refine ⟨zero_not_mem_format0 width _, fun h => ?_⟩
    have hnat := congrArg UInt8.toNat h
    rw [UInt8.toNat_ofNat] at hnat
    simp at hnat
    omega

theorem zero_not_mem_dateTimeFormat (t : Ticks) (ind : TimeIndicator) :
    0 ∉ dateTimeFormat t ind := by
  have hcolon : 0 ∉ ascii ":" := by decide
  have hdash : 0 ∉ ascii "-" := by decide
  have hdot : 0 ∉ ascii "." := by decide
  cases ind
  all_goals simp [dateTimeFormat, zero_not_mem_format0, hcolon, hdash, hdot]

theorem insertBuffer_eq {text : F8String} (h : 0 ∉ text) : insertBuffer text = text := by
  unfold insertBuffer cstr
  cases maxMsgtypeFieldLen - text.length with
  | zero => exact takeWhile_ne h (.inl rfl)
  | succ k => exact takeWhile_ne h (.inr rfl)

/-- No value of a field is of a floating-point type. -/
def Value.FpFree {D : Type} : Value D → Prop
  | .fp _ _ => False
  | _ => True

section
variable {D : Type} [FpType D] [FpStream D]

theorem insert_eq_print {value : Value D} (h : value.FpFree) : value.insert = value.print := by
  cases value with
  | fp => exact absurd h id
  | int v => exact insertInt_eq v
  | string | char | boolean | tzTimeOnly | tzTimestamp => rfl
  | utcTimestamp | utcTimeOnly | utcDateOnly | localMktDate | monthYear =>
    exact insertBuffer_eq (zero_not_mem_dateTimeFormat _ _)

theorem encodeField_agree {f : BaseField D} (h : f.value.FpFree) :
    f.encodeStream = f.encodeChars := by
  unfold BaseField.encodeStream BaseField.encodeChars
  rw [insertNat_eq, insert_eq_print h]

end

/-! ## Messages -/

section
variable {D : Type} {field field' : BaseField D → Sink Nat} {m : MessageBase D}

theorem encodeFieldsVia_congr {fp : FieldTraits} {groups : List (Nat × Sink Nat)} :
    ∀ {pos : Positions D}, (∀ e ∈ pos, field e.2 = field' e.2) →
      encodeFieldsVia field fp groups pos = encodeFieldsVia field' fp groups pos
  | [], _ => rfl
  | pp :: rest, h => by
    unfold encodeFieldsVia
    rw [h pp List.mem_cons_self,
      encodeFieldsVia_congr fun e he => h e (List.mem_cons_of_mem _ he)]

theorem encodeElementsVia_congr : ∀ {msgs : List (MessageBase D)},
    (∀ e ∈ msgs, e.encodeVia field = e.encodeVia field') →
      encodeElementsVia field msgs = encodeElementsVia field' msgs
  | [], _ => by simp only [encodeElementsVia]
  | m :: ms, h => by
    rw [encodeElementsVia, encodeElementsVia, h m List.mem_cons_self,
      encodeElementsVia_congr fun e he => h e (List.mem_cons_of_mem _ he)]

theorem encodeGroupsVia_congr : ∀ {groups : List (GroupBase D)},
    (∀ g ∈ groups, ∀ e ∈ g.msgs, e.encodeVia field = e.encodeVia field') →
      encodeGroupsVia field groups = encodeGroupsVia field' groups
  | [], _ => by simp only [encodeGroupsVia]
  | .mk cls msgs :: gs, h => by
    have hmsgs : encodeElementsVia field msgs = encodeElementsVia field' msgs :=
      encodeElementsVia_congr (h _ List.mem_cons_self)
    rw [encodeGroupsVia, encodeGroupsVia, GroupBase.encodeVia, GroupBase.encodeVia, hmsgs,
      encodeGroupsVia_congr fun g hg => h g (List.mem_cons_of_mem _ hg)]

/-- Two encoders of fields that do the same on the fields of a message and of its elements do the
same on the message. -/
theorem encodeVia_congr
    (h : Elements (fun o => ∀ e ∈ o.pos, field e.2 = field' e.2) m) :
    m.encodeVia field = m.encodeVia field' := by
  induction h with
  | mk own nested groups hown _ ih =>
    rw [MessageBase.encodeVia, MessageBase.encodeVia, encodeGroupsVia_congr ih,
      encodeFieldsVia_congr hown]

theorem Elements.imp {P Q : FieldStore D → Prop} (hPQ : ∀ o, P o → Q o) (h : Elements P m) :
    Elements Q m := by
  induction h with
  | mk own nested groups hown _ ih => exact .mk own nested groups (hPQ own hown) ih

/-- No field of the containers is of a floating-point type. -/
def FieldStore.FpFree (o : FieldStore D) : Prop := ∀ e ∈ o.pos, e.2.value.FpFree

/-- **`encode(std::ostream&)` and `encode(char *)`** write the same and return the same count, or
throw the same exception, for every message without floating-point fields at any depth. -/
theorem encode_agree [FpType D] [FpStream D] (m : MessageBase D)
    (h : Elements FieldStore.FpFree m) : m.encodeStream = m.encodeChars :=
  encodeVia_congr (h.imp fun _ ho e he => encodeField_agree (ho e he))

instance : FpStream Unit := ⟨fun _ => []⟩

/-- A group of one element, with a negative number and a time before 1970 in it. -/
def demoLegs : MessageBase Unit :=
  let own : FieldStore Unit := ⟨[{ fnum := 555, pos := 1, present := true, group := true }],
    OrdMap.empty, [(1, ⟨⟨1, 0⟩, 555, .int 1⟩)], []⟩
  let leg : FieldStore Unit := ⟨[{ fnum := 566, pos := 1, present := true },
    { fnum := 600, pos := 2, present := true }], OrdMap.empty,
    [(1, ⟨⟨1, 1⟩, 566, .int (-5)⟩), (2, ⟨⟨1, 2⟩, 600, .utcTimestamp (-1)⟩)], []⟩
  .mk own [] [.mk (.mk 555 leg.fp []) [.mk leg [] []]]

theorem encode_agree_legs : demoLegs.encodeStream = demoLegs.encodeChars := by
  refine encode_agree demoLegs (.mk _ _ _ ?_ ?_)
  · intro e he
    obtain rfl := List.mem_singleton.1 he
    trivial
  · intro g hg e he
    obtain rfl := List.mem_singleton.1 hg
    obtain rfl := List.mem_singleton.1 he
    refine .mk _ _ _ (fun e he => ?_) fun g hg => absurd hg List.not_mem_nil
    rcases List.mem_cons.1 he with rfl | he
    · trivial
    · obtain rfl := List.mem_singleton.1 he
      trivial

end

/-! ## What both write -/

section
variable {α β D : Type}

/-- The encoder appends the text `r`, or throws where `r` is an exception. -/
def Writes (encoder : Sink α) (count : F8String → α) : Except Stop F8String → Prop
  | .ok text => ∀ s, encoder s = .ok (count text) (s ++ text)
  | .error e => ∀ s, ∃ s', encoder s = .throw e s'

theorem writes_put (text : F8String) : Writes (put text) (fun _ => ()) (.ok text) := fun _ => rfl

theorem Writes.bind {encoder : Sink α} {next : Sink β} {count : F8String → α} {b : β}
    {r r' : Except Stop F8String} (h : Writes encoder count r)
    (hnext : Writes next (fun _ => b) r') :
    Writes (encoder >>= fun _ => next) (fun _ => b)
      (do let text ← r; let more ← r'; pure (text ++ more)) := by
  cases r with
  | error e =>
    intro s
    obtain ⟨s', hs⟩ := h s
    exact ⟨s', Act.bind_throw hs _⟩
  | ok text =>
    cases r' with
    | error e =>
      intro s
      obtain ⟨s', hs⟩ := hnext (s ++ text)
      exact ⟨s', (Act.bind_ok (h s) _).trans hs⟩
    | ok more =>
      intro s
      rw [Act.bind_ok (h s), hnext, List.append_assoc]

theorem writes_counted {encoder : Sink Unit} {r : Except Stop F8String}
    (h : Writes encoder (fun _ => ()) r) : Writes (counted encoder) List.length r := by
  have hcounted : ∀ s, counted encoder s = (encoder >>= fun _ => do
      let stop ← tell
      pure (stop - s.length)) s := fun _ => rfl
  cases r with
  | error e =>
    intro s
    obtain ⟨s', hs⟩ := h s
    rw [hcounted]
    exact ⟨s', Act.bind_throw hs _⟩
  | ok text =>
    intro s
    rw [hcounted, Act.bind_ok (h s)]
    show Res.ok ((s ++ text).length - s.length) (s ++ text) = _
    rw [List.length_append, Nat.add_sub_cancel_left]

variable [FpType D]

theorem encodeChars_field (f : BaseField D) : Writes f.encodeChars List.length (.ok f.encode) := by
  refine writes_counted fun s => ?_
  show Res.ok () ((((s ++ itoa f.fnum) ++ [assignmentSeparator]) ++ f.value.print) ++
    [fieldSeparator]) = Res.ok () (s ++ f.encode)
  simp [BaseField.encode]

theorem encodeChars_fields (fp : FieldTraits) {sinks : List (Nat × Sink Nat)}
    {groups : List (Nat × Except Stop F8String)}
    (hgroups : ∀ k, Writes ((sinks.lookup k).getD (Act.throw (.exn (.invalidRepeatingGroup k))))
      List.length ((groups.lookup k).getD (.error (.exn (.invalidRepeatingGroup k))))) :
    ∀ pos : Positions D, Writes (encodeFieldsVia BaseField.encodeChars fp sinks pos)
      (fun _ => ()) (encodeFields fp groups pos)
  | [] => fun s => congrArg (Res.ok ()) (List.append_nil s).symm
  | pp :: rest => by
    have hrest := encodeChars_fields fp hgroups rest
    unfold encodeFieldsVia encodeFields
    split
    · exact hrest
    · split
      · have hgroup := (encodeChars_field pp.2).bind ((hgroups pp.2.fnum).bind hrest)
        have heq : ∀ group more : Except Stop F8String,
            (do let text ← .ok pp.2.encode
                let rest ← (do let group ← group; let more ← more; pure (group ++ more))
                pure (text ++ rest) : Except Stop F8String) =
              (do let group ← group; let more ← more; pure (pp.2.encode ++ group ++ more)) := by
          intro group more
          cases group with
          | error e => rfl
          | ok group =>
            cases more with
            | error e => rfl
            | ok more => exact congrArg Except.ok (List.append_assoc _ group more).symm
        rwa [heq] at hgroup
      · exact (encodeChars_field pp.2).bind hrest

mutual

theorem encodeChars_message : ∀ m : MessageBase D, Writes m.encodeChars List.length m.encode
  | .mk own _ groups => by
    unfold MessageBase.encodeChars MessageBase.encodeVia MessageBase.encode
    exact writes_counted ((encodeChars_fields own.fp (encodeChars_groups groups) own.pos).bind
      (writes_put own.unknown))

theorem encodeChars_groups : ∀ (groups : List (GroupBase D)) (k : Nat),
    Writes (((encodeGroupsVia BaseField.encodeChars groups).lookup k).getD
        (Act.throw (.exn (.invalidRepeatingGroup k)))) List.length
      (((encodeGroups groups).lookup k).getD (.error (.exn (.invalidRepeatingGroup k))))
  | [], k => by
    rw [encodeGroupsVia, encodeGroups]
    exact fun s => ⟨s, rfl⟩
  | g :: gs, k => by
    rw [encodeGroupsVia, encodeGroups, List.lookup_cons, List.lookup_cons]
    cases k == g.fnum with
    | true => exact encodeChars_group g
    | false => exact encodeChars_groups gs k

theorem encodeChars_group : ∀ g : GroupBase D,
    Writes (GroupBase.encodeVia BaseField.encodeChars g) List.length g.encode
  | .mk _ msgs => by
    rw [GroupBase.encodeVia, GroupBase.encode]
    exact writes_counted (encodeChars_elements msgs)

theorem encodeChars_elements : ∀ msgs : List (MessageBase D),
    Writes (encodeElementsVia BaseField.encodeChars msgs) (fun _ => ()) (encodeElements msgs)
  | [] => by
    rw [encodeElementsVia, encodeElements]
    exact fun s => congrArg (Res.ok ()) (List.append_nil s).symm
  | m :: ms => by
    rw [encodeElementsVia, encodeElements]
    exact (encodeChars_message m).bind (encodeChars_elements ms)

end

end

end Fix8.Codec
