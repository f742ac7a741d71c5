import Fix8.Codec.Proof.CStr
import Fix8.Codec.Proof.Section
import Fix8.Codec.Proof.Traits
import Mathlib.Data.List.TakeWhile

/-!
# The number of an inbound message

`Session::process` takes the number behind the first `34=` of the text; the header's MsgSeqNum is
made from the element that the decoder finds under tag 34. A field object is known by where its
element starts, so the two can be compared on the text.

* `msgSeqNum_madeFrom`: the field is made from the element at its place in the text;
* **`seqnum_agrees_iff`**: when the two numbers are the same.
-/

namespace Fix8.Codec

open Lib

/-- MsgSeqNum is a SeqNum, an `int`, as `msg_seq_num` has it. -/
structure SeqNumSchema (cx : F8MetaCntx) : Prop where
  cls : ∀ be, cx.findBe commonMsgSeqNum = some be → be.cls = .int
  ftype : ∀ itr, cx.header.traits.find commonMsgSeqNum = some itr → itr.ftype ≠ .data

section
variable {D : Type} [FpType D]

/-- The `seqnum` of `process` is the value of the MsgSeqNum in the header. -/
def SeqnumAgrees (text : F8String) (msg : Message D) : Prop :=
  ∃ (n : Nat) (f : BaseField D), processSeqnum text = .ok n ∧
    msg.header.getField commonMsgSeqNum = some f ∧ f.value = .int n

/-- The first `34=` is in the tag of the element `e` at `start`, whose value has no NUL. -/
def FindsOwn (text : F8String) (start : Nat) (e : Element) : Prop :=
  (∃ fpos, findText (ascii "34=") text = some fpos ∧ fpos + 2 = start + e.tag.length) ∧ 0 ∉ e.val

/-- What stands behind the first `34=` is the same number all the same. -/
def Coincides (text : F8String) (e : Element) : Prop :=
  ∃ fpos v, findText (ascii "34=") text = some fpos ∧
    fastAtoiTo fieldSeparator (text.drop (fpos + 3)) = some v ∧
    v % 4294967296 = fastAtoi e.val % 4294967296

end

/-! ## The field and its element -/

section
variable {D : Type} [FpType D] {d : Feed} {o : FieldStore D}

/-- A field made from an element under tag 34. -/
def MadeFrom (d : Feed) (f : BaseField D) (e : Element) : Prop :=
  extractElement (d.rest f.id.nth) = some e ∧ fastAtoiU16 e.tag = commonMsgSeqNum ∧
    f.value = .int (fastAtoiInt (cstr e.val))

/-- What a decode keeps of the MsgSeqNum. -/
def SeqNumMade (d : Feed) (o : FieldStore D) : Prop :=
  (∀ itr, o.fp.find commonMsgSeqNum = some itr → itr.ftype ≠ .data) ∧
  ∀ f, o.fields.get? commonMsgSeqNum = some f → ∃ e, MadeFrom d f e

omit [FpType D] in
theorem setPresent_ftype {tv : Nat} {fp : FieldTraits}
    (h : ∀ itr, fp.find commonMsgSeqNum = some itr → itr.ftype ≠ .data) :
    ∀ itr, (fp.setPresent tv).find commonMsgSeqNum = some itr → itr.ftype ≠ .data := by
  intro itr hitr
  rw [FieldTraits.find_setPresent] at hitr
  obtain ⟨t, ht, rfl⟩ := Option.map_eq_some_iff.1 hitr
  split
  · exact h t ht
  · exact h t ht

theorem kept_seqNumMade {R : Cursor → MessageBase D → Prop} (hschema : SeqNumSchema d.cx) :
    Kept d R 0 fun m : MessageBase D => SeqNumMade d m.own := by
  apply kept_of_own
  · exact fun _ _ h => h
  · intro o pos itr start be tv val h _ hitr horig hbe
    refine ⟨setPresent_ftype h.1, ?_⟩
    intro f hf
    have hins : (o.fields.insert tv (d.createField be tv start val)).get? commonMsgSeqNum =
        some f := hf
    rw [OrdMap.get?_insert] at hins
    split at hins
    · rename_i htv
      cases hold : o.fields.get? tv with
      | some f' =>
        rw [hold] at hins
        obtain rfl := Option.some.inj hins
        exact h.2 f' (by rw [htv]; exact hold)
      | none =>
        rw [hold] at hins
        obtain rfl := Option.some.inj hins
        rw [← htv] at hitr hbe
        have hcls := hschema.cls be hbe
        obtain ⟨e, -, helem⟩ | ⟨_, _, _, _, _, _, _, htype⟩ := horig
        · refine ⟨e, helem, htv.symm, ?_⟩
          show Value.create d.now be.cls e.val = _
          rw [hcls]
          rfl
        · exact absurd htype (h.1 itr hitr)
    · exact h.2 f hins

omit [FpType D] in
theorem seqNumMade_mkHdr (hschema : SeqNumSchema d.cx) :
    SeqNumMade d (d.cx.mkHdr (D := D)).own := by
  constructor
  · exact setPresent_ftype (setPresent_ftype (setPresent_ftype hschema.ftype))
  · intro f hf
    have hnone : (d.cx.mkHdr (D := D)).own.fields.get? commonMsgSeqNum = none := by
      show (((OrdMap.empty.insert commonBeginString _).insert commonBodyLength _).insert
        commonMsgType _).get? commonMsgSeqNum = none
      rw [OrdMap.get?_insert_of_ne (by decide), OrdMap.get?_insert_of_ne (by decide),
        OrdMap.get?_insert_of_ne (by decide), OrdMap.get?_empty]
    rw [hnone] at hf
    exact absurd hf (by simp)

omit [FpType D] in
theorem getField_setPreamble {m : MessageBase D} {fnum k : Nat} {value : Value D} (h : k ≠ fnum) :
    (m.setPreamble fnum value).getField k = m.getField k := by
  show (m.own.assign (preambleId fnum) fnum value).fields.get? k = m.own.fields.get? k
  unfold FieldStore.assign
  cases m.own.fields.get? fnum with
  | none => rfl
  | some f =>
    dsimp only
    split
    · show (m.own.fields.replace fnum _).get? k = m.own.fields.get? k
      rw [OrdMap.get?_replace, if_neg h]
    · rfl

/-- The header's MsgSeqNum is made from the element at its place in the text. -/
theorem msgSeqNum_madeFrom {cx : F8MetaCntx} {now : Ticks} {call fuel : Nat} {text : F8String}
    {noChksum permissive : Bool} {msg : Message D} {f : BaseField D} (hschema : SeqNumSchema cx)
    (h : factory cx now call fuel text noChksum permissive = .ok msg)
    (hf : msg.header.getField commonMsgSeqNum = some f) :
    ∃ e, MadeFrom ⟨cx, now, call, text, 0⟩ f e := by
  obtain ⟨hlen, len, mtype, bme, header, body, trailer, bodyStart, trailerStart, hbuilt⟩ :=
    factory_ok h
  have hheader := hbuilt.msgHeader
  rw [hheader, getField_setPreamble (by decide), getField_setPreamble (by decide)] at hf
  have hkept : Kept (D := D) ⟨cx, now, call, text, 0⟩ (fun _ _ => True) 0 fun m =>
      SeqNumMade ⟨cx, now, call, text, 0⟩ m.own := kept_seqNumMade hschema
  have hmade : SeqNumMade ⟨cx, now, call, text, 0⟩ header.own :=
    ((leaves_decode hkept).ok ⟨seqNumMade_mkHdr hschema, Nat.zero_le _⟩ hbuilt.headerDecoded).2
  exact hmade.2 f hf

/-! ## The two numbers -/

theorem rest_whole {cx : F8MetaCntx} {now : Ticks} {call start : Nat} {text : F8String} :
    (Feed.mk cx now call text 0).rest start = text.drop start := by
  simp [Feed.rest, Feed.fsize]

theorem takeWhile_ne {c : UInt8} {l rest : F8String} (h : c ∉ l)
    (hrest : rest = [] ∨ rest.head? = some c) : (l ++ rest).takeWhile (· ≠ c) = l := by
  induction l with
  | nil =>
    obtain rfl | hhead := hrest
    · rfl
    · obtain ⟨rest', rfl⟩ := List.head?_eq_some_iff.1 hhead
      simp
  | cons c' l ih =>
    obtain ⟨hc, hl⟩ := not_or.1 fun hmem => h (List.mem_cons.2 hmem)
    have htail := ih hl
    rw [List.cons_append, List.takeWhile_cons, if_pos (by simpa using fun heq => hc heq.symm), htail]

theorem fastAtoi_cstr {val : F8String} : fastAtoi (cstr val) = fastAtoi val := by
  have hnul : 0 ∉ cstr val := fun hmem => by simpa using List.mem_takeWhile_imp hmem
  rw [fastAtoi, fastAtoi, cstr_of_not_mem hnul]

/-- The digits that `fast_atoi` has read up to the separator. -/
theorem fastAtoiTo_value {val rest : F8String} (hsep : fieldSeparator ∉ val) (hnul : 0 ∉ val) :
    fastAtoiTo fieldSeparator (val ++ fieldSeparator :: rest) = some (fastAtoi val) := by
  rw [fastAtoiTo, if_pos (by simp), takeWhile_ne hsep (.inr rfl), fastAtoi, cstr_of_not_mem hnul]

/-- Where the search finds the element itself, it reads its value. -/
theorem FindsOwn.coincides {text : F8String} {start : Nat} {e : Element}
    (h : FindsOwn text start e) (he : extractElement (text.drop start) = some e) :
    Coincides text e := by
  obtain ⟨⟨fpos, hfind, hpos⟩, hnul⟩ := h
  obtain ⟨-, hsep, -, rest, hrest⟩ := extractElement_some he
  refine ⟨fpos, fastAtoi e.val, hfind, ?_, rfl⟩
  have hdrop : text.drop (fpos + 3) = e.val ++ fieldSeparator :: rest := by
    have hpos' : fpos + 3 = start + (e.tag.length + 1) := by omega
    rw [hpos', ← List.drop_drop, hrest, ← List.drop_drop, List.drop_left]
    rfl
  rw [hdrop]
  exact fastAtoiTo_value hsep hnul

theorem toNat_emod_eq {v w : Int} (h : 0 ≤ w.bmod 4294967296) :
    ((v % 4294967296).toNat : Int) = w.bmod 4294967296 ↔ v % 4294967296 = w % 4294967296 := by
  have hv := Int.emod_nonneg v (b := 4294967296) (by decide)
  rw [Int.toNat_of_nonneg hv]
  have hw := Int.emod_lt_of_pos w (b := 4294967296) (by decide)
  rw [Int.bmod_def] at h ⊢
  split at h
  · rw [if_pos ‹_›]
    exact Iff.rfl
  · omega

/-- **When `process` reads the header's MsgSeqNum**: its number is no negative `int`, and the first
`34=` of the text is its own, with no NUL in the value, or has the same number behind it. -/
theorem seqnum_agrees_iff {cx : F8MetaCntx} {now : Ticks} {call fuel : Nat} {text : F8String}
    {noChksum permissive : Bool} {msg : Message D} (hschema : SeqNumSchema cx)
    (h : factory cx now call fuel text noChksum permissive = .ok msg) :
    SeqnumAgrees text msg ↔ ∃ f e, msg.header.getField commonMsgSeqNum = some f ∧
      extractElement (text.drop f.id.nth) = some e ∧ 0 ≤ fastAtoiInt e.val ∧
      (FindsOwn text f.id.nth e ∨ ¬ FindsOwn text f.id.nth e ∧ Coincides text e) := by
  constructor
  · rintro ⟨n, f, hproc, hf, hval⟩
    obtain ⟨e, helem, -, hmade⟩ := msgSeqNum_madeFrom hschema h hf
    rw [rest_whole] at helem
    have hn : (n : Int) = fastAtoiInt e.val := by
      rw [hval] at hmade
      injection hmade with hmade
      rw [hmade, fastAtoiInt, fastAtoiInt, fastAtoi_cstr]
    have hpos : 0 ≤ fastAtoiInt e.val := by omega
    refine ⟨f, e, hf, helem, hpos, ?_⟩
    by_cases hown : FindsOwn text f.id.nth e
    · exact .inl hown
    refine .inr ⟨hown, ?_⟩
    unfold processSeqnum at hproc
    cases hfind : findText (ascii "34=") text with
    | none =>
      rw [hfind] at hproc
      exact absurd hproc (by simp [throw, throwThe, MonadExceptOf.throw])
    | some fpos =>
      rw [hfind] at hproc
      dsimp only at hproc
      cases hto : fastAtoiTo fieldSeparator (text.drop (fpos + 3)) with
      | none =>
        rw [hto] at hproc
        exact absurd hproc (by simp [throw, throwThe, MonadExceptOf.throw])
      | some v =>
        rw [hto] at hproc
        obtain rfl := Except.ok.inj hproc
        exact ⟨fpos, v, hfind, hto, (toNat_emod_eq hpos).1 hn⟩
  · rintro ⟨f, e, hf, helem, hpos, hfinds⟩
    obtain ⟨fpos, v, hfind, hto, hmod⟩ : Coincides text e := by
      obtain hown | ⟨-, hco⟩ := hfinds
      · exact hown.coincides helem
      · exact hco
    obtain ⟨e', helem', -, hmade⟩ := msgSeqNum_madeFrom hschema h hf
    rw [rest_whole, helem] at helem'
    obtain rfl := Option.some.inj helem'
    refine ⟨(v % 4294967296).toNat, f, ?_, hf, ?_⟩
    · unfold processSeqnum
      rw [hfind]
      dsimp only
      rw [hto]
      rfl
    · rw [hmade, (toNat_emod_eq hpos).2 hmod, fastAtoiInt, fastAtoi_cstr]

end

/-! ## A heartbeat -/

instance : FpType Unit := ⟨fun _ => (), fun _ _ => []⟩

/-- An element of a text. -/
def demoElement (tag val : String) : F8String :=
  ascii tag ++ assignmentSeparator :: (ascii val ++ [fieldSeparator])

/-- A schema with the header fields of a heartbeat. -/
def demoCntx : F8MetaCntx where
  beginStr := ascii "FIX.4.2"
  be := OrdMap.empty.insert 8 ⟨ascii "BeginString", .string⟩
    |>.insert 9 ⟨ascii "BodyLength", .int⟩
    |>.insert 10 ⟨ascii "CheckSum", .string⟩
    |>.insert 34 ⟨ascii "MsgSeqNum", .int⟩
    |>.insert 35 ⟨ascii "MsgType", .string⟩
    |>.insert 49 ⟨ascii "SenderCompID", .string⟩
  bme := [(ascii "0", ⟨[], []⟩)]
  header := ⟨[
    { fnum := 8, pos := 1, mandatory := true, suppress := true, automatic := true },
    { fnum := 9, ftype := .length, pos := 2, mandatory := true, suppress := true,
      automatic := true },
    { fnum := 34, pos := 9, mandatory := true },
    { fnum := 35, pos := 3, mandatory := true, automatic := true },
    { fnum := 49, pos := 4, mandatory := true }], []⟩
  trailer := ⟨[{ fnum := 10, pos := 3, mandatory := true, suppress := true, automatic := true }],
    []⟩

theorem demoCntx_schema : SeqNumSchema demoCntx := by
  constructor
  · intro be hbe
    have hfind : demoCntx.findBe commonMsgSeqNum = some ⟨ascii "MsgSeqNum", .int⟩ := by
      decide +kernel
    rw [hfind] at hbe
    obtain rfl := Option.some.inj hbe
    rfl
  · intro itr hitr
    have hfind : demoCntx.header.traits.find commonMsgSeqNum =
        some { fnum := 34, pos := 9, mandatory := true } := by decide +kernel
    rw [hfind] at hitr
    obtain rfl := Option.some.inj hitr
    decide

/-- A heartbeat numbered 5 from a sender. -/
def demoHeartbeatText (sender : String) : F8String :=
  demoElement "8" "FIX.4.2" ++ demoElement "9" "20" ++ demoElement "35" "0" ++
    demoElement "49" sender ++ demoElement "34" "5" ++ demoElement "10" "000"

/-- What the decoder makes of a heartbeat. -/
def demoFactory (sender : String) : Except Stop (Message Unit) :=
  factory demoCntx 0 1 30 (demoHeartbeatText sender) true false

theorem toOption_eq_some {ε α : Type} {x : Except ε α} {a : α} (h : x.toOption = some a) :
    x = .ok a := by
  cases x with
  | error e => exact absurd h (by simp [Except.toOption])
  | ok b => exact congrArg Except.ok (Option.some.inj h)

theorem seqnum_agrees_demo : ∃ msg, demoFactory "A" = .ok msg ∧
    SeqnumAgrees (demoHeartbeatText "A") msg := by
  have hfield : (demoFactory "A").toOption.bind (·.header.getField commonMsgSeqNum) =
      some ⟨⟨1, 25⟩, 34, .int 5⟩ := by decide +kernel
  obtain ⟨msg, hmsg, hf⟩ := Option.bind_eq_some_iff.1 hfield
  refine ⟨msg, toOption_eq_some hmsg, (seqnum_agrees_iff demoCntx_schema
    (toOption_eq_some hmsg)).2 ⟨_, ⟨ascii "34", ascii "5", 5⟩, hf, ?_, ?_, .inl ⟨⟨25, ?_, ?_⟩, ?_⟩⟩⟩
  all_goals decide +kernel

/-- A sender whose comp id has `34=` in it. -/
theorem seqnum_of_sender : ¬ ∀ (cx : F8MetaCntx) (now : Ticks) (call fuel : Nat) (text : F8String)
    (noChksum permissive : Bool) (msg : Message Unit), SeqNumSchema cx →
    factory cx now call fuel text noChksum permissive = .ok msg → SeqnumAgrees text msg := by
  intro h
  have hfield : (demoFactory "A34=7").toOption.bind (·.header.getField commonMsgSeqNum) =
      some ⟨⟨1, 29⟩, 34, .int 5⟩ := by decide +kernel
  obtain ⟨msg, hmsg, hf⟩ := Option.bind_eq_some_iff.1 hfield
  obtain ⟨n, f, hproc, hf', hval⟩ := h _ _ _ _ _ _ _ msg demoCntx_schema (toOption_eq_some hmsg)
  have hseven : processSeqnum (demoHeartbeatText "A34=7") = .ok 7 := by rfl
  rw [hseven] at hproc
  obtain rfl := Except.ok.inj hproc
  rw [hf] at hf'
  obtain rfl := Option.some.inj hf'
  exact absurd hval (by decide)

end Fix8.Codec
