import Fix8.Codec.Proof.Delivery

/-!
# The text of a message, and what `factory` makes of it

* **`encode_wire`**: the text that an encode writes, part by part;
* `extractHeader_wire`: `extract_header` comes to the end of the MsgType;
* **`factory_parts`**: `factory` returns when each of the three decodes does.
-/

namespace Fix8.Codec

open Lib Filter

section
variable {D : Type} [FpType D]

/-- The header as `encode` writes it. -/
def Message.outHeader (msg : Message D) : MessageBase D :=
  msg.header.setPreamble commonMsgType (.string msg.msgType)

/-- The text in front of the fields of the header, for a payload of `n` bytes. -/
def leadText (cx : F8MetaCntx) (mtype : F8String) (n : Nat) : F8String :=
  cx.frameHead n ++ (ascii "35=" ++ mtype ++ [fieldSeparator])

/-- The message in its frame; the parts are given by what they write. -/
def wireText (cx : F8MetaCntx) (mtype head body tail : F8String) : F8String :=
  let n := (ascii "35=" ++ mtype ++ [fieldSeparator] ++ head ++ body ++ tail).length
  let text := leadText cx mtype n ++ (head ++ (body ++ tail))
  text ++ frameTail text

variable {cx : F8MetaCntx} {msg : Message D} {mc : MessageClass} {kept : List Nat}
  {m : MessageBase D} {fs : List (BaseField D)} {mtype : F8String}

/-! ## Encoding -/

theorem Written.encodes {R : FieldTraits → BaseField D → Prop} {c : GroupClass}
    (h : Written cx R c m) : ∃ t, m.encode = .ok t := by
  induction h with
  | mk c m _ hfields _ _ _ _ _ ih =>
    refine ⟨_, encode_ok fun f hf hcounts => ?_⟩
    obtain ⟨g, hg, -⟩ := (hfields f hf).group hcounts
    exact ⟨g, hg, fun e he => ih f hf hcounts g hg e he⟩

/-- A part encodes; the fields in front count no group. -/
theorem PartWritten.encode (lead : List (BaseField D)) (h : PartWritten cx mc kept m fs)
    (hshown : m.own.shown = lead ++ fs) (hlead : ∀ f ∈ lead, m.counts f = false) :
    m.encode = .ok m.text := by
  refine encode_ok fun f hf hcounts => ?_
  rw [hshown] at hf
  rcases List.mem_append.1 hf with hf | hf
  · exact absurd hcounts (by simp [hlead f hf])
  · obtain ⟨g, hg, -⟩ := (h.legible f hf).group hcounts
    exact ⟨g, hg, fun e he => (h.msgs f hf hcounts g hg e he).encodes⟩

omit [FpType D] in
/-- A header writes its MsgType, and behind it fields that are not under the tags of the
preamble. -/
theorem outHeader_shown (hok : HeaderOk cx msg.header.own) : msg.outHeader.own.shown =
    preambleField commonMsgType (.string msg.msgType) :: msg.outHeader.own.shown.tail := by
  obtain ⟨v₈, v₉, rest, hpos⟩ := hok.pos_assign (.string msg.msgType)
  have hout : HeaderOk cx msg.outHeader.own := hok.assign (by decide)
  have hpos : msg.outHeader.own.pos = (1, preambleField commonBeginString v₈) ::
    (2, preambleField commonBodyLength v₉) ::
      (3, preambleField commonMsgType (.string msg.msgType)) :: rest := hpos
  have h₈ : msg.outHeader.own.fp.suppress commonBeginString = true :=
    hout.part.traits.suppressed _ (by decide)
  have h₉ : msg.outHeader.own.fp.suppress commonBodyLength = true :=
    hout.part.traits.suppressed _ (by decide)
  have h₃₅ : msg.outHeader.own.fp.suppress commonMsgType = false :=
    hout.part.traits.suppressed _ (by decide)
  have hshown : msg.outHeader.own.shown = preambleField commonMsgType (.string msg.msgType) ::
      ((rest.map (·.2)).filter fun f => !msg.outHeader.own.fp.suppress f.fnum) := by
    unfold FieldStore.shown
    rw [hpos]
    simp [preambleField, h₈, h₉, h₃₅]
  rw [hshown]
  rfl

omit [FpType D] in
/-- The MsgType counts no group. -/
theorem counts_msgType : m.counts (preambleField commonMsgType (.string mtype)) = false :=
  Bool.and_false _

/-- **The text of an encoded message.** -/
theorem encode_wire {bme : MessageClass} (hok : ComposedOk cx msg)
    (hunknown : msg.outHeader.own.unknown = [] ∧ msg.body.own.unknown = [] ∧
      msg.trailer.own.unknown = [])
    (hheader : PartWritten cx cx.header headerTags msg.outHeader msg.outHeader.own.shown.tail)
    (hbody : PartWritten cx bme [] msg.body msg.body.own.shown)
    (htrailer : PartWritten cx cx.trailer [commonCheckSum] msg.trailer msg.trailer.own.shown) :
    ∃ out, msg.encode = .ok (wireText cx msg.msgType
      (msg.outHeader.own.shown.tail.flatMap msg.outHeader.fieldText)
      (msg.body.own.shown.flatMap msg.body.fieldText)
      (msg.trailer.own.shown.flatMap msg.trailer.fieldText), out) := by
  have hshown := outHeader_shown hok.header.own
  have hhead := hheader.encode [preambleField commonMsgType (.string msg.msgType)] hshown
    fun f hf => by rw [List.mem_singleton.1 hf]; exact counts_msgType
  have hbody := hbody.encode [] rfl fun f hf => absurd hf List.not_mem_nil
  have htail := htrailer.encode [] rfl fun f hf => absurd hf List.not_mem_nil
  have hheadText : msg.outHeader.text = ascii "35=" ++ msg.msgType ++ [fieldSeparator] ++
      msg.outHeader.own.shown.tail.flatMap msg.outHeader.fieldText := by
    rw [text_eq, hunknown.1, List.append_nil]
    conv_lhs => rw [hshown]
    rw [List.flatMap_cons, MessageBase.fieldText, counts_msgType, encode_msgType]
    simp
  have hbodyText : msg.body.text = msg.body.own.shown.flatMap msg.body.fieldText := by
    rw [text_eq, hunknown.2.1, List.append_nil]
  have htailText : msg.trailer.text = msg.trailer.own.shown.flatMap msg.trailer.fieldText := by
    rw [text_eq, hunknown.2.2, List.append_nil]
  have hframe := encode_frame hok hhead hbody htail
  rw [hheadText, hbodyText, htailText] at hframe
  refine ⟨_, hframe.trans (congrArg Except.ok (Prod.ext ?_ rfl))⟩
  simp only [wireText, leadText, List.append_assoc]

/-! ## Decoding -/

/-- `extract_header` comes to the end of the MsgType. -/
theorem extractHeader_wire {n : Nat} {rest : F8String} (hbegin : fieldSeparator ∉ cx.beginStr)
    (hmtype : fieldSeparator ∉ mtype) : extractHeader (leadText cx mtype n ++ rest) =
      ((leadText cx mtype n).length, itoa n, mtype) := by
  have hlead : leadText cx mtype n ++ rest = ascii "8" ++ assignmentSeparator ::
      (cx.beginStr ++ fieldSeparator :: (ascii "9" ++ assignmentSeparator ::
        (itoa n ++ fieldSeparator :: (ascii "35" ++ assignmentSeparator ::
          (mtype ++ fieldSeparator :: rest))))) := by
    simp [leadText, F8MetaCntx.frameHead, ascii, assignmentSeparator]
  have hlen : (leadText cx mtype n).length =
      cx.beginStr.length + (itoa n).length + mtype.length + 10 := by
    have h := congrArg List.length hlead
    simp only [List.length_append, List.length_cons, ascii, List.length_map] at h
    have h8 : "8".toList.length = 1 := rfl
    have h9 : "9".toList.length = 1 := rfl
    have h35 : "35".toList.length = 2 := rfl
    omega
  have hdrop : ∀ {tag val behind : F8String}, (tag ++ assignmentSeparator :: (val ++
      fieldSeparator :: behind)).drop (tag.length + val.length + 2) = behind := by
    intro tag val behind
    have hsplit : tag ++ assignmentSeparator :: (val ++ fieldSeparator :: behind) =
        (tag ++ assignmentSeparator :: (val ++ [fieldSeparator])) ++ behind := by
      simp
    rw [hsplit]
    exact List.drop_left' (by simp; omega)
  have hdigits : ∀ {s : F8String}, s = ascii "8" ∨ s = ascii "9" ∨ s = ascii "35" →
      ∀ c ∈ s, isdigit c = true := by
    rintro s (rfl | rfl | rfl) <;> decide +kernel
  rw [hlead, hlen]
  unfold extractHeader
  rw [extractElement_append (hdigits (.inl rfl)) hbegin]
  dsimp only
  rw [if_neg (by decide), hdrop, extractElement_append (hdigits (.inr (.inl rfl))) itoa_separator]
  dsimp only
  rw [if_neg (by decide), ← List.drop_drop, hdrop, hdrop,
    extractElement_append (hdigits (.inr (.inr rfl))) hmtype]
  dsimp only
  rw [if_neg (by decide)]
  congr 1
  have h8 : (ascii "8").length = 1 := rfl
  have h9 : (ascii "9").length = 1 := rfl
  have h35 : (ascii "35").length = 2 := rfl
  omega

omit [FpType D] in
theorem fastAtoiU32_fmtChksum {val : Nat} (h : val < 256) : fastAtoiU32 (fmtChksum val) = val := by
  have hall : ∀ v : Fin 256, fastAtoiU32 (fmtChksum v) = v := by decide +kernel
  exact hall ⟨val, h⟩

/-- **`factory` returns when each of the three decodes does**, on a text in its frame. -/
theorem factory_parts (noChksum : Bool) {now : Ticks} {call fuel hlen₀ o₁ o₂ o₃ : Nat}
    {text len : F8String} {permissive : Bool} {bme : MessageClass} {header body trailer : MessageBase D}
    (hext : extractHeader (text ++ frameTail text) = (hlen₀, len, mtype)) (h0 : hlen₀ ≠ 0)
    (hnul : 0 ∉ mtype) (hmsg : mtype ≠ ascii "header" ∧ mtype ≠ ascii "trailer")
    (hbme : cx.findBme mtype = some bme)
    (hheader : decode ⟨cx, now, call, text ++ frameTail text, 0⟩ permissive fuel hlen₀ cx.mkHdr =
      .ok o₁ header)
    (hbody : decode ⟨cx, now, call, text ++ frameTail text, 0⟩ permissive fuel o₁
      (bme.create false) = .ok o₂ body)
    (htrailer : decode ⟨cx, now, call, text ++ frameTail text, 7⟩ permissive fuel o₂ cx.mkTrl =
      .ok o₃ trailer) :
    ∃ msg', factory cx now call fuel (text ++ frameTail text) noChksum permissive = .ok msg' ∧
      (∃ n t, msg'.header = (header.setPreamble commonBodyLength n).setPreamble commonMsgType t) ∧
      msg'.body = body ∧
      (msg'.trailer = trailer ∨ ∃ c, msg'.trailer = trailer.setPreamble commonCheckSum c) := by
  have hlen : (text ++ frameTail text).length - 7 = text.length := by
    rw [List.length_append, frameTail_length]
    omega
  have htail : frameTail text = ascii "10=" ++ (fmtChksum (calcChksum text) ++ [fieldSeparator]) := by
    simp [frameTail]
  have hlt : calcChksum text < 256 := calcChksumFrom_lt text 0 0
  have hsum : (fmtChksum (calcChksum text)).length = 3 := fmtChksum_length hlt
  have hatoi : fastAtoiU32 (fmtChksum (calcChksum text)) = calcChksum text :=
    fastAtoiU32_fmtChksum hlt
  have htag : (frameTail text).take 2 = ascii "10" := by
    rw [htail]
    rfl
  have hval : ((frameTail text).drop 3).take 3 = fmtChksum (calcChksum text) := by
    have hdrop : (frameTail text).drop 3 = fmtChksum (calcChksum text) ++ [fieldSeparator] := by
      rw [htail]
      rfl
    rw [hdrop, List.take_left' hsum]
  have hdecode : (cx.newMessage mtype bme false).decode cx now call fuel (text ++ frameTail text)
      hlen₀ 7 permissive = .ok ⟨mtype, header, body, trailer⟩ := by
    unfold Message.decode
    dsimp only [F8MetaCntx.newMessage]
    rw [hheader, partOf_bind, hbody, partOf_bind, htrailer, partOf_bind]
    rfl
  unfold factory
  rw [hext]
  dsimp only
  rw [if_neg h0, cstr_of_not_mem hnul, if_neg (not_or.2 hmsg), hbme]
  dsimp only
  rw [hdecode, ok_bind, hlen, List.drop_left, List.take_left, htag, hval,
    hatoi, if_neg (not_not.2 rfl), if_neg (not_not.2 rfl)]
  cases noChksum with
  | true => exact ⟨_, rfl, ⟨_, _, rfl⟩, rfl, .inl rfl⟩
  | false => exact ⟨_, rfl, ⟨_, _, rfl⟩, rfl, .inr ⟨_, rfl⟩⟩

end

end Fix8.Codec
