import Fix8.Codec.Proof.Checksum
import Fix8.Codec.Proof.Pieces
import Fix8.Codec.Proof.Seqnum

/-!
# The frame of an encoded message

`Message::encode(char **)` writes the payload behind a gap, and BeginString and BodyLength
backwards from it. The buffer is the list of the segments that are written.

* `itoa_length`: the ladder of `encode` counts the digits of the BodyLength;
* **`encodeTo_eq`**: the buffer that an encode leaves, segment by segment;
* **`frame_law_iff`**: when the frame law holds of a composed message.
-/

namespace Fix8.Codec

open Lib

section
variable {D : Type} [FpType D]

/-- What `encode` writes behind the gap. -/
def Message.payload (msg : Message D) : Except Stop F8String := do
  let head ← (msg.header.setPreamble commonMsgType (.string msg.msgType)).encode
  let body ← msg.body.encode
  let tail ← msg.trailer.encode
  pure (head ++ body ++ tail)

/-- The fields of the payload, with the unknown text of each part. -/
def Message.content (msg : Message D) : List (Piece D) :=
  (msg.header.setPreamble commonMsgType (.string msg.msgType)).pieces ++ msg.body.pieces ++
    msg.trailer.pieces

/-- BeginString and BodyLength before a payload of `n` bytes. -/
def F8MetaCntx.frameHead (cx : F8MetaCntx) (n : Nat) : F8String :=
  ascii "8=" ++ cx.beginStr ++ [fieldSeparator] ++ (ascii "9=" ++ itoa n ++ [fieldSeparator])

/-- CheckSum behind `text`. -/
def frameTail (text : F8String) : F8String :=
  ascii "10=" ++ fmtChksum (calcChksum text) ++ [fieldSeparator]

/-- `out` is the frame of `msg` around the payload `text`. -/
structure Framed (cx : F8MetaCntx) (msg : Message D) (text : F8String) (out : Output D) : Prop where
  /-- The bytes that are returned. -/
  bytes : read out.buffer out.start out.rlen =
    some (cx.frameHead text.length ++ text ++ frameTail (cx.frameHead text.length ++ text))
  payload : text = msg.content.flatMap Piece.text
  msgType : ascii "35=" ++ msg.msgType ++ [fieldSeparator] <+: text
  digits : (fmtChksum (calcChksum (cx.frameHead text.length ++ text))).length = 3
  once : ∀ k ∈ frameTags, (commonBeginString :: commonBodyLength ::
    (msg.content.flatMap Piece.tags ++ [commonCheckSum])).count k = 1
  /-- The preamble ends where the payload begins. -/
  adjacent : out.start + (cx.frameHead text.length).length = headerCalcOffset
  unspoiled : read out.buffer headerCalcOffset text.length = some text
  inside : 0 ≤ out.start ∧ out.start + out.rlen < out.buffer.length

/-- The encode into `buffer` returns, and the frame law holds. -/
def FrameLaw (cx : F8MetaCntx) (buffer : F8String) (msg : Message D) (text : F8String) : Prop :=
  ∃ out, msg.encodeTo cx buffer = .ok out ∧ Framed cx msg text out

end

/-! ## Lengths -/

/-- The ladder counts the digits. -/
theorem itoa_length {n : Nat} (h : n < 10000000) : (itoa n).length = bodyLengthDigits n := by
  have hdigits : ∀ k, 0 < k → ((Nat.toDigits 10 n).length ≤ k ↔ n < 10 ^ k) :=
    fun k hk => Nat.length_toDigits_le_iff (by decide) hk
  have hpos : 0 < (Nat.toDigits 10 n).length := Nat.length_toDigits_pos
  have h₁ := hdigits 1 (by decide)
  have h₂ := hdigits 2 (by decide)
  have h₃ := hdigits 3 (by decide)
  have h₄ := hdigits 4 (by decide)
  have h₅ := hdigits 5 (by decide)
  have h₆ := hdigits 6 (by decide)
  have h₇ := hdigits 7 (by decide)
  rw [itoa, List.length_map]
  unfold bodyLengthDigits
  split_ifs <;> omega

theorem fmtChksum_length {val : Nat} (h : val < 256) : (fmtChksum val).length = 3 := by
  have hall : ∀ v : Fin 256, (fmtChksum v).length = 3 := by decide +kernel
  exact hall ⟨val, h⟩

/-! ## The objects of `add_preamble` -/

section
variable {D : Type} {m : MessageBase D} {k : Nat} {value v : Value D}

theorem preamble_of_get? (h : m.own.fields.get? k = some (preambleField k v)) :
    m.preamble k = .ok (preambleField k v) := by
  unfold MessageBase.preamble MessageBase.getField
  rw [h]
  exact if_pos rfl

theorem preamble_setPreamble (h : m.own.fields.get? k = some (preambleField k v)) :
    (m.setPreamble k value).preamble k = .ok (preambleField k value) := by
  apply preamble_of_get?
  unfold MessageBase.setPreamble FieldStore.assign
  rw [h]
  dsimp only [MessageBase.own_withOwn]
  rw [if_pos (show (preambleField k v).id = preambleId k from rfl), OrdMap.get?_replace, if_pos rfl,
    h]
  rfl

theorem preamble_unsuppress {j : Nat} : (m.unsuppress j).preamble k = m.preamble k := rfl

end

/-! ## The segments -/

section
variable {D : Type} [FpType D] {cx : F8MetaCntx} {msg : Message D}

theorem encode_beginString :
    (preambleField (D := D) commonBeginString (.string cx.beginStr)).encode =
      ascii "8=" ++ cx.beginStr ++ [fieldSeparator] := by
  have htag : itoa commonBeginString = ascii "8" := by decide +kernel
  simp [BaseField.encode, preambleField, htag, Value.print, ascii, assignmentSeparator]

theorem encode_bodyLength {n : Nat} :
    (preambleField (D := D) commonBodyLength (.int n)).encode =
      ascii "9=" ++ itoa n ++ [fieldSeparator] := by
  have htag : itoa commonBodyLength = ascii "9" := by decide +kernel
  simp [BaseField.encode, preambleField, htag, Value.print, ascii, assignmentSeparator, itoaInt]

theorem encode_checkSum {text : F8String} :
    (preambleField (D := D) commonCheckSum (.string (fmtChksum (calcChksum text)))).encode =
      frameTail text := by
  have htag : itoa commonCheckSum = ascii "10" := by decide +kernel
  simp [BaseField.encode, preambleField, htag, Value.print, ascii, assignmentSeparator, frameTail]

theorem encode_msgType {mtype : F8String} :
    (preambleField (D := D) commonMsgType (.string mtype)).encode =
      ascii "35=" ++ mtype ++ [fieldSeparator] := by
  have htag : itoa commonMsgType = ascii "35" := by decide +kernel
  simp [BaseField.encode, preambleField, htag, Value.print, ascii, assignmentSeparator]

theorem frameHead_length {n : Nat} (h : n < 10000000) :
    (cx.frameHead n).length = cx.preambleSz + bodyLengthDigits n := by
  rw [← itoa_length h]
  simp only [F8MetaCntx.frameHead, F8MetaCntx.preambleSz, List.length_append, List.length_singleton,
    ascii, List.length_map]
  have h8 : "8=".toList.length = 2 := rfl
  have h9 : "9=".toList.length = 2 := rfl
  omega

/-- With 19 characters and seven digits the gap is full. -/
theorem frameHead_le {n : Nat} (hbegin : cx.beginStr.length ≤ 19) :
    cx.preambleSz + bodyLengthDigits n ≤ headerCalcOffset := by
  have hdigits : bodyLengthDigits n ≤ 7 := by
    unfold bodyLengthDigits
    split_ifs <;> omega
  unfold F8MetaCntx.preambleSz headerCalcOffset
  omega

theorem frameTail_length {text : F8String} : (frameTail text).length = 7 := by
  have hlt : calcChksum text < 256 := calcChksumFrom_lt text 0 0
  have h10 : "10=".toList.length = 3 := rfl
  simp only [frameTail, List.length_append, fmtChksum_length hlt, ascii, List.length_map,
    List.length_singleton]
  omega

/-! ## The buffer -/

theorem inside_bind {α β : Type} {a : α} {f : α → Except Stop β} : (inside (some a) >>= f) = f a :=
  rfl

theorem ok_bind {ε α β : Type} {a : α} {f : α → Except ε β} : (Except.ok a >>= f) = f a := rfl

/-- The message that an encode leaves. -/
def Message.encoded (msg : Message D) (n : Nat) (text : F8String) : Message D :=
  let header := msg.header.setPreamble commonMsgType (.string msg.msgType)
  let header := header.unsuppress commonBeginString
  let header := (header.unsuppress commonBodyLength).setPreamble commonBodyLength (.int n)
  let trailer := msg.trailer.setPreamble commonCheckSum (.string (fmtChksum (calcChksum text)))
  { msg with header := header, trailer := trailer.unsuppress commonCheckSum }

/-! ## The preamble -/

omit [FpType D] in
/-- The objects of the preamble, where an encode looks for them. -/
theorem ComposedOk.beginString (hok : ComposedOk cx msg) :
    (msg.header.setPreamble commonMsgType (.string msg.msgType)).preamble commonBeginString =
      .ok (preambleField commonBeginString (.string cx.beginStr)) := by
  have hheader : HeaderOk cx (msg.header.setPreamble commonMsgType (.string msg.msgType)).own :=
    hok.header.own.assign (by decide)
  exact preamble_of_get? hheader.beginStr

omit [FpType D] in
theorem ComposedOk.bodyLength (hok : ComposedOk cx msg) (n : Int) :
    ((((msg.header.setPreamble commonMsgType (.string msg.msgType)).unsuppress
      commonBeginString).unsuppress commonBodyLength).setPreamble commonBodyLength
        (.int n)).preamble commonBodyLength = .ok (preambleField commonBodyLength (.int n)) := by
  have hheader : HeaderOk cx (msg.header.setPreamble commonMsgType (.string msg.msgType)).own :=
    hok.header.own.assign (by decide)
  obtain ⟨v₉, hv₉⟩ := hheader.part.preamble commonBodyLength (by decide)
  exact preamble_setPreamble hv₉

omit [FpType D] in
theorem ComposedOk.checkSum (hok : ComposedOk cx msg) (w : Value D) :
    ((msg.trailer.setPreamble commonCheckSum w).unsuppress commonCheckSum).preamble
      commonCheckSum = .ok (preambleField commonCheckSum w) := by
  obtain ⟨v₁₀, hv₁₀⟩ := hok.trailer.own.preamble commonCheckSum (by decide)
  exact preamble_setPreamble hv₁₀

/-- **The text of an encode**: the frame around what the parts write. -/
theorem encode_frame {head body tail : F8String} (hok : ComposedOk cx msg)
    (hhead : (msg.header.setPreamble commonMsgType (.string msg.msgType)).encode = .ok head)
    (hbody : msg.body.encode = .ok body) (htail : msg.trailer.encode = .ok tail) :
    msg.encode = .ok (cx.frameHead (head ++ body ++ tail).length ++ (head ++ body ++ tail) ++
        frameTail (cx.frameHead (head ++ body ++ tail).length ++ (head ++ body ++ tail)),
      msg.encoded (head ++ body ++ tail).length
        (cx.frameHead (head ++ body ++ tail).length ++ (head ++ body ++ tail))) := by
  unfold Message.encode
  dsimp only
  rw [hhead, ok_bind, hbody, ok_bind, htail, ok_bind, preamble_unsuppress, hok.beginString, ok_bind,
    hok.bodyLength, ok_bind, hok.checkSum, ok_bind, encode_beginString, encode_bodyLength,
    encode_checkSum]
  rfl

/-- The writes of an encode, in the order of the source: the payload at `offs`, the preamble
`s₈ ++ s₉` from `start` on, the text `c` and a NUL behind the payload. -/
theorem writes_frame (buffer head body tail s₈ s₉ c : F8String) (start offs : Nat)
    (hstart : start + s₈.length + s₉.length = offs)
    (hfits : offs + (head.length + body.length + tail.length) + c.length + 1 ≤ buffer.length) :
    ∃ b₁ b₂ b₃ b₄ b₅ b₆ gap rest, gap.length = start ∧
      write buffer offs head = some b₁ ∧ write b₁ (offs + head.length) body = some b₂ ∧
      write b₂ (offs + head.length + body.length) tail = some b₃ ∧
      write b₃ start s₈ = some b₄ ∧ write b₄ (start + s₈.length) s₉ = some b₅ ∧
      read b₅ start (head.length + body.length + tail.length + (s₈.length + s₉.length)) =
        some (s₈ ++ s₉ ++ (head ++ body ++ tail)) ∧
      write b₅ (offs + (head.length + body.length + tail.length : Nat)) c = some b₆ ∧
      write b₆ (offs + (head.length + body.length + tail.length : Nat) + c.length) [0] =
        some [gap, s₈ ++ s₉, head ++ body ++ tail, c, [0], rest].flatten := by
  obtain ⟨gap, b, rfl, hgap⟩ := exists_segment (l := buffer) (n := start) (by omega)
  rw [List.length_append, hgap] at hfits
  obtain ⟨x₈, b, rfl, hx₈⟩ := exists_segment (l := b) (n := s₈.length) (by omega)
  rw [List.length_append, hx₈] at hfits
  obtain ⟨x₉, b, rfl, hx₉⟩ := exists_segment (l := b) (n := s₉.length) (by omega)
  rw [List.length_append, hx₉] at hfits
  obtain ⟨xh, b, rfl, hxh⟩ := exists_segment (l := b) (n := head.length) (by omega)
  rw [List.length_append, hxh] at hfits
  obtain ⟨xb, b, rfl, hxb⟩ := exists_segment (l := b) (n := body.length) (by omega)
  rw [List.length_append, hxb] at hfits
  obtain ⟨xt, b, rfl, hxt⟩ := exists_segment (l := b) (n := tail.length) (by omega)
  rw [List.length_append, hxt] at hfits
  obtain ⟨xc, b, rfl, hxc⟩ := exists_segment (l := b) (n := c.length) (by omega)
  rw [List.length_append, hxc] at hfits
  obtain ⟨x₀, rest, rfl, hx₀⟩ := exists_segment (l := b) (n := 1) (by omega)
  have hbuffer : gap ++ (x₈ ++ (x₉ ++ (xh ++ (xb ++ (xt ++ (xc ++ (x₀ ++ rest))))))) =
      [gap, x₈, x₉, xh, xb, xt, xc, x₀, rest].flatten := by
    simp
  have hnul : ([0] : F8String).length = x₀.length := hx₀.symm
  have hlast : [gap, s₈ ++ s₉, head ++ body ++ tail, c, [0], rest].flatten =
      [gap, s₈, s₉, head, body, tail, c, [0], rest].flatten := by
    simp
  have hread : s₈ ++ s₉ ++ (head ++ body ++ tail) = [s₈, s₉, head, body, tail].flatten := by
    simp
  rw [hbuffer]
  refine ⟨[gap, x₈, x₉, head, xb, xt, xc, x₀, rest].flatten,
    [gap, x₈, x₉, head, body, xt, xc, x₀, rest].flatten,
    [gap, x₈, x₉, head, body, tail, xc, x₀, rest].flatten,
    [gap, s₈, x₉, head, body, tail, xc, x₀, rest].flatten,
    [gap, s₈, s₉, head, body, tail, xc, x₀, rest].flatten,
    [gap, s₈, s₉, head, body, tail, c, x₀, rest].flatten, gap, rest, hgap, ?_, ?_, ?_, ?_, ?_, ?_,
    ?_, ?_⟩
  · apply write_segment [gap, x₈, x₉] [xb, xt, xc, x₀, rest] _ hxh.symm
    simp only [List.flatten_cons, List.flatten_nil, List.length_append, List.length_nil]
    omega
  · apply write_segment [gap, x₈, x₉, head] [xt, xc, x₀, rest] _ hxb.symm
    simp only [List.flatten_cons, List.flatten_nil, List.length_append, List.length_nil]
    omega
  · apply write_segment [gap, x₈, x₉, head, body] [xc, x₀, rest] _ hxt.symm
    simp only [List.flatten_cons, List.flatten_nil, List.length_append, List.length_nil]
    omega
  · apply write_segment [gap] [x₉, head, body, tail, xc, x₀, rest] _ hx₈.symm
    simp only [List.flatten_cons, List.flatten_nil, List.length_append, List.length_nil]
    omega
  · apply write_segment [gap, s₈] [head, body, tail, xc, x₀, rest] _ hx₉.symm
    simp only [List.flatten_cons, List.flatten_nil, List.length_append, List.length_nil]
    omega
  · rw [hread]
    apply read_segments [gap] [s₈, s₉, head, body, tail] [xc, x₀, rest]
    all_goals
      simp only [List.flatten_cons, List.flatten_nil, List.length_append, List.length_nil]
      omega
  · apply write_segment [gap, s₈, s₉, head, body, tail] [x₀, rest] _ hxc.symm
    simp only [List.flatten_cons, List.flatten_nil, List.length_append, List.length_nil]
    omega
  · rw [hlast]
    apply write_segment [gap, s₈, s₉, head, body, tail, c] [rest] _ hnul
    simp only [List.flatten_cons, List.flatten_nil, List.length_append, List.length_nil]
    omega

/-- **The buffer that an encode leaves**: a gap, the preamble, the payload, CheckSum and a NUL. -/
theorem encodeTo_eq {buffer head body tail : F8String} (hbegin : cx.beginStr.length ≤ 19)
    (hok : ComposedOk cx msg)
    (hhead : (msg.header.setPreamble commonMsgType (.string msg.msgType)).encode = .ok head)
    (hbody : msg.body.encode = .ok body) (htail : msg.trailer.encode = .ok tail)
    (hlen : (head ++ body ++ tail).length < 10000000)
    (hfits : headerCalcOffset + (head ++ body ++ tail).length + 8 ≤ buffer.length) :
    ∃ gap rest out, msg.encodeTo cx buffer = .ok out ∧
      out.start + (cx.frameHead (head ++ body ++ tail).length).length = headerCalcOffset ∧
      (gap.length : Int) = out.start ∧
      out.rlen = (cx.frameHead (head ++ body ++ tail).length).length +
        (head ++ body ++ tail).length + 7 ∧
      out.buffer = [gap, cx.frameHead (head ++ body ++ tail).length, head ++ body ++ tail,
        frameTail (cx.frameHead (head ++ body ++ tail).length ++ (head ++ body ++ tail)), [0],
        rest].flatten ∧
      msg.encode = .ok (cx.frameHead (head ++ body ++ tail).length ++ (head ++ body ++ tail) ++
        frameTail (cx.frameHead (head ++ body ++ tail).length ++ (head ++ body ++ tail)),
        out.msg) := by
  have hn : (head ++ body ++ tail).length = head.length + body.length + tail.length := by
    rw [List.length_append, List.length_append]
  have hsz : (cx.frameHead (head ++ body ++ tail).length).length = _ := frameHead_length hlen
  have hgapsz := frameHead_le (n := (head ++ body ++ tail).length) hbegin
  have h₈ := hok.beginString
  have h₉ := hok.bodyLength
  have h₁₀ := hok.checkSum
  have hpreamble : cx.frameHead (head ++ body ++ tail).length =
      (preambleField (D := D) commonBeginString (.string cx.beginStr)).encode ++
        (preambleField (D := D) commonBodyLength
          (.int ((head ++ body ++ tail).length : Nat))).encode := by
    rw [encode_beginString, encode_bodyLength]
    rfl
  rw [hn] at hfits hsz hgapsz hpreamble ⊢
  generalize hmsgLen : head.length + body.length + tail.length = n at *
  generalize hs₈ : (preambleField (D := D) commonBeginString (.string cx.beginStr)).encode = s₈ at *
  generalize hs₉ : (preambleField (D := D) commonBodyLength (.int (n : Int))).encode = s₉ at *
  have hs : s₈.length + s₉.length = cx.preambleSz + bodyLengthDigits n := by
    rw [← hsz, hpreamble, List.length_append]
  generalize htext : cx.frameHead n ++ (head ++ body ++ tail) = text at *
  have htailLen : (frameTail text).length = 7 := frameTail_length
  obtain ⟨b₁, b₂, b₃, b₄, b₅, b₆, gap, rest, hgap, hw₁, hw₂, hw₃, hw₄, hw₅, hr, hw₆, hw₇⟩ :=
    writes_frame buffer head body tail s₈ s₉ (frameTail text)
      (headerCalcOffset - (cx.preambleSz + bodyLengthDigits n)) headerCalcOffset (by omega)
      (by omega)
  rw [hmsgLen] at hr hw₆ hw₇
  rw [hs, ← hpreamble, htext] at hr
  rw [← hpreamble] at hw₇
  have hstart : ((headerCalcOffset - (cx.preambleSz + bodyLengthDigits n) : Nat) : Int) =
      headerCalcOffset - ((cx.preambleSz + bodyLengthDigits n : Nat) : Int) := by
    omega
  rw [hstart] at hw₄ hw₅ hr
  refine ⟨gap, rest, ⟨_, headerCalcOffset - ((cx.preambleSz + bodyLengthDigits n : Nat) : Int),
    cx.preambleSz + bodyLengthDigits n + n + 7, msg.encoded n text⟩, ?_, ?_, ?_, ?_, rfl, ?_⟩
  · unfold Message.encodeTo
    dsimp only
    rw [hhead, ok_bind, hw₁, inside_bind, hbody, ok_bind, hw₂, inside_bind, htail, ok_bind, hw₃,
      inside_bind, hmsgLen, preamble_unsuppress, h₈, ok_bind, hs₈, hw₄, inside_bind, h₉, ok_bind,
      hs₉, hw₅, inside_bind, hr, inside_bind, h₁₀, ok_bind, encode_checkSum, hw₆, inside_bind, hw₇,
      inside_bind, htailLen]
    have hrlen : ((headerCalcOffset : Int) + n + (7 : Nat) -
        (headerCalcOffset - ((cx.preambleSz + bodyLengthDigits n : Nat) : Int))).toNat =
          cx.preambleSz + bodyLengthDigits n + n + 7 := by
      omega
    rw [hrlen]
    rfl
  · rw [hsz]
    dsimp only
    omega
  · rw [hgap]
    dsimp only
    omega
  · rw [hsz]
  · unfold Message.encode
    dsimp only
    rw [hhead, ok_bind, hbody, ok_bind, htail, ok_bind, preamble_unsuppress, h₈, ok_bind, h₉,
      ok_bind, hn, hs₈, hs₉, ← hpreamble, htext, h₁₀, ok_bind, encode_checkSum]
    rfl

/-! ## The payload -/

omit [FpType D] in
/-- Behind BeginString and BodyLength, the positions of a header have its MsgType. -/
theorem HeaderOk.pos_assign {o : FieldStore D} (h : HeaderOk cx o) (value : Value D) :
    ∃ v₈ v₉ rest, (o.assign (preambleId commonMsgType) commonMsgType value).pos =
      (1, preambleField commonBeginString v₈) :: (2, preambleField commonBodyLength v₉) ::
        (3, preambleField commonMsgType value) :: rest := by
  obtain ⟨v, hv⟩ := h.part.preamble commonMsgType (by decide)
  obtain ⟨v₈, v₉, v₃₅, rest, hpos, -⟩ := h.led
  refine ⟨v₈, v₉, rest.map fun e => if e.2.id = preambleId commonMsgType then
    (e.1, { e.2 with value := value }) else e, ?_⟩
  unfold FieldStore.assign
  rw [hv]
  dsimp only
  rw [if_pos (show (preambleField commonMsgType v).id = preambleId commonMsgType from rfl), hpos]
  rfl

omit [FpType D] in
/-- The first piece of a header is its MsgType. -/
theorem HeaderOk.pieces_setPreamble {m : MessageBase D} {mtype : F8String}
    (h : HeaderOk cx m.own) : ∃ rest, (m.setPreamble commonMsgType (.string mtype)).pieces =
      .field (preambleField commonMsgType (.string mtype)) :: rest := by
  have hok : HeaderOk cx (m.setPreamble commonMsgType (.string mtype)).own :=
    h.assign (by decide)
  obtain ⟨v₈, v₉, rest, hpos⟩ := h.pos_assign (.string mtype)
  have hown : (m.setPreamble commonMsgType (.string mtype)).own =
      m.own.assign (preambleId commonMsgType) commonMsgType (.string mtype) := rfl
  rw [← hown] at hpos
  generalize m.setPreamble commonMsgType (.string mtype) = m' at *
  obtain ⟨own, nested, groups⟩ := m'
  rw [MessageBase.own_mk] at hok hpos
  have h₈ : own.fp.suppress commonBeginString = true := hok.part.traits.suppressed _ (by decide)
  have h₉ : own.fp.suppress commonBodyLength = true := hok.part.traits.suppressed _ (by decide)
  have h₃₅ : own.fp.suppress commonMsgType = false := hok.part.traits.suppressed _ (by decide)
  unfold MessageBase.pieces
  rw [hpos, fieldPieces_suppressed h₈, fieldPieces_suppressed h₉, fieldPieces_plain h₃₅ rfl]
  exact ⟨_, rfl⟩

/-- The payload is the text of the content, and begins with the MsgType. -/
theorem payload_eq {text : F8String} (hok : ComposedOk cx msg) (h : msg.payload = .ok text) :
    text = msg.content.flatMap Piece.text ∧
      ascii "35=" ++ msg.msgType ++ [fieldSeparator] <+: text := by
  unfold Message.payload at h
  obtain ⟨head, hhead, h⟩ := bind_eq_ok h
  obtain ⟨body, hbody, h⟩ := bind_eq_ok h
  obtain ⟨tail, htail, h⟩ := bind_eq_ok h
  obtain rfl := Except.ok.inj h
  have hheadPieces := encode_pieces _ _ hhead
  constructor
  · unfold Message.content
    rw [List.flatMap_append, List.flatMap_append, ← hheadPieces, ← encode_pieces _ _ hbody,
      ← encode_pieces _ _ htail]
  · obtain ⟨rest, hrest⟩ :
        ∃ rest, (msg.header.setPreamble commonMsgType (.string msg.msgType)).pieces =
          .field (preambleField commonMsgType (.string msg.msgType)) :: rest :=
      hok.header.own.pieces_setPreamble
    rw [hheadPieces, hrest, List.flatMap_cons, ← encode_msgType (D := D), List.append_assoc,
      List.append_assoc]
    exact List.prefix_append _ _

/-! ## The law -/

/-- No element that a part has put aside is under a tag of the frame. -/
def Message.UnknownFree (msg : Message D) : Prop :=
  ∀ k ∈ frameTags, k ∉ msg.header.own.unknownTags ∧ k ∉ msg.body.own.unknownTags ∧
    k ∉ msg.trailer.own.unknownTags

theorem count_frame {k : Nat} {tags : List Nat} (hk : k ∈ frameTags) :
    (commonBeginString :: commonBodyLength :: (tags ++ [commonCheckSum])).count k = 1 ↔
      k ∉ tags := by
  rw [← List.count_eq_zero]
  obtain rfl | rfl | rfl : k = commonBeginString ∨ k = commonBodyLength ∨ k = commonCheckSum := by
    simpa [frameTags] using hk
  all_goals
    rw [List.count_cons, List.count_cons, List.count_append, List.count_singleton]
    simp [commonBeginString, commonBodyLength, commonCheckSum]

omit [FpType D] in
theorem once_iff (hok : ComposedOk cx msg) :
    (∀ k ∈ frameTags, (commonBeginString :: commonBodyLength ::
      (msg.content.flatMap Piece.tags ++ [commonCheckSum])).count k = 1) ↔ msg.UnknownFree := by
  have hheader : Whole (PartOk headerTags)
      (msg.header.setPreamble commonMsgType (.string msg.msgType)) :=
    ⟨(hok.header.own.part).assign, hok.header.nested, hok.header.cls, hok.header.msgs⟩
  have hunknown : (msg.header.setPreamble commonMsgType (.string msg.msgType)).own.unknown =
      msg.header.own.unknown := by
    unfold MessageBase.setPreamble FieldStore.assign
    rw [MessageBase.own_withOwn]
    split
    · rfl
    · split <;> rfl
  refine forall₂_congr fun k hk => ?_
  rw [count_frame hk]
  unfold Message.content
  rw [List.flatMap_append, List.flatMap_append, List.mem_append, List.mem_append,
    mem_tags_iff hheader hk, mem_tags_iff hok.body hk, mem_tags_iff hok.trailer hk, not_or, not_or,
    and_assoc, FieldStore.unknownTags, hunknown]
  rfl

/-- **When the frame law holds** of a composed message whose encoding fits the output buffer: no
element that a permissive decode has put aside, and that is encoded again, is under tag 8, 9 or
10. -/
theorem frame_law_iff {buffer text : F8String} (hcx : FrameSchema cx)
    (hbegin : cx.beginStr.length ≤ 19) (hmsg : Composed cx msg) (hpayload : msg.payload = .ok text)
    (hbuffer : buffer.length = maxMsgLength + headerCalcOffset)
    (hfits : headerCalcOffset + text.length + 8 ≤ buffer.length) :
    FrameLaw cx buffer msg text ↔ msg.UnknownFree := by
  have hok := composed_ok hcx hmsg
  have hlen : text.length < 10000000 := by
    unfold maxMsgLength at hbuffer
    omega
  rw [← once_iff hok]
  constructor
  · rintro ⟨out, -, hframed⟩
    exact hframed.once
  · intro honce
    obtain ⟨hcontent, hmsgType⟩ := payload_eq hok hpayload
    unfold Message.payload at hpayload
    obtain ⟨head, hhead, hpayload⟩ := bind_eq_ok hpayload
    obtain ⟨body, hbody, hpayload⟩ := bind_eq_ok hpayload
    obtain ⟨tail, htail, hpayload⟩ := bind_eq_ok hpayload
    obtain rfl := Except.ok.inj hpayload
    obtain ⟨gap, rest, out, hout, hstart, hgap, hrlen, hbuf, -⟩ :=
      encodeTo_eq hbegin hok hhead hbody htail hlen hfits
    generalize head ++ body ++ tail = text at *
    have htailLen : (frameTail (cx.frameHead text.length ++ text)).length = 7 := frameTail_length
    refine ⟨out, hout, ?_, hcontent, hmsgType, fmtChksum_length (calcChksumFrom_lt _ 0 0), honce,
      hstart, ?_, ?_⟩
    · rw [hbuf, ← hgap, hrlen]
      have hflat : cx.frameHead text.length ++ text ++
          frameTail (cx.frameHead text.length ++ text) =
            [cx.frameHead text.length, text,
              frameTail (cx.frameHead text.length ++ text)].flatten := by
        simp
      rw [hflat]
      apply read_segments [gap] [_, _, _] [[0], rest]
      all_goals
        simp only [List.flatten_cons, List.flatten_nil, List.length_append, List.length_nil]
        omega
    · rw [hbuf]
      have hread : read [gap, cx.frameHead text.length, text,
          frameTail (cx.frameHead text.length ++ text), [0], rest].flatten headerCalcOffset
            text.length = some [text].flatten := by
        apply read_segments [gap, cx.frameHead text.length] [text]
          [frameTail (cx.frameHead text.length ++ text), [0], rest]
        all_goals
          simp only [List.flatten_cons, List.flatten_nil, List.length_append, List.length_nil]
          omega
      rw [hread]
      simp
    · rw [hbuf, ← hgap, hrlen]
      simp only [List.flatten_cons, List.flatten_nil, List.length_append, List.length_nil, htailLen,
        List.length_singleton]
      omega

end

/-! ## A heartbeat -/

theorem mem_of_has {fp : FieldTraits} {k : Nat} (h : fp.has k = true) : ∃ t ∈ fp, t.fnum = k := by
  obtain ⟨t, ht⟩ := Option.isSome_iff_exists.1 h
  exact ⟨t, List.mem_of_find?_eq_some ht, FieldTraits.find_fnum ht⟩

/-- The traits of a part, one by one. -/
theorem partTraits_of_mem {kept : List Nat} {fp : FieldTraits}
    (h : (∀ t ∈ fp, (t.fnum ∈ kept ∨ t.fnum ∉ frameTags) ∧ (t.fnum ∈ kept → t.ftype ≠ .data)) ∧
      ∀ k ∈ kept, fp.suppress k = decide (k ∈ frameTags)) : PartTraits kept fp where
  tags k hk := by
    obtain ⟨t, ht, rfl⟩ := mem_of_has hk
    exact (h.1 t ht).1
  ftype k hk t ht :=
    (h.1 t (List.mem_of_find?_eq_some ht)).2 (by rwa [FieldTraits.find_fnum ht])
  suppressed := h.2

theorem demoCntx_frame : FrameSchema demoCntx := by
  have hbme : ∀ mtype bme, demoCntx.findBme mtype = some bme → bme = ⟨[], []⟩ := by
    intro mtype bme h
    unfold F8MetaCntx.findBme at h
    have hlist : demoCntx.bme = [(ascii "0", ⟨[], []⟩)] := rfl
    rw [hlist, List.lookup_cons] at h
    split at h
    · exact (Option.some.inj h).symm
    · exact absurd h (by simp)
  constructor
  · exact partTraits_of_mem (by decide)
  · have hpos : ∀ t ∈ demoCntx.header.traits,
        t.fnum ∉ headerTags → 3 < demoCntx.header.traits.getPos t.fnum := by decide
    intro k hk
    obtain ⟨t, ht, rfl⟩ := mem_of_has hk
    exact hpos t ht
  · exact fun c hc => absurd hc List.not_mem_nil
  · intro mtype bme h
    rw [hbme mtype bme h]
    exact .of_free fun k hk => absurd hk (by simp [FieldTraits.has, FieldTraits.find])
  · intro mtype bme h
    rw [hbme mtype bme h]
    exact fun c hc => absurd hc List.not_mem_nil
  · exact partTraits_of_mem (by decide)
  · exact fun c hc => absurd hc List.not_mem_nil

def demoBuffer : F8String := List.replicate (maxMsgLength + headerCalcOffset) 0

theorem frame_law_demo : FrameLaw demoCntx demoBuffer
    (demoCntx.newMessage (D := Unit) (ascii "0") ⟨[], []⟩ false) (demoElement "35" "0") := by
  have hpayload : (demoCntx.newMessage (D := Unit) (ascii "0") ⟨[], []⟩ false).payload.toOption =
      some (demoElement "35" "0") := by
    decide +kernel
  have hbuffer : demoBuffer.length = maxMsgLength + headerCalcOffset := List.length_replicate
  refine (frame_law_iff demoCntx_frame (by decide) (.create _ _ _ rfl) (toOption_eq_some hpayload)
    hbuffer ?_).2 ?_
  · rw [hbuffer]
    decide
  · intro k _
    exact ⟨List.not_mem_nil, List.not_mem_nil, List.not_mem_nil⟩

/-- A heartbeat that is decoded permissively has its CheckSum in the unknown text of the header,
and has it again in its encoding. -/
theorem checkSum_twice : ¬ ∀ (cx : F8MetaCntx) (buffer text : F8String) (msg : Message Unit),
    FrameSchema cx → cx.beginStr.length ≤ 19 → Composed cx msg → msg.payload = .ok text →
    buffer.length = maxMsgLength + headerCalcOffset →
    headerCalcOffset + text.length + 8 ≤ buffer.length → FrameLaw cx buffer msg text := by
  intro h
  have hdecoded : ((factory (D := Unit) demoCntx 0 1 30 (demoHeartbeatText "A") true
      true).toOption.bind fun msg => msg.payload.toOption.map fun text =>
        (text.length ≤ 100 && msg.header.own.unknownTags.contains commonCheckSum : Bool)) =
      some true := by
    decide +kernel
  obtain ⟨msg, hmsg, hpayload⟩ := Option.bind_eq_some_iff.1 hdecoded
  obtain ⟨text, htext, hcheck⟩ := Option.map_eq_some_iff.1 hpayload
  obtain ⟨hlen, htag⟩ := Bool.and_eq_true_iff.1 hcheck
  have hlen : text.length ≤ 100 := of_decide_eq_true hlen
  have hbuffer : demoBuffer.length = maxMsgLength + headerCalcOffset := List.length_replicate
  have hcomposed : Composed demoCntx msg :=
    .decode 0 1 30 _ true true msg (by decide) (toOption_eq_some hmsg)
  obtain ⟨out, -, hframed⟩ := h demoCntx demoBuffer text msg demoCntx_frame (by decide) hcomposed
    (toOption_eq_some htext) hbuffer (by rw [hbuffer, maxMsgLength, headerCalcOffset]; omega)
  have hfree := (once_iff (composed_ok demoCntx_frame hcomposed)).1 hframed.once
  exact (hfree commonCheckSum (by decide)).1 (by simpa using htag)

end Fix8.Codec
