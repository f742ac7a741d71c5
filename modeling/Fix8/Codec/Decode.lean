import Fix8.Codec.Checksum
import Fix8.Codec.Message

/-!
# Decoding

`extract_element`, `MessageBase::decode`, `MessageBase::decode_group` and `Message::factory`. A
decode acts on the message it fills, which keeps what was stored when an exception leaves it. The
loops and the recursion into nested groups run on fuel.
-/

namespace Fix8.Codec

open Lib

/-- `FIX8_MAX_FLD_LENGTH`. -/
def maxFldLength : Nat := 2048

/-- What `extract_element` delivers: tag, value and the number of bytes consumed. -/
structure Element where
  tag : F8String
  val : F8String
  result : Nat
deriving DecidableEq, Repr

/-- The value up to the field separator and the number of bytes with it. -/
def extractValue : F8String → Option (F8String × Nat)
  | [] => none
  | c :: cs =>
    if c = fieldSeparator then some ([], 1)
    else (extractValue cs).map fun (val, n) => (c :: val, n + 1)

/-- `extract_element`. -/
def extractElement : F8String → Option Element
  | [] => none
  | c :: cs =>
    if isdigit c then
      (extractElement cs).map fun e => { e with tag := c :: e.tag, result := e.result + 1 }
    else if c = assignmentSeparator then
      (extractValue cs).map fun (val, n) => ⟨[], val, n + 1⟩
    else none

/-- What a failed `extract_element` leaves in the value buffer. -/
def unfinishedValue (s : F8String) : F8String :=
  match s.dropWhile isdigit with
  | [] => []
  | c :: val => if c = assignmentSeparator then val else []

/-- `extract_element_fixed_width`: the digits that it writes to the tag buffer, with no NUL behind
them. The separator is counted, not checked. -/
def extractElementFixedWidth (valSz : Nat) : F8String → Option Element
  | [] => none
  | c :: cs =>
    if isdigit c then
      (extractElementFixedWidth valSz cs).map fun e =>
        { e with tag := c :: e.tag, result := e.result + 1 }
    else if c ≠ assignmentSeparator ∨ cs.length < valSz then none
    else some ⟨[], cs.take valSz, valSz + 2⟩

/-- What is written of a buffer when `s` has been written to its start, over `buf`. -/
def overwrite (buf s : F8String) : F8String := s ++ buf.drop s.length

/-- The text in a buffer; where no NUL has been written, it goes on with what nobody has set. -/
def bufferText (buf : F8String) : Option F8String := if 0 ∈ buf then some (cstr buf) else none

/-- The arguments that a decode passes down unchanged, with the call that makes its objects and
the time that `Tickval(true)` reads. -/
structure Feed where
  cx : F8MetaCntx
  now : Ticks
  call : Nat
  text : F8String
  ignore : Nat

namespace Feed

/-- `fsize`. -/
def fsize (d : Feed) : Nat := d.text.length - d.ignore

/-- The bytes from `dptr + s_offset` to `fsize`. -/
def rest (d : Feed) (sOffset : Nat) : F8String := (d.text.take d.fsize).drop sOffset

/-- `n` bytes from `dptr + s_offset`; behind the text stands a NUL. -/
def bytes (d : Feed) (sOffset n : Nat) : F8String := ((d.text ++ [0]).drop sOffset).take n

end Feed

section Decode
variable {D : Type} [FpType D]

/-- The exception for a missing mandatory field. -/
def checkMissing (cx : F8MetaCntx) (fp : FieldTraits) : Act (MessageBase D) Stop Unit :=
  let missing := fp.findMissing
  if missing = 0 then pure ()
  else
    match cx.findBe missing with
    | none => Act.throw .undefined
    | some tbe => Act.throw (.exn (.missingMandatoryField
        (tbe.name ++ ascii " (" ++ itoa missing ++ ascii ")")))

/-- The field object for an element at `sOffset`. -/
def Feed.createField (d : Feed) (be : BaseEntry) (tv sOffset : Nat) (val : F8String) :
    BaseField D :=
  ⟨⟨d.call, sOffset⟩, tv, .create d.now be.cls val⟩

/-! ## Groups -/

/-- One turn of the inner loop of `decode_group`: the state is the new element, the cursor is
`s_offset` and `pos`. The loop delivers `s_offset` and `ok`. -/
def groupTurn (d : Feed) (nestedGroup : Nat → Nat → Act (MessageBase D) Stop Nat)
    (c : Nat × Nat) : Act (MessageBase D) Stop ((Nat × Nat) ⊕ (Nat × Bool)) := do
  match extractElement (d.rest c.1) with
  | none => pure (.inr (c.1, true))
  | some e =>
    let tv := fastAtoiU32 e.tag
    let field := fastAtoiU16 e.tag
    let grp ← Act.get
    if grp.isPresent field then pure (.inr (c.1, true))
    else if c.2 = 0 ∧ grp.own.fp.getPos field ≠ 1 then
      Act.throw (.exn (.missingRepeatingGroupField tv))
    else
      match d.cx.findBe field, grp.own.fp.find field with
      | some be, some itr =>
        let bf := d.createField be field c.1 e.val
        let sOffset := c.1 + e.result
        Act.modify fun grp => grp.withOwn (grp.own.addFieldAt field (c.2 + 1) bf false)
        if itr.group && bf.hasGroupCount then
          let sOffset ← nestedGroup field sOffset
          pure (.inl (sOffset, c.2 + 1))
        else pure (.inl (sOffset, c.2 + 1))
      | _, _ => pure (.inr (c.1, false))

/-- One turn of the outer loop of `decode_group`: one element of the group. -/
def elementTurn (d : Feed) (fuel : Nat) (nestedGroup : Nat → Nat → Act (MessageBase D) Stop Nat)
    (c : GroupClass) (fnum sOffset : Nat) : Act (MessageBase D) Stop (Nat ⊕ Nat) :=
  if sOffset < d.fsize then do
    let ((sOffset, ok), grp) ← Act.onLocal (c.createGroup false) do
      let r ← Act.loop .fuel (groupTurn d nestedGroup) fuel (sOffset, 0)
      let grp ← Act.get
      checkMissing d.cx grp.own.fp
      pure r
    Act.modify (MessageBase.addElement fnum grp)
    pure (if ok then .inl sOffset else .inr sOffset)
  else pure (.inr sOffset)

/-- `decode_group`; `classes` are those of the group that nests this one, or of the message. -/
def decodeGroup (d : Feed) :
    Nat → List GroupClass → Nat → Nat → Act (MessageBase D) Stop Nat
  | 0, _, _, _ => Act.throw .fuel
  | fuel + 1, classes, fnum, sOffset => do
    let c ← MessageBase.findAddGroup classes fnum
    Act.loop .fuel (elementTurn d fuel (decodeGroup d fuel c.nested) c fnum) fuel sOffset

/-! ## Sections -/

/-- The variables of the loop of `decode`; `last` holds `last_valid_pos` and `last_valid_offset`,
`tag` what has been written of the buffer that all elements of the section share. -/
structure Cursor where
  sOffset : Nat
  pos : Nat
  last : Option (Nat × Nat)
  tag : F8String
deriving DecidableEq, Repr

/-- `unknown_field`. -/
def unknownField (d : Feed) (permissive : Bool) (c : Cursor) (result : Nat) :
    Act (MessageBase D) Stop (Cursor ⊕ Cursor) :=
  if permissive then do
    Act.modify fun m =>
      m.withOwn { m.own with unknown := m.own.unknown ++ d.bytes c.sOffset result }
    pure (.inl { c with
      sOffset := c.sOffset + result, last := c.last.or (some (c.pos, c.sOffset)) })
  else pure (.inr c)

/-- One turn of the loop that makes and stores a field; `c` is behind the element, `start` is
where it began. -/
def storeField (d : Feed) (fuel : Nat) (itr : FieldTrait) (tv start : Nat) (val : F8String)
    (c : Cursor) : Act (MessageBase D) Stop Cursor := do
  match d.cx.findBe tv with
  | none => Act.throw (.exn (.unknownField tv))
  | some be =>
    let bf := d.createField be tv start val
    Act.modify fun m => m.withOwn ((m.own.addFieldDecoder tv (c.pos + 1) bf).setPresent tv)
    if itr.group && bf.hasGroupCount then
      let m ← Act.get
      let sOffset ← decodeGroup d fuel m.nested tv c.sOffset
      pure { c with sOffset := sOffset, pos := c.pos + 1 }
    else pure { c with pos := c.pos + 1 }

/-- The data field that follows a length field. Its tag is what the buffer holds then: behind the
digits stands what tags before it have left there. -/
def decodeData (d : Feed) (permissive : Bool) (fuel lasttv : Nat) (length : F8String)
    (c : Cursor) : Act (MessageBase D) Stop (Cursor ⊕ Cursor) := do
  let valSz := fastAtoiU32 length
  if valSz > maxFldLength - 1 then
    Act.throw (.exn (.f8Exception (ascii "Value size too large")))
  else
    match extractElementFixedWidth valSz (d.rest c.sOffset) with
    | none => Act.throw (.exn (.missingMandatoryField
        (ascii "Unable to extract fixed width field")))
    | some e =>
      let c := { c with tag := overwrite (overwrite c.tag [0]) e.tag }
      match bufferText c.tag with
      | none => Act.throw .undefined
      | some tag =>
        let tv := fastAtoiU16 tag
        let m ← Act.get
        match m.own.fp.find tv with
        | none => unknownField d permissive c e.result
        | some itr =>
          if itr.ftype ≠ .data ∨ lasttv + 1 ≠ tv then pure (.inl c)
          else
            let c ← storeField d fuel itr tv c.sOffset e.val
              { c with sOffset := c.sOffset + e.result }
            pure (.inl c)

/-- One turn of the loop of `decode`. -/
def decodeTurn (d : Feed) (permissive : Bool) (fuel : Nat) (c : Cursor) :
    Act (MessageBase D) Stop (Cursor ⊕ Cursor) := do
  match extractElement (d.rest c.sOffset) with
  | none => pure (.inr c)
  | some e =>
    let c := { c with tag := overwrite c.tag (e.tag ++ [0]) }
    let tv := fastAtoiU16 e.tag
    let m ← Act.get
    match m.own.fp.find tv with
    | none => unknownField d permissive c e.result
    | some itr =>
      if itr.present then
        if itr.automatic then pure (.inl { c with sOffset := c.sOffset + e.result })
        else Act.throw (.exn (.duplicateField tv))
      else
        let c ← storeField d fuel itr tv c.sOffset e.val
          { c with sOffset := c.sOffset + e.result }
        if itr.ftype ≠ .length ∨ tv = commonBodyLength then pure (.inl c)
        else decodeData d permissive fuel tv e.val c

/-- `MessageBase::decode`. -/
def decode (d : Feed) (permissive : Bool) (fuel sOffset : Nat) : Act (MessageBase D) Stop Nat := do
  let m ← Act.get
  let c ← Act.loop .fuel (decodeTurn d permissive fuel) fuel
    ⟨sOffset, m.own.pos.length, none, []⟩
  let m ← Act.get
  checkMissing d.cx m.own.fp
  pure (match c.last with
    | some (pos, offset) => if permissive ∧ pos = c.pos then offset else c.sOffset
    | none => c.sOffset)

end Decode

/-! ## Complete messages -/

/-- `extract_header`: the offset behind the elements it found, 0 if one of them is not the
expected one, with the `len` and `mtype` buffers. -/
def extractHeader (text : F8String) : Nat × F8String × F8String :=
  match extractElement text with
  | none => (0, [], [])
  | some e₁ =>
    if e₁.tag.head? ≠ some 56 then (0, [], [])
    else
      match extractElement (text.drop e₁.result) with
      | none => (e₁.result, unfinishedValue (text.drop e₁.result), [])
      | some e₂ =>
        if e₂.tag.head? ≠ some 57 then (0, e₂.val, [])
        else
          let hlen := e₁.result + e₂.result
          match extractElement (text.drop hlen) with
          | none => (hlen, e₂.val, unfinishedValue (text.drop hlen))
          | some e₃ =>
            if e₃.tag.take 2 ≠ ascii "35" then (0, e₂.val, e₃.val)
            else (hlen + e₃.result, e₂.val, e₃.val)

section Factory
variable {D : Type} [FpType D]

/-- What a decode of a part of a message leaves. -/
def partOf {α : Type} (r : Res (MessageBase D) Stop α) : Except Stop (α × MessageBase D) :=
  match r with
  | .ok a m => .ok (a, m)
  | .throw e _ => .error e

/-- `Message::decode`: each part goes on where the one before it stopped. -/
def Message.decode (cx : F8MetaCntx) (now : Ticks) (call fuel : Nat) (text : F8String)
    (offset ignore : Nat) (permissive : Bool) (msg : Message D) : Except Stop (Message D) := do
  let whole : Feed := ⟨cx, now, call, text, 0⟩
  let (hlen, header) ← partOf (Codec.decode whole permissive fuel offset msg.header)
  let (blen, body) ← partOf (Codec.decode whole permissive fuel hlen msg.body)
  let (_, trailer) ← partOf
    (Codec.decode { whole with ignore := ignore } permissive fuel blen msg.trailer)
  pure { msg with header := header, body := body, trailer := trailer }

/-- `set` on one of the objects of `add_preamble`. -/
def MessageBase.setPreamble (m : MessageBase D) (fnum : Nat) (value : Value D) : MessageBase D :=
  m.withOwn (m.own.assign (preambleId fnum) fnum value)

/-- `Message::factory`. The table of messages also has an entry for the header and one for the
trailer, which are no messages. -/
def factory (cx : F8MetaCntx) (now : Ticks) (call fuel : Nat) (text : F8String)
    (noChksum permissive : Bool) : Except Stop (Message D) :=
  let (hlen, len, mtype) := extractHeader text
  if hlen = 0 then throw (.exn (.invalidMessage text))
  else do
    let mlen := fastAtoiU32 len
    let mtype := cstr mtype
    if mtype = ascii "header" ∨ mtype = ascii "trailer" then throw .undefined
    else
      match cx.findBme mtype with
      | none => throw (.exn (.invalidMessage mtype))
      | some bme => do
        let msg ← (cx.newMessage mtype bme false).decode cx now call fuel text hlen 7 permissive
        let header := msg.header.setPreamble commonBodyLength (.int ((mlen : Int).bmod 4294967296))
        let header := header.setPreamble commonMsgType (.string mtype)
        let pp := text.drop (text.length - 7)
        if pp.take 2 ≠ ascii "10" then throw (.exn (.invalidMessage text))
        else if noChksum then pure { msg with header := header }
        else
          let chksum := (pp.drop 3).take 3
          let trailer := msg.trailer.setPreamble commonCheckSum (.string chksum)
          let mchkval := calcChksum (text.take (text.length - 7))
          if fastAtoiU32 chksum ≠ mchkval then throw (.exn (.badCheckSum mchkval))
          else pure { msg with header := header, trailer := trailer }

end Factory

/-- The `seqnum` of `Session::process`: what it reads behind the first `34=` of the text. -/
def processSeqnum (text : F8String) : Except Stop Nat :=
  match findText (ascii "34=") text with
  | none => throw (.exn (.invalidMessage text))
  | some fpos =>
    match fastAtoiTo fieldSeparator (text.drop (fpos + 3)) with
    | none => throw .undefined
    | some seqnum => pure (seqnum % 4294967296).toNat

end Fix8.Codec
