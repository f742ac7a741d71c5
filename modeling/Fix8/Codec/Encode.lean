import Fix8.Codec.Decode

/-!
# Encoding

`MessageBase::encode`, `encode_group` and `Message::encode`. Encoding a message also sets its
MsgType, BodyLength and CheckSum fields and clears the `suppress` bits of the fields that it
writes itself, so it returns the message it leaves.
-/

namespace Fix8.Codec

open Lib

section Encode
variable {D : Type} [FpType D]

/-- The loop of `encode` over `_pos`; `groups` holds what `encode_group` writes for each group. -/
def encodeFields (fp : FieldTraits) (groups : List (Nat × Except Stop F8String)) :
    Positions D → Except Stop F8String
  | [] => pure []
  | pp :: rest =>
    if fp.suppress pp.2.fnum then encodeFields fp groups rest
    else if fp.isGroup pp.2.fnum && pp.2.hasGroupCount then do
      let group ← (groups.lookup pp.2.fnum).getD
        (throw (.exn (.invalidRepeatingGroup pp.2.fnum)))
      let more ← encodeFields fp groups rest
      pure (pp.2.encode ++ group ++ more)
    else do
      let more ← encodeFields fp groups rest
      pure (pp.2.encode ++ more)

mutual

/-- `MessageBase::encode`. -/
def MessageBase.encode : MessageBase D → Except Stop F8String
  | .mk own _ groups => do
    let text ← encodeFields own.fp (encodeGroups groups) own.pos
    pure (text ++ own.unknown)

/-- What `encode_group` writes, by the tag of the group. -/
def encodeGroups : List (GroupBase D) → List (Nat × Except Stop F8String)
  | [] => []
  | g :: gs => (g.fnum, GroupBase.encode g) :: encodeGroups gs

/-- `encode_group`. -/
def GroupBase.encode : GroupBase D → Except Stop F8String
  | .mk _ msgs => encodeElements msgs

def encodeElements : List (MessageBase D) → Except Stop F8String
  | [] => pure []
  | m :: ms => do
    let text ← m.encode
    let more ← encodeElements ms
    pure (text ++ more)

end

/-- `fmt_chksum`. -/
def fmtChksum (val : Nat) : F8String :=
  (if val > 99 then [] else if val > 9 then ascii "0" else ascii "00") ++ itoa val

/-- One of the objects of `add_preamble`. -/
def MessageBase.preamble (m : MessageBase D) (fnum : Nat) : Except Stop (BaseField D) :=
  match m.getField fnum with
  | some f => if f.id = preambleId fnum then pure f else throw .undefined
  | none => throw .undefined

def MessageBase.unsuppress (m : MessageBase D) (fnum : Nat) : MessageBase D :=
  m.withOwn { m.own with fp := m.own.fp.clearSuppress fnum }

/-- `Message::encode`. -/
def Message.encode (msg : Message D) : Except Stop (F8String × Message D) := do
  let header := msg.header.setPreamble commonMsgType (.string msg.msgType)
  let head ← header.encode
  let body ← msg.body.encode
  let tail ← msg.trailer.encode
  let content := head ++ body ++ tail
  let header := header.unsuppress commonBeginString
  let beginString ← header.preamble commonBeginString
  let header := header.unsuppress commonBodyLength
  let header := header.setPreamble commonBodyLength (.int content.length)
  let bodyLength ← header.preamble commonBodyLength
  let text := beginString.encode ++ bodyLength.encode ++ content
  let trailer := msg.trailer.setPreamble commonCheckSum (.string (fmtChksum (calcChksum text)))
  let trailer := trailer.unsuppress commonCheckSum
  let checkSum ← trailer.preamble commonCheckSum
  pure (text ++ checkSum.encode, { msg with header := header, trailer := trailer })

end Encode

end Fix8.Codec
