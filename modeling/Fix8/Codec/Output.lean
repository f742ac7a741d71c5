import Fix8.Codec.Encode
import Fix8.Lib.Buffer

/-!
# Encoding into a buffer

`Message::encode(char **)`: the payload is written behind a gap, and the preamble, whose length
depends on that of the payload, backwards from it. A write or read outside the buffer is undefined.

* `Message.encodeTo`: the encode, with the buffer and the start pointer it leaves;
* `Composed`: the messages that the library makes and that are edited through it.
-/

namespace Fix8.Codec

open Lib

/-- `HEADER_CALC_OFFSET`. -/
def headerCalcOffset : Nat := 32

/-- `_preamble_sz`. -/
def F8MetaCntx.preambleSz (cx : F8MetaCntx) : Nat := 2 + cx.beginStr.length + 1 + 3

/-- The number of digits that `encode` reserves for the BodyLength. -/
def bodyLengthDigits (msgLen : Nat) : Nat :=
  if msgLen < 10 then 1
  else if msgLen < 100 then 2
  else if msgLen < 1000 then 3
  else if msgLen < 10000 then 4
  else if msgLen < 100000 then 5
  else if msgLen < 1000000 then 6
  else 7

/-- What an encode leaves: the buffer, where the text starts in it (`*hmsg_store`), the length of
the text, and the message. -/
structure Output (D : Type) where
  buffer : F8String
  start : Int
  rlen : Nat
  msg : Message D

/-- An access outside the buffer is undefined. -/
def inside {α : Type} (r : Option α) : Except Stop α :=
  match r with
  | some a => pure a
  | none => throw .undefined

section Output
variable {D : Type} [FpType D]

/-- `Message::encode(char **)` into a buffer that `*hmsg_store` points to. -/
def Message.encodeTo (cx : F8MetaCntx) (buffer : F8String) (msg : Message D) :
    Except Stop (Output D) := do
  let moffs : Int := headerCalcOffset
  let header := msg.header.setPreamble commonMsgType (.string msg.msgType)
  let head ← header.encode
  let buffer ← inside (write buffer moffs head)
  let body ← msg.body.encode
  let buffer ← inside (write buffer (moffs + head.length) body)
  let tail ← msg.trailer.encode
  let buffer ← inside (write buffer (moffs + head.length + body.length) tail)
  let msgLen := head.length + body.length + tail.length
  let hlen := cx.preambleSz + bodyLengthDigits msgLen
  let hmsg := moffs - hlen
  let header := header.unsuppress commonBeginString
  let beginString ← header.preamble commonBeginString
  let buffer ← inside (write buffer hmsg beginString.encode)
  let header := header.unsuppress commonBodyLength
  let header := header.setPreamble commonBodyLength (.int msgLen)
  let bodyLength ← header.preamble commonBodyLength
  let buffer ← inside (write buffer (hmsg + beginString.encode.length) bodyLength.encode)
  let text ← inside (read buffer hmsg (msgLen + hlen))
  let trailer := msg.trailer.setPreamble commonCheckSum (.string (fmtChksum (calcChksum text)))
  let trailer := trailer.unsuppress commonCheckSum
  let checkSum ← trailer.preamble commonCheckSum
  let buffer ← inside (write buffer (moffs + msgLen) checkSum.encode)
  let buffer ← inside (write buffer (moffs + msgLen + checkSum.encode.length) [0])
  let rlen := (moffs + msgLen + checkSum.encode.length - hmsg).toNat
  pure ⟨buffer, hmsg, rlen, { msg with header := header, trailer := trailer }⟩

end Output

/-! ## The messages there are -/

/-- The tags of the header's preamble. -/
def headerTags : List Nat := [commonBeginString, commonBodyLength, commonMsgType]

section Composed
variable {D : Type} [FpType D]

/-- `Edited kept classes m m'`: `m'` is `m` after edits that leave the objects of `add_preamble`,
which are under the tags `kept`, and the BeginString to the library. The groups that are added are
of `classes`. -/
inductive Edited : List Nat → List GroupClass → MessageBase D → MessageBase D → Prop where
  | refl (kept : List Nat) (classes : List GroupClass) (m : MessageBase D) : Edited kept classes m m
  /-- `add_field`, `operator<<` -/
  | add {kept : List Nat} {classes : List GroupClass} {m m' : MessageBase D} (f : BaseField D)
      (own : FieldStore D) (hm : Edited kept classes m m') (hid : f.id.call ≠ 0)
      (hkept : f.fnum ∉ kept) (h : m'.own.addField f = .ok own) :
      Edited kept classes m (m'.withOwn own)
  /-- `add_field` at a position, as the console does it in a body or an element -/
  | addAt {classes : List GroupClass} {m m' : MessageBase D} (f : BaseField D) (pos : Nat)
      (hm : Edited [] classes m m') (hid : f.id.call ≠ 0) (hhas : m'.own.fp.has f.fnum = true) :
      Edited [] classes m (m'.withOwn (m'.own.addFieldAt f.fnum pos f true))
  | replace {kept : List Nat} {classes : List GroupClass} {m m' : MessageBase D} (f : BaseField D)
      (hm : Edited kept classes m m') (hid : f.id.call ≠ 0) (hkept : f.fnum ∉ kept) :
      Edited kept classes m (m'.withOwn (m'.own.replace f.fnum f))
  | remove {kept : List Nat} {classes : List GroupClass} {m m' : MessageBase D} (fnum : Nat)
      (hm : Edited kept classes m m') (hkept : fnum ∉ kept) :
      Edited kept classes m (m'.withOwn (m'.own.remove fnum))
  /-- `set` on a field object -/
  | set {kept : List Nat} {classes : List GroupClass} {m m' : MessageBase D} (id : ObjId)
      (fnum : Nat) (value : Value D) (hm : Edited kept classes m m')
      (hbegin : fnum ≠ commonBeginString) :
      Edited kept classes m (m'.withOwn (m'.own.assign id fnum value))
  /-- `add_group` of a new group, `find_add_group` -/
  | group {kept : List Nat} {classes : List GroupClass} {m m' : MessageBase D} (c : GroupClass)
      (hm : Edited kept classes m m') (hc : c ∈ classes) :
      Edited kept classes m (m'.addGroup (.mk c []))
  /-- An element that `create_group` makes is edited, and added to its group. -/
  | element {kept : List Nat} {classes : List GroupClass} {m m' e : MessageBase D}
      (g : GroupBase D) (fnum : Nat) (deepctor : Bool) (hm : Edited kept classes m m')
      (hg : m'.findGroup fnum = some g)
      (he : Edited [] g.cls.nested (g.cls.createGroup deepctor) e) :
      Edited kept classes m (MessageBase.addElement fnum e m')

/-- The messages that are created or decoded, and edited. -/
inductive Composed (cx : F8MetaCntx) : Message D → Prop where
  | create (mtype : F8String) (bme : MessageClass) (deepctor : Bool)
      (h : cx.findBme mtype = some bme) : Composed cx (cx.newMessage mtype bme deepctor)
  | decode (now : Ticks) (call fuel : Nat) (text : F8String) (noChksum permissive : Bool)
      (msg : Message D) (hcall : call ≠ 0)
      (h : factory cx now call fuel text noChksum permissive = .ok msg) : Composed cx msg
  | header (msg : Message D) (header : MessageBase D) (hmsg : Composed cx msg)
      (h : Edited headerTags msg.header.nested msg.header header) :
      Composed cx { msg with header := header }
  | body (msg : Message D) (body : MessageBase D) (hmsg : Composed cx msg)
      (h : Edited [] msg.body.nested msg.body body) : Composed cx { msg with body := body }
  | trailer (msg : Message D) (trailer : MessageBase D) (hmsg : Composed cx msg)
      (h : Edited [commonCheckSum] msg.trailer.nested msg.trailer trailer) :
      Composed cx { msg with trailer := trailer }

end Composed

end Fix8.Codec
