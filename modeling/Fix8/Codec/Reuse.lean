import Fix8.Codec.Encode

/-!
# Messages that are used again

`clear(true)` deletes the fields and groups of a message: the deleted groups stay in `_groups` as
null pointers, and the header and the trailer keep the pointers to the fields of `add_preamble`
that their constructors have set. `setup_reuse` takes an encoded message back to where it was.

* `Part`: a message base with its null groups; `PartOp`, `Part.apply`: what is done to a header or
  a trailer;
* `Parts`, `PartsOp`, `Parts.run`: what is done to a message;
* `Message.setupReuse`, `Message.cycles`.
-/

namespace Fix8.Codec

open Lib

/-! ## The objects behind the cached pointers -/

/-- A message base, with the tags under which `_groups` holds a null pointer. -/
structure Part (D : Type) where
  base : MessageBase D
  nulls : List Nat

namespace FieldTraits

/-- `clear_flag` of the `present` bit. -/
def clearFlag (fp : FieldTraits) : FieldTraits := fp.map fun t => { t with present := false }

/-- `set` of the `suppress` bit. -/
def setSuppress (fp : FieldTraits) (field : Nat) : FieldTraits :=
  fp.update field fun t => { t with suppress := true }

end FieldTraits

namespace Part

variable {D : Type}

def ofBase (m : MessageBase D) : Part D := ⟨m, []⟩

/-- What `get_begin_string`, `get_body_length`, `get_msg_type` and `get_check_sum` return for the
tags `kept`: the objects that the constructor made. -/
def cached (kept : List Nat) (fnum : Nat) : Option ObjId :=
  if fnum ∈ kept then some (preambleId fnum) else none

/-- Each accessor returns the object that `_fields` holds under its tag. -/
def Valid (kept : List Nat) (p : Part D) : Prop :=
  ∀ fnum ∈ kept, cached kept fnum = (p.base.getField fnum).map (·.id)

/-- `clear(true)`. -/
def clear (p : Part D) : Part D where
  base := .mk { p.base.own with fp := p.base.own.fp.clearFlag, fields := OrdMap.empty, pos := [] }
    p.base.nested []
  nulls := p.nulls ++ p.base.groups.map GroupBase.fnum

/-- `add_group`: a null pointer under the tag stays. -/
def addGroup (p : Part D) (what : GroupBase D) : Part D :=
  if what.fnum ∈ p.nulls then p else { p with base := p.base.addGroup what }

/-- `find_group` and `operator<<` of an element on what it returns. -/
def addElement (p : Part D) (fnum : Nat) (what : MessageBase D) : Except Stop (Part D) :=
  match p.base.findGroup fnum with
  | none => .error .undefined
  | some _ => .ok { p with base := MessageBase.addElement fnum what p.base }

/-- `MessageBase::decode`: where `_groups` holds a null pointer, none is made in its place, and
`decode_group` calls through it. -/
def decode [FpType D] (p : Part D) (d : Feed) (permissive : Bool) (fuel sOffset : Nat) :
    Res (Part D) Stop Nat :=
  let makes := p.base.nested.filter fun c => c.fnum ∉ p.nulls
  match Codec.decode d permissive fuel sOffset (.mk p.base.own makes p.base.groups) with
  | .ok n m => .ok n { p with base := .mk m.own p.base.nested m.groups }
  | .throw e m => .throw e { p with base := .mk m.own p.base.nested m.groups }

end Part

/-- The calls on a header or a trailer. -/
inductive PartOp (D : Type) where
  | decode (d : Feed) (permissive : Bool) (fuel sOffset : Nat)
  /-- `add_field`, `operator<<` -/
  | addField (what : BaseField D)
  | replace (fnum : Nat) (what : BaseField D)
  | remove (fnum : Nat)
  /-- `copy_legal` to this object -/
  | copyLegal (call : Nat) (force : Bool) (src : MessageBase D)
  /-- `clear(true)` -/
  | clear

/-- The object after a call, also where an exception leaves it. -/
def Part.apply {D : Type} [FpType D] (p : Part D) : PartOp D → Part D
  | .decode d permissive fuel sOffset => (p.decode d permissive fuel sOffset).state
  | .addField what =>
    match p.base.own.addField what with
    | .ok own => { p with base := p.base.withOwn own }
    | .error _ => p
  | .replace fnum what => { p with base := p.base.withOwn (p.base.own.replace fnum what) }
  | .remove fnum => { p with base := p.base.withOwn (p.base.own.remove fnum) }
  | .copyLegal call force src => { p with base := (src.copyLegal call force p.base).state }
  | .clear => p.clear

/-! ## Messages -/

/-- A complete message, with the null groups of its parts. -/
structure Parts (D : Type) where
  msgType : F8String
  header : Part D
  body : Part D
  trailer : Part D

/-- The part of a message that a call is on. -/
inductive Where where
  | header
  | body
  | trailer
deriving DecidableEq, Repr

namespace Parts

variable {D : Type}

def part (msg : Parts D) : Where → Part D
  | .header => msg.header
  | .body => msg.body
  | .trailer => msg.trailer

def setPart (msg : Parts D) (p : Part D) : Where → Parts D
  | .header => { msg with header := p }
  | .body => { msg with body := p }
  | .trailer => { msg with trailer := p }

/-- `Message::clear(true)`. -/
def clear (msg : Parts D) : Parts D :=
  { msg with header := msg.header.clear, body := msg.body.clear, trailer := msg.trailer.clear }

def ofMessage (msg : Message D) : Parts D :=
  ⟨msg.msgType, .ofBase msg.header, .ofBase msg.body, .ofBase msg.trailer⟩

def message (msg : Parts D) : Message D :=
  ⟨msg.msgType, msg.header.base, msg.body.base, msg.trailer.base⟩

end Parts

/-- `Message::encode`, which writes the type of the message through `_msg_type` first. -/
def Message.encodeLive {D : Type} [FpType D] (msg : Message D) :
    Except Stop (F8String × Message D) := do
  let _ ← msg.header.preamble commonMsgType
  msg.encode

/-- The calls on a message. -/
inductive PartsOp (D : Type) where
  | addField (w : Where) (what : BaseField D)
  | addGroup (w : Where) (what : GroupBase D)
  | addElement (w : Where) (fnum : Nat) (what : MessageBase D)
  | decode (cx : F8MetaCntx) (now : Ticks) (call fuel : Nat) (text : F8String)
      (offset ignore : Nat) (permissive : Bool)
  | encode

namespace Parts

variable {D : Type} [FpType D]

/-- `Message::decode`. -/
def decode (msg : Parts D) (cx : F8MetaCntx) (now : Ticks) (call fuel : Nat) (text : F8String)
    (offset ignore : Nat) (permissive : Bool) : Except Stop (Parts D) :=
  let whole : Feed := ⟨cx, now, call, text, 0⟩
  match msg.header.decode whole permissive fuel offset with
  | .throw e _ => .error e
  | .ok hlen header =>
    match msg.body.decode whole permissive fuel hlen with
    | .throw e _ => .error e
    | .ok blen body =>
      match msg.trailer.decode { whole with ignore := ignore } permissive fuel blen with
      | .throw e _ => .error e
      | .ok _ trailer => .ok { msg with header := header, body := body, trailer := trailer }

/-- One call: the texts it returns, and the message it leaves. -/
def apply (msg : Parts D) : PartsOp D → Except Stop (List F8String × Parts D)
  | .addField w what =>
    match (msg.part w).base.own.addField what with
    | .error e => .error (.exn e)
    | .ok own =>
      .ok ([], msg.setPart { msg.part w with base := (msg.part w).base.withOwn own } w)
  | .addGroup w what => .ok ([], msg.setPart ((msg.part w).addGroup what) w)
  | .addElement w fnum what => do
    let p ← (msg.part w).addElement fnum what
    pure ([], msg.setPart p w)
  | .decode cx now call fuel text offset ignore permissive => do
    let msg ← msg.decode cx now call fuel text offset ignore permissive
    pure ([], msg)
  | .encode => do
    let (text, m) ← msg.message.encodeLive
    pure ([text], { msg with
      header := { msg.header with base := m.header }
      body := { msg.body with base := m.body }
      trailer := { msg.trailer with base := m.trailer } })

/-- A sequence of calls: the texts of its encodes. -/
def run (msg : Parts D) : List (PartsOp D) → Except Stop (List F8String)
  | [] => .ok []
  | op :: ops => do
    let (texts, msg) ← msg.apply op
    let more ← msg.run ops
    pure (texts ++ more)

end Parts

/-! ## `setup_reuse` -/

section SetupReuse
variable {D : Type} [FpType D]

/-- `setup_reuse`. -/
def Message.setupReuse (msg : Message D) : Message D :=
  let own := msg.header.own
  let own := { own with fp := own.fp.setSuppress commonBeginString }
  let own := { own with fp := own.fp.setSuppress commonBodyLength }
  let own := own.remove commonMsgSeqNum
  let tail := msg.trailer.own
  { msg with
    header := msg.header.withOwn own
    trailer := msg.trailer.withOwn { tail with fp := tail.fp.setSuppress commonCheckSum } }

/-- One more use of a message: `setup_reuse`, the same MsgSeqNum in a new object, and an encode. -/
def Message.cycle (id : ObjId) (msg : Message D) : Except Stop (F8String × Message D) := do
  let reused := msg.setupReuse
  match msg.header.getField commonMsgSeqNum with
  | none => reused.encodeLive
  | some seqnum =>
    match reused.header.own.addField { seqnum with id := id } with
    | .error e => throw (.exn e)
    | .ok own => Message.encodeLive { reused with header := reused.header.withOwn own }

/-- The texts of a number of uses, with the objects that are the MsgSeqNum in turn. -/
def Message.cycles (msg : Message D) : List ObjId → Except Stop (List F8String)
  | [] => pure []
  | id :: ids => do
    let (text, msg) ← msg.cycle id
    let more ← msg.cycles ids
    pure (text :: more)

end SetupReuse

end Fix8.Codec
