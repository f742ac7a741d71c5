import Fix8.Codec.Output
import Fix8.Connection.Socket

/-!
# Reading a message

`FIXReader::read`: the preamble up to the first digit of the body length, the other digits one by
one, and then as many bytes as they say, with the checksum. The arrays that `extract_element` copies
into are of fixed size.
-/

namespace Fix8.Connection

open Lib Codec

/-- `_chksum_sz`. -/
def chksumSz : Nat := 7

/-- What `extract_element` copies into `tag` and `val`, whether it finds an element or not. -/
def copied (s : F8String) : F8String × F8String :=
  (s.takeWhile isdigit, (unfinishedValue s).takeWhile (· ≠ fieldSeparator))

/-- What is copied fits the arrays, with its terminator. -/
def Fits (tagSz valSz : Nat) (s : F8String) : Prop :=
  (copied s).1.length < tagSz ∧ (copied s).2.length < valSz

instance (tagSz valSz : Nat) (s : F8String) : Decidable (Fits tagSz valSz s) :=
  inferInstanceAs (Decidable (_ ∧ _))

/-- `extract_element` into the `tag` and `val` of `read`. -/
def extractWithin (s : F8String) : Act Socket ReadStop (Option Element) :=
  if Fits maxMsgtypeFieldLen maxFldLength s then pure (extractElement s)
  else Act.throw .undefined

/-- A turn of the loop that gets the last characters of the body length and the separator; `msgBuf`
is what has been read. Nothing is delivered when the socket brings nothing. -/
def lengthTurn (msgBuf : F8String) : Act Socket ReadStop (F8String ⊕ Option F8String) := do
  match ← sockRead 1 with
  | [bt] =>
    if isdigit bt = false ∧ bt ≠ fieldSeparator then Act.throw (.illegalMessage (cstr msgBuf))
    else if maxMsgLen ≤ msgBuf.length then Act.throw .undefined
    else if bt ≠ fieldSeparator ∧ msgBuf.length + 1 < maxMsgLen then pure (.inl (msgBuf ++ [bt]))
    else pure (.inr (some (msgBuf ++ [bt])))
  | _ => pure (.inr none)

/-- `_max_msg_len - _bg_sz - _chksum_sz`, a `size_t`. -/
def bodyLimit (cx : F8MetaCntx) : Nat :=
  (18446744073709551616 + maxMsgLen - (cx.preambleSz + chksumSz)) % 18446744073709551616

/-- The body and the checksum behind the header line `line`. -/
def readBody (cx : F8MetaCntx) (line : F8String) (mlen : Nat) :
    Act Socket ReadStop (Option F8String) := do
  if mlen = 0 ∨ mlen > bodyLimit cx then Act.throw (.invalidBodyLength mlen)
  else if mlen + chksumSz > maxMsgLen then Act.throw .undefined
  else do
    let body ← sockRead mlen
    if body.length ≠ mlen then pure none
    else do
      let chksum ← sockRead chksumSz
      if chksum.length ≠ chksumSz then pure none
      else pure (some (line ++ (body ++ chksum)))

/-- The check of the begin string, and the rest of the message behind it. -/
def readLength (cx : F8MetaCntx) (line : F8String) (e₁ : Element) :
    Act Socket ReadStop (Option F8String) := do
  if e₁.tag.head? ≠ some 56 then Act.throw (.illegalMessage line)
  else if cx.beginStr ≠ cstr e₁.val then Act.throw (.invalidVersion (cstr e₁.val))
  else
    match ← extractWithin (line.drop e₁.result) with
    | none => Act.throw (.illegalMessage line)
    | some e₂ =>
      if e₂.tag.head? ≠ some 57 then Act.throw (.illegalMessage line)
      else readBody cx line (fastAtoiU32 e₂.val)

/-- The checks of the header line, and the rest of the message. -/
def readRest (cx : F8MetaCntx) (line : F8String) : Act Socket ReadStop (Option F8String) := do
  match ← extractWithin line with
  | none => Act.throw (.illegalMessage line)
  | some e₁ => readLength cx line e₁

/-- `FIXReader::read`; nothing is delivered when it returns false. -/
def read (cx : F8MetaCntx) : Act Socket ReadStop (Option F8String) := do
  if maxMsgLen < cx.preambleSz then Act.throw .undefined
  else do
    let msgBuf ← sockRead cx.preambleSz
    if msgBuf.length ≠ cx.preambleSz then pure none
    else
      match ← Act.loop .fuel lengthTurn (maxMsgLen + 1) msgBuf with
      | none => pure none
      | some line => readRest cx line

/-- `n` calls of `read`, one after the other. -/
def readMessages (cx : F8MetaCntx) : Nat → Act Socket ReadStop (List (Option F8String))
  | 0 => pure []
  | n + 1 => do
    let s ← read cx
    let rest ← readMessages cx n
    pure (s :: rest)

end Fix8.Connection
