import Fix8.Session.Send

/-!
# Answering a ResendRequest

`handle_resend_request` walks the store from the first record in the requested range, resends
each, and covers the holes with gap fills; `retrans_callback` is called with every record and once
more at the end.
-/

namespace Fix8.Session

open Lib

/-- `RetransmissionContext`: what `retrans_callback` keeps between calls. -/
structure RetransmissionContext where
  beginSeq : Nat
  endSeq : Nat
  interruptedSeqnum : Nat
  last : Nat := 0
deriving DecidableEq

/-- `compid_check`. A header without the fields does not leave `Message::factory`. -/
def compidCheck (v : Env) (msg : Msg) : Method Unit := do
  let s ← Act.get
  if v.enforceCompids then
    if msg.header.targetCompID.getD "" ≠ s.senderCompID then
      Act.throw (.badCompidId (msg.header.targetCompID.getD ""))
    else if msg.header.senderCompID.getD "" ≠ s.targetCompID then
      Act.throw (.badCompidId (msg.header.senderCompID.getD ""))
    else pure ()
  else pure ()

/-- `sequence_check` for a number above the expected one. -/
def gapCheck (v : Env) (seqnum : Nat) : Method Bool := do
  let s ← Act.get
  if s.state = .stContinuous then do
    let _ ← send v (generateResendRequest s.nextReceiveSeq)
    doStateChange .stResendRequestSent
    pure false
  else if v.ignoreLogonSequenceCheck ≠ some true then
    Act.throw (.invalidMsgSequence seqnum s.nextReceiveSeq)
  else pure false

/-- `sequence_check` for a number below the expected one. -/
def lowCheck (v : Env) (seqnum : Nat) (msg : Msg) : Method Bool := do
  let s ← Act.get
  if msg.header.possDupFlag ≠ some true then
    Act.throw (.msgSequenceTooLow seqnum s.nextReceiveSeq)
  else match msg.header.origSendingTime with
    | some ost =>
      if ost > msg.header.sendingTime.getD s.clock then Act.throw (.badSendingTime (v.timeText ost))
      else pure true
    | none => pure true

/-- `Session::sequence_check`: true when the number passes. -/
def sequenceCheck (v : Env) (seqnum : Nat) (msg : Msg) : Method Bool := do
  let s ← Act.get
  if seqnum > s.nextReceiveSeq then gapCheck v seqnum
  else if seqnum < s.nextReceiveSeq then lowCheck v seqnum msg
  else pure true

/-- `Session::enforce`: true when the message fails the rules. -/
def enforce (v : Env) (seqnum : Nat) (msg : Msg) : Method Bool := do
  let s ← Act.get
  if s.state.isEstablished then do
    (if s.state ≠ .stLogonReceived then compidCheck v msg else pure ())
    if msg.msgType ≠ .sequenceReset then do
      let ok ← sequenceCheck v seqnum msg
      pure (!ok)
    else pure true
  else pure true

/-- `Session::handle_outbound_reject`; there is no message when the factory threw. -/
def handleOutboundReject (v : Env) (seqnum : Nat) (msg : Option Msg) (errstr : String) :
    Method Bool :=
  send v (generateReject seqnum (some errstr)
    (msg.bind fun m => if m.msgType.text.isEmpty then none else some m.msgType.text))

/-- The assignment of `_next_send_seq` after a gap fill. -/
def setNextSendSeq (nseq : Nat) : Method Unit :=
  Act.modify fun s => { s with nextSendSeq := nseq }

/-- The last gap fill of a retransmission, from `position` to the interrupted number, or over
`position` alone where that is not below the interrupted number. -/
def fillToInterrupted (v : Env) (position interruptedSeqnum : Nat) : Method Unit := do
  let nseq := if position ≥ interruptedSeqnum then nextUnsigned position else interruptedSeqnum
  let _ ← send v (generateSequenceReset nseq true) position
  setNextSendSeq nseq

/-- `retrans_callback` once there are no more records: scenarios 4 and 5 when no record was in the
range, else 1 and 6. -/
def retransEnd (v : Env) (rctx : RetransmissionContext) : Method Unit := do
  (if rctx.last = 0 then fillToInterrupted v rctx.beginSeq rctx.interruptedSeqnum
    else fillToInterrupted v (nextUnsigned rctx.last) rctx.interruptedSeqnum)
  doStateChange .stContinuous

/-- The gap fill of `retrans_callback` before the record numbered `first`. -/
def retransFill (v : Env) (rctx : RetransmissionContext) (first : Nat) : Method Unit := do
  if rctx.last ≠ 0 then
    if nextUnsigned rctx.last < first then do
      -- scenario 2
      let s ← Act.get
      let _ ← send v (generateSequenceReset first true) s.nextSendSeq
      pure ()
    else pure ()
  else if first > rctx.beginSeq then do
    -- scenario 3
    let _ ← send v (generateSequenceReset first true)
    pure ()
  else pure ()

/-- `retrans_callback` for the record under `first`: its result and the context it leaves. -/
def retransRecord (v : Env) (rctx : RetransmissionContext) (first : Nat) (second : Text) :
    Method (Bool × RetransmissionContext) := do
  retransFill v rctx first
  let msg ← ofExcept ((factory v second).mapError codecExn)
  let sent ← send v msg
  pure (sent, { rctx with last := first })

/-- The record an iterator at `key` points to. -/
def recordAt (s : Session) (key : Nat) : Option Rec := s.persist.bind (·.get? key)

/-- Where an iterator at `key` moves to. -/
def nextKey (s : Session) (key : Nat) : Option Nat := s.persist.bind (·.next? key)

/-- `++itr`, and the rest of the loop unless that is the end. -/
def moveOn (key : Nat) (rctx : RetransmissionContext)
    (loop : Nat → RetransmissionContext → Method RetransmissionContext) :
    Method RetransmissionContext := do
  let s ← Act.get
  match nextKey s key with
  | none => pure rctx
  | some key' => loop key' rctx

/-- A turn of the loop of `MemoryPersister::get` with the iterator at `key`; `loop` is the rest of
the loop. Callbacks write to the store while it runs, so each turn reads it afresh. -/
def getTurn (v : Env) (finish key : Nat) (rctx : RetransmissionContext)
    (loop : Nat → RetransmissionContext → Method RetransmissionContext) :
    Method RetransmissionContext := do
  let s ← Act.get
  match recordAt s key with
  | none => pure rctx
  | some r =>
    if key = 0 ∨ finish < key then pure rctx
    else do
      let p ← retransRecord v rctx key r.text
      if !p.1 then pure p.2
      else moveOn key p.2 loop

/-- The loop of `MemoryPersister::get`. Keys only grow, so `finish + 1` turns are enough
(`getLoop_fuel`). -/
def getLoop (v : Env) (finish : Nat) : Nat → Nat → RetransmissionContext →
    Method RetransmissionContext
  | 0, _, rctx => pure rctx
  | fuel + 1, key, rctx => getTurn v finish key rctx (getLoop v finish fuel)

/-- `MemoryPersister::get` of a range, with `retrans_callback`. -/
def getRange (v : Env) (st : Store) (first last : Nat) : Method Unit := do
  let s ← Act.get
  let lastSeq := st.getLastSeqnum
  let startSeqNum := st.findNearestHighestSeqnum first lastSeq
  let finish := if last = 0 then lastSeq else last
  let rctx : RetransmissionContext :=
    { beginSeq := first, endSeq := last, interruptedSeqnum := s.nextSendSeq }
  if startSeqNum = 0 ∨ first > finish then retransEnd v rctx
  else do
    let rctx ← getLoop v finish (finish + 1) startSeqNum rctx
    retransEnd v rctx

/-- `handle_resend_request` for a range it serves. -/
def serveResend (v : Env) (first last : Int) : Method Unit := do
  let s ← Act.get
  match s.persist with
  | none =>
    -- scenarios 7 and 8
    let nxt := toInt s.nextSendSeq
    let nseq := if first ≥ nxt then first + 1 else nxt
    let _ ← send v (generateSequenceReset (toUnsigned nseq) true) (toUnsigned first)
    setNextSendSeq (toUnsigned nseq)
  | some st => do
    doStateChange .stResendRequestReceived
    getRange v st (toUnsigned first) (toUnsigned last)

/-- `handle_resend_request` after `enforce`. -/
def answerResendRequest (v : Env) (seqnum : Nat) (msg : Msg) : Method Unit := do
  let s ← Act.get
  if s.state ≠ .stResendRequestReceived then
    let first := msg.beginSeqNo.getD 0
    let last := msg.endSeqNo.getD 0
    if (first > last ∧ last ≠ 0) ∨ first = 0 then do
      let _ ← handleOutboundReject v seqnum (some msg)
        "Invalid resend range: Begin > End or Begin = 0"
      pure ()
    else serveResend v first last
  else pure ()

/-- `Session::handle_resend_request`. -/
def handleResendRequest (v : Env) (seqnum : Nat) (msg : Msg) : Method Bool := do
  let _ ← enforce v seqnum msg
  answerResendRequest v seqnum msg
  pure true

end Fix8.Session
