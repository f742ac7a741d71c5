import Fix8.Session.Retrans
import Fix8.Lib.Run

/-!
# `Session::process` and the heartbeat service

The handlers, the dispatch on the message type, and what `process` does with an exception; then
the session as a system that takes inbound strings and timer ticks (`step`).
-/

namespace Fix8.Session

open Lib

/-- `Session::stop`. -/
def stop : Method Unit := Act.modify fun s => { s with shutdown := true }

/-- `Session::update_persist_seqnums`. -/
def updatePersistSeqnums (v : Env) : Method Unit :=
  Act.modify fun s =>
    { s with persist := s.persist.map (·.putControl v.persister s.nextSendSeq s.nextReceiveSeq) }

/-! ## Handlers -/

/-- `handle_application` of an application that calls `enforce` once and leaves the session
alone; the call is recorded. -/
def handleApplication (v : Env) (seqnum : Nat) (msg : Msg) : Method Bool := do
  Act.modify fun s => { s with applied := s.applied ++ [(seqnum, msg)] }
  let fails ← enforce v seqnum msg
  if fails then pure true else ofExcept (v.application seqnum msg)

/-- `Session::handle_test_request`. -/
def handleTestRequest (v : Env) (seqnum : Nat) (msg : Msg) : Method Bool := do
  let _ ← enforce v seqnum msg
  let _ ← send v (generateHeartbeat (msg.testReqID.getD ""))
  pure true

/-- `Session::handle_logout`. -/
def handleLogout (v : Env) (seqnum : Nat) (msg : Msg) : Method Bool := do
  let _ ← enforce v seqnum msg
  pure true

/-- `handle_sequence_reset`, the `NewSeqNo`: the counter goes one below it, for `process` to
count. -/
def takeNewSeqNo (msg : Msg) : Method Unit :=
  match msg.newSeqNo with
  | some nsn => do
    let s ← Act.get
    if nsn ≥ toInt s.nextReceiveSeq then
      Act.modify fun s => { s with nextReceiveSeq := toUnsigned (nsn - 1) }
    else Act.throw (.msgSequenceTooLow nsn s.nextReceiveSeq)
  | none => pure ()

/-- A state change made in one state only. -/
def changeFrom (old new : SessionState) : Method Unit := do
  let s ← Act.get
  if s.state = old then doStateChange new else pure ()

/-- `Session::handle_heartbeat`. -/
def handleHeartbeat (v : Env) (seqnum : Nat) (msg : Msg) : Method Bool := do
  let _ ← enforce v seqnum msg
  changeFrom .stTestRequestSent .stContinuous
  pure true

/-- `Session::handle_sequence_reset`. -/
def handleSequenceReset (v : Env) (seqnum : Nat) (msg : Msg) : Method Bool := do
  let _ ← enforce v seqnum msg
  takeNewSeqNo msg
  changeFrom .stResendRequestSent .stContinuous
  pure true

/-! ## Logon -/

/-- The comp ids of a Logon are not those the session expects; `SessionID::operator!=` is true only
when both differ. -/
def logonUnrecognised (v : Env) (s : Session) (msg : Msg) : Bool :=
  match v.role with
  | .initiator =>
    s.senderCompID ≠ msg.header.targetCompID.getD "" && s.targetCompID ≠ msg.header.senderCompID.getD ""
  | .acceptor => v.sci ≠ msg.header.targetCompID.getD ""

/-- A refused Logon. -/
def refuseLogon : Method Bool := do
  stop
  doStateChange .stSessionTerminated
  pure false

@[simp] theorem refuseLogon_apply (s : Session) : refuseLogon s =
    .ok false { s with shutdown := true, state := .stSessionTerminated } := rfl

/-- `handle_logon` of an initiator. -/
def logonInitiator (v : Env) (seqnum : Nat) (msg : Msg) : Method Bool := do
  let s ← Act.get
  if logonUnrecognised v s msg ∧ v.enforceCompids then refuseLogon
  else do
    let _ ← enforce v seqnum msg
    doStateChange .stContinuous
    pure true

/-- The persister of an acceptor, which the first Logon makes. -/
def openedPersist (v : Env) (s : Session) (resetGiven : Bool) : Option Store :=
  if v.ignoreLogonSequenceCheck.isSome ∧ s.persist = none then v.createPersister resetGiven
  else s.persist

def openPersister (v : Env) (resetGiven : Bool) : Method Unit :=
  Act.modify fun s => { s with persist := openedPersist v s resetGiven }

/-- `recover_seqnums`: what the control record says, when there is one. -/
def recoverSeqnums (v : Env) : Method Unit :=
  Act.modify fun s =>
    match s.persist.bind v.getControl with
    | some c => { s with nextSendSeq := c.1, nextReceiveSeq := c.2 }
    | none => s

/-- The counters an acceptor starts with. -/
def startSeqnums (v : Env) (resetGiven : Bool) : Method Unit :=
  if resetGiven then Act.modify fun s => { s with nextSendSeq := 1, nextReceiveSeq := 1 }
  else do
    recoverSeqnums v
    Act.modify fun s => { s with
      nextSendSeq := if v.reqNextSendSeq ≠ 0 then v.reqNextSendSeq else s.nextSendSeq
      nextReceiveSeq := if v.reqNextReceiveSeq ≠ 0 then v.reqNextReceiveSeq
        else s.nextReceiveSeq }

/-- An acceptor opens its persister and sets its counters. -/
def openSession (v : Env) (resetGiven : Bool) : Method Unit := do
  openPersister v resetGiven
  startSeqnums v resetGiven

/-- The end of `handle_logon` of an acceptor: the interval, the reply, and the schedule. -/
def replyLogon (v : Env) (msg : Msg) : Method Bool := do
  let hbi := msg.heartBtInt.getD 0
  Act.modify fun s => { s with hbInterval := hbi, hbInterval20pc := hbi + hbi / 5 }
  let _ ← send v (generateLogon hbi (msg.defaultApplVerID.getD "") v.logonHasDavi
    v.resetSequenceNumbers)
  doStateChange .stContinuous
  if v.loginSchedule = some false then refuseLogon else pure true

/-- `handle_logon` of an acceptor, from the authentication on. -/
def acceptLogon (v : Env) (seqnum : Nat) (msg : Msg) : Method Bool := do
  if v.authenticate msg then do
    Act.modify fun s => { s with
      senderCompID := msg.header.targetCompID.getD ""
      targetCompID := msg.header.senderCompID.getD "" }
    let _ ← enforce v seqnum msg
    replyLogon v msg
  else refuseLogon

/-- `handle_logon` of an acceptor. -/
def logonAcceptor (v : Env) (seqnum : Nat) (msg : Msg) : Method Bool := do
  let s ← Act.get
  let resetGiven := msg.resetSeqNumFlag = some true
  if logonUnrecognised v s msg ∧ v.enforceCompids then refuseLogon
  else if !v.clientOk (msg.header.senderCompID.getD "") then refuseLogon
  else do
    openSession v resetGiven
    acceptLogon v seqnum msg

/-- `Session::handle_logon`. -/
def handleLogon (v : Env) (seqnum : Nat) (msg : Msg) : Method Bool := do
  let s ← Act.get
  if s.state = .stContinuous then do
    -- the message type of the Logon goes to `send`, not to `generate_reject`
    let _ ← send v (generateReject seqnum (some "Already logged on") none)
    pure true
  else do
    doStateChange .stLogonReceived
    match v.role with
    | .initiator => logonInitiator v seqnum msg
    | .acceptor => logonAcceptor v seqnum msg

/-! ## `process` -/

/-- The handler of a message type; `handle_reject` does nothing and returns false. -/
def dispatch (v : Env) (seqnum : Nat) (msg : Msg) : Method Bool :=
  match msg.msgType with
  | .heartbeat => handleHeartbeat v seqnum msg
  | .testRequest => handleTestRequest v seqnum msg
  | .resendRequest => handleResendRequest v seqnum msg
  | .reject => pure false
  | .sequenceReset => handleSequenceReset v seqnum msg
  | .logout => handleLogout v seqnum msg
  | .logon => handleLogon v seqnum msg
  | .application _ => do
    let s ← Act.get
    if s.active then handleApplication v seqnum msg else pure false

/-- `++_next_receive_seq`. -/
def countReceived : Method Unit :=
  Act.modify fun s => { s with nextReceiveSeq := nextUnsigned s.nextReceiveSeq }

/-- What `process` does with a decoded message, inside its `try`. -/
def processMsg (v : Env) (seqnum : Nat) (msg : Msg) : Method Bool := do
  let result ← dispatch v seqnum msg
  countReceived
  updatePersistSeqnums v
  (if msg.msgType = .logout then stop else pure ())
  pure result

/-- How `process` returns: with the handler's result, true after a Reject, or false after an
exception. -/
inductive Exit where
  | handled (result : Bool)
  | rejected
  | failed
deriving DecidableEq, Repr

/-- The logoff of an exception that forces one. -/
def forcedLogoff (v : Env) (e : Exn) : Method Exit := do
  let s ← Act.get
  (if s.state = .stLogonReceived ∧ v.silentDisconnect = false then do
    doStateChange .stSessionTerminated
    let _ ← send v (generateLogout (some e.what)) 0 true
    doStateChange .stLogoffSent
  else pure ())
  if v.reliable then Act.throw e
  else do
    stop
    pure .failed

/-- The `catch` blocks of `process`; `msg` is `none` when the factory threw. -/
def caught (v : Env) (seqnum : Nat) (msg : Option Msg) (e : Exn) : Method Exit :=
  if e.isF8 then
    if e.forceLogoff then forcedLogoff v e
    else do
      let _ ← handleOutboundReject v seqnum msg e.what
      countReceived
      pure .rejected
  else pure .failed

/-- The exception of an inbound string without a `34=`. -/
def noSeqnum (text : String) : Exn :=
  .f8 s!"Invalid FIX Message: {text} at session.cpp:289" false

/-- `Session::process`. -/
def process (v : Env) (inb : Inbound) : Method Exit :=
  match inb.seqnum with
  | none => caught v 0 none (noSeqnum inb.text)
  | some seqnum =>
    match inb.result with
    | .error w => caught v seqnum none (codecExn w)
    | .ok msg => fun s =>
      match processMsg v seqnum msg s with
      | .ok result s' => .ok (.handled result) s'
      | .throw e s' => caught v seqnum (some msg) e s'

/-! ## The timer -/

/-- The watchdog half of `heartbeat_service`. -/
def watchReceived (v : Env) : Method Unit := do
  let s ← Act.get
  if (s.clock - s.lastReceived) / 1000 > s.hbInterval20pc then
    if s.state = .stTestRequestSent then do
      let _ ← send v (generateLogout (if v.silentDisconnect then none
        else some "Remote has ignored my test request. Aborting session...")) 0 true
      doStateChange .stLogoffSent
      stop
    else if s.state ≠ .stSessionTerminated then do
      let _ ← send v (generateTestRequest "TEST")
      doStateChange .stTestRequestSent
    else pure ()
  else pure ()

/-- `Session::heartbeat_service`; false when the session has been shut down. -/
def heartbeatService (v : Env) : Method Bool := do
  let s ← Act.get
  if s.isShutdown then pure false
  else if v.connected then do
    (if (s.clock - s.lastSent) / 1000 ≥ s.hbInterval then do
      let _ ← send v (generateHeartbeat "")
      pure ()
    else pure ())
    watchReceived v
    pure true
  else pure true

/-! ## The session as a system -/

/-- What reaches a session, and when: a string from the reader, or a timer tick. -/
inductive Event where
  | received (now : Nat) (inb : Inbound)
  | tick (now : Nat)

/-- The session after an event, however the event's method ended. -/
def step (v : Env) (s : Session) : Event → Session
  | .received now inb => (process v inb { s with clock := now, lastReceived := now }).state
  | .tick now => (heartbeatService v { s with clock := now }).state

end Fix8.Session
