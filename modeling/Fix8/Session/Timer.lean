import Fix8.Session.Process
import Fix8.Session.Schedule

/-!
# The timer of a session

`Timer<Session>`: a queue of events under a spin lock. The timer thread holds the lock while it
calls an event back, and the lock is not recursive, so that a callback that takes it again spins
for ever. Around the methods of the session stand the calls of the timer that they make.
-/

namespace Fix8.Session

open Lib

/-! ## The timer -/

/-- The two callbacks of a session. -/
inductive Callback where
  | heartbeatService
  | activationService
deriving DecidableEq, Repr

/-- `TimerEvent`; a time of 0 is an empty one. -/
structure TimerEvent where
  callback : Callback
  t : Nat := 0
  intervalMS : Nat := 0
  repeats : Bool := false
deriving DecidableEq, Repr

/-- A session with its timer. -/
structure Timed where
  session : Session
  queue : List TimerEvent := []
  /-- `_spin_lock` is held. -/
  locked : Bool := false

/-- What does not return: an exception, or a thread that spins on the lock. -/
inductive Halt where
  | exn (e : Exn)
  | spinning

/-- A method of the session that may call the timer. -/
abbrev TimedMethod (α : Type) := Act Timed Halt α

/-- A method that does not. -/
def onSession {α : Type} (m : Method α) : TimedMethod α := fun st =>
  match m st.session with
  | .ok a s => .ok a { st with session := s }
  | .throw e s => .throw (.exn e) { st with session := s }

namespace Timer

/-- What runs under an `f8_scoped_spin_lock`. -/
def guarded {α : Type} (m : TimedMethod α) : TimedMethod α := fun st =>
  if st.locked then .throw .spinning st
  else
    match m { st with locked := true } with
    | .ok a st => .ok a { st with locked := false }
    | .throw (.exn e) st => .throw (.exn e) { st with locked := false }
    | .throw .spinning st => .throw .spinning st

/-- `Timer::clear`. -/
def clear : TimedMethod Nat :=
  guarded fun st => .ok st.queue.length { st with queue := [] }

/-- `Timer::schedule`. -/
def schedule (what : TimerEvent) (timeToWait : Nat) : TimedMethod Bool := do
  let st ← Act.get
  let tofire := if timeToWait ≠ 0 then st.session.clock + timeToWait else 0
  let intervalMS := if timeToWait ≠ 0 then timeToWait else what.intervalMS
  guarded (Act.modify fun st =>
    { st with queue := st.queue ++ [{ what with t := tofire, intervalMS := intervalMS }] })
  pure true

/-- An event that may be on top of the priority queue: none is earlier. -/
def top (queue : List TimerEvent) (i : Nat) : Option TimerEvent :=
  queue[i]?.filter fun op => queue.all fun e => op.t ≤ e.t

/-- A round of `Timer::operator()`, with the `i`-th event of the queue on top. -/
def round (callback : Callback → TimedMethod Bool) (i : Nat) : TimedMethod Unit :=
  guarded do
    let st ← Act.get
    match top st.queue i with
    | none => pure ()
    | some op =>
      if op.t = 0 then Act.modify fun st => { st with queue := st.queue.eraseIdx i }
      else if op.t ≤ st.session.clock then do
        Act.modify fun st => { st with queue := st.queue.eraseIdx i }
        let result ← callback op.callback
        if result && op.repeats then
          Act.modify fun st' => { st' with
            queue := st'.queue ++ [{ op with t := st.session.clock + op.intervalMS }] }
        else pure ()
      else pure ()

end Timer

/-! ## The methods that call it -/

/-- `_hb_processor`. -/
def hbProcessor : TimerEvent := { callback := .heartbeatService, repeats := true }

/-- `Session::stop`; what it stops besides is not the timer. -/
def stopTimed (v : Env) : TimedMethod Unit := do
  let st ← Act.get
  if st.session.shutdown then pure ()
  else do
    onSession stop
    if v.role = .initiator then do
      let _ ← Timer.clear
      pure ()
    else pure ()

/-- The watchdog half of `heartbeat_service`. -/
def watchTimed (v : Env) : TimedMethod Unit := do
  let st ← Act.get
  let s := st.session
  if (s.clock - s.lastReceived) / 1000 > s.hbInterval20pc then
    if s.state = .stTestRequestSent then do
      let _ ← onSession (send v (generateLogout (if v.silentDisconnect then none
        else some "Remote has ignored my test request. Aborting session...")) 0 true)
      onSession (doStateChange .stLogoffSent)
      stopTimed v
    else if s.state ≠ .stSessionTerminated then do
      let _ ← onSession (send v (generateTestRequest "TEST"))
      onSession (doStateChange .stTestRequestSent)
    else pure ()
  else pure ()

/-- `Session::heartbeat_service`. -/
def heartbeatTimed (v : Env) : TimedMethod Bool := do
  let st ← Act.get
  if st.session.isShutdown then pure false
  else if v.connected then do
    (if (st.session.clock - st.session.lastSent) / 1000 ≥ st.session.hbInterval then do
      let _ ← onSession (send v (generateHeartbeat ""))
      pure ()
    else pure ())
    watchTimed v
    pure true
  else pure true

/-- `Session::activation_service`; the schedule counts in nanoseconds. -/
def activationService (v : Env) (sch : Schedule) : Method Bool := do
  let s ← Act.get
  if s.isShutdown then pure false
  else if v.connected then do
    Act.modify fun s =>
      { s with active := (sch.test (s.clock * 1000000) s.active).getD s.active }
    pure true
  else pure true

/-- The callback of an event. -/
def callback (v : Env) (sch : Schedule) : Callback → TimedMethod Bool
  | .heartbeatService => heartbeatTimed v
  | .activationService => onSession (activationService v sch)

/-- `handle_logon` comes to its end, where it schedules the heartbeat service. -/
def logonDone (v : Env) (inb : Inbound) (s : Session) : Bool :=
  match inb.seqnum, inb.result with
  | some seqnum, .ok msg =>
    msg.msgType = .logon && s.state ≠ .stContinuous &&
      match handleLogon v seqnum msg s with
      | .ok result _ => result
      | .throw _ _ => false
  | _, _ => false

/-- `Session::process`: the timer is called at the end of `handle_logon`, and by the first `stop`. -/
def processTimed (v : Env) (inb : Inbound) : TimedMethod Exit := do
  let st ← Act.get
  (if logonDone v inb st.session then do
    let _ ← Timer.schedule hbProcessor 1000
    pure ()
  else pure ())
  (if !st.session.shutdown && (process v inb st.session).state.shutdown && v.role = .initiator then do
    let _ ← Timer.clear
    pure ()
  else pure ())
  onSession (process v inb)

/-! ## The session and its timer as a system -/

/-- What happens to a session: the application sends or stops, the reader has a string, the timer
thread has a round. -/
inductive TimedCall where
  | send (now : Nat) (m : Msg)
  | received (now : Nat) (inb : Inbound)
  | round (now : Nat) (i : Nat)
  | stop

/-- The session at a time. -/
def Timed.at (st : Timed) (now : Nat) : Timed := { st with session := { st.session with clock := now } }

/-- The session and its timer after a call. -/
def timedStep (v : Env) (sch : Schedule) (st : Timed) : TimedCall → Timed
  | .send now m => { st with session := (sendProcess v m { st.session with clock := now }).2 }
  | .received now inb => (processTimed v inb
      { st with session := { st.session with clock := now, lastReceived := now } }).state
  | .round now i => (Timer.round (callback v sch) i (st.at now)).state
  | .stop => (stopTimed v st).state

end Fix8.Session
