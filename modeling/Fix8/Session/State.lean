import Fix8.Lib.Act
import Fix8.Lib.OrdMap
import Fix8.Session.Msg

/-!
# The state of a session

* `SessionState`: `States::SessionStates`;
* `Store`: what a persister holds;
* `Env`: what a session reads and never writes: its parameters, its configuration, and the ends of
  the calls that leave the library (socket, application, authentication);
* `Session`: what a session writes.
-/

namespace Fix8

open Lib

/-- `States::SessionStates`. -/
inductive SessionState where
  | stNone
  | stContinuous
  | stSessionTerminated
  | stWaitForLogon
  | stNotLoggedIn
  | stLogonSent
  | stLogonReceived
  | stLogoffSent
  | stLogoffReceived
  | stTestRequestSent
  | stSequenceResetSent
  | stSequenceResetReceived
  | stResendRequestSent
  | stResendRequestReceived
deriving DecidableEq, Repr

namespace SessionState

/-- `States::is_live`. -/
def isLive (ss : SessionState) : Bool := ss ≠ stNone && ss ≠ stSessionTerminated

/-- `States::is_established`. -/
def isEstablished (ss : SessionState) : Bool :=
  ss ≠ stWaitForLogon && ss ≠ stNotLoggedIn && ss ≠ stLogonSent && ss.isLive

end SessionState

/-! ## The persister -/

/-- The persisters, which differ in their control record. -/
inductive PersisterKind where
  | memory
  | file
deriving DecidableEq, Repr

/-- A record of a persister: under 0 the control record, elsewhere a message text. -/
inductive Rec where
  | control (senderSeqnum targetSeqnum : Nat)
  | message (what : Text)
deriving DecidableEq

/-- The text a record is handed out as; a control record is no message text. -/
def Rec.text : Rec → Text
  | control _ _ => []
  | message what => what

/-- `MemoryPersister::_store`, or the contents of a `FilePersister` by its index. -/
abbrev Store := OrdMap Nat Rec

namespace Store

/-- `MemoryPersister::put` of a message. -/
def putMessage (st : Store) (seqnum : Nat) (what : Text) : Store :=
  if seqnum = 0 then st else st.insert seqnum (.message what)

/-- `get` of a message. -/
def getMessage (st : Store) (seqnum : Nat) : Option Text :=
  if seqnum = 0 then none else (st.get? seqnum).map Rec.text

/-- `put` of a control record. `MemoryPersister` inserts, so its first one stays;
`FilePersister` overwrites. -/
def putControl (kind : PersisterKind) (st : Store) (senderSeqnum targetSeqnum : Nat) : Store :=
  match kind with
  | .memory => st.insert 0 (.control senderSeqnum targetSeqnum)
  | .file =>
    (st.insert 0 (.control senderSeqnum targetSeqnum)).replace 0
      (.control senderSeqnum targetSeqnum)

theorem get?_putMessage {st : Store} {n k : Nat} {what : Text} :
    (st.putMessage n what).get? k =
      if k = n ∧ n ≠ 0 then some ((st.get? n).getD (.message what)) else st.get? k := by
  unfold putMessage
  by_cases hn : n = 0
  · rw [if_pos hn, if_neg fun h => h.2 hn]
  · rw [if_neg hn, OrdMap.get?_insert]
    simp only [hn, ne_eq, not_false_eq_true, and_true]

theorem get?_putControl_of_ne {kind : PersisterKind} {st : Store} {a b k : Nat} (hk : k ≠ 0) :
    (st.putControl kind a b).get? k = st.get? k := by
  cases kind with
  | memory => exact OrdMap.get?_insert_of_ne hk
  | file =>
    unfold putControl
    rw [OrdMap.get?_replace, if_neg hk]
    exact OrdMap.get?_insert_of_ne hk

/-- `MemoryPersister::get_last_seqnum`. -/
def getLastSeqnum (st : Store) : Nat := st.lastKey?.getD 0

/-- The loop of `find_nearest_highest_seqnum`, over the `fuel` numbers from `startseqnum` on. -/
def nearestFrom (st : Store) : Nat → Nat → Nat
  | 0, _ => 0
  | fuel + 1, startseqnum =>
    if (st.get? startseqnum).isSome then startseqnum else nearestFrom st fuel (startseqnum + 1)

/-- `MemoryPersister::find_nearest_highest_seqnum`: the loop runs over `requested..last`. -/
def findNearestHighestSeqnum (st : Store) (requested last : Nat) : Nat :=
  if last ≠ 0 then st.nearestFrom (last + 1 - requested) requested else 0

end Store

/-! ## Environment and state -/

inductive Role where
  | initiator
  | acceptor
deriving DecidableEq, Repr

/-- How a write to the socket ends: all bytes out, `send` returning 0, or an exception. -/
inductive Link where
  | sent
  | failed
  | threw
deriving DecidableEq, Repr

/-- What a session reads and does not write. -/
structure Env where
  role : Role
  /-- `_sci`, the comp id of an acceptor. -/
  sci : String
  alwaysSeqnumAssign : Bool := false
  silentDisconnect : Bool := false
  reliable : Bool := false
  enforceCompids : Bool := true
  resetSequenceNumbers : Bool := false
  /-- `_sf` and its `ignore_logon_sequence_check` flag; `none` when there is no `SessionConfig`. -/
  ignoreLogonSequenceCheck : Option Bool := none
  reqNextSendSeq : Nat := 0
  reqNextReceiveSeq : Nat := 0
  /-- The sender is in the client list with this peer's address, or the list is empty. -/
  clientOk : String → Bool := fun _ => true
  authenticate : Msg → Bool := fun _ => true
  /-- The login schedule: `none` when it is not valid, else what its test says. -/
  loginSchedule : Option Bool := none
  /-- `SessionConfig::create_persister`, given the reset flag of the Logon. -/
  createPersister : Bool → Option Store := fun _ => none
  /-- The schema's Logon has a `DefaultApplVerID`. -/
  logonHasDavi : Bool := true
  /-- `Connection::is_connected`. -/
  connected : Bool := true
  /-- How the n-th write to the socket ends. -/
  link : Nat → Link := fun _ => .sent
  /-- How the application ends, after its `enforce`, on a message with this number. -/
  application : Nat → Msg → Except Exn Bool := fun _ _ => .ok true
  /-- What `Message::factory` makes of a text that is not the text of one message. -/
  factoryOther : Text → Except String Msg := fun _ => .error "Invalid FIX Message"
  /-- The class of the session's persister. -/
  persister : PersisterKind := .memory
  /-- The first two words of the `std::string` object that holds the control record: what
  `MemoryPersister::get(unsigned&, unsigned&)` reads. -/
  controlWords : Nat × Nat := (0, 0)
  /-- How a `UTCTimestamp` prints a time. -/
  timeText : Nat → String := fun t => toString t

/-- What a session writes. -/
structure Session where
  nextSendSeq : Nat
  nextReceiveSeq : Nat
  state : SessionState
  active : Bool := true
  /-- The `shutdown` control flag. -/
  shutdown : Bool := false
  /-- `_sid`. -/
  senderCompID : String
  targetCompID : String
  /-- The clock, `_last_sent` and `_last_received`, in milliseconds. -/
  clock : Nat := 0
  lastSent : Nat := 0
  lastReceived : Nat := 0
  hbInterval : Nat := 30
  hbInterval20pc : Nat := 36
  persist : Option Store := none
  batchmsgsBuffer : Text := []
  /-- What went out on the socket, and in how many writes. -/
  wire : Text := []
  writes : Nat := 0
  /-- What `send_process` has encoded, sent or not. -/
  sends : Text := []
  /-- The calls of `handle_application`. -/
  applied : List (Nat × Msg) := []
deriving DecidableEq

/-- `is_shutdown`. -/
def Session.isShutdown (s : Session) : Bool := s.shutdown || s.state = .stSessionTerminated

/-- `get` of the control record. -/
def Env.getControl (v : Env) (st : Store) : Option (Nat × Nat) :=
  match st.get? 0 with
  | none => none
  | some r =>
    match v.persister, r with
    | .file, .control senderSeqnum targetSeqnum => some (senderSeqnum, targetSeqnum)
    | _, _ => some v.controlWords

/-- A session method: it reads and writes the session, and returns or throws. -/
abbrev Method (α : Type) := Act Session Exn α

/-- `do_state_change`. -/
def doStateChange (newState : SessionState) : Method Unit :=
  Act.modify fun s => { s with state := newState }

/-- `Message::factory` on a stored text. -/
def factory (v : Env) : Text → Except String Msg
  | [m] => m.decoded
  | t => (v.factoryOther t).bind Msg.decoded

/-- Return, or throw, as computed. -/
def ofExcept {α : Type} : Except Exn α → Method α
  | .ok a => pure a
  | .error e => Act.throw e

/-- The exception of an end. -/
def endError {α : Type} : Except Exn α → Option Exn
  | .ok _ => none
  | .error e => some e

/-- The codec's exceptions: `f8Exception`s that force no logoff. -/
def codecExn (what : String) : Exn := .f8 what false

@[simp] theorem doStateChange_apply (st : SessionState) (s : Session) :
    doStateChange st s = .ok () { s with state := st } := rfl

@[simp] theorem doStateChange_bind_apply {α : Type} (st : SessionState) (k : Unit → Method α)
    (s : Session) : (doStateChange st >>= k) s = k () { s with state := st } := rfl

@[simp] theorem ofExcept_ok {α : Type} (a : α) : ofExcept (.ok a) = pure a := rfl
@[simp] theorem ofExcept_error {α : Type} (e : Exn) :
    ofExcept (.error e : Except Exn α) = Act.throw e := rfl

end Fix8
