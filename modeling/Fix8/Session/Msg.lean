import Fix8.Codec.Decode

/-!
# Messages as a session sees them

A session reads and writes a few header fields and a few body fields of a message; the rest of a
message is its `payload`. A message is taken with what the codec does to it (`encodeErr`,
`decodeErr`: the codec throws no exception that forces a logoff), and a wire text is the list of
the messages in it.

The counters of a session are `unsigned`: naturals that wrap at 2^32 (`nextUnsigned`). MsgSeqNum has
the number that the session gave it; the body fields that are made of counters (NewSeqNo,
BeginSeqNo, EndSeqNo, RefSeqNum) are `int`s, as MsgSeqNum is where it is printed, and negative from
2^31 on (`toInt`).

* `toInt`, `toUnsigned`, `nextUnsigned`: `unsigned` to `int` and back, and plus one;
* `Msg.inbound`: a message as an inbound string, with the number that `process` reads in its text;
* `Msg.Clear`: that number is its MsgSeqNum's.
-/

namespace Fix8

/-- The exceptions that reach `Session::process`. -/
inductive Exn where
  | invalidMsgSequence (received expected : Nat)
  | msgSequenceTooLow (received : Int) (expected : Nat)
  | badSendingTime (what : String)
  | badCompidId (what : String)
  | logfile (what : String)
  /-- Any other `f8Exception`. -/
  | f8 (what : String) (forceLogoff : Bool)
  /-- A Poco exception. -/
  | net (what : String)
  /-- Any other `std::exception`. -/
  | std (what : String)
deriving DecidableEq, Repr

namespace Exn

/-- `f8Exception::what`, as `f8Exception::format` builds it. -/
def what : Exn → String
  | invalidMsgSequence r e => s!"Invalid Sequence number, received: {r} expected: {e}"
  | msgSequenceTooLow r e => s!"Message Sequence too low, received: {r} expected: {e}"
  | badSendingTime w => s!"Bad Sending Time: {w}"
  | badCompidId w => s!"Invalid CompId: {w}"
  | logfile w => s!"Error opening logfile: {w}"
  | f8 w _ => w
  | net w => w
  | std w => w

/-- `f8Exception::force_logoff`; what is no `f8Exception` has none. -/
def forceLogoff : Exn → Bool
  | invalidMsgSequence .. => true
  | msgSequenceTooLow .. => true
  | badSendingTime _ => true
  | badCompidId _ => true
  | f8 _ b => b
  | _ => false

/-- Caught as `f8Exception` by `process` (which takes a `LogfileException` first). -/
def isF8 : Exn → Bool
  | logfile _ => false
  | net _ => false
  | std _ => false
  | _ => true

/-- Answered by `process` with a Reject. -/
def isReject (e : Exn) : Bool := e.isF8 && !e.forceLogoff

end Exn

/-- A message type: the ones `process` dispatches on, and every other. -/
inductive MsgType where
  | heartbeat
  | testRequest
  | resendRequest
  | reject
  | sequenceReset
  | logout
  | logon
  | application (t : String)
deriving DecidableEq, Repr

/-- `Message::get_msgtype`. -/
def MsgType.text : MsgType → String
  | heartbeat => "0"
  | testRequest => "1"
  | resendRequest => "2"
  | reject => "3"
  | sequenceReset => "4"
  | logout => "5"
  | logon => "A"
  | application t => t

/-- The header fields a session reads and writes; times are in milliseconds. -/
structure Header where
  msgSeqNum : Option Nat := none
  senderCompID : Option String := none
  targetCompID : Option String := none
  possDupFlag : Option Bool := none
  sendingTime : Option Nat := none
  origSendingTime : Option Nat := none
deriving DecidableEq, Repr

/-- A message. `NewSeqNo`, `BeginSeqNo`, `EndSeqNo` and `RefSeqNum` are `int` fields of the
schema. -/
structure Msg where
  msgType : MsgType
  isAdmin : Bool
  header : Header := {}
  -- header fields between TargetCompID and MsgSeqNum, such as OnBehalfOfCompID
  frontFields : List (Nat × String) := []
  -- body
  newSeqNo : Option Int := none
  gapFillFlag : Option Bool := none
  beginSeqNo : Option Int := none
  endSeqNo : Option Int := none
  testReqID : Option String := none
  refSeqNum : Option Int := none
  text : Option String := none
  refMsgType : Option String := none
  heartBtInt : Option Nat := none
  encryptMethod : Option Nat := none
  defaultApplVerID : Option String := none
  resetSeqNumFlag : Option Bool := none
  payload : String := ""
  -- what `Message::encode` throws on the message and `Message::factory` on its text
  encodeErr : Option String := none
  decodeErr : Option String := none
  -- where the encoded text has a NUL: what `Message::factory` throws on the text before it
  nulErr : Option String := none
  -- members of `Message` that are not on the wire
  customSeqnum : Nat := 0
  noIncrement : Bool := false
  endOfBatch : Bool := true
deriving DecidableEq, Repr

/-- The first mandatory header field that is not there, as `FieldTraits::find_missing` names it. -/
def Header.findMissing (h : Header) : Option String :=
  if h.msgSeqNum.isNone then some "MsgSeqNum (34)"
  else if h.senderCompID.isNone then some "SenderCompID (49)"
  else if h.sendingTime.isNone then some "SendingTime (52)"
  else if h.targetCompID.isNone then some "TargetCompID (56)"
  else none

/-- The message without the members that are not on the wire. -/
def Msg.onWire (m : Msg) : Msg :=
  { m with customSeqnum := 0, noIncrement := false, endOfBatch := true }

/-- `Message::factory` on the text of a message: its exception, or the message. -/
def Msg.decoded (m : Msg) : Except String Msg :=
  match m.decodeErr, m.header.findMissing with
  | some w, _ => .error w
  | none, some f => .error s!"Missing Mandatory Field: {f}"
  | none, none => .ok m.onWire

/-- The text of a message taken as a C string: cut at a NUL. -/
def Msg.cstr (m : Msg) : Msg :=
  match m.nulErr with
  | none => m
  | some w => { m with decodeErr := some w, nulErr := none }

/-- A wire text: the messages whose bytes it concatenates. -/
abbrev Text := List Msg

/-- An inbound string, as `process` reads it: the string, the number after its first `34=` (`none`
when it has no `34=`), and what `Message::factory` makes of it. -/
structure Inbound where
  text : String := ""
  seqnum : Option Nat
  result : Except String Msg

/-! ## Machine integers -/

/-- `unsigned` to `int`. -/
def toInt (n : Nat) : Int := (n : Int).bmod 4294967296

theorem toInt_of_lt {n : Nat} (h : n < 2147483648) : toInt n = n := by
  unfold toInt
  rw [Int.bmod_eq_of_le (by omega) (by omega)]

/-- `int` to `unsigned`. -/
def toUnsigned (i : Int) : Nat := (i % 4294967296).toNat

theorem toUnsigned_natCast {n : Nat} (h : n < 4294967296) : toUnsigned (n : Int) = n := by
  unfold toUnsigned
  omega

theorem toUnsigned_of_nonneg {i : Int} (h : 0 ≤ i) (hlt : i < 4294967296) :
    toUnsigned i = i.toNat := by
  unfold toUnsigned
  rw [Int.emod_eq_of_lt h hlt]

/-- `n + 1` of an `unsigned`. -/
def nextUnsigned (n : Nat) : Nat := (n + 1) % 4294967296

theorem nextUnsigned_of_lt {n : Nat} (h : n + 1 < 4294967296) : nextUnsigned n = n + 1 :=
  Nat.mod_eq_of_lt h

theorem nextUnsigned_ne (n : Nat) : nextUnsigned n ≠ n := by
  unfold nextUnsigned
  omega

/-- What `process` counts behind the number below a new one. -/
theorem nextUnsigned_toUnsigned (i : Int) : nextUnsigned (toUnsigned (i - 1)) = toUnsigned i := by
  unfold nextUnsigned toUnsigned
  omega

/-! ## The number of an inbound message -/

open Codec (F8String ascii findText fieldSeparator assignmentSeparator)

/-- An element of a text. -/
def element (tag : Nat) (value : F8String) : F8String :=
  Codec.itoa tag ++ assignmentSeparator :: (value ++ [fieldSeparator])

/-- The text of a message from MsgType up to MsgSeqNum; the two fields before these have no
`34=`. The header is encoded in the order of the schema. -/
def Msg.frontText (m : Msg) : F8String :=
  element 35 (ascii m.msgType.text) ++
    ((m.header.senderCompID.elim [] fun id => element 49 (ascii id)) ++
      ((m.header.targetCompID.elim [] fun id => element 56 (ascii id)) ++
        m.frontFields.flatMap fun f => element f.1 (ascii f.2)))

/-- The text up to the end of MsgSeqNum, which every message that is sent has. -/
def Msg.numberedText (m : Msg) : F8String :=
  m.frontText ++ m.header.msgSeqNum.elim [] fun n => element 34 (Codec.itoaInt (toInt n))

/-- The inbound string that is the text of `m`. -/
def Msg.inbound (m : Msg) : Inbound :=
  { seqnum := (Codec.processSeqnum m.numberedText).toOption, result := m.decoded }

/-- The first `34=` of the text is that of MsgSeqNum. -/
def Msg.Clear (m : Msg) : Prop :=
  findText (ascii "34=") (m.frontText ++ ascii "34=") = some m.frontText.length

instance (m : Msg) : Decidable m.Clear := inferInstanceAs (Decidable (_ = _))

/-! ## The messages a session makes -/

def generateHeartbeat (testReqID : String) : Msg :=
  { msgType := .heartbeat, isAdmin := true,
    testReqID := if testReqID.isEmpty then none else some testReqID }

def generateReject (seqnum : Nat) (what : Option String) (msgtype : Option String) : Msg :=
  { msgType := .reject, isAdmin := true, refSeqNum := some (toInt seqnum), text := what,
    refMsgType := msgtype }

def generateTestRequest (testReqID : String) : Msg :=
  { msgType := .testRequest, isAdmin := true, testReqID := some testReqID }

/-- `davi` is added when the schema's Logon has the field (`legal`). -/
def generateLogon (heartbtint : Nat) (davi : String) (legal reset : Bool) : Msg :=
  { msgType := .logon, isAdmin := true, heartBtInt := some heartbtint, encryptMethod := some 0,
    defaultApplVerID := if !davi.isEmpty && legal then some davi else none,
    resetSeqNumFlag := if reset then some true else none }

def generateLogout (msgstr : Option String) : Msg :=
  { msgType := .logout, isAdmin := true, text := msgstr }

/-- The second argument defaults to 0: up to the last message. -/
def generateResendRequest (first : Nat) (last : Nat := 0) : Msg :=
  { msgType := .resendRequest, isAdmin := true, beginSeqNo := some (toInt first),
    endSeqNo := some (toInt last) }

def generateSequenceReset (newseqnum : Nat) (gapfillflag : Bool := false) : Msg :=
  { msgType := .sequenceReset, isAdmin := true, newSeqNo := some (toInt newseqnum),
    gapFillFlag := if gapfillflag then some true else none }

end Fix8
