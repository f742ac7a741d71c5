import Fix8.Session.Process

/-!
# Two sessions

Two sessions joined by a channel in each direction. A channel loses nothing and keeps the order, so
what it holds is what one session has put on its wire and the other has not taken.

* `inFlight`: what a session has sent and its peer has not taken, a batch it holds back included;
* `act`, `move`: the steps of one party, and of the pair.
-/

namespace Fix8.Session

/-- Two sessions, and how many messages each has taken from the other's wire. -/
structure Pair where
  a : Session
  b : Session
  takenByA : Nat := 0
  takenByB : Nat := 0

/-- What a session has sent: on its wire, and behind that in its batch. -/
def outgoing (s : Session) : Text := s.wire ++ s.batchmsgsBuffer

/-- What a session has sent and its peer, which has taken `taken` messages, has not. -/
def inFlight (s : Session) (taken : Nat) : Text := (outgoing s).drop taken

/-- What a party does: it sends a message, its timer fires, or its reader takes the next message
from the channel. -/
inductive Deed where
  | send (m : Msg)
  | tick
  | take

/-- A party after its deed, with what it has taken from its `peer`. -/
def act (v : Env) (now : Nat) (s peer : Session) (taken : Nat) : Deed → Session × Nat
  | .send m => ((sendProcess v m { s with clock := now }).2, taken)
  | .tick => (step v s (.tick now), taken)
  | .take =>
    match peer.wire[taken]? with
    | none => (s, taken)
    | some m => (step v s (.received now m.inbound), taken + 1)

inductive Party where
  | a
  | b
deriving DecidableEq, Repr

/-- A step of the pair. -/
structure Move where
  party : Party
  now : Nat
  deed : Deed

/-- The pair after a step. -/
def move (vA vB : Env) (p : Pair) (mv : Move) : Pair :=
  match mv.party with
  | .a =>
    let q := act vA mv.now p.a p.b p.takenByA mv.deed
    { p with a := q.1, takenByA := q.2 }
  | .b =>
    let q := act vB mv.now p.b p.a p.takenByB mv.deed
    { p with b := q.1, takenByB := q.2 }

/-! ## Exchanges without logon, logout, reset and resend -/

/-- Heartbeats, test requests, rejects, and what is no session message. -/
def ordinaryType : MsgType → Bool
  | .heartbeat => true
  | .testRequest => true
  | .reject => true
  | .application _ => true
  | _ => false

/-- A message that was not sent before, of the session's own comp ids. -/
structure New (s : Session) (m : Msg) : Prop where
  msgType : ordinaryType m.msgType = true
  msgSeqNum : m.header.msgSeqNum = none
  possDupFlag : m.header.possDupFlag = none
  senderCompID : m.header.senderCompID = none ∨ m.header.senderCompID = some s.senderCompID
  targetCompID : m.header.targetCompID = none ∨ m.header.targetCompID = some s.targetCompID
  customSeqnum : m.customSeqnum = 0

/-- The timer gives the peer up: its test request was not answered. -/
def LogsOut (s : Session) (now : Nat) : Prop :=
  (now - s.lastReceived) / 1000 > s.hbInterval20pc ∧ s.state = .stTestRequestSent

/-- The party of a step. -/
def Pair.of (p : Pair) : Party → Session
  | .a => p.a
  | .b => p.b

/-- The message that a party takes next. -/
def Pair.next? (p : Pair) : Party → Option Msg
  | .a => p.b.wire[p.takenByA]?
  | .b => p.a.wire[p.takenByB]?

/-- The step sends a new message, takes one whose first `34=` is that of its MsgSeqNum, or is a timer
that does not give the peer up. -/
def OrdinaryMove (p : Pair) (mv : Move) : Prop :=
  match mv.deed with
  | .send m => New (p.of mv.party) m
  | .tick => ¬ LogsOut (p.of mv.party) mv.now
  | .take => ∀ m ∈ p.next? mv.party, m.Clear

/-- Both parties have numbers for a step: it sends two messages at most, and an `int` shows their
numbers. -/
def InRange (p : Pair) : Prop :=
  p.a.nextSendSeq + 2 < 2147483648 ∧ p.b.nextSendSeq + 2 < 2147483648

instance (p : Pair) : Decidable (InRange p) := inferInstanceAs (Decidable (_ ∧ _))

/-- The step sends nothing with `no_increment`. -/
def Increments (mv : Move) : Prop :=
  match mv.deed with
  | .send m => m.noIncrement = false
  | _ => True

/-- The application throws only exceptions that are answered with a Reject. -/
def Rejecting (v : Env) : Prop := ∀ n m e, v.application n m = .error e → e.isReject = true

end Fix8.Session
