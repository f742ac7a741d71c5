import Fix8.Session.State

/-!
# Sending

`send_process`, the one place a message gets its number, its times and its place in the store,
and `send` over it. Connections are not pipelined here: `write` runs `send_process` at once.

* `stampHeader`: the header part of `send_process`;
* `recordSent`: its end, the store and the counter;
* `sendProcess_frame`: what `send_process` leaves alone;
* `sendProcess_sends`: what it hands on.
-/

namespace Fix8.Session

open Lib

/-- The number `send_process` assigns: the custom one, or the next. -/
def assignedSeqnum (s : Session) (m : Msg) : Nat :=
  if m.customSeqnum ≠ 0 then m.customSeqnum else s.nextSendSeq

/-- The header part of `send_process` for a message that has a `MsgSeqNum` already, a resend: the
header and `is_dup`. -/
def stampResend (v : Env) (s : Session) (m : Msg) (h : Header) : Header × Bool :=
  let isDup := h.possDupFlag.isSome
  let p : Header × Bool :=
    if isDup then
      (if v.alwaysSeqnumAssign then { h with possDupFlag := none } else h, isDup)
    else if v.alwaysSeqnumAssign then (h, isDup)
    else ({ h with possDupFlag := some true }, true)
  -- a `sending_time` that is not there is default constructed: now
  let h := { p.1 with origSendingTime := some (h.sendingTime.getD s.clock) }
  (if v.alwaysSeqnumAssign then { h with msgSeqNum := some (assignedSeqnum s m) } else h, p.2)

/-- The header part of `send_process`: the header that goes out, and `is_dup`. -/
def stampHeader (v : Env) (s : Session) (m : Msg) : Header × Bool :=
  let h := { m.header with
    senderCompID := m.header.senderCompID <|> some s.senderCompID
    targetCompID := m.header.targetCompID <|> some s.targetCompID }
  let p : Header × Bool :=
    if h.msgSeqNum.isSome then stampResend v s m h
    else ({ h with msgSeqNum := some (assignedSeqnum s m) }, h.possDupFlag.isSome)
  ({ p.1 with sendingTime := some s.clock }, p.2)

/-- The message as it goes out. -/
def stamp (v : Env) (s : Session) (m : Msg) : Msg := { m with header := (stampHeader v s m).1 }

/-- `is_dup` at the end of `send_process`: what goes out is not recorded. -/
def isDup (v : Env) (s : Session) (m : Msg) : Bool := (stampHeader v s m).2

/-- What `send_process` puts into the store: the text `ptr` points to, of a message that is not
administrative, and the counters. -/
def persistSent (v : Env) (m : Msg) (ptr : Text) (s : Session) (st : Store) : Store :=
  let st := if m.isAdmin then st else st.putMessage s.nextSendSeq ptr
  st.putControl v.persister (nextUnsigned s.nextSendSeq) s.nextReceiveSeq

/-- The end of `send_process`: a message that is no duplicate is stored, and the counter moves on
unless the message has a number of its own. -/
def recordSent (v : Env) (m : Msg) (isDup : Bool) (ptr : Text) (s : Session) : Session :=
  if isDup then s else
    { s with
      persist := s.persist.map (persistSent v m ptr s)
      nextSendSeq :=
        if m.customSeqnum = 0 ∧ m.noIncrement = false ∧ m.msgType ≠ .sequenceReset then
          nextUnsigned s.nextSendSeq
        else s.nextSendSeq }

/-- The transmission of an encoded message at the end of a batch. A batch is appended to as a C
string; after it `ptr` points into the cleared buffer: to an empty text. -/
def transmit (v : Env) (m : Msg) (isDup : Bool) (s : Session) : Bool × Session :=
  match v.link s.writes with
  | .sent =>
    (true, recordSent v m isDup (if s.batchmsgsBuffer.isEmpty then [m.cstr] else [])
      { s with
        writes := s.writes + 1
        wire := s.wire ++
          (if s.batchmsgsBuffer.isEmpty then [m] else s.batchmsgsBuffer ++ [m.cstr])
        lastSent := s.clock
        batchmsgsBuffer := [] })
  | .failed => (false, { s with writes := s.writes + 1, batchmsgsBuffer := [] })
  | .threw =>
    (false, { s with
      writes := s.writes + 1
      batchmsgsBuffer :=
        if s.batchmsgsBuffer.isEmpty then [] else s.batchmsgsBuffer ++ [m.cstr] })

/-- `Session::send_process`: its result, and the session it leaves. -/
def sendProcess (v : Env) (m : Msg) (s : Session) : Bool × Session :=
  let out := stamp v s m
  let dup := isDup v s m
  if out.encodeErr.isSome then (false, s)
  else
    let s := { s with sends := s.sends ++ [out] }
    if out.endOfBatch then transmit v out dup s
    else (true, recordSent v out dup [out.cstr]
      { s with batchmsgsBuffer := s.batchmsgsBuffer ++ [out.cstr] })

/-- `Session::send`: it hands the message to `send_process`, which throws nothing. -/
def send (v : Env) (tosend : Msg) (customSeqnum : Nat := 0) (noIncrement : Bool := false) :
    Method Bool := fun s =>
  let p := sendProcess v { tosend with
    customSeqnum := if customSeqnum ≠ 0 then customSeqnum else tosend.customSeqnum
    noIncrement := noIncrement || tosend.noIncrement } s
  .ok p.1 p.2

/-- The loop of `FIXWriter::write_batch`; `result` counts the messages written. -/
def writeBatchFrom (v : Env) : List Msg → Nat → Session → Nat × Session
  | [], result, s => (result, s)
  | msg :: msgs, result, s =>
    let p := sendProcess v { msg with endOfBatch := msgs.isEmpty } s
    writeBatchFrom v msgs (if p.1 then result + 1 else result) p.2

/-- `Session::send_batch`, which is `FIXWriter::write_batch`. -/
def sendBatch (v : Env) (msgs : List Msg) (s : Session) : Nat × Session :=
  match msgs with
  | [] => (0, s)
  | [msg] => (if (sendProcess v msg s).1 then 1 else 0, (sendProcess v msg s).2)
  | _ => writeBatchFrom v msgs 0 s

/-! ## What sending leaves alone -/

theorem recordSent_sends {v : Env} {m : Msg} {isDup : Bool} {ptr : Text} {s : Session} :
    (recordSent v m isDup ptr s).sends = s.sends := by
  unfold recordSent
  split <;> rfl

theorem transmit_sends {v : Env} {m : Msg} {isDup : Bool} {s : Session} :
    (transmit v m isDup s).2.sends = s.sends := by
  unfold transmit
  cases v.link s.writes with
  | sent => exact recordSent_sends
  | failed => rfl
  | threw => rfl

/-- A message that encodes is handed on, stamped. -/
theorem sendProcess_sends {v : Env} {m : Msg} {s : Session} (h : m.encodeErr = none) :
    (sendProcess v m s).2.sends = s.sends ++ [stamp v s m] := by
  have he : (stamp v s m).encodeErr = none := h
  simp only [sendProcess, he, Option.isSome_none, Bool.false_eq_true, if_false]
  split
  · exact transmit_sends
  · exact recordSent_sends

/-- `f` does not look at what `send_process` writes. -/
def SendFrame {β : Type} (f : Session → β) : Prop :=
  ∀ s nextSendSeq persist buffer wire writes sends lastSent,
    f { s with
      nextSendSeq := nextSendSeq, persist := persist, batchmsgsBuffer := buffer, wire := wire
      writes := writes, sends := sends, lastSent := lastSent } = f s

section SendFrame
variable {β : Type} {f : Session → β} {v : Env} {s : Session} {m : Msg}

theorem recordSent_frame (h : SendFrame f) {isDup : Bool} {ptr : Text} :
    f (recordSent v m isDup ptr s) = f s := by
  unfold recordSent
  split
  · rfl
  · exact h s _ _ s.batchmsgsBuffer s.wire s.writes s.sends s.lastSent

theorem transmit_frame (h : SendFrame f) {isDup : Bool} : f (transmit v m isDup s).2 = f s := by
  unfold transmit
  cases v.link s.writes with
  | sent => exact (recordSent_frame h).trans (h s s.nextSendSeq s.persist _ _ _ s.sends _)
  | failed => exact h s s.nextSendSeq s.persist _ s.wire _ s.sends s.lastSent
  | threw => exact h s s.nextSendSeq s.persist _ s.wire _ s.sends s.lastSent

theorem sendProcess_frame (h : SendFrame f) : f (sendProcess v m s).2 = f s := by
  unfold sendProcess
  dsimp only
  split
  · rfl
  · have hs : ∀ l b, f { s with sends := l, batchmsgsBuffer := b } = f s :=
      fun l b => h s s.nextSendSeq s.persist b s.wire s.writes l s.lastSent
    split
    · exact (transmit_frame h).trans (hs _ s.batchmsgsBuffer)
    · exact (recordSent_frame h).trans (hs _ _)

theorem keeps_send (h : SendFrame f) {c : Nat} {n : Bool} : Act.Keeps f (send v m c n) :=
  fun _ => sendProcess_frame h

end SendFrame

end Fix8.Session
