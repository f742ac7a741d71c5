import Fix8.Session.Process

/-!
# What `enforce` does

`enforce` throws before it has written anything, or returns and has written only for a gap found
in `st_continuous`: one ResendRequest and the new state.

* `enforceEnd`: its result as a function of the session and the message;
* `enforceState`: the session it leaves;
* **`enforce_eq`**: the two together are `enforce`.
-/

namespace Fix8.Session

open Lib

/-- The exception of `compid_check`, if any. -/
def compidEnd (v : Env) (s : Session) (msg : Msg) : Option Exn :=
  if s.state ≠ .stLogonReceived ∧ v.enforceCompids then
    if msg.header.targetCompID.getD "" ≠ s.senderCompID then
      some (.badCompidId (msg.header.targetCompID.getD ""))
    else if msg.header.senderCompID.getD "" ≠ s.targetCompID then
      some (.badCompidId (msg.header.senderCompID.getD ""))
    else none
  else none

/-- The exception of `sequence_check` on a number below the expected one, if any. -/
def lowEnd (v : Env) (s : Session) (seqnum : Nat) (msg : Msg) : Option Exn :=
  if msg.header.possDupFlag ≠ some true then some (.msgSequenceTooLow seqnum s.nextReceiveSeq)
  else match msg.header.origSendingTime with
    | some ost =>
      if ost > msg.header.sendingTime.getD s.clock then some (.badSendingTime (v.timeText ost)) else none
    | none => none

/-- How `sequence_check` ends. -/
def sequenceEnd (v : Env) (s : Session) (seqnum : Nat) (msg : Msg) : Except Exn Bool :=
  if seqnum > s.nextReceiveSeq then
    if s.state = .stContinuous ∨ v.ignoreLogonSequenceCheck = some true then .ok false
    else .error (.invalidMsgSequence seqnum s.nextReceiveSeq)
  else if seqnum < s.nextReceiveSeq then
    match lowEnd v s seqnum msg with
    | some e => .error e
    | none => .ok true
  else .ok true

/-- The session after a ResendRequest for a gap. -/
def askResend (v : Env) (s : Session) : Session :=
  { (sendProcess v (generateResendRequest s.nextReceiveSeq) s).2 with
    state := .stResendRequestSent }

/-- The session `sequence_check` leaves. -/
def sequenceState (v : Env) (s : Session) (seqnum : Nat) : Session :=
  if seqnum > s.nextReceiveSeq ∧ s.state = .stContinuous then askResend v s else s

/-- How `enforce` ends. -/
def enforceEnd (v : Env) (s : Session) (seqnum : Nat) (msg : Msg) : Except Exn Bool :=
  if s.state.isEstablished then
    match compidEnd v s msg with
    | some e => .error e
    | none =>
      if msg.msgType = .sequenceReset then .ok true
      else (sequenceEnd v s seqnum msg).map (!·)
  else .ok true

/-- The session `enforce` leaves. -/
def enforceState (v : Env) (s : Session) (seqnum : Nat) (msg : Msg) : Session :=
  if s.state.isEstablished ∧ compidEnd v s msg = none ∧ msg.msgType ≠ .sequenceReset then
    sequenceState v s seqnum
  else s

section
variable {v : Env} {s : Session} {seqnum : Nat} {msg : Msg}

theorem compidCheck_eq : (if s.state ≠ .stLogonReceived then compidCheck v msg else pure ()) s =
    match compidEnd v s msg with
    | some e => .throw e s
    | none => .ok () s := by
  unfold compidEnd compidCheck
  by_cases h1 : s.state = .stLogonReceived
  · simp [h1]
  · by_cases h2 : v.enforceCompids
    · by_cases h3 : msg.header.targetCompID.getD "" = s.senderCompID
      · by_cases h4 : msg.header.senderCompID.getD "" = s.targetCompID
        · simp [h1, h2, h3, h4]
        · simp [h1, h2, h3, h4]
      · simp [h1, h2, h3]
    · simp [h1, h2]

theorem lowCheck_eq : lowCheck v seqnum msg s =
    match lowEnd v s seqnum msg with
    | some e => .throw e s
    | none => .ok true s := by
  unfold lowEnd lowCheck
  simp only [Act.get_bind_apply]
  split
  · rfl
  · cases msg.header.origSendingTime with
    | none => rfl
    | some ost =>
      dsimp only
      split <;> rfl

theorem gapCheck_eq : gapCheck v seqnum s =
    if s.state = .stContinuous then .ok false (askResend v s)
    else if v.ignoreLogonSequenceCheck = some true then .ok false s
    else .throw (.invalidMsgSequence seqnum s.nextReceiveSeq) s := by
  unfold gapCheck
  simp only [Act.get_bind_apply]
  split
  · rfl
  · by_cases h : v.ignoreLogonSequenceCheck = some true
    · rw [if_pos h, if_neg (not_not.2 h)]
      rfl
    · rw [if_neg h, if_pos h]
      rfl

/-- **`sequence_check`**: it throws before it has written anything. -/
theorem sequenceCheck_eq : sequenceCheck v seqnum msg s =
    match sequenceEnd v s seqnum msg with
    | .error e => .throw e s
    | .ok b => .ok b (sequenceState v s seqnum) := by
  unfold sequenceCheck sequenceEnd sequenceState
  simp only [Act.get_bind_apply]
  by_cases h1 : seqnum > s.nextReceiveSeq
  · simp only [h1, if_true, gapCheck_eq, true_and]
    by_cases h2 : s.state = .stContinuous
    · simp [h2]
    · by_cases h3 : v.ignoreLogonSequenceCheck = some true <;> simp [h2, h3]
  · simp only [h1, if_false, false_and]
    by_cases h2 : seqnum < s.nextReceiveSeq
    · simp only [h2, if_true, lowCheck_eq]
      cases lowEnd v s seqnum msg <;> rfl
    · simp only [h2, if_false]
      rfl

/-- **`enforce`**: it throws before it has written anything. -/
theorem enforce_eq : enforce v seqnum msg s =
    match enforceEnd v s seqnum msg with
    | .error e => .throw e s
    | .ok b => .ok b (enforceState v s seqnum msg) := by
  unfold enforce enforceEnd enforceState
  simp only [Act.get_bind_apply]
  by_cases h1 : s.state.isEstablished
  · simp only [h1, if_true, true_and, Act.bind_apply, compidCheck_eq]
    cases compidEnd v s msg with
    | some e => rfl
    | none =>
      by_cases h2 : msg.msgType = .sequenceReset
      · simp [h2]
      · simp only [h2, ne_eq, not_false_eq_true, if_true, if_false, true_and, Act.bind_apply,
          sequenceCheck_eq]
        cases sequenceEnd v s seqnum msg <;> rfl
  · simp only [h1]
    rfl

/-! ## Frames -/

/-- `f` looks neither at what `send_process` writes nor at the session state. -/
def Silent {β : Type} (f : Session → β) : Prop :=
  SendFrame f ∧ ∀ s st, f { s with state := st } = f s

variable {β : Type} {f : Session → β}

theorem askResend_frame (h : Silent f) : f (askResend v s) = f s :=
  (h.2 _ _).trans (sendProcess_frame h.1)

theorem enforceState_frame (h : Silent f) : f (enforceState v s seqnum msg) = f s := by
  unfold enforceState sequenceState
  split
  · split
    · exact askResend_frame h
    · rfl
  · rfl

theorem keeps_doStateChange (h : Silent f) {st : SessionState} :
    Act.Keeps f (doStateChange st) := Act.moves_modify fun s => h.2 s st

theorem keeps_changeFrom (h : Silent f) {old new : SessionState} :
    Act.Keeps f (changeFrom old new) :=
  Act.moves_bind Act.moves_get fun _ => Act.moves_ite (keeps_doStateChange h) (Act.moves_pure _)

@[simp] theorem changeFrom_apply {old new : SessionState} : changeFrom old new s =
    .ok () { s with state := if s.state = old then new else s.state } := by
  unfold changeFrom
  rw [Act.get_bind_apply]
  split <;> rfl

theorem takeNewSeqNo_eq : takeNewSeqNo msg s =
    match msg.newSeqNo with
    | none => .ok () s
    | some nsn =>
      if nsn ≥ toInt s.nextReceiveSeq then .ok () { s with nextReceiveSeq := toUnsigned (nsn - 1) }
      else .throw (.msgSequenceTooLow nsn s.nextReceiveSeq) s := by
  unfold takeNewSeqNo
  cases msg.newSeqNo with
  | none => rfl
  | some nsn =>
    simp only [Act.get_bind_apply]
    split <;> rfl

theorem silent_nextReceiveSeq : Silent Session.nextReceiveSeq :=
  ⟨fun _ _ _ _ _ _ _ _ => rfl, fun _ _ => rfl⟩

/-! ## The answer to a ResendRequest -/

/-- A preorder on sessions that the writes of a retransmission move along: its gap fills and
Rejects, which have an empty header, the records, the counter and the state. -/
structure Retransmits (v : Env) (R : Session → Session → Prop) : Prop where
  made : ∀ (m : Msg) c, m.header = {} → m.endOfBatch = true → Act.Moves R (send v m c)
  record : ∀ t m, factory v t = .ok m → Act.Moves R (send v m)
  nextSendSeq : ∀ s n, R s { s with nextSendSeq := n }
  state : ∀ s st, R s { s with state := st }

section Retransmits
variable {R : Session → Session → Prop} [IsPreorder Session R]

theorem moves_retransFill (h : Retransmits v R) {rctx : RetransmissionContext} {first : Nat} :
    Act.Moves R (retransFill v rctx first) := by
  unfold retransFill
  refine Act.moves_ite (Act.moves_ite ?_ (Act.moves_pure _)) (Act.moves_ite ?_ (Act.moves_pure _))
  · exact Act.moves_bind Act.moves_get fun _ =>
      Act.moves_bind (h.made _ _ rfl rfl) fun _ => Act.moves_pure _
  · exact Act.moves_bind (h.made _ 0 rfl rfl) fun _ => Act.moves_pure _

theorem moves_retransRecord (h : Retransmits v R) {rctx : RetransmissionContext} {first : Nat}
    {second : Text} : Act.Moves R (retransRecord v rctx first second) := by
  refine Act.moves_bind (moves_retransFill h) fun _ => ?_
  cases hf : factory v second with
  | error w => exact Act.moves_throw _
  | ok m =>
    exact show Act.Moves R (send v m >>= fun sent => pure (sent, { rctx with last := first })) from
      Act.moves_bind (h.record _ m hf) fun _ => Act.moves_pure _

theorem moves_getTurn (h : Retransmits v R) {finish key : Nat} {rctx : RetransmissionContext}
    {loop : Nat → RetransmissionContext → Method RetransmissionContext}
    (hloop : ∀ key rctx, Act.Moves R (loop key rctx)) :
    Act.Moves R (getTurn v finish key rctx loop) := by
  unfold getTurn
  refine Act.moves_bind Act.moves_get fun s => ?_
  split
  · exact Act.moves_pure _
  · refine Act.moves_ite (Act.moves_pure _) (Act.moves_bind (moves_retransRecord h) fun p => ?_)
    refine Act.moves_ite (Act.moves_pure _) (Act.moves_bind Act.moves_get fun s => ?_)
    cases nextKey s key with
    | none => exact Act.moves_pure _
    | some key' => exact hloop _ _

theorem moves_getLoop (h : Retransmits v R) {finish : Nat} : ∀ {fuel key : Nat}
    {rctx : RetransmissionContext}, Act.Moves R (getLoop v finish fuel key rctx)
  | 0, _, _ => Act.moves_pure _
  | _ + 1, _, _ => moves_getTurn h fun _ _ => moves_getLoop h

theorem moves_fillToInterrupted (h : Retransmits v R) {position interruptedSeqnum : Nat} :
    Act.Moves R (fillToInterrupted v position interruptedSeqnum) :=
  Act.moves_bind (h.made _ _ rfl rfl) fun _ => Act.moves_modify fun s => h.nextSendSeq s _

theorem moves_retransEnd (h : Retransmits v R) {rctx : RetransmissionContext} :
    Act.Moves R (retransEnd v rctx) :=
  Act.moves_bind (Act.moves_ite (moves_fillToInterrupted h) (moves_fillToInterrupted h))
    fun _ => Act.moves_modify fun s => h.state s _

theorem moves_getRange (h : Retransmits v R) {st : Store} {first last : Nat} :
    Act.Moves R (getRange v st first last) := by
  unfold getRange
  refine Act.moves_bind Act.moves_get fun s => ?_
  dsimp only
  refine Act.moves_ite (moves_retransEnd h) ?_
  exact Act.moves_bind (moves_getLoop h) fun _ => moves_retransEnd h

theorem moves_answerResendRequest (h : Retransmits v R) :
    Act.Moves R (answerResendRequest v seqnum msg) := by
  unfold answerResendRequest
  refine Act.moves_bind Act.moves_get fun s => ?_
  dsimp only
  refine Act.moves_ite (Act.moves_ite ?_ ?_) (Act.moves_pure _)
  · exact Act.moves_bind (h.made _ 0 rfl rfl) fun _ => Act.moves_pure _
  · unfold serveResend
    refine Act.moves_bind Act.moves_get fun s => ?_
    split
    · exact Act.moves_bind (h.made _ _ rfl rfl) fun _ => Act.moves_modify fun s => h.nextSendSeq s _
    · exact Act.moves_bind (Act.moves_modify fun s => h.state s _) fun _ => moves_getRange h

end Retransmits

/-- What a retransmission writes is what sending writes, and the state. -/
theorem retransmits_keeps (h : Silent f) : Retransmits v (fun s s' => f s' = f s) where
  made _ _ _ _ := keeps_send h.1
  record _ _ _ := keeps_send h.1
  nextSendSeq s n := h.1 s n s.persist s.batchmsgsBuffer s.wire s.writes s.sends s.lastSent
  state := h.2

theorem keeps_answerResendRequest (h : Silent f) :
    Act.Keeps f (answerResendRequest v seqnum msg) :=
  moves_answerResendRequest (retransmits_keeps h)

end

end Fix8.Session
