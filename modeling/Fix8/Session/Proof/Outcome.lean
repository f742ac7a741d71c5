import Fix8.Session.Proof.Enforce

/-!
# How `process` ends, and what that does to the receive counter

A message is refused (the exception forces a logoff or is none of the library's) or it is counted,
after its handler or after a Reject. Which of the two is a function of the session and the message.

* `refusal`: the exception of a refused message;
* `expectedSeq`: the number the message is held against; a logon procedure may set it;
* `dispatch_end`: what the handlers do;
* **`process_decoded`**, `process_undecoded`: what `process` does.
-/

namespace Fix8.Session

open Lib

/-! ## How a message ends for the counter -/

/-- `handle_logon` turns the Logon away before it has touched a counter. -/
def logonRefused (v : Env) (s : Session) (msg : Msg) : Bool :=
  (logonUnrecognised v s msg && v.enforceCompids) ||
    (v.role = .acceptor && !v.clientOk (msg.header.senderCompID.getD ""))

/-- The receive counter `openSession` sets. -/
def startReceiveSeq (v : Env) (s : Session) (resetGiven : Bool) : Nat :=
  if resetGiven then 1
  else if v.reqNextReceiveSeq ≠ 0 then v.reqNextReceiveSeq
  else match (openedPersist v s resetGiven).bind v.getControl with
    | some c => c.2
    | none => s.nextReceiveSeq

/-- The receive counter with which `handle_logon` goes on outside `st_continuous`. -/
def logonReceiveSeq (v : Env) (s : Session) (msg : Msg) : Nat :=
  if v.role = .initiator ∨ logonRefused v s msg then s.nextReceiveSeq
  else startReceiveSeq v s (msg.resetSeqNumFlag = some true)

/-- The number a message is held against: the receive counter, as a logon procedure sets it. -/
def expectedSeq (v : Env) (s : Session) (msg : Msg) : Nat :=
  if msg.msgType = .logon ∧ s.state ≠ .stContinuous then logonReceiveSeq v s msg
  else s.nextReceiveSeq

/-- The exception, if any, with which `process` gives a message up without counting it. -/
def refusal (v : Env) (s : Session) (seqnum : Nat) (msg : Msg) : Option Exn :=
  match msg.msgType with
  | .reject => none
  | .logon =>
    if s.state = .stContinuous ∨ logonRefused v s msg ∨
        (v.role = .acceptor ∧ v.authenticate msg = false) then none
    else endError (enforceEnd v { s with
      state := .stLogonReceived, nextReceiveSeq := logonReceiveSeq v s msg } seqnum msg)
  | .application _ =>
    if s.active then
      match enforceEnd v s seqnum msg with
      | .error e => some e
      | .ok true => none
      | .ok false => (endError (v.application seqnum msg)).filter (!·.isReject)
    else none
  | .sequenceReset =>
    match enforceEnd v s seqnum msg, msg.newSeqNo with
    | .error e, _ => some e
    | .ok _, some nsn =>
      if nsn < toInt s.nextReceiveSeq then some (.msgSequenceTooLow nsn s.nextReceiveSeq) else none
    | .ok _, none => none
  | _ => endError (enforceEnd v s seqnum msg)

/-- The number a SequenceReset asks for. -/
def resetTo (msg : Msg) : Option Int :=
  if msg.msgType = .sequenceReset then msg.newSeqNo else none

/-- The receive counter after a message that is counted. -/
def counterAfter (v : Env) (s : Session) (msg : Msg) : Nat :=
  match resetTo msg with
  | some nsn => toUnsigned nsn
  | none => nextUnsigned (expectedSeq v s msg)

/-- What an end of the dispatch says of the counter: a message that was not refused is about to be
counted, here or after the Reject. -/
def CountsAs (v : Env) (s : Session) (seqnum : Nat) (msg : Msg) : Res Session Exn Bool → Prop
  | .ok _ s' => refusal v s seqnum msg = none ∧ nextUnsigned s'.nextReceiveSeq = counterAfter v s msg
  | .throw e s' => s'.nextReceiveSeq = expectedSeq v s msg ∧
      if e.isReject then refusal v s seqnum msg = none ∧ resetTo msg = none
      else refusal v s seqnum msg = some e

section Dispatch
variable {v : Env} {s s' : Session} {seqnum : Nat} {msg : Msg}

theorem expectedSeq_of_ne (h : msg.msgType ≠ .logon) :
    expectedSeq v s msg = s.nextReceiveSeq := if_neg fun hl => h hl.1

theorem expectedSeq_of_continuous (h : s.state = .stContinuous) :
    expectedSeq v s msg = s.nextReceiveSeq := if_neg fun hl => hl.2 h

theorem expectedSeq_logon (ht : msg.msgType = .logon) (hc : s.state ≠ .stContinuous) :
    expectedSeq v s msg = logonReceiveSeq v s msg := if_pos ⟨ht, hc⟩

theorem countsAs_ok {b : Bool} (hr : refusal v s seqnum msg = none)
    (hn : nextUnsigned s'.nextReceiveSeq = counterAfter v s msg) :
    CountsAs v s seqnum msg (.ok b s') := ⟨hr, hn⟩

theorem countsAs_refused {e : Exn} (hn : s'.nextReceiveSeq = expectedSeq v s msg)
    (he : e.isReject = false) (hr : refusal v s seqnum msg = some e) :
    CountsAs v s seqnum msg (.throw e s') := ⟨hn, by rwa [he]⟩

theorem countsAs_reject {e : Exn} (hn : s'.nextReceiveSeq = expectedSeq v s msg)
    (he : e.isReject = true) (hr : refusal v s seqnum msg = none) (ht : resetTo msg = none) :
    CountsAs v s seqnum msg (.throw e s') := ⟨hn, by rw [he]; exact ⟨hr, ht⟩⟩

theorem counterAfter_of_kept (hr : resetTo msg = none)
    (h : s'.nextReceiveSeq = expectedSeq v s msg) :
    nextUnsigned s'.nextReceiveSeq = counterAfter v s msg := by
  simp [counterAfter, hr, h]

theorem compidEnd_not_isReject {e : Exn} (h : compidEnd v s msg = some e) :
    e.isReject = false := by
  unfold compidEnd at h
  split at h
  · split at h
    · cases h; rfl
    · split at h
      · cases h; rfl
      · cases h
  · cases h

theorem lowEnd_not_isReject {e : Exn} (h : lowEnd v s seqnum msg = some e) :
    e.isReject = false := by
  unfold lowEnd at h
  split at h
  · cases h; rfl
  · split at h
    · split at h
      · cases h; rfl
      · cases h
    · cases h

theorem sequenceEnd_not_isReject {e : Exn} (h : sequenceEnd v s seqnum msg = .error e) :
    e.isReject = false := by
  unfold sequenceEnd at h
  split at h
  · split at h <;> cases h
    rfl
  · split at h
    · split at h
      · rename_i he
        cases h
        exact lowEnd_not_isReject he
      · cases h
    · cases h

/-- `enforce` only throws exceptions that force a logoff. -/
theorem enforceEnd_not_isReject {e : Exn} (h : enforceEnd v s seqnum msg = .error e) :
    e.isReject = false := by
  unfold enforceEnd at h
  split at h
  · split at h
    · rename_i he
      cases h
      exact compidEnd_not_isReject he
    · split at h
      · cases h
      · cases hs : sequenceEnd v s seqnum msg with
        | ok b => rw [hs] at h; cases h
        | error e' =>
          rw [hs] at h
          cases h
          exact sequenceEnd_not_isReject hs
  · cases h

theorem compidEnd_logonReceived (h : s.state = .stLogonReceived) : compidEnd v s msg = none :=
  if_neg fun hs => hs.1 h

/-- Once a Logon is being handled, `enforce` looks at the counter and the clock only. -/
theorem enforceEnd_logonReceived {s' : Session} (h : s.state = .stLogonReceived)
    (h' : s'.state = .stLogonReceived) (hn : s'.nextReceiveSeq = s.nextReceiveSeq)
    (hc : s'.clock = s.clock) : enforceEnd v s' seqnum msg = enforceEnd v s seqnum msg := by
  simp only [enforceEnd, compidEnd_logonReceived h, compidEnd_logonReceived h', sequenceEnd, lowEnd,
    h, h', hn, hc]

/-- A handler that enforces and then goes on with `k`, which keeps the counter and throws only
what ends in a Reject. It may start from a session `s'` with the same counter. -/
theorem counts_enforce_bind {k : Bool → Method Bool} (hr : resetTo msg = none)
    (hn : s'.nextReceiveSeq = expectedSeq v s msg)
    (href : refusal v s seqnum msg = endError (enforceEnd v s' seqnum msg))
    (hk : ∀ b, Act.Keeps Session.nextReceiveSeq (k b))
    (ht : ∀ b, Act.Throws (fun e => e.isReject = true) (k b)) :
    CountsAs v s seqnum msg ((enforce v seqnum msg >>= k) s') := by
  rw [Act.bind_apply, enforce_eq]
  cases he : enforceEnd v s' seqnum msg with
  | error e =>
    rw [he] at href
    exact countsAs_refused hn (enforceEnd_not_isReject he) href
  | ok b =>
    rw [he] at href
    have hkeep : (k b (enforceState v s' seqnum msg)).state.nextReceiveSeq = expectedSeq v s msg :=
      ((hk b _).trans (enforceState_frame silent_nextReceiveSeq)).trans hn
    dsimp only
    cases hs : k b (enforceState v s' seqnum msg) with
    | ok b' s'' =>
      rw [hs] at hkeep
      exact countsAs_ok href (counterAfter_of_kept hr hkeep)
    | throw e s'' =>
      rw [hs] at hkeep
      exact countsAs_reject hkeep (ht b _ _ _ hs) href hr

theorem resetTo_eq_none (h : msg.msgType ≠ .sequenceReset) : resetTo msg = none := if_neg h

theorem throws_send {P : Exn → Prop} {m : Msg} {c : Nat} {n : Bool} :
    Act.Throws P (send v m c n) := by
  intro s e s' h
  cases h

theorem throws_changeFrom {P : Exn → Prop} {old new : SessionState} :
    Act.Throws P (changeFrom old new) :=
  Act.throws_bind Act.throws_get fun _ => Act.throws_ite (Act.throws_modify _) (Act.throws_pure _)

/-- A retransmission throws only what the codec throws. -/
theorem throws_retransRecord {rctx : RetransmissionContext} {first : Nat} {second : Text} :
    Act.Throws (fun e => e.isReject = true) (retransRecord v rctx first second) := by
  unfold retransRecord retransFill
  refine Act.throws_bind (Act.throws_ite (Act.throws_ite ?_ (Act.throws_pure _))
    (Act.throws_ite ?_ (Act.throws_pure _))) fun _ => Act.throws_bind ?_ fun _ =>
      Act.throws_bind throws_send fun _ => Act.throws_pure _
  · exact Act.throws_bind Act.throws_get fun _ =>
      Act.throws_bind throws_send fun _ => Act.throws_pure _
  · exact Act.throws_bind throws_send fun _ => Act.throws_pure _
  · cases factory v second with
    | ok m => exact Act.throws_pure _
    | error w => exact Act.throws_throw rfl

theorem throws_getLoop {finish : Nat} : ∀ {fuel key : Nat} {rctx : RetransmissionContext},
    Act.Throws (fun e => e.isReject = true) (getLoop v finish fuel key rctx)
  | 0, _, _ => Act.throws_pure _
  | fuel + 1, key, rctx => by
    unfold getLoop getTurn
    refine Act.throws_bind Act.throws_get fun s => ?_
    split
    · exact Act.throws_pure _
    · refine Act.throws_ite (Act.throws_pure _) (Act.throws_bind throws_retransRecord fun p => ?_)
      refine Act.throws_ite (Act.throws_pure _) (Act.throws_bind Act.throws_get fun s => ?_)
      cases nextKey s key with
      | none => exact Act.throws_pure _
      | some key' => exact throws_getLoop

theorem throws_fillToInterrupted {P : Exn → Prop} {position interruptedSeqnum : Nat} :
    Act.Throws P (fillToInterrupted v position interruptedSeqnum) :=
  Act.throws_bind throws_send fun _ => Act.throws_modify _

theorem throws_retransEnd {P : Exn → Prop} {rctx : RetransmissionContext} :
    Act.Throws P (retransEnd v rctx) :=
  Act.throws_bind (Act.throws_ite throws_fillToInterrupted throws_fillToInterrupted)
    fun _ => Act.throws_modify _

theorem throws_answerResendRequest :
    Act.Throws (fun e => e.isReject = true) (answerResendRequest v seqnum msg) := by
  unfold answerResendRequest
  refine Act.throws_bind Act.throws_get fun s => ?_
  dsimp only
  refine Act.throws_ite (Act.throws_ite ?_ ?_) (Act.throws_pure _)
  · exact Act.throws_bind throws_send fun _ => Act.throws_pure _
  · unfold serveResend
    refine Act.throws_bind Act.throws_get fun s => ?_
    split
    · exact Act.throws_bind throws_send fun _ => Act.throws_modify _
    · refine Act.throws_bind (Act.throws_modify _) fun _ => ?_
      unfold getRange
      refine Act.throws_bind Act.throws_get fun s => ?_
      dsimp only
      exact Act.throws_ite throws_retransEnd
        (Act.throws_bind throws_getLoop fun _ => throws_retransEnd)

/-- The application handler: what `enforce` lets through, the application may throw on. -/
theorem counts_handleApplication {t : String} (ht : msg.msgType = .application t)
    (ha : s.active = true) : CountsAs v s seqnum msg (handleApplication v seqnum msg s) := by
  have hr : resetTo msg = none := resetTo_eq_none (by simp [ht])
  have hx : expectedSeq v s msg = s.nextReceiveSeq := expectedSeq_of_ne (by simp [ht])
  have heq : ∀ s' : Session, s' = { s with applied := s.applied ++ [(seqnum, msg)] } →
      enforceEnd v s' seqnum msg = enforceEnd v s seqnum msg := by
    rintro _ rfl
    rfl
  unfold handleApplication
  rw [Act.modify_bind_apply, Act.bind_apply, enforce_eq, heq _ rfl]
  cases he : enforceEnd v s seqnum msg with
  | error e =>
    exact countsAs_refused hx.symm (enforceEnd_not_isReject he) (by simp [refusal, ht, ha, he])
  | ok b =>
    have hkeep : (enforceState v { s with applied := s.applied ++ [(seqnum, msg)] } seqnum
        msg).nextReceiveSeq = expectedSeq v s msg :=
      (enforceState_frame silent_nextReceiveSeq).trans hx.symm
    cases b with
    | true =>
      exact countsAs_ok (by simp [refusal, ht, ha, he]) (counterAfter_of_kept hr hkeep)
    | false =>
      cases happ : v.application seqnum msg with
      | ok b' =>
        simp only [Bool.false_eq_true, if_false, ofExcept_ok, Act.pure_apply]
        exact countsAs_ok (by simp [refusal, ht, ha, he, happ, endError])
          (counterAfter_of_kept hr hkeep)
      | error e =>
        simp only [Bool.false_eq_true, if_false, ofExcept_error, Act.throw_apply]
        cases hrej : e.isReject with
        | true =>
          exact countsAs_reject hkeep hrej (by simp [refusal, ht, ha, he, happ, endError, hrej]) hr
        | false =>
          exact countsAs_refused hkeep hrej (by simp [refusal, ht, ha, he, happ, endError, hrej])

/-- A SequenceReset: the counter is set one below the new number, for `process` to count. -/
theorem counts_handleSequenceReset (ht : msg.msgType = .sequenceReset) :
    CountsAs v s seqnum msg (handleSequenceReset v seqnum msg s) := by
  have hx : expectedSeq v s msg = s.nextReceiveSeq := expectedSeq_of_ne (by simp [ht])
  unfold handleSequenceReset
  rw [Act.bind_apply, enforce_eq]
  cases he : enforceEnd v s seqnum msg with
  | error e =>
    exact countsAs_refused hx.symm (enforceEnd_not_isReject he) (by simp [refusal, ht, he])
  | ok b =>
    have hs : enforceState v s seqnum msg = s := if_neg fun hs => hs.2.2 ht
    dsimp only
    rw [hs, Act.bind_apply, takeNewSeqNo_eq]
    cases hn : msg.newSeqNo with
    | none =>
      simp only [Act.bind_apply, changeFrom_apply, Act.pure_apply]
      refine countsAs_ok (by simp [refusal, ht, he, hn]) ?_
      simp [counterAfter, resetTo, ht, hn, hx]
    | some nsn =>
      by_cases hge : nsn ≥ toInt s.nextReceiveSeq
      · simp only [hge, if_true, Act.bind_apply, changeFrom_apply, Act.pure_apply]
        refine countsAs_ok (by simp [refusal, ht, he, hn, Int.not_lt.2 hge]) ?_
        simp only [counterAfter, resetTo, ht, hn, if_true, nextUnsigned_toUnsigned]
      · simp only [hge, if_false]
        exact countsAs_refused hx.symm rfl (by simp [refusal, ht, he, hn, Int.not_le.1 hge])

/-! ## Logon -/

theorem logonUnrecognised_state {st : SessionState} :
    logonUnrecognised v { s with state := st } msg = logonUnrecognised v s msg := rfl

theorem counts_logonInitiator (ht : msg.msgType = .logon) (hc : s.state ≠ .stContinuous)
    (hr : v.role = .initiator) : CountsAs v s seqnum msg
      (logonInitiator v seqnum msg { s with state := .stLogonReceived }) := by
  have hrs : logonReceiveSeq v s msg = s.nextReceiveSeq := if_pos (.inl hr)
  have hx : s.nextReceiveSeq = expectedSeq v s msg := (expectedSeq_logon ht hc ▸ hrs).symm
  have hreset : resetTo msg = none := resetTo_eq_none (by simp [ht])
  unfold logonInitiator
  rw [Act.get_bind_apply, logonUnrecognised_state]
  split
  · rename_i h
    rw [refuseLogon_apply]
    exact countsAs_ok (by simp [refusal, ht, logonRefused, h]) (counterAfter_of_kept hreset hx)
  · rename_i h
    refine counts_enforce_bind hreset hx (by simp [refusal, ht, logonRefused, h, hc, hr, hrs])
      (fun _ => ?_) fun _ => ?_
    · exact Act.moves_bind (keeps_doStateChange silent_nextReceiveSeq) fun _ => Act.moves_pure _
    · exact Act.throws_bind (Act.throws_modify _) fun _ => Act.throws_pure _

theorem keeps_replyLogon : Act.Keeps Session.nextReceiveSeq (replyLogon v msg) :=
  Act.moves_bind (Act.moves_modify fun _ => rfl) fun _ =>
    Act.moves_bind (keeps_send silent_nextReceiveSeq.1) fun _ =>
      Act.moves_bind (keeps_doStateChange silent_nextReceiveSeq) fun _ =>
        Act.moves_ite (fun _ => rfl) (Act.moves_pure _)

theorem throws_replyLogon {P : Exn → Prop} : Act.Throws P (replyLogon v msg) :=
  Act.throws_bind (Act.throws_modify _) fun _ => Act.throws_bind throws_send fun _ =>
    Act.throws_bind (Act.throws_modify _) fun _ => Act.throws_ite
      (Act.throws_bind (Act.throws_modify _) fun _ =>
        Act.throws_bind (Act.throws_modify _) fun _ => Act.throws_pure _) (Act.throws_pure _)

/-- An acceptor's logon from the authentication on. -/
theorem counts_acceptLogon (hreset : resetTo msg = none) (hst : s'.state = .stLogonReceived)
    (hn : s'.nextReceiveSeq = expectedSeq v s msg) (hc : s'.clock = s.clock)
    (href : refusal v s seqnum msg = if v.authenticate msg then
      endError (enforceEnd v { s with
        state := .stLogonReceived, nextReceiveSeq := expectedSeq v s msg } seqnum msg)
      else none) :
    CountsAs v s seqnum msg (acceptLogon v seqnum msg s') := by
  unfold acceptLogon
  by_cases ha : v.authenticate msg
  · rw [if_pos ha] at href
    rw [if_pos ha, Act.modify_bind_apply]
    refine counts_enforce_bind hreset hn ?_ (fun _ => keeps_replyLogon) fun _ => throws_replyLogon
    rw [href]
    exact congrArg endError (enforceEnd_logonReceived hst rfl hn.symm hc.symm)
  · rw [if_neg ha, refuseLogon_apply]
    rw [if_neg ha] at href
    exact countsAs_ok href (counterAfter_of_kept hreset hn)

theorem openSession_eq (v : Env) (s : Session) (resetGiven : Bool) :
    ∃ n p, openSession v resetGiven s = .ok () { s with
      nextSendSeq := n, persist := p, nextReceiveSeq := startReceiveSeq v s resetGiven } := by
  unfold openSession openPersister startSeqnums recoverSeqnums startReceiveSeq
  rw [Act.modify_bind_apply]
  cases resetGiven with
  | true => exact ⟨1, _, rfl⟩
  | false =>
    cases hp : (openedPersist v s false).bind v.getControl <;>
      exact ⟨_, openedPersist v s false, by simp [hp]; rfl⟩

theorem counts_logonAcceptor (ht : msg.msgType = .logon) (hc : s.state ≠ .stContinuous)
    (hr : v.role = .acceptor) (hs' : s' = { s with state := .stLogonReceived }) :
    CountsAs v s seqnum msg (logonAcceptor v seqnum msg s') := by
  have hreset : resetTo msg = none := resetTo_eq_none (by simp [ht])
  have hx : expectedSeq v s msg = logonReceiveSeq v s msg := expectedSeq_logon ht hc
  have hun : logonUnrecognised v s' msg = logonUnrecognised v s msg := by rw [hs']; rfl
  have hearly : logonRefused v s msg = true → s'.nextReceiveSeq = expectedSeq v s msg := by
    intro h
    rw [hx, hs']
    exact (if_pos (.inr h)).symm
  unfold logonAcceptor
  rw [Act.get_bind_apply, hun]
  by_cases h1 : logonUnrecognised v s msg ∧ v.enforceCompids
  · have href : logonRefused v s msg = true := by simp [logonRefused, h1]
    simp only [h1, and_self, if_true, refuseLogon_apply]
    exact countsAs_ok (by simp [refusal, ht, href]) (counterAfter_of_kept hreset (hearly href))
  · rw [if_neg h1]
    cases h2 : v.clientOk (msg.header.senderCompID.getD "") with
    | false =>
      have href : logonRefused v s msg = true := by simp [logonRefused, hr, h2]
      exact countsAs_ok (by simp [refusal, ht, href]) (counterAfter_of_kept hreset (hearly href))
    | true =>
      have hnr : logonRefused v s msg = false := by simpa [logonRefused, h2] using h1
      have hstart : startReceiveSeq v s' (msg.resetSeqNumFlag = some true) =
          expectedSeq v s msg := by
        rw [hx, hs', logonReceiveSeq, if_neg (by simp [hr, hnr])]
        rfl
      obtain ⟨n, p, ho⟩ := openSession_eq v s' (msg.resetSeqNumFlag = some true)
      simp only [Bool.not_true, Bool.false_eq_true, if_false]
      rw [Act.bind_ok ho]
      refine counts_acceptLogon hreset ?_ hstart ?_ ?_
      · rw [hs']
      · rw [hs']
      · cases ha : v.authenticate msg <;> simp [refusal, ht, hc, hnr, hr, ha, hx]

/-! ## Every handler -/

/-- **What the handlers do to the counter.** -/
theorem dispatch_end : CountsAs v s seqnum msg (dispatch v seqnum msg s) := by
  unfold dispatch
  cases ht : msg.msgType with
  | heartbeat =>
    refine counts_enforce_bind (resetTo_eq_none (by simp [ht]))
      (expectedSeq_of_ne (by simp [ht])).symm (by simp [refusal, ht])
      (fun _ => ?_) fun _ => ?_
    · exact Act.moves_bind (keeps_changeFrom silent_nextReceiveSeq) fun _ => Act.moves_pure _
    · exact Act.throws_bind throws_changeFrom fun _ => Act.throws_pure _
  | testRequest =>
    refine counts_enforce_bind (resetTo_eq_none (by simp [ht]))
      (expectedSeq_of_ne (by simp [ht])).symm (by simp [refusal, ht])
      (fun _ => ?_) fun _ => ?_
    · exact Act.moves_bind (keeps_send silent_nextReceiveSeq.1) fun _ => Act.moves_pure _
    · exact Act.throws_bind throws_send fun _ => Act.throws_pure _
  | resendRequest =>
    refine counts_enforce_bind (resetTo_eq_none (by simp [ht]))
      (expectedSeq_of_ne (by simp [ht])).symm (by simp [refusal, ht])
      (fun _ => ?_) fun _ => ?_
    · exact Act.moves_bind (keeps_answerResendRequest silent_nextReceiveSeq)
        fun _ => Act.moves_pure _
    · exact Act.throws_bind throws_answerResendRequest fun _ => Act.throws_pure _
  | reject =>
    exact countsAs_ok (by simp [refusal, ht])
      (counterAfter_of_kept (resetTo_eq_none (by simp [ht]))
        (expectedSeq_of_ne (by simp [ht])).symm)
  | sequenceReset => exact counts_handleSequenceReset ht
  | logout =>
    exact counts_enforce_bind (resetTo_eq_none (by simp [ht]))
      (expectedSeq_of_ne (by simp [ht])).symm (by simp [refusal, ht])
      (fun _ => Act.moves_pure _) fun _ => Act.throws_pure _
  | logon =>
    dsimp only
    unfold handleLogon
    rw [Act.get_bind_apply]
    by_cases hc : s.state = .stContinuous
    · rw [if_pos hc]
      exact countsAs_ok (by simp [refusal, ht, hc])
        (counterAfter_of_kept (resetTo_eq_none (by simp [ht]))
          ((sendProcess_frame silent_nextReceiveSeq.1).trans (expectedSeq_of_continuous hc).symm))
    · rw [if_neg hc, doStateChange_bind_apply]
      cases hr : v.role with
      | initiator => exact counts_logonInitiator ht hc hr
      | acceptor =>
        exact counts_logonAcceptor ht hc hr rfl
  | application t =>
    dsimp only
    rw [Act.get_bind_apply]
    cases ha : s.active with
    | true => exact counts_handleApplication ht ha
    | false =>
      exact countsAs_ok (by simp [refusal, ht, ha])
        (counterAfter_of_kept (resetTo_eq_none (by simp [ht]))
        (expectedSeq_of_ne (by simp [ht])).symm)

/-! ## `process` -/

theorem caught_reject {e : Exn} {m : Option Msg} (he : e.isReject = true) :
    ∃ s', caught v seqnum m e s = .ok .rejected s' ∧
      s'.nextReceiveSeq = nextUnsigned s.nextReceiveSeq := by
  simp only [Exn.isReject, Bool.and_eq_true, Bool.not_eq_true'] at he
  refine ⟨_, by unfold caught; rw [if_pos he.1, if_neg (by simp [he.2])]; rfl, ?_⟩
  exact congrArg nextUnsigned (sendProcess_frame silent_nextReceiveSeq.1)

theorem keeps_forcedLogoff {e : Exn} : Act.Keeps Session.nextReceiveSeq (forcedLogoff v e) := by
  unfold forcedLogoff
  refine Act.moves_bind Act.moves_get fun s => Act.moves_bind (Act.moves_ite ?_ ?_) fun _ =>
    Act.moves_ite (Act.moves_throw _) (Act.moves_bind (Act.moves_modify fun _ => rfl) fun _ =>
      Act.moves_pure _)
  · exact Act.moves_bind (keeps_doStateChange silent_nextReceiveSeq) fun _ =>
      Act.moves_bind (keeps_send silent_nextReceiveSeq.1) fun _ =>
        keeps_doStateChange silent_nextReceiveSeq
  · exact Act.moves_pure _

theorem returns_forcedLogoff {e : Exn} : Act.Returns (· = .failed) (forcedLogoff v e) :=
  Act.returns_bind fun _ => Act.returns_bind fun _ => Act.returns_ite (Act.returns_throw _)
    (Act.returns_bind fun _ => Act.returns_pure rfl)

/-- A message given up: `process` fails or lets the exception through, and counts nothing. -/
theorem caught_refused {e : Exn} {m : Option Msg} (he : e.isReject = false) :
    (caught v seqnum m e s).state.nextReceiveSeq = s.nextReceiveSeq ∧
      ∀ x s', caught v seqnum m e s = .ok x s' → x = .failed := by
  unfold caught
  cases h1 : e.isF8 with
  | false => exact ⟨rfl, fun x s' h => by cases h; rfl⟩
  | true =>
    have h2 : e.forceLogoff = true := by simpa [Exn.isReject, h1] using he
    simp only [h2, if_true]
    exact ⟨keeps_forcedLogoff s, returns_forcedLogoff s⟩

/-- A dispatch that returns is counted. -/
theorem processMsg_ok {b : Bool} (h : dispatch v seqnum msg s = .ok b s') :
    ∃ s'', processMsg v seqnum msg s = .ok b s'' ∧
      s''.nextReceiveSeq = nextUnsigned s'.nextReceiveSeq := by
  unfold processMsg
  rw [Act.bind_ok h]
  by_cases hl : msg.msgType = .logout
  · exact ⟨_, by rw [if_pos hl]; rfl, rfl⟩
  · exact ⟨_, by rw [if_neg hl]; rfl, rfl⟩

theorem processMsg_throw {e : Exn} (h : dispatch v seqnum msg s = .throw e s') :
    processMsg v seqnum msg s = .throw e s' := Act.bind_throw h _

/-- **`process` on a decoded message**: refused, it fails and counts nothing; else it counts. -/
theorem process_decoded {inb : Inbound} (hq : inb.seqnum = some seqnum)
    (hm : inb.result = .ok msg) :
    ((refusal v s seqnum msg).isSome ∧ (process v inb s).state.nextReceiveSeq = expectedSeq v s msg ∧
      ∀ x s', process v inb s = .ok x s' → x = .failed) ∨
    (refusal v s seqnum msg = none ∧ ∃ x s', process v inb s = .ok x s' ∧ x ≠ .failed ∧
      (x = .rejected → resetTo msg = none) ∧ s'.nextReceiveSeq = counterAfter v s msg) := by
  have hd : CountsAs v s seqnum msg (dispatch v seqnum msg s) := dispatch_end
  unfold process
  simp only [hq, hm]
  cases hs : dispatch v seqnum msg s with
  | ok b s' =>
    rw [hs] at hd
    obtain ⟨s'', hp, hn⟩ := processMsg_ok hs
    rw [hp]
    exact .inr ⟨hd.1, .handled b, s'', rfl, by simp, by simp, hn.trans hd.2⟩
  | throw e s' =>
    rw [hs] at hd
    rw [processMsg_throw hs]
    obtain ⟨hn, hd⟩ := hd
    cases he : e.isReject with
    | true =>
      rw [he] at hd
      obtain ⟨hr, ht⟩ := hd
      obtain ⟨s'', hc, hn'⟩ : ∃ s'', caught v seqnum (some msg) e s' = .ok .rejected s'' ∧
          s''.nextReceiveSeq = nextUnsigned s'.nextReceiveSeq := caught_reject he
      refine .inr ⟨hr, .rejected, s'', hc, by simp, fun _ => ht, ?_⟩
      simp [counterAfter, ht, hn', hn]
    | false =>
      rw [he] at hd
      obtain ⟨hc, hx⟩ := caught_refused he (v := v) (s := s') (m := some msg)
      exact .inl ⟨by rw [show refusal v s seqnum msg = some e from hd]; rfl, hc.trans hn, hx⟩

/-- A string that is no message is answered with a Reject, and counted. -/
theorem process_undecoded {inb : Inbound}
    (h : inb.seqnum = none ∨ ∃ w, inb.result = .error w) :
    ∃ s', process v inb s = .ok .rejected s' ∧
      s'.nextReceiveSeq = nextUnsigned s.nextReceiveSeq := by
  unfold process
  cases hq : inb.seqnum with
  | none => exact caught_reject rfl
  | some n =>
    obtain ⟨w, hw⟩ := h.resolve_left (by simp [hq])
    simp only [hw]
    exact caught_reject rfl

end Dispatch

end Fix8.Session
