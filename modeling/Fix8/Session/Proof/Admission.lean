import Fix8.Session.Proof.Outcome
import Fix8.Session.Proof.Counter

/-!
# Who a Logon lets in

`handle_logon` outside `st_continuous` ends in one of three ways: the Logon is turned away, its
number makes `enforce` throw, or the session goes to `st_continuous`.

* `NumberPasses`: what `enforce` asks of a Logon;
* `logonsSent`: the Logons a session has sent;
* `handleLogon_initiator`, `acceptLogon_replied`: the spec of the two handlers;
* **`initiator_admits_iff`**: when an initiator only takes its own peer's Logon;
* **`acceptor_admits_iff`**: when an acceptor only lets in, and only answers, what passes every
  check.
-/

namespace Fix8.Session

open Lib

/-! ## What `enforce` asks of a Logon -/

/-- `sequence_check` lets the number through in `st_logon_received`. -/
def NumberPasses (v : Env) (s : Session) (seqnum : Nat) (msg : Msg) : Prop :=
  if seqnum > s.nextReceiveSeq then v.ignoreLogonSequenceCheck = some true
  else seqnum < s.nextReceiveSeq → msg.header.possDupFlag = some true ∧
    ∀ ost ∈ msg.header.origSendingTime, ost ≤ msg.header.sendingTime.getD s.clock

instance (v : Env) (s : Session) (seqnum : Nat) (msg : Msg) :
    Decidable (NumberPasses v s seqnum msg) := by
  unfold NumberPasses
  infer_instance

/-- The Logons a session has sent. -/
def logonsSent (s : Session) : Text := s.sends.filter (·.msgType = .logon)

section
variable {v : Env} {s s' : Session} {seqnum : Nat} {msg : Msg} {inb : Inbound}

theorem isF8_of_forceLogoff {e : Exn} (h : e.forceLogoff = true) : e.isF8 = true := by
  cases e <;> first | rfl | cases h

/-- Only the counter and the clock of the session count. -/
theorem numberPasses_congr (hn : s'.nextReceiveSeq = s.nextReceiveSeq) (hc : s'.clock = s.clock) :
    NumberPasses v s' seqnum msg ↔ NumberPasses v s seqnum msg := by
  unfold NumberPasses
  rw [hn, hc]

theorem lowEnd_eq_none : lowEnd v s seqnum msg = none ↔ msg.header.possDupFlag = some true ∧
    ∀ ost ∈ msg.header.origSendingTime, ost ≤ msg.header.sendingTime.getD s.clock := by
  unfold lowEnd
  by_cases hp : msg.header.possDupFlag = some true
  · cases msg.header.origSendingTime with
    | none => simp [hp]
    | some ost => simp [hp]
  · simp [hp]

theorem sequenceEnd_passes (h : NumberPasses v s seqnum msg) :
    ∃ b, sequenceEnd v s seqnum msg = .ok b := by
  unfold NumberPasses at h
  unfold sequenceEnd
  by_cases h1 : seqnum > s.nextReceiveSeq
  · rw [if_pos h1] at h
    exact ⟨false, by rw [if_pos h1, if_pos (.inr h)]⟩
  · rw [if_neg h1] at h
    by_cases h2 : seqnum < s.nextReceiveSeq
    · exact ⟨true, by rw [if_neg h1, if_pos h2, lowEnd_eq_none.2 (h h2)]⟩
    · exact ⟨true, by rw [if_neg h1, if_neg h2]⟩

theorem lowEnd_forceLogoff {e : Exn} (h : lowEnd v s seqnum msg = some e) :
    e.forceLogoff = true := by
  unfold lowEnd at h
  split at h
  · cases h
    rfl
  · split at h
    · split at h
      · cases h
        rfl
      · cases h
    · cases h

theorem sequenceEnd_fails (hs : s.state = .stContinuous → seqnum ≤ s.nextReceiveSeq)
    (h : ¬ NumberPasses v s seqnum msg) :
    ∃ e : Exn, sequenceEnd v s seqnum msg = .error e ∧ e.forceLogoff = true := by
  unfold NumberPasses at h
  unfold sequenceEnd
  by_cases h1 : seqnum > s.nextReceiveSeq
  · rw [if_pos h1] at h
    have hc : ¬ (s.state = .stContinuous ∨ v.ignoreLogonSequenceCheck = some true) :=
      not_or.2 ⟨fun hc => absurd (hs hc) (Nat.not_le.2 h1), h⟩
    exact ⟨_, by rw [if_pos h1, if_neg hc], rfl⟩
  · rw [if_neg h1] at h
    by_cases h2 : seqnum < s.nextReceiveSeq
    · rw [if_neg h1, if_pos h2]
      cases he : lowEnd v s seqnum msg with
      | none => exact absurd (fun _ => lowEnd_eq_none.1 he) h
      | some e => exact ⟨e, rfl, lowEnd_forceLogoff he⟩
    · exact absurd (fun hlt => absurd hlt h2) h

theorem enforceEnd_logon (hs : s.state = .stLogonReceived) (ht : msg.msgType = .logon) :
    enforceEnd v s seqnum msg = (sequenceEnd v s seqnum msg).map (!·) := by
  unfold enforceEnd
  rw [compidEnd_logonReceived hs]
  simp [hs, ht, SessionState.isEstablished, SessionState.isLive]

/-- `enforce` on a Logon whose number passes writes nothing. -/
theorem enforce_logon_passes (hs : s.state = .stLogonReceived) (ht : msg.msgType = .logon)
    (h : NumberPasses v s seqnum msg) : ∃ b, enforce v seqnum msg s = .ok b s := by
  obtain ⟨b, hb⟩ := sequenceEnd_passes h
  have hst : enforceState v s seqnum msg = s := by simp [enforceState, sequenceState, hs]
  refine ⟨!b, ?_⟩
  rw [enforce_eq, enforceEnd_logon hs ht, hb, hst]
  rfl

/-- `enforce` on a Logon whose number does not pass forces a logoff. -/
theorem enforce_logon_fails (hs : s.state = .stLogonReceived) (ht : msg.msgType = .logon)
    (h : ¬ NumberPasses v s seqnum msg) :
    ∃ e : Exn, enforce v seqnum msg s = .throw e s ∧ e.forceLogoff = true := by
  obtain ⟨e, he, hf⟩ := sequenceEnd_fails (fun hc => by rw [hs] at hc; cases hc) h
  refine ⟨e, ?_, hf⟩
  rw [enforce_eq, enforceEnd_logon hs ht, he]
  rfl

/-! ## `process` around the handler -/

theorem sendProcess_logons (h : msg.msgType ≠ .logon) :
    logonsSent (sendProcess v msg s).2 = logonsSent s := by
  cases he : msg.encodeErr with
  | some w =>
    have hs : (sendProcess v msg s).2 = s := by
      simp only [sendProcess, stamp, he, Option.isSome_some, if_true]
    rw [hs]
  | none =>
    have hst : (stamp v s msg).msgType ≠ .logon := h
    simp [logonsSent, sendProcess_sends he, hst]

theorem sendProcess_reply (h : msg.msgType = .logon) (he : msg.encodeErr = none) :
    logonsSent (sendProcess v msg s).2 = logonsSent s ++ [stamp v s msg] := by
  have hst : (stamp v s msg).msgType = .logon := h
  simp [logonsSent, sendProcess_sends he, hst]

theorem frame_shutdown : Silent Session.shutdown :=
  ⟨fun _ _ _ _ _ _ _ _ => rfl, fun _ _ => rfl⟩

/-- A Logon that is handled is counted; the rest of the session stays. -/
theorem process_logon_ok {b : Bool} (hq : inb.seqnum = some seqnum) (hm : inb.result = .ok msg)
    (ht : msg.msgType = .logon) (h : handleLogon v seqnum msg s = .ok b s') :
    ∃ n p, (process v inb s).state = { s' with nextReceiveSeq := n, persist := p } := by
  have hd : dispatch v seqnum msg s = .ok b s' := by simpa only [dispatch, ht] using h
  unfold process
  simp only [hq, hm, processMsg, Act.bind_ok hd, ht]
  exact ⟨_, _, rfl⟩

/-- What a forced logoff writes before it stops the session. -/
def logoffState (v : Env) (e : Exn) (s : Session) : Session :=
  if s.state = .stLogonReceived ∧ v.silentDisconnect = false then
    { (sendProcess v { generateLogout (some e.what) with noIncrement := true }
      { s with state := .stSessionTerminated }).2 with state := .stLogoffSent }
  else s

theorem forcedLogoff_state {e : Exn} :
    (forcedLogoff v e s).state = { logoffState v e s with
      shutdown := (logoffState v e s).shutdown || !v.reliable } := by
  unfold forcedLogoff logoffState
  rw [Act.get_bind_apply]
  split
  · cases v.reliable <;> simp [stop, Act.bind_apply, send, generateLogout]
  · cases v.reliable <;> simp [stop]

/-- The session of a Logon whose number does not pass: no Logon goes out, the session is not in
`st_continuous`, and it is stopped unless it is reliable. -/
structure LoggedOff (v : Env) (s s' : Session) : Prop where
  state : s'.state ≠ .stContinuous
  logons : logonsSent s' = logonsSent s
  shutdown : s'.shutdown = (s.shutdown || !v.reliable)

theorem forcedLogoff_loggedOff {e : Exn} (hs : s.state = .stLogonReceived) :
    LoggedOff v s (forcedLogoff v e s).state := by
  have hne : ({ generateLogout (some e.what) with noIncrement := true } : Msg).msgType ≠
      .logon := by simp [generateLogout]
  rw [forcedLogoff_state]
  unfold logoffState
  split
  · refine ⟨by simp, sendProcess_logons hne, ?_⟩
    exact congrArg (· || !v.reliable) (sendProcess_frame frame_shutdown.1)
  · exact ⟨by simp [hs], rfl, rfl⟩

/-- A Logon that makes the handler throw. -/
theorem process_logon_throw {e : Exn} (hq : inb.seqnum = some seqnum)
    (hm : inb.result = .ok msg) (ht : msg.msgType = .logon) (he : e.forceLogoff = true)
    (hs : s'.state = .stLogonReceived) (h : handleLogon v seqnum msg s = .throw e s') :
    LoggedOff v s' (process v inb s).state := by
  have hd : dispatch v seqnum msg s = .throw e s' := by simpa only [dispatch, ht] using h
  unfold process
  simp only [hq, hm, processMsg_throw hd, caught, isF8_of_forceLogoff he, he, if_true]
  exact forcedLogoff_loggedOff hs

/-! ## The initiator -/

/-- The Logon names the session's own comp ids, the other way round. -/
def NamesSession (s : Session) (msg : Msg) : Prop :=
  msg.header.targetCompID.getD "" = s.senderCompID ∧
    msg.header.senderCompID.getD "" = s.targetCompID

/-- An initiator takes a Logon whose number passes unless both comp ids are foreign. -/
theorem process_initiator_state (hr : v.role = .initiator) (hc : v.enforceCompids = true)
    (hq : inb.seqnum = some seqnum) (hm : inb.result = .ok msg) (ht : msg.msgType = .logon)
    (hs : s.state ≠ .stContinuous) :
    (process v inb s).state.state = .stContinuous ↔
      NumberPasses v s seqnum msg ∧ (msg.header.targetCompID.getD "" = s.senderCompID ∨
        msg.header.senderCompID.getD "" = s.targetCompID) := by
  have hun : logonUnrecognised v s msg = true ↔
      ¬ (msg.header.targetCompID.getD "" = s.senderCompID ∨
        msg.header.senderCompID.getD "" = s.targetCompID) := by
    simp [logonUnrecognised, hr, @eq_comm _ s.senderCompID, @eq_comm _ s.targetCompID]
  have hopen : handleLogon v seqnum msg s =
      logonInitiator v seqnum msg { s with state := .stLogonReceived } := by
    unfold handleLogon
    rw [Act.get_bind_apply, if_neg hs, doStateChange_bind_apply, hr]
  unfold logonInitiator at hopen
  rw [Act.get_bind_apply, logonUnrecognised_state] at hopen
  by_cases h1 : logonUnrecognised v s msg = true
  · -- both comp ids are foreign: turned away
    rw [if_pos ⟨h1, hc⟩, refuseLogon_apply] at hopen
    obtain ⟨n, p, hp⟩ := process_logon_ok hq hm ht hopen
    rw [hp]
    exact iff_of_false (by simp) fun h => hun.1 h1 h.2
  · rw [if_neg fun h => h1 h.1] at hopen
    have hids := not_not.1 (mt hun.2 h1)
    by_cases h2 : NumberPasses v s seqnum msg
    · obtain ⟨b, hb⟩ := enforce_logon_passes (s := { s with state := .stLogonReceived }) rfl ht
        ((numberPasses_congr rfl rfl).2 h2)
      rw [Act.bind_ok hb] at hopen
      obtain ⟨n, p, hp⟩ := process_logon_ok hq hm ht hopen
      rw [hp]
      exact iff_of_true rfl ⟨h2, hids⟩
    · obtain ⟨e, he, hf⟩ := enforce_logon_fails (s := { s with state := .stLogonReceived }) rfl
        ht (mt (numberPasses_congr rfl rfl).1 h2)
      rw [Act.bind_throw he] at hopen
      exact iff_of_false (process_logon_throw hq hm ht hf rfl hopen).state fun h => h2 h.1

/-- A session that comes to `st_continuous` through the Logon is the one the Logon names. -/
def TakesOwnPeer (v : Env) (inb : Inbound) (msg : Msg) (s : Session) : Prop :=
  s.state ≠ .stContinuous → (process v inb s).state.state = .stContinuous → NamesSession s msg

/-- **An initiator that enforces comp ids takes its own peer's Logon only, exactly where one right
comp id comes with the other**, or the number does not pass. -/
theorem initiator_admits_iff (hr : v.role = .initiator) (hc : v.enforceCompids = true)
    (hq : inb.seqnum = some seqnum) (hm : inb.result = .ok msg) (ht : msg.msgType = .logon) :
    TakesOwnPeer v inb msg s ↔ s.state = .stContinuous ∨ ¬ NumberPasses v s seqnum msg ∨
      (msg.header.targetCompID.getD "" = s.senderCompID ↔
        msg.header.senderCompID.getD "" = s.targetCompID) := by
  unfold TakesOwnPeer NamesSession
  by_cases hs : s.state = .stContinuous
  · simp [hs]
  · rw [process_initiator_state hr hc hq hm ht hs]
    by_cases hn : NumberPasses v s seqnum msg
    · simp only [hs, hn]
      tauto
    · simp [hn]

/-- A Logon for the session `A` from `senderCompID`. -/
def demoLogon (senderCompID : String) : Msg :=
  { msgType := .logon, isAdmin := true, heartBtInt := some 30, encryptMethod := some 0
    header := { demoHeader 5 with senderCompID := some senderCompID } }

/-- An initiator that has sent its Logon. -/
def demoLogonSent : Session := { demoSession with state := .stLogonSent }

theorem initiator_admits_iff_demo : TakesOwnPeer demoEnv (demoLogon "B").inbound (demoLogon "B")
    demoLogonSent :=
  (initiator_admits_iff rfl rfl rfl rfl rfl).2 (.inr (.inr (by decide)))

/-- The peer `C` answers the Logon for `B`. -/
theorem foreign_peer_admitted : ¬ ∀ (v : Env) (inb : Inbound) (seqnum : Nat) (msg : Msg)
    (s : Session), v.role = .initiator → v.enforceCompids = true → inb.seqnum = some seqnum →
    inb.result = .ok msg → msg.msgType = .logon → TakesOwnPeer v inb msg s := by
  intro h
  have hown := h demoEnv (demoLogon "C").inbound 5 (demoLogon "C") demoLogonSent rfl rfl rfl rfl rfl
  exact absurd (hown (by decide) (by decide)).2 (by decide)

/-! ## The acceptor -/

/-- What an acceptor checks before it opens the session: the comp id, when it is enforced, the
client list with the peer's address, and the authentication. -/
structure Authorised (v : Env) (msg : Msg) : Prop where
  compid : v.enforceCompids = true → v.sci = msg.header.targetCompID.getD ""
  client : v.clientOk (msg.header.senderCompID.getD "") = true
  authentic : v.authenticate msg = true

/-- The session whose counter an acceptor holds the Logon against. -/
def opened (v : Env) (s : Session) (msg : Msg) : Session :=
  { s with nextReceiveSeq := startReceiveSeq v s (msg.resetSeqNumFlag = some true) }

/-- Every configured check of an acceptor. -/
structure PassesChecks (v : Env) (s : Session) (seqnum : Nat) (msg : Msg) : Prop where
  authorised : Authorised v msg
  number : NumberPasses v (opened v s msg) seqnum msg
  schedule : v.loginSchedule ≠ some false

/-- The Logon is turned away before it has been answered. -/
structure TurnedAway (s s' : Session) : Prop where
  state : s'.state = .stSessionTerminated
  logons : logonsSent s' = logonsSent s
  shutdown : s'.shutdown = true

/-- The Logon is answered, and the session goes to `st_continuous`; the schedule may end it
there. -/
structure Answered (v : Env) (s s' : Session) : Prop where
  logons : logonsSent s' ≠ logonsSent s
  state : v.loginSchedule ≠ some false → s'.state = .stContinuous

variable (seqnum) in
theorem logonAcceptor_unauthorised (hr : v.role = .acceptor) (h : ¬ Authorised v msg) :
    ∃ s', logonAcceptor v seqnum msg s = .ok false s' ∧ TurnedAway s s' := by
  unfold logonAcceptor
  rw [Act.get_bind_apply]
  by_cases h1 : logonUnrecognised v s msg ∧ v.enforceCompids
  · rw [if_pos h1]
    exact ⟨_, rfl, rfl, rfl, rfl⟩
  · rw [if_neg h1]
    cases h2 : v.clientOk (msg.header.senderCompID.getD "") with
    | false => exact ⟨_, rfl, rfl, rfl, rfl⟩
    | true =>
      have h3 : v.authenticate msg = false := by
        refine eq_false_of_ne_true fun h3 => h ⟨fun hc => ?_, h2, h3⟩
        by_contra hne
        exact h1 ⟨by simp [logonUnrecognised, hr, hne], hc⟩
      obtain ⟨n, p, ho⟩ := openSession_eq v s (msg.resetSeqNumFlag = some true)
      simp only [Bool.not_true, Bool.false_eq_true, if_false]
      rw [Act.bind_ok ho]
      unfold acceptLogon
      rw [h3]
      exact ⟨_, rfl, rfl, rfl, rfl⟩

variable (seqnum) in
/-- An authorised Logon goes to `enforce` in the session the acceptor opens for it. -/
theorem logonAcceptor_authorised (hr : v.role = .acceptor) (h : Authorised v msg) :
    ∃ n p, logonAcceptor v seqnum msg s = (enforce v seqnum msg >>= fun _ => replyLogon v msg)
      { opened v s msg with
        nextSendSeq := n, persist := p
        senderCompID := msg.header.targetCompID.getD ""
        targetCompID := msg.header.senderCompID.getD "" } := by
  have h1 : ¬ (logonUnrecognised v s msg = true ∧ v.enforceCompids = true) := by
    rintro ⟨hu, hc⟩
    simp [logonUnrecognised, hr, h.compid hc] at hu
  obtain ⟨n, p, ho⟩ := openSession_eq v s (msg.resetSeqNumFlag = some true)
  refine ⟨n, p, ?_⟩
  unfold logonAcceptor
  rw [Act.get_bind_apply, if_neg h1]
  simp only [h.client, Bool.not_true, Bool.false_eq_true, if_false]
  rw [Act.bind_ok ho]
  unfold acceptLogon
  rw [if_pos h.authentic]
  rfl

variable (v s msg) in
/-- The reply is sent before the schedule is looked at. -/
theorem replyLogon_answered :
    ∃ b s', replyLogon v msg s = .ok b s' ∧ Answered v s s' := by
  have hsent : ∀ s₁ : Session, logonsSent (sendProcess v (generateLogon (msg.heartBtInt.getD 0)
      (msg.defaultApplVerID.getD "") v.logonHasDavi v.resetSequenceNumbers) s₁).2 ≠
      logonsSent s₁ := by
    intro s₁
    rw [sendProcess_reply rfl rfl]
    simp
  unfold replyLogon
  rw [Act.modify_bind_apply]
  by_cases hl : v.loginSchedule = some false
  · rw [if_pos hl]
    exact ⟨false, _, rfl, hsent _, fun h => absurd hl h⟩
  · rw [if_neg hl]
    exact ⟨true, _, rfl, hsent _, fun _ => rfl⟩

theorem handleLogon_acceptor (hr : v.role = .acceptor) (hs : s.state ≠ .stContinuous) :
    handleLogon v seqnum msg s =
      logonAcceptor v seqnum msg { s with state := .stLogonReceived } := by
  unfold handleLogon
  rw [Act.get_bind_apply, if_neg hs, doStateChange_bind_apply, hr]

section
variable (hr : v.role = .acceptor) (hs : s.state ≠ .stContinuous) (hq : inb.seqnum = some seqnum)
  (hm : inb.result = .ok msg) (ht : msg.msgType = .logon)
include hr hs hq hm ht

theorem process_unauthorised (h : ¬ Authorised v msg) : TurnedAway s (process v inb s).state := by
  obtain ⟨s', h', hst, hlog, hdown⟩ := logonAcceptor_unauthorised seqnum
    (s := { s with state := .stLogonReceived }) hr h
  obtain ⟨n, p, hp⟩ := process_logon_ok hq hm ht ((handleLogon_acceptor hr hs).trans h')
  rw [hp]
  exact ⟨hst, hlog, hdown⟩

theorem process_number_fails (h : Authorised v msg)
    (hn : ¬ NumberPasses v (opened v s msg) seqnum msg) :
    LoggedOff v s (process v inb s).state := by
  obtain ⟨n, p, h'⟩ := logonAcceptor_authorised seqnum
    (s := { s with state := .stLogonReceived }) hr h
  obtain ⟨e, he, hf⟩ := enforce_logon_fails (s := { opened v s msg with
    state := .stLogonReceived, nextSendSeq := n, persist := p
    senderCompID := msg.header.targetCompID.getD ""
    targetCompID := msg.header.senderCompID.getD "" }) rfl ht (mt (numberPasses_congr rfl rfl).1 hn)
  have hend := ((handleLogon_acceptor hr hs).trans h').trans (Act.bind_throw he _)
  obtain ⟨hst, hlog, hdown⟩ := process_logon_throw hq hm ht hf rfl hend
  exact ⟨hst, hlog, hdown⟩

theorem process_answered (h : Authorised v msg)
    (hn : NumberPasses v (opened v s msg) seqnum msg) :
    Answered v s (process v inb s).state := by
  obtain ⟨n, p, h'⟩ := logonAcceptor_authorised seqnum
    (s := { s with state := .stLogonReceived }) hr h
  obtain ⟨b, hb⟩ := enforce_logon_passes (s := { opened v s msg with
    state := .stLogonReceived, nextSendSeq := n, persist := p
    senderCompID := msg.header.targetCompID.getD ""
    targetCompID := msg.header.senderCompID.getD "" }) rfl ht ((numberPasses_congr rfl rfl).2 hn)
  obtain ⟨b', s', hend, hlog, hst⟩ := replyLogon_answered v
    { opened v s msg with
      state := .stLogonReceived, nextSendSeq := n, persist := p
      senderCompID := msg.header.targetCompID.getD ""
      targetCompID := msg.header.senderCompID.getD "" } msg
  obtain ⟨k, p', hp⟩ := process_logon_ok hq hm ht
    (((handleLogon_acceptor hr hs).trans h').trans ((Act.bind_ok hb _).trans hend))
  rw [hp]
  exact ⟨hlog, hst⟩

end

/-- A Logon in `st_continuous` is answered with a Reject. -/
theorem process_again (hs : s.state = .stContinuous) (hq : inb.seqnum = some seqnum)
    (hm : inb.result = .ok msg) (ht : msg.msgType = .logon) :
    logonsSent (process v inb s).state = logonsSent s ∧
      (process v inb s).state.shutdown = s.shutdown := by
  have hend : handleLogon v seqnum msg s = .ok true (sendProcess v
      (generateReject seqnum (some "Already logged on") none) s).2 := by
    unfold handleLogon
    rw [Act.get_bind_apply, if_pos hs]
    rfl
  obtain ⟨n, p, hp⟩ := process_logon_ok hq hm ht hend
  rw [hp]
  exact ⟨sendProcess_logons (by simp [generateReject]), sendProcess_frame frame_shutdown.1⟩

/-- The session answers the Logon, or goes to `st_continuous` through it. -/
def Admits (s s' : Session) : Prop :=
  logonsSent s' ≠ logonsSent s ∨ (s.state ≠ .stContinuous ∧ s'.state = .stContinuous)

/-- The Logon is let in when it passes every check only; else it is not answered, and the session
is stopped. -/
structure AdmitsChecked (v : Env) (inb : Inbound) (seqnum : Nat) (msg : Msg) (s : Session) :
    Prop where
  admitted : Admits s (process v inb s).state → PassesChecks v s seqnum msg
  refused : ¬ PassesChecks v s seqnum msg →
    logonsSent (process v inb s).state = logonsSent s ∧ (process v inb s).state.shutdown = true

/-- Where the checks come in time: in `st_continuous` there are none; the schedule is only looked
at after the reply, and a failed number stops no reliable session. -/
def AdmissionSafe (v : Env) (s : Session) (seqnum : Nat) (msg : Msg) : Prop :=
  if s.state = .stContinuous then PassesChecks v s seqnum msg ∨ s.shutdown = true
  else Authorised v msg →
    if NumberPasses v (opened v s msg) seqnum msg then v.loginSchedule ≠ some false
    else v.reliable = false ∨ s.shutdown = true

/-- **An acceptor admits what passes its checks and stops on the rest, exactly where the schedule
lets an otherwise good Logon in and a failed number meets no reliable session.** -/
theorem acceptor_admits_iff (hr : v.role = .acceptor) (hq : inb.seqnum = some seqnum)
    (hm : inb.result = .ok msg) (ht : msg.msgType = .logon) :
    AdmitsChecked v inb seqnum msg s ↔ AdmissionSafe v s seqnum msg := by
  unfold AdmissionSafe
  by_cases hs : s.state = .stContinuous
  · rw [if_pos hs]
    obtain ⟨hlog, hdown⟩ := process_again hs hq hm ht (v := v)
    constructor
    · intro h
      by_contra hc
      obtain ⟨hp, hd⟩ := not_or.1 hc
      exact hd (hdown ▸ (h.refused hp).2)
    · intro h
      refine ⟨fun ha => ?_, fun hp => ⟨hlog, hdown.trans (h.resolve_left hp)⟩⟩
      rcases ha with hl | ⟨hne, -⟩
      · exact absurd hlog hl
      · exact absurd hs hne
  · rw [if_neg hs]
    by_cases ha : Authorised v msg
    · by_cases hn : NumberPasses v (opened v s msg) seqnum msg
      · simp only [ha, hn, if_true, true_implies]
        have hans := process_answered hr hs hq hm ht ha hn
        constructor
        · intro h hsch
          exact hans.logons (h.refused fun hp => hp.schedule hsch).1
        · intro hsch
          exact ⟨fun _ => ⟨ha, hn, hsch⟩, fun hp => absurd ⟨ha, hn, hsch⟩ hp⟩
      · simp only [ha, hn, if_false, true_implies]
        obtain ⟨hst, hlog, hdown⟩ := process_number_fails hr hs hq hm ht ha hn
        have hp : ¬ PassesChecks v s seqnum msg := fun hp => hn hp.number
        constructor
        · intro h
          have := hdown ▸ (h.refused hp).2
          simpa [or_comm] using this
        · intro h
          refine ⟨fun hadm => ?_, fun _ => ⟨hlog, hdown.trans (by simpa [or_comm] using h)⟩⟩
          rcases hadm with hl | ⟨-, hc⟩
          · exact absurd hlog hl
          · exact absurd hc hst
    · simp only [ha, false_implies, iff_true]
      obtain ⟨hst, hlog, hdown⟩ := process_unauthorised hr hs hq hm ht ha
      refine ⟨fun hadm => ?_, fun _ => ⟨hlog, hdown⟩⟩
      rcases hadm with hl | ⟨-, hc⟩
      · exact absurd hlog hl
      · rw [hst] at hc
        cases hc

end

/-- An acceptor for `A`, inside or outside its login schedule. -/
def demoAcceptor (inHours : Bool) : Env :=
  { demoEnv with role := .acceptor, sci := "A", loginSchedule := some inHours }

/-- An acceptor that has been connected to. -/
def demoWaiting : Session := { demoSession with state := .stWaitForLogon, nextReceiveSeq := 5 }

theorem acceptor_admits_iff_demo : AdmitsChecked (demoAcceptor true) (demoLogon "B").inbound 5
    (demoLogon "B") demoWaiting := by
  refine (acceptor_admits_iff rfl rfl rfl rfl).2 ?_
  unfold AdmissionSafe
  rw [if_neg (by decide)]
  intro _
  rw [if_pos (by decide)]
  decide

/-- Outside the schedule the reply goes out before the session is ended. -/
theorem late_logon_answered : ¬ ∀ (v : Env) (inb : Inbound) (seqnum : Nat) (msg : Msg)
    (s : Session), v.role = .acceptor → inb.seqnum = some seqnum → inb.result = .ok msg →
    msg.msgType = .logon → AdmitsChecked v inb seqnum msg s := by
  intro h
  have hadm := h (demoAcceptor false) (demoLogon "B").inbound 5 (demoLogon "B") demoWaiting rfl rfl
    rfl rfl
  exact absurd (hadm.refused fun hp => hp.schedule rfl).1 (by decide)

end Fix8.Session
