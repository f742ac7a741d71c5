import Fix8.Session.Pair
import Fix8.Session.Proof.Recovery
import Fix8.Session.Proof.Stored

/-!
# Two sessions agree on their counters

What a party does in an ordinary step is an exchange: it takes at most one message and sends some,
numbered from its counter on. The messages in flight are then numbered from what the receiver
expects to what the sender uses next. Numbers are read behind the first `34=` of a text, so what is
taken has to be clear, and the counters stay below 2^31 (`InRange`).

* `Exchanges`: a party before and after an ordinary step;
* `exchanges_process`: `process` on the message the session expects;
* `Joined`: the invariant of one direction;
* **`counters_agree`**: it holds in every state of a run of ordinary steps.
-/

namespace Fix8.Session

open Lib

/-! ## Exchanges -/

/-- A message that a session with these comp ids has sent in an exchange. -/
structure Ordinary (s : Session) (m : Msg) : Prop where
  msgType : ordinaryType m.msgType = true
  senderCompID : m.header.senderCompID = some s.senderCompID
  targetCompID : m.header.targetCompID = some s.targetCompID
  complete : m.header.findMissing = none

/-- From `s` to `s'` the session has sent `ms`, numbered from its counter on. -/
structure Transmits (s s' : Session) (ms : Text) : Prop where
  senderCompID : s'.senderCompID = s.senderCompID
  targetCompID : s'.targetCompID = s.targetCompID
  wire : s.wire <+: s'.wire
  outgoing : outgoing s' = outgoing s ++ ms
  nextSendSeq : s'.nextSendSeq = s.nextSendSeq + ms.length
  numbers : ms.map (·.header.msgSeqNum) = (List.range' s.nextSendSeq ms.length).map some
  ordinary : ∀ m ∈ ms, Ordinary s m

/-- From `s` to `s'` the session has taken so many messages, and sent some. -/
structure Exchanges (taken : Nat) (s s' : Session) : Prop where
  nextReceiveSeq : s'.nextReceiveSeq = s.nextReceiveSeq + taken
  sends : ∃ ms, Transmits s s' ms

section
variable {v : Env} {s s' s'' peer : Session} {m : Msg} {ms ms' : Text} {n k : Nat}

theorem Transmits.trans (h : Transmits s s' ms) (h' : Transmits s' s'' ms') :
    Transmits s s'' (ms ++ ms') where
  senderCompID := h'.senderCompID.trans h.senderCompID
  targetCompID := h'.targetCompID.trans h.targetCompID
  wire := h.wire.trans h'.wire
  outgoing := by rw [h'.outgoing, h.outgoing, List.append_assoc]
  nextSendSeq := by rw [h'.nextSendSeq, h.nextSendSeq, List.length_append, Nat.add_assoc]
  numbers := by
    rw [List.map_append, h.numbers, h'.numbers, h.nextSendSeq, ← List.map_append,
      List.range'_append_1, List.length_append]
  ordinary := by
    intro m hm
    obtain hm | hm := List.mem_append.1 hm
    · exact h.ordinary m hm
    · obtain ⟨htype, hsender, htarget, hcomplete⟩ := h'.ordinary m hm
      rw [h.senderCompID] at hsender
      rw [h.targetCompID] at htarget
      exact ⟨htype, hsender, htarget, hcomplete⟩

/-- The session has sent nothing. -/
theorem transmits_nothing (hsender : s'.senderCompID = s.senderCompID)
    (htarget : s'.targetCompID = s.targetCompID) (hwire : s'.wire = s.wire)
    (hbuffer : s'.batchmsgsBuffer = s.batchmsgsBuffer) (hnext : s'.nextSendSeq = s.nextSendSeq) :
    Transmits s s' [] where
  senderCompID := hsender
  targetCompID := htarget
  wire := hwire ▸ List.prefix_refl _
  outgoing := by rw [Session.outgoing, Session.outgoing, hwire, hbuffer, List.append_nil]
  nextSendSeq := hnext
  numbers := rfl
  ordinary := by simp

theorem Exchanges.trans (h : Exchanges n s s') (h' : Exchanges k s' s'') :
    Exchanges (n + k) s s'' := by
  obtain ⟨ms, hms⟩ := h.sends
  obtain ⟨ms', hms'⟩ := h'.sends
  refine ⟨?_, _, hms.trans hms'⟩
  rw [h'.nextReceiveSeq, h.nextReceiveSeq, Nat.add_assoc]

/-- The session has counted, or changed what the peer does not see. -/
theorem exchanges_quiet (hsender : s'.senderCompID = s.senderCompID)
    (htarget : s'.targetCompID = s.targetCompID) (hwire : s'.wire = s.wire)
    (hbuffer : s'.batchmsgsBuffer = s.batchmsgsBuffer) (hnext : s'.nextSendSeq = s.nextSendSeq)
    (hreceive : s'.nextReceiveSeq = s.nextReceiveSeq + n) : Exchanges n s s' :=
  ⟨hreceive, _, transmits_nothing hsender htarget hwire hbuffer hnext⟩

theorem exchanges_refl (s : Session) : Exchanges 0 s s :=
  exchanges_quiet rfl rfl rfl rfl rfl rfl

/-! ## Sending a new message -/

theorem New.stamped (h : New s m) : Ordinary s (stamp v s m) := by
  obtain ⟨-, hsender, htarget, -⟩ := stamp_header (v := v) (s := s) (m := m)
  refine ⟨h.msgType, ?_, ?_, stamp_findMissing⟩
  · rw [hsender]
    obtain hs | hs := h.senderCompID <;> rw [hs] <;> rfl
  · rw [htarget]
    obtain ht | ht := h.targetCompID <;> rw [ht] <;> rfl

theorem Ordinary.cstr (h : Ordinary s m) : Ordinary s m.cstr := by
  unfold Msg.cstr
  split
  · exact h
  · exact ⟨h.msgType, h.senderCompID, h.targetCompID, h.complete⟩

theorem cstr_header : m.cstr.header = m.header := by
  unfold Msg.cstr
  split <;> rfl

theorem New.goesPossDup (h : New s m) : goesPossDup v m.header = false := by
  unfold Session.goesPossDup
  rw [h.msgSeqNum, h.possDupFlag]
  rfl

theorem New.number (h : New s m) :
    (stamp v s m).header.msgSeqNum = some s.nextSendSeq := by
  rw [stamp_msgSeqNum h.goesPossDup h.possDupFlag, assignedSeqnum_eq.2 (.inl h.customSeqnum)]

/-- A new message has the next number on the wire. -/
theorem New.wireText (h : New s m) : ∃ m', wireText v s m = [m'] ∧ Ordinary s m' ∧
    m'.header.msgSeqNum = some s.nextSendSeq := by
  unfold Session.wireText
  split
  · exact ⟨_, rfl, h.stamped, h.number⟩
  · exact ⟨_, rfl, h.stamped.cstr, by rw [cstr_header, h.number]⟩

theorem New.counts (h : New s m) (hinc : m.noIncrement = false) : Counts m := by
  refine ⟨h.customSeqnum, hinc, ?_⟩
  intro htype
  have hord := h.msgType
  rw [htype] at hord
  exact absurd hord (by decide)

theorem New.not_isDup (h : New s m) : isDup v s m = false := by
  rw [isDup_of_not_possDup h.goesPossDup, h.possDupFlag]
  rfl

/-- A new message that does not go out changes nothing, and one that does is counted. -/
theorem exchanges_sendProcess (hl : Lossless v) (h : New s m) (hinc : m.noIncrement = false)
    (hn : s.nextSendSeq + 1 < 4294967296) : Exchanges 0 s (sendProcess v m s).2 := by
  cases henc : m.encodeErr with
  | some w =>
    have hid : sendProcess v m s = (false, s) := if_pos (by rw [stamp_encodeErr, henc]; rfl)
    rw [hid]
    exact exchanges_refl s
  | none =>
    have hout : GoesOut v s m := ⟨henc, fun _ => hl _⟩
    obtain hfail | hsucc := sendProcess_cases v s m
    · exact absurd hout hfail.stays
    obtain ⟨m', hm', hord, hnum⟩ := h.wireText (v := v)
    refine ⟨sendProcess_frame silent_nextReceiveSeq.1, [m'], ?_⟩
    constructor
    · exact sendProcess_frame (f := Session.senderCompID) fun _ _ _ _ _ _ _ _ => rfl
    · exact sendProcess_frame (f := Session.targetCompID) fun _ _ _ _ _ _ _ _ => rfl
    · rw [hsucc.wire]
      split
      · rw [List.append_assoc]
        exact List.prefix_append _ _
      · exact List.prefix_refl _
    · rw [outgoing, outgoing, hsucc.wire, hsucc.buffer, hm']
      split
      · rw [List.append_nil]
      · rw [List.append_assoc]
    · rw [hsucc.nextSendSeq, if_pos ⟨h.not_isDup, h.counts hinc⟩, nextUnsigned_of_lt hn]
      rfl
    · rw [List.map_singleton, hnum]
      rfl
    · intro m'' hm''
      obtain rfl := List.mem_singleton.1 hm''
      exact hord

theorem exchanges_send (hl : Lossless v) (h : New s m) (hinc : m.noIncrement = false)
    (hn : s.nextSendSeq + 1 < 4294967296) : Exchanges 0 s (send v m 0 false s).state := by
  have hsame : (send v m 0 false s).state = (sendProcess v m s).2 := rfl
  rw [hsame]
  exact exchanges_sendProcess hl h hinc hn

theorem counter_sendProcess (hn : s.nextSendSeq + 1 < 4294967296) :
    (sendProcess v m s).2.nextSendSeq ≤ s.nextSendSeq + 1 := by
  obtain hfail | hsucc := sendProcess_cases v s m
  · rw [hfail.nextSendSeq]
    exact Nat.le_succ _
  · rw [hsucc.nextSendSeq, nextUnsigned_of_lt hn]
    split <;> omega

/-! ## Taking the message that is expected -/

/-- The next message of the peer. -/
structure Expected (s : Session) (m : Msg) : Prop where
  msgType : ordinaryType m.msgType = true
  msgSeqNum : m.header.msgSeqNum = some s.nextReceiveSeq
  senderCompID : m.header.senderCompID = some s.targetCompID
  targetCompID : m.header.targetCompID = some s.senderCompID
  complete : m.header.findMissing = none

/-- `sequence_check` finds neither a gap nor a number too low. -/
theorem sequenceCheck_passes {msg : Msg} : sequenceCheck v s.nextReceiveSeq msg s = .ok true s := by
  unfold sequenceCheck
  rw [Act.get_bind_apply, if_neg (lt_irrefl _), if_neg (lt_irrefl _)]
  rfl

/-- The expected message passes the checks of every handler, and nothing is written. -/
theorem enforce_passes (h : Expected s m) :
    ∃ b, enforce v s.nextReceiveSeq m.onWire s = .ok b s := by
  have hstate : enforceState v s s.nextReceiveSeq m.onWire = s := by
    unfold enforceState sequenceState
    rw [if_neg (fun hgap => lt_irrefl _ hgap.1 : ¬ (s.nextReceiveSeq > s.nextReceiveSeq ∧ _)),
      ite_self]
  have hcomp : compidEnd v s m.onWire = none := by
    simp [compidEnd, Msg.onWire, h.senderCompID, h.targetCompID]
  have hseq : sequenceEnd v s s.nextReceiveSeq m.onWire = .ok true := by
    unfold sequenceEnd
    rw [if_neg (lt_irrefl _), if_neg (lt_irrefl _)]
  obtain ⟨b, hend⟩ : ∃ b, enforceEnd v s s.nextReceiveSeq m.onWire = .ok b := by
    unfold enforceEnd
    rw [hcomp, hseq]
    split
    · dsimp only
      split <;> exact ⟨_, rfl⟩
    · exact ⟨_, rfl⟩
  refine ⟨b, ?_⟩
  rw [enforce_eq, hend, hstate]

/-- How a handler ends: it returns, or throws an exception that is answered with a Reject, with
nothing sent. -/
def Handled (s : Session) : Res Session Exn Bool → Prop
  | .ok _ s' => Exchanges 0 s s'
  | .throw e s' => e.isReject = true ∧ Exchanges 0 s s' ∧ s'.nextSendSeq = s.nextSendSeq

theorem handled_heartbeat (h : Expected s m) :
    Handled s (handleHeartbeat v s.nextReceiveSeq m.onWire s) := by
  obtain ⟨b, henf⟩ := enforce_passes (v := v) h
  unfold handleHeartbeat
  rw [Act.bind_ok henf, Act.bind_ok changeFrom_apply]
  exact exchanges_quiet rfl rfl rfl rfl rfl rfl

theorem new_heartbeat (testReqID : String) : New s (generateHeartbeat testReqID) :=
  ⟨rfl, rfl, rfl, .inl rfl, .inl rfl, rfl⟩

theorem new_testRequest (testReqID : String) : New s (generateTestRequest testReqID) :=
  ⟨rfl, rfl, rfl, .inl rfl, .inl rfl, rfl⟩

theorem new_reject (seqnum : Nat) (what msgtype : Option String) :
    New s (generateReject seqnum what msgtype) :=
  ⟨rfl, rfl, rfl, .inl rfl, .inl rfl, rfl⟩

/-- A test request is answered with a heartbeat. -/
theorem handled_testRequest (hl : Lossless v) (h : Expected s m)
    (hn : s.nextSendSeq + 1 < 4294967296) :
    Handled s (handleTestRequest v s.nextReceiveSeq m.onWire s) := by
  obtain ⟨b, henf⟩ := enforce_passes (v := v) h
  unfold handleTestRequest
  rw [Act.bind_ok henf]
  exact exchanges_send hl (new_heartbeat _) rfl hn

theorem handled_application (happ : Rejecting v) (h : Expected s m) :
    Handled s (handleApplication v s.nextReceiveSeq m.onWire s) := by
  unfold handleApplication
  rw [Act.modify_bind_apply]
  generalize hs' : { s with applied := s.applied ++ [(s.nextReceiveSeq, m.onWire)] } = s'
  have hex : Exchanges 0 s s' := by
    subst hs'
    exact exchanges_quiet rfl rfl rfl rfl rfl rfl
  have hnext : s'.nextReceiveSeq = s.nextReceiveSeq := hex.nextReceiveSeq
  have hsend : s'.nextSendSeq = s.nextSendSeq := by rw [← hs']
  have hexp : Expected s' m := by
    subst hs'
    exact ⟨h.msgType, h.msgSeqNum, h.senderCompID, h.targetCompID, h.complete⟩
  obtain ⟨b, henf⟩ := enforce_passes (v := v) hexp
  rw [hnext] at henf
  rw [Act.bind_ok henf]
  cases b with
  | true => exact hex
  | false =>
    rw [if_neg Bool.false_ne_true]
    cases hend : v.application s.nextReceiveSeq m.onWire with
    | ok b' => exact hex
    | error e => exact ⟨happ _ _ _ hend, hex, hsend⟩

/-- The handlers of an exchange, one case for each type. -/
theorem handled_dispatch (hl : Lossless v) (happ : Rejecting v) (h : Expected s m)
    (hn : s.nextSendSeq + 1 < 4294967296) :
    Handled s (dispatch v s.nextReceiveSeq m.onWire s) := by
  have hord := h.msgType
  unfold dispatch
  cases htype : m.msgType with
  | heartbeat =>
    rw [show m.onWire.msgType = .heartbeat from htype]
    exact handled_heartbeat h
  | testRequest =>
    rw [show m.onWire.msgType = .testRequest from htype]
    exact handled_testRequest hl h hn
  | reject =>
    rw [show m.onWire.msgType = .reject from htype]
    exact exchanges_refl s
  | application t =>
    rw [show m.onWire.msgType = .application t from htype]
    dsimp only
    rw [Act.get_bind_apply]
    split
    · exact handled_application happ h
    · exact exchanges_refl s
  | _ =>
    rw [htype] at hord
    exact absurd hord (by decide)

/-- A message given back with a Reject is counted. -/
theorem exchanges_caught {seqnum : Nat} {msg : Option Msg} {e : Exn} (hl : Lossless v)
    (he : e.isReject = true) (hn : s.nextSendSeq + 1 < 4294967296)
    (hr : s.nextReceiveSeq + 1 < 4294967296) : ∃ s', caught v seqnum msg e s = .ok .rejected s' ∧
      Exchanges 1 s s' := by
  simp only [Exn.isReject, Bool.and_eq_true, Bool.not_eq_true'] at he
  refine ⟨_, by unfold caught; rw [if_pos he.1, if_neg (by simp [he.2])]; rfl, ?_⟩
  have hsent : Exchanges 0 s (handleOutboundReject v seqnum msg e.what s).state :=
    exchanges_send hl (new_reject _ _ _) rfl hn
  have hnext : (handleOutboundReject v seqnum msg e.what s).state.nextReceiveSeq =
      s.nextReceiveSeq := hsent.nextReceiveSeq
  have hcount : nextUnsigned (handleOutboundReject v seqnum msg e.what s).state.nextReceiveSeq =
      (handleOutboundReject v seqnum msg e.what s).state.nextReceiveSeq + 1 :=
    nextUnsigned_of_lt (by omega)
  exact hsent.trans (k := 1) (exchanges_quiet rfl rfl rfl rfl rfl hcount)

theorem exchanges_counted (hr : s.nextReceiveSeq + 1 < 4294967296) :
    Exchanges 1 s (counted v s) :=
  exchanges_quiet rfl rfl rfl rfl rfl (nextUnsigned_of_lt hr)

/-- **`process` on the expected message** returns, and counts it. -/
theorem exchanges_process (hl : Lossless v) (happ : Rejecting v) (h : Expected s m)
    (hclear : m.Clear) (hn : s.nextSendSeq + 1 < 4294967296)
    (hr : s.nextReceiveSeq < 2147483648) :
    ∃ x s', process v m.inbound s = .ok x s' ∧ x ≠ .failed ∧ Exchanges 1 s s' := by
  have hnum : m.inbound.seqnum = some s.nextReceiveSeq := Msg.seqnum_inbound hclear h.msgSeqNum hr
  cases hdec : m.decodeErr with
  | some w =>
    have hres : m.inbound.result = .error w := by simp [Msg.inbound, Msg.decoded, hdec]
    obtain ⟨s', hcaught, hex⟩ : ∃ s', caught v s.nextReceiveSeq none (codecExn w) s =
        .ok .rejected s' ∧ Exchanges 1 s s' := exchanges_caught hl rfl hn (by omega)
    refine ⟨.rejected, s', ?_, by decide, hex⟩
    simp only [process, hnum, hres, hcaught]
  | none =>
    have hok : m.decoded = .ok m.onWire := by simp [Msg.decoded, hdec, h.complete]
    have hhandled := handled_dispatch hl happ h hn
    cases hdisp : dispatch v s.nextReceiveSeq m.onWire s with
    | ok b s' =>
      rw [hdisp] at hhandled
      have hnot : m.onWire.msgType ≠ .logout := by
        intro htype
        have hord := h.msgType
        rw [show m.msgType = .logout from htype] at hord
        exact absurd hord (by decide)
      have hproc := process_handled hnum hok hnot hdisp
      have hnext : s'.nextReceiveSeq = s.nextReceiveSeq := hhandled.nextReceiveSeq
      exact ⟨.handled b, _, hproc, by simp, hhandled.trans (exchanges_counted (by omega))⟩
    | throw e s' =>
      rw [hdisp] at hhandled
      obtain ⟨he, hex, hsend⟩ := hhandled
      have hnext : s'.nextReceiveSeq = s.nextReceiveSeq := hex.nextReceiveSeq
      obtain ⟨s'', hcaught, hex'⟩ : ∃ s'', caught v s.nextReceiveSeq (some m.onWire) e s' =
          .ok .rejected s'' ∧ Exchanges 1 s' s'' :=
        exchanges_caught hl he (by omega) (by omega)
      refine ⟨.rejected, s'', ?_, by decide, hex.trans hex'⟩
      have hres : m.inbound.result = .ok m.onWire := hok
      simp only [process, hnum, hres, processMsg_throw hdisp, hcaught]

/-! ## The timer -/

theorem exchanges_watch (hl : Lossless v) (hn : s.nextSendSeq + 1 < 4294967296)
    (h : ¬ ((s.clock - s.lastReceived) / 1000 > s.hbInterval20pc ∧ s.state = .stTestRequestSent)) :
    Exchanges 0 s (watchReceived v s).state := by
  unfold watchReceived
  rw [Act.get_bind_apply]
  split
  · rename_i hlate
    rw [if_neg fun hstate => h ⟨hlate, hstate⟩]
    split
    · have hsent : Exchanges 0 s (send v (generateTestRequest "TEST") 0 false s).state :=
        exchanges_send hl (new_testRequest _) rfl hn
      exact hsent.trans (k := 0) (exchanges_quiet rfl rfl rfl rfl rfl rfl)
    · exact exchanges_refl s
  · exact exchanges_refl s

/-- The heartbeat of the timer; the watchdog does not see it. -/
theorem exchanges_beat (hl : Lossless v) (hn : s.nextSendSeq + 1 < 4294967296) :
    ∃ s', (if (s.clock - s.lastSent) / 1000 ≥ s.hbInterval
      then do
        let _ ← send v (generateHeartbeat "")
        pure ()
      else pure () : Method Unit) s = .ok () s' ∧ Exchanges 0 s s' ∧
    s'.nextSendSeq ≤ s.nextSendSeq + 1 ∧ s'.state = s.state ∧
    s'.clock = s.clock ∧ s'.lastReceived = s.lastReceived ∧ s'.hbInterval20pc = s.hbInterval20pc := by
  split
  · refine ⟨_, rfl, exchanges_send hl (new_heartbeat _) rfl hn, ?_, ?_, ?_, ?_, ?_⟩
    · exact counter_sendProcess hn
    · exact sendProcess_frame (f := Session.state) fun _ _ _ _ _ _ _ _ => rfl
    · exact sendProcess_frame (f := Session.clock) fun _ _ _ _ _ _ _ _ => rfl
    · exact sendProcess_frame (f := Session.lastReceived) fun _ _ _ _ _ _ _ _ => rfl
    · exact sendProcess_frame (f := Session.hbInterval20pc) fun _ _ _ _ _ _ _ _ => rfl
  · exact ⟨s, rfl, exchanges_refl s, Nat.le_succ _, rfl, rfl, rfl, rfl⟩

/-- The timer of a session that does not give its peer up. -/
theorem exchanges_tick {now : Nat} (hl : Lossless v) (h : ¬ LogsOut s now)
    (hn : s.nextSendSeq + 2 < 4294967296) : Exchanges 0 s (step v s (.tick now)) := by
  have hclock : Exchanges 0 s { s with clock := now } := exchanges_quiet rfl rfl rfl rfl rfl rfl
  refine hclock.trans (k := 0) ?_
  obtain ⟨s', hbeat, hex, hcount, hstate, hnow, hlast, hint⟩ :=
    exchanges_beat (s := { s with clock := now }) hl (show s.nextSendSeq + 1 < 4294967296 by omega)
  have hcount' : s'.nextSendSeq ≤ s.nextSendSeq + 1 := hcount
  have hwatch : Exchanges 0 s' (watchReceived v s').state := by
    apply exchanges_watch hl (by omega)
    rw [hstate, hnow, hlast, hint]
    exact h
  show Exchanges 0 _ (heartbeatService v _).state
  unfold heartbeatService
  rw [Act.get_bind_apply]
  split
  · exact exchanges_refl _
  split
  · rw [Act.bind_ok hbeat]
    have hrest : ((do watchReceived v; pure true : Method Bool) s').state =
        (watchReceived v s').state := by
      rw [Act.bind_apply]
      cases watchReceived v s' <;> rfl
    rw [hrest]
    exact hex.trans (k := 0) hwatch
  · exact exchanges_refl _

/-! ## One direction of the pair -/

/-- What one session has sent and the other has not taken is numbered from what the receiver expects
to what the sender uses next. -/
structure Joined (s peer : Session) (taken : Nat) : Prop where
  senderCompID : s.senderCompID = peer.targetCompID
  targetCompID : s.targetCompID = peer.senderCompID
  takenFromWire : taken ≤ s.wire.length
  counters : peer.nextReceiveSeq + (inFlight s taken).length = s.nextSendSeq
  numbers : (inFlight s taken).map (·.header.msgSeqNum) =
    (List.range' peer.nextReceiveSeq (inFlight s taken).length).map some
  ordinary : ∀ m ∈ inFlight s taken, Ordinary s m

/-- Established sessions with nothing in flight. -/
theorem joined_of_idle (hsender : s.senderCompID = peer.targetCompID)
    (htarget : s.targetCompID = peer.senderCompID) (hbuffer : s.batchmsgsBuffer = [])
    (hcount : peer.nextReceiveSeq = s.nextSendSeq) : Joined s peer s.wire.length := by
  have hnone : inFlight s s.wire.length = [] := by simp [inFlight, outgoing, hbuffer]
  refine ⟨hsender, htarget, le_refl _, ?_, ?_, ?_⟩ <;> rw [hnone]
  · exact hcount
  · rfl
  · simp

/-- The sender moves: what it sends is numbered on. -/
theorem Joined.sender (h : Joined s peer k) (hex : Exchanges n s s') : Joined s' peer k := by
  obtain ⟨ms, hms⟩ := hex.sends
  have hle : k ≤ (outgoing s).length := by
    have hk := h.takenFromWire
    rw [outgoing, List.length_append]
    omega
  have hflight : inFlight s' k = inFlight s k ++ ms := by
    rw [inFlight, hms.outgoing, List.drop_append_of_le_length hle, inFlight]
  constructor
  · rw [hms.senderCompID, h.senderCompID]
  · rw [hms.targetCompID, h.targetCompID]
  · exact h.takenFromWire.trans hms.wire.length_le
  · rw [hflight, List.length_append, hms.nextSendSeq, ← h.counters, Nat.add_assoc]
  · rw [hflight, List.map_append, h.numbers, hms.numbers, ← h.counters, ← List.map_append,
      List.range'_append_1, List.length_append]
  · intro m hm
    rw [hflight] at hm
    obtain ⟨htype, hsender, htarget, hcomplete⟩ : Ordinary s m := by
      obtain hm | hm := List.mem_append.1 hm
      · exact h.ordinary m hm
      · exact hms.ordinary m hm
    rw [← hms.senderCompID] at hsender
    rw [← hms.targetCompID] at htarget
    exact ⟨htype, hsender, htarget, hcomplete⟩

/-- The receiver moves without taking a message. -/
theorem Joined.receiver {peer' : Session} (h : Joined s peer k) (hex : Exchanges 0 peer peer') :
    Joined s peer' k := by
  obtain ⟨ms, hms⟩ := hex.sends
  have hnext : peer'.nextReceiveSeq = peer.nextReceiveSeq := hex.nextReceiveSeq
  refine ⟨?_, ?_, h.takenFromWire, ?_, ?_, h.ordinary⟩
  · rw [hms.targetCompID, h.senderCompID]
  · rw [hms.senderCompID, h.targetCompID]
  · rw [hnext, h.counters]
  · rw [hnext, h.numbers]

/-- The message at the head of the channel. -/
theorem inFlight_eq_cons (hm : s.wire[k]? = some m) :
    inFlight s k = m :: inFlight s (k + 1) := by
  obtain ⟨hlt, rfl⟩ := List.getElem?_eq_some_iff.1 hm
  have hlt' : k < (outgoing s).length := by
    rw [outgoing, List.length_append]
    omega
  rw [inFlight, List.drop_eq_getElem_cons hlt', inFlight]
  congr 1
  exact List.getElem_append_left hlt

theorem Joined.number (h : Joined s peer k) (hm : (inFlight s k).head? = some m) :
    m.header.msgSeqNum = some peer.nextReceiveSeq := by
  obtain ⟨ms, hms⟩ := List.head?_eq_some_iff.1 hm
  have hnums := h.numbers
  rw [hms] at hnums
  exact (List.cons.inj hnums).1

theorem Joined.expected (h : Joined s peer k) (hm : s.wire[k]? = some m) : Expected peer m := by
  have hflight := inFlight_eq_cons hm
  have hnum : m.header.msgSeqNum = some peer.nextReceiveSeq := by
    apply h.number
    rw [hflight]
    rfl
  obtain ⟨htype, hsender, htarget, hcomplete⟩ := h.ordinary m (by rw [hflight]; simp)
  rw [h.senderCompID] at hsender
  rw [h.targetCompID] at htarget
  exact ⟨htype, hnum, hsender, htarget, hcomplete⟩

/-- The receiver takes the message at the head. -/
theorem Joined.take {peer' : Session} (h : Joined s peer k) (hm : s.wire[k]? = some m)
    (hex : Exchanges 1 peer peer') : Joined s peer' (k + 1) := by
  obtain ⟨ms, hms⟩ := hex.sends
  have hflight := inFlight_eq_cons hm
  obtain ⟨hlt, -⟩ := List.getElem?_eq_some_iff.1 hm
  refine ⟨?_, ?_, hlt, ?_, ?_, ?_⟩
  · rw [hms.targetCompID, h.senderCompID]
  · rw [hms.senderCompID, h.targetCompID]
  · have hcount := h.counters
    rw [hflight, List.length_cons] at hcount
    rw [hex.nextReceiveSeq]
    omega
  · have hnums := h.numbers
    rw [hflight] at hnums
    rw [hex.nextReceiveSeq]
    exact (List.cons.inj hnums).2
  · intro m' hm'
    apply h.ordinary
    rw [hflight]
    exact List.mem_cons_of_mem _ hm'

/-! ## Steps and runs of the pair -/

/-- The deed sends a new message that counts, is a timer that does not give the peer up, or takes a
clear message. -/
def Ordered (s peer : Session) (taken now : Nat) : Deed → Prop
  | .send m => New s m ∧ m.noIncrement = false
  | .tick => ¬ LogsOut s now
  | .take => ∀ m ∈ peer.wire[taken]?, m.Clear

/-- A deed of a party keeps both directions. -/
theorem joined_act {now out inn : Nat} {d : Deed} (hl : Lossless v) (happ : Rejecting v)
    (hout : Joined s peer out) (hin : Joined peer s inn) (hd : Ordered s peer inn now d)
    (hs : s.nextSendSeq + 2 < 2147483648) (hpeer : peer.nextSendSeq + 2 < 2147483648) :
    Joined (act v now s peer inn d).1 peer out ∧
      Joined peer (act v now s peer inn d).1 (act v now s peer inn d).2 := by
  have hnow : Exchanges 0 s { s with clock := now } := exchanges_quiet rfl rfl rfl rfl rfl rfl
  cases d with
  | send m =>
    obtain ⟨hnew, hinc⟩ := hd
    have hnew' : New { s with clock := now } m := ⟨hnew.msgType, hnew.msgSeqNum, hnew.possDupFlag,
      hnew.senderCompID, hnew.targetCompID, hnew.customSeqnum⟩
    have hex : Exchanges 0 s (sendProcess v m { s with clock := now }).2 :=
      hnow.trans (k := 0) (exchanges_sendProcess hl hnew' hinc
        (show s.nextSendSeq + 1 < 4294967296 by omega))
    exact ⟨hout.sender hex, hin.receiver hex⟩
  | tick =>
    have hex : Exchanges 0 s (step v s (.tick now)) := exchanges_tick hl hd (by omega)
    exact ⟨hout.sender hex, hin.receiver hex⟩
  | take =>
    unfold act
    dsimp only
    cases hm : peer.wire[inn]? with
    | none => exact ⟨hout, hin⟩
    | some m =>
      have hexp := hin.expected hm
      have hexp' : Expected (arrive s now) m := ⟨hexp.msgType, hexp.msgSeqNum, hexp.senderCompID,
        hexp.targetCompID, hexp.complete⟩
      have hle := hin.counters
      obtain ⟨x, s', hproc, -, hex⟩ := exchanges_process hl happ hexp' (hd m hm)
        (show s.nextSendSeq + 1 < 4294967296 by omega) (show s.nextReceiveSeq < 2147483648 by omega)
      have hstep : step v s (.received now m.inbound) = s' := congrArg Res.state hproc
      have harr : Exchanges 0 s (arrive s now) := exchanges_quiet rfl rfl rfl rfl rfl rfl
      have hall : Exchanges 1 s s' := harr.trans (n := 0) (k := 1) hex
      dsimp only
      rw [hstep]
      exact ⟨hout.sender hall, hin.take hm hall⟩

/-- The counters agree over what is in flight, and `sequence_check` passes what is taken next. -/
def Agree (v : Env) (s peer : Session) (taken : Nat) : Prop :=
  peer.nextReceiveSeq + (inFlight s taken).length = s.nextSendSeq ∧
  ∀ m, (inFlight s taken).head? = some m → ∃ q, m.header.msgSeqNum = some q ∧
    ∀ now msg, sequenceCheck v q msg (arrive peer now) = .ok true (arrive peer now)

theorem Joined.agree (h : Joined s peer k) : Agree v s peer k := by
  refine ⟨h.counters, ?_⟩
  intro m hm
  exact ⟨_, h.number hm, fun now msg => sequenceCheck_passes (s := arrive peer now)⟩

/-- Both directions of a pair. -/
def Pair.Joined (p : Pair) : Prop :=
  Session.Joined p.a p.b p.takenByB ∧ Session.Joined p.b p.a p.takenByA

/-- Both directions agree. -/
def Pair.Agree (vA vB : Env) (p : Pair) : Prop :=
  Session.Agree vB p.a p.b p.takenByB ∧ Session.Agree vA p.b p.a p.takenByA

theorem joined_move {vA vB : Env} {p : Pair} {mv : Move} (hlA : Lossless vA) (hlB : Lossless vB)
    (hrA : Rejecting vA) (hrB : Rejecting vB) (h : p.Joined) (hmv : OrdinaryMove p mv)
    (hinc : Increments mv) (hrange : InRange p) : (move vA vB p mv).Joined := by
  obtain ⟨hab, hba⟩ := h
  obtain ⟨party, now, deed⟩ := mv
  obtain ⟨ha, hb⟩ := hrange
  cases party with
  | a =>
    have hord : Ordered p.a p.b p.takenByA now deed := by
      cases deed with
      | send m => exact ⟨hmv, hinc⟩
      | tick => exact hmv
      | take => exact hmv
    exact joined_act hlA hrA hab hba hord ha hb
  | b =>
    have hord : Ordered p.b p.a p.takenByB now deed := by
      cases deed with
      | send m => exact ⟨hmv, hinc⟩
      | tick => exact hmv
      | take => exact hmv
    exact (joined_act hlB hrB hba hab hord hb ha).symm

end

/-- **The counters agree** in every state of a run, over channels that lose nothing, of sends of new
messages that count, of timers that do not give up, and of messages taken, whose numbers are read
where they stand; the counters stay below 2^31. -/
theorem counters_agree (vA vB : Env) (p : Pair) (moves : List Move) (hlA : Lossless vA)
    (hlB : Lossless vB) (hrA : Rejecting vA) (hrB : Rejecting vB) (h : p.Joined)
    (hmoves : Along (move vA vB) 
      (fun p mv => OrdinaryMove p mv ∧ Increments mv ∧ InRange p) p moves) :
    Throughout (move vA vB) (Pair.Agree vA vB) p moves := by
  have hrun : Throughout (move vA vB) Pair.Joined p moves :=
    throughout_of_step (fun p mv hp hmv => joined_move hlA hlB hrA hrB hp hmv.1 hmv.2.1 hmv.2.2)
      h hmoves
  refine hrun.mono ?_
  intro p hp
  exact ⟨hp.1.agree, hp.2.agree⟩

/-- Two sessions that have agreed on their counters. -/
def demoPair : Pair :=
  { a := { demoSession with nextSendSeq := 3, nextReceiveSeq := 7 }
    b := { demoReceiver with nextSendSeq := 7, nextReceiveSeq := 3 } }

theorem demoPair_joined : demoPair.Joined :=
  ⟨joined_of_idle rfl rfl rfl rfl, joined_of_idle rfl rfl rfl rfl⟩

/-- An order and a test request cross, and the test request is answered. -/
theorem counters_agree_demo : Throughout (move demoEnv demoEnv) (Pair.Agree demoEnv demoEnv)
    demoPair [⟨.a, 1, .send demoNewOrder⟩, ⟨.b, 1, .send (generateTestRequest "T")⟩,
      ⟨.a, 2, .take⟩, ⟨.b, 2, .take⟩, ⟨.b, 3, .take⟩, ⟨.b, 3, .tick⟩] := by
  refine counters_agree demoEnv demoEnv demoPair _ (fun _ => rfl) (fun _ => rfl) ?_ ?_
    demoPair_joined ⟨⟨⟨rfl, rfl, rfl, .inl rfl, .inl rfl, rfl⟩, rfl, by decide⟩,
      ⟨new_testRequest _, rfl, by decide⟩, ⟨?_, trivial, by decide⟩, ⟨?_, trivial, by decide⟩,
      ⟨?_, trivial, by decide⟩, ⟨?_, trivial, by decide⟩, trivial⟩
  · intro n m e h
    exact absurd h (by simp [demoEnv])
  · intro n m e h
    exact absurd h (by simp [demoEnv])
  · show ∀ m ∈ _, Msg.Clear m
    decide
  · show ∀ m ∈ _, Msg.Clear m
    decide
  · show ∀ m ∈ _, Msg.Clear m
    decide
  · intro h
    exact absurd h.1 (by decide)

/-- An order sent with `no_increment` is in flight and not counted. -/
theorem no_increment_disagrees : ¬ ∀ (vA vB : Env) (p : Pair) (moves : List Move), Lossless vA →
    Lossless vB → Rejecting vA → Rejecting vB → p.Joined →
    Along (move vA vB) (fun p mv => OrdinaryMove p mv ∧ InRange p) p moves →
    Throughout (move vA vB) (Pair.Agree vA vB) p moves := by
  intro h
  have hr : Rejecting demoEnv := by
    intro n m e h
    exact absurd h (by simp [demoEnv])
  have hrun := (h demoEnv demoEnv demoPair [⟨.a, 1, .send { demoNewOrder with noIncrement := true }⟩]
    (fun _ => rfl) (fun _ => rfl) hr hr demoPair_joined
    ⟨⟨⟨rfl, rfl, rfl, .inl rfl, .inl rfl, rfl⟩, by decide, by decide⟩, trivial⟩).last
  exact absurd hrun.1.1 (by decide)

end Fix8.Session
