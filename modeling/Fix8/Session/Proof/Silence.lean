import Fix8.Session.Proof.Admission
import Fix8.Session.Proof.Control

/-!
# Silence before the Logon

Until a Logon has been accepted a session should answer nothing else. `enforce` is the only guard:
it says that every message fails before the session is established, the application keeps to
that, and the handlers of session messages do not look at what it says.

* `watchStep`: the calls of a session with a watch on what it says before its Logon;
* `Quiet`: an inbound string on which the session says nothing;
* `process_silent`: one string;
* **`silent_run`**: a run of quiet strings.
-/

namespace Fix8.Session

open Lib

/-! ## What must not be said -/

/-- A Heartbeat, a SequenceReset, or a retransmission: `send_process` gives an `OrigSendingTime` to
what has been sent before. -/
def speaks (m : Msg) : Bool :=
  m.msgType = .heartbeat || m.msgType = .sequenceReset || m.header.origSendingTime.isSome

/-- The session has said nothing of that, and has not moved its send counter. -/
def silentBetween (s s' : Session) : Bool :=
  s'.nextSendSeq = s.nextSendSeq && (s'.sends.drop s.sends.length).all (!speaks ·)

/-- The inbound string is a Logon. -/
def isLogon (inb : Inbound) : Bool :=
  match inb.result with
  | .ok msg => msg.msgType = .logon
  | .error _ => false

/-- What has been seen of a session. -/
structure Watch where
  /-- A Logon has been accepted. -/
  accepted : Bool := false
  /-- Before that, a string that is no Logon has made the session speak or count. -/
  spoke : Bool := false
deriving DecidableEq

/-- The watch after an inbound string that takes the session from `s` to `s'`. -/
def Watch.see (w : Watch) (inb : Inbound) (s s' : Session) : Watch :=
  if isLogon inb then
    { w with accepted := w.accepted || (s.state ≠ .stContinuous && s'.state = .stContinuous) }
  else { w with spoke := w.spoke || (!w.accepted && !silentBetween s s') }

/-- A call of a watched session. -/
def watchStep (v : Env) (p : Session × Watch) (c : Call) : Session × Watch :=
  ((callStep v (p.1, true) c).1,
    match c with
    | .received now inb => p.2.see inb (arrive p.1 now) (process v inb (arrive p.1 now)).state
    | _ => p.2)

/-! ## Quiet strings -/

/-- `enforce` refuses the message: the session is established, and the comp ids are foreign or the
number does not pass and is not asked for. -/
def Refuses (v : Env) (s : Session) (seqnum : Nat) (msg : Msg) : Prop :=
  s.state.isEstablished = true ∧
    ((s.state ≠ .stLogonReceived ∧ v.enforceCompids = true ∧ ¬ NamesSession s msg) ∨
      (msg.msgType ≠ .sequenceReset ∧ (s.state = .stContinuous → seqnum ≤ s.nextReceiveSeq) ∧
        ¬ NumberPasses v s seqnum msg))

/-- A gap that `sequence_check` asks for. -/
def OpensGap (s : Session) (seqnum : Nat) : Prop :=
  s.state = .stContinuous ∧ seqnum > s.nextReceiveSeq

/-- The application answers the message with an exception that ends in a Reject. -/
def AppRejects (v : Env) (seqnum : Nat) (msg : Msg) : Prop :=
  ∃ e, v.application seqnum msg = .error e ∧ e.isReject = true

/-- A message on which the session says nothing. -/
def QuietMsg (v : Env) (s : Session) (seqnum : Nat) (msg : Msg) : Prop :=
  Refuses v s seqnum msg ∨
    match msg.msgType with
    | .testRequest => False
    | .resendRequest => s.state = .stResendRequestReceived
    | .heartbeat => ¬ OpensGap s seqnum
    | .logout => ¬ OpensGap s seqnum
    | .application _ => s.active = true → ¬ OpensGap s seqnum ∧
        (s.state.isEstablished = true → seqnum ≤ s.nextReceiveSeq → ¬ AppRejects v seqnum msg)
    | _ => True

/-- A string on which the session says nothing: it decodes, to a message of that kind. -/
def Quiet (v : Env) (s : Session) (inb : Inbound) : Prop :=
  ∃ seqnum msg, inb.seqnum = some seqnum ∧ inb.result = .ok msg ∧ QuietMsg v s seqnum msg

section
variable {v : Env} {s : Session} {seqnum : Nat} {msg : Msg} {inb : Inbound} {α : Type}

theorem compidEnd_eq_none : compidEnd v s msg = none ↔
    (s.state ≠ .stLogonReceived → v.enforceCompids = true → NamesSession s msg) := by
  unfold compidEnd NamesSession
  by_cases h1 : s.state = .stLogonReceived
  · simp [h1]
  by_cases h2 : v.enforceCompids = true
  · by_cases h3 : msg.header.targetCompID.getD "" = s.senderCompID <;>
      by_cases h4 : msg.header.senderCompID.getD "" = s.targetCompID <;> simp [h1, h2, h3, h4]
  · simp [h1, h2]

/-- `enforce` throws on the messages it refuses. -/
theorem enforceEnd_refuses (h : Refuses v s seqnum msg) :
    ∃ e, enforceEnd v s seqnum msg = .error e := by
  obtain ⟨hest, h⟩ := h
  unfold enforceEnd
  rw [if_pos hest]
  cases hc : compidEnd v s msg with
  | some e => exact ⟨e, rfl⟩
  | none =>
    rcases h with ⟨h1, h2, h3⟩ | ⟨ht, hs, hn⟩
    · exact absurd (compidEnd_eq_none.1 hc h1 h2) h3
    · obtain ⟨e, he, -⟩ := sequenceEnd_fails hs hn
      exact ⟨e, by simp only [ht, if_false, he, Except.map]⟩

/-! ## What the handlers say -/

/-- Nothing was sent or counted, and an exception that was thrown does not end in a Reject. -/
structure Hushed (s : Session) (r : Res Session Exn α) : Prop where
  sends : r.state.sends = s.sends
  nextSendSeq : r.state.nextSendSeq = s.nextSendSeq
  exn : ∀ e s', r = .throw e s' → e.isReject = false

theorem hushed_ok {a : α} {s' : Session} (h1 : s'.sends = s.sends)
    (h2 : s'.nextSendSeq = s.nextSendSeq) : Hushed s (.ok a s') := ⟨h1, h2, fun _ _ h => nomatch h⟩

theorem hushed_throw {e : Exn} (h : e.isReject = false) :
    Hushed s (.throw e s : Res Session Exn α) :=
  ⟨rfl, rfl, fun _ _ he => by cases he; exact h⟩

/-- A handler that enforces and goes on with `k`. -/
theorem hushed_enforce_bind {k : Bool → Method α} {s₀ : Session} (hs : s.sends = s₀.sends)
    (hn : s.nextSendSeq = s₀.nextSendSeq)
    (hk : ∀ b, enforceEnd v s seqnum msg = .ok b →
      (msg.msgType = .sequenceReset ∨ ¬ OpensGap s seqnum) ∧ Hushed s₀ (k b s)) :
    Hushed s₀ ((enforce v seqnum msg >>= k) s) := by
  rw [Act.bind_apply, enforce_eq]
  cases he : enforceEnd v s seqnum msg with
  | error e =>
    refine ⟨hs, hn, fun e' s' h => ?_⟩
    cases h
    exact enforceEnd_not_isReject he
  | ok b =>
    obtain ⟨hgap, hhush⟩ := hk b he
    have hst : enforceState v s seqnum msg = s := by
      unfold enforceState sequenceState
      rcases hgap with ht | hgap
      · rw [if_neg fun h => h.2.2 ht]
      · rw [if_neg (show ¬ (seqnum > s.nextReceiveSeq ∧ s.state = .stContinuous) from
          fun h => hgap ⟨h.2, h.1⟩), ite_self]
    rw [hst]
    exact hhush

theorem hushed_refused {k : Bool → Method α} (h : Refuses v s seqnum msg) :
    Hushed s ((enforce v seqnum msg >>= k) s) := by
  obtain ⟨e, he⟩ := enforceEnd_refuses h
  refine hushed_enforce_bind rfl rfl fun b hb => ?_
  rw [he] at hb
  cases hb

/-- The application sees a message of an established session whose number is not too high. -/
theorem enforceEnd_false (h : enforceEnd v s seqnum msg = .ok false) :
    s.state.isEstablished = true ∧ seqnum ≤ s.nextReceiveSeq := by
  unfold enforceEnd at h
  split at h
  · rename_i hest
    refine ⟨hest, ?_⟩
    by_contra hlt
    have hend : sequenceEnd v s seqnum msg = .ok false ∨
        ∃ e, sequenceEnd v s seqnum msg = .error e := by
      unfold sequenceEnd
      rw [if_pos (Nat.lt_of_not_le hlt)]
      split
      · exact .inl rfl
      · exact .inr ⟨_, rfl⟩
    split at h
    · cases h
    · split at h
      · cases h
      · rcases hend with he | ⟨e, he⟩ <;> · rw [he] at h; cases h
  · cases h

theorem hushed_handleApplication (h : ∀ b, enforceEnd v s seqnum msg = .ok b →
    ¬ OpensGap s seqnum ∧ (b = false → ¬ AppRejects v seqnum msg)) :
    Hushed s (handleApplication v seqnum msg s) := by
  unfold handleApplication
  rw [Act.modify_bind_apply]
  refine hushed_enforce_bind rfl rfl fun b hb => ⟨.inr (h b hb).1, ?_⟩
  cases b with
  | true => exact hushed_ok rfl rfl
  | false =>
    cases he : v.application seqnum msg with
    | ok b => exact hushed_ok rfl rfl
    | error e =>
      refine ⟨rfl, rfl, fun e' s' he' => ?_⟩
      cases he'
      exact eq_false_of_ne_true fun hrej => (h false hb).2 rfl ⟨e, he, hrej⟩

theorem hushed_changeFrom {old new : SessionState} {s₀ : Session} (hs : s.sends = s₀.sends)
    (hn : s.nextSendSeq = s₀.nextSendSeq) :
    Hushed s₀ ((changeFrom old new >>= fun _ => (pure true : Method Bool)) s) := by
  rw [Act.bind_ok (changeFrom_apply)]
  exact hushed_ok hs hn

theorem hushed_handleSequenceReset (ht : msg.msgType = .sequenceReset) :
    Hushed s (handleSequenceReset v seqnum msg s) := by
  unfold handleSequenceReset
  refine hushed_enforce_bind rfl rfl fun b _ => ⟨.inl ht, ?_⟩
  rw [Act.bind_apply, takeNewSeqNo_eq]
  cases msg.newSeqNo with
  | none => exact hushed_changeFrom rfl rfl
  | some nsn =>
    by_cases hge : nsn ≥ toInt s.nextReceiveSeq
    · simp only [hge, if_true]
      exact hushed_changeFrom rfl rfl
    · simp only [hge, if_false]
      exact hushed_throw rfl

/-- A ResendRequest during a retransmission is passed over. -/
theorem hushed_handleResendRequest (h : s.state = .stResendRequestReceived) :
    Hushed s (handleResendRequest v seqnum msg s) := by
  unfold handleResendRequest
  refine hushed_enforce_bind rfl rfl fun b _ => ⟨.inr fun hgap => ?_, ?_⟩
  · have hc := hgap.1
    rw [h] at hc
    cases hc
  · have hans : answerResendRequest v seqnum msg s = .ok () s := by
      unfold answerResendRequest
      rw [Act.get_bind_apply, if_neg (not_not.2 h)]
      rfl
    rw [Act.bind_ok hans]
    exact hushed_ok rfl rfl

/-- **The handlers say nothing on a quiet message.** -/
theorem hushed_dispatch (hl : msg.msgType ≠ .logon) (h : QuietMsg v s seqnum msg) :
    Hushed s (dispatch v seqnum msg s) := by
  unfold dispatch
  rcases h with href | h
  · cases ht : msg.msgType with
    | logon => exact absurd ht hl
    | reject => exact hushed_ok rfl rfl
    | sequenceReset => exact hushed_refused href
    | heartbeat => exact hushed_refused href
    | testRequest => exact hushed_refused href
    | resendRequest => exact hushed_refused href
    | logout => exact hushed_refused href
    | application t =>
      dsimp only
      rw [Act.get_bind_apply]
      obtain ⟨e, he⟩ := enforceEnd_refuses href
      split
      · exact hushed_handleApplication fun b hb => nomatch he.symm.trans hb
      · exact hushed_ok rfl rfl
  · cases ht : msg.msgType with
    | logon => exact absurd ht hl
    | reject => exact hushed_ok rfl rfl
    | sequenceReset => exact hushed_handleSequenceReset ht
    | heartbeat =>
      simp only [ht] at h
      exact hushed_enforce_bind rfl rfl fun b _ => ⟨.inr h, hushed_changeFrom rfl rfl⟩
    | testRequest => simp only [ht] at h
    | resendRequest =>
      simp only [ht] at h
      exact hushed_handleResendRequest h
    | logout =>
      simp only [ht] at h
      exact hushed_enforce_bind rfl rfl fun b _ => ⟨.inr h, hushed_ok rfl rfl⟩
    | application t =>
      simp only [ht] at h
      dsimp only
      rw [Act.get_bind_apply]
      split
      · rename_i ha
        obtain ⟨hgap, happ⟩ := h ha
        refine hushed_handleApplication fun b hb => ⟨hgap, ?_⟩
        rintro rfl
        obtain ⟨hest, hle⟩ := enforceEnd_false hb
        exact happ hest hle
      · exact hushed_ok rfl rfl

/-! ## `process` -/

theorem silentBetween_of_eq {s' : Session} (hs : s'.sends = s.sends)
    (hn : s'.nextSendSeq = s.nextSendSeq) : silentBetween s s' = true := by
  simp [silentBetween, hs, hn]

/-- A Logout that does not count. -/
theorem sendLogout_silent (hm : msg.msgType = .logout) (hh : msg.header = {})
    (hn : msg.noIncrement = true) (he : msg.encodeErr = none) :
    silentBetween s (sendProcess v msg s).2 = true := by
  have hseq : (sendProcess v msg s).2.nextSendSeq = s.nextSendSeq := by
    rcases sendProcess_cases v s msg with hf | hs
    · exact hf.nextSendSeq
    · rw [hs.nextSendSeq, if_neg fun h => Bool.noConfusion (hn.symm.trans h.2.2.1)]
  have hspeak : speaks (stamp v s msg) = false := by
    simp [speaks, stamp, stampHeader, hh, hm]
  simp [silentBetween, sendProcess_sends he, hseq, hspeak]

theorem logoffState_silent {e : Exn} {s' : Session} (hs : s'.sends = s.sends)
    (hn : s'.nextSendSeq = s.nextSendSeq) : silentBetween s (logoffState v e s') = true := by
  unfold logoffState
  split
  · have hout := sendLogout_silent (v := v) (s := { s' with state := .stSessionTerminated })
      (show ({ generateLogout (some e.what) with noIncrement := true } : Msg).msgType = .logout
        from rfl) rfl rfl rfl
    simp only [silentBetween, hs, hn] at hout ⊢
    exact hout
  · exact silentBetween_of_eq hs hn

theorem caught_silent {e : Exn} {m : Option Msg} {s' : Session} (he : e.isReject = false)
    (hs : s'.sends = s.sends) (hn : s'.nextSendSeq = s.nextSendSeq) :
    silentBetween s (caught v seqnum m e s').state = true := by
  unfold caught
  cases hf8 : e.isF8 with
  | false => exact silentBetween_of_eq hs hn
  | true =>
    have hforce : e.forceLogoff = true := by simpa [Exn.isReject, hf8] using he
    rw [if_pos rfl, if_pos hforce, forcedLogoff_state]
    exact logoffState_silent hs hn

/-- **A quiet string leaves the session silent.** -/
theorem process_silent (hl : isLogon inb = false) (h : Quiet v s inb) :
    silentBetween s (process v inb s).state = true := by
  obtain ⟨seqnum, msg, hq, hm, h⟩ := h
  have ht : msg.msgType ≠ .logon := by simpa [isLogon, hm] using hl
  obtain ⟨hs, hn, hexn⟩ := hushed_dispatch ht h
  unfold process
  simp only [hq, hm]
  cases hd : dispatch v seqnum msg s with
  | ok b s' =>
    rw [hd] at hs hn
    unfold processMsg
    rw [Act.bind_ok hd]
    by_cases hlo : msg.msgType = .logout
    · rw [if_pos hlo]
      exact silentBetween_of_eq hs hn
    · rw [if_neg hlo]
      exact silentBetween_of_eq hs hn
  | throw e s' =>
    rw [hd] at hs hn
    rw [processMsg_throw hd]
    exact caught_silent (hexn e s' hd) hs hn

/-! ## Runs -/

/-- The condition on a call of a session that has accepted no Logon yet. -/
def QuietCall (v : Env) (p : Session × Watch) : Call → Prop
  | .received now inb => p.2.accepted = false → isLogon inb = false →
      Quiet v (arrive p.1 now) inb
  | _ => True

/-- One call. -/
theorem silent_step (p : Session × Watch) (c : Call) (hp : p.2.spoke = false)
    (hc : QuietCall v p c) : (watchStep v p c).2.spoke = false := by
  cases c with
  | send now m => exact hp
  | tick now => exact hp
  | received now inb =>
    simp only [watchStep, Watch.see]
    cases hl : isLogon inb with
    | true => exact hp
    | false =>
      cases ha : p.2.accepted with
      | true => simp [hp]
      | false => simp [hp, process_silent hl (hc ha hl)]

/-- **Until it has accepted a Logon the session says nothing** in a run whose strings are quiet. -/
theorem silent_run {calls : List Call} (h : Along (watchStep v) (QuietCall v) (s, {}) calls) :
    Throughout (watchStep v) (·.2.spoke = false) (s, {}) calls :=
  throughout_of_step silent_step rfl h

end

/-- A TestRequest of the session's peer. -/
def demoTestRequest : Msg :=
  { generateTestRequest "ping" with header := demoHeader 5 }

/-- The first Logon, and a TestRequest behind it. -/
theorem silent_run_demo : Throughout (watchStep (demoAcceptor true)) (·.2.spoke = false)
    (demoWaiting, {}) [.received 0 (demoHeartbeat 5).inbound,
      .received 0 ({ demoLogon "B" with header := demoHeader 6 } : Msg).inbound,
      .received 0 demoTestRequest.inbound] := by
  refine silent_run ⟨fun _ _ => ⟨5, demoHeartbeat 5, rfl, rfl, .inr fun h => ?_⟩,
    fun _ h => absurd h (by decide), fun h => absurd h (by decide), trivial⟩
  exact absurd h.1 (by decide)

/-- A TestRequest to an acceptor that waits for a Logon. -/
theorem answers_before_logon : ¬ ∀ (v : Env) (s : Session) (calls : List Call),
    s.state.isEstablished = false →
    Throughout (watchStep v) (·.2.spoke = false) (s, {}) calls := by
  intro h
  have hrun := h (demoAcceptor true) demoWaiting [.received 0 demoTestRequest.inbound] rfl
  exact absurd hrun.last (by decide)

end Fix8.Session
