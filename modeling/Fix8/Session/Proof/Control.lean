import Fix8.Session.Proof.Counter
import Fix8.Session.Proof.Stored

/-!
# The control record

With a persister that overwrites its control record, what `recover_seqnums` would load is the pair
of counters after every call that counts what it stores, and after every message that `process`
handles; a Reject of `process` leaves the record one received message behind.

* `sendProcess_inSync`, `process_inSync`: one call;
* **`control_follows`**: every run of calls that count what they store and reject nothing.
-/

namespace Fix8.Session

open Lib

/-- The control record that `recover_seqnums` would load. -/
def controlRecord (v : Env) (s : Session) : Option (Nat × Nat) := s.persist.bind v.getControl

/-- The pair `(_next_send_seq, _next_receive_seq)`. -/
def counters (s : Session) : Nat × Nat := (s.nextSendSeq, s.nextReceiveSeq)

/-- The persister is open, and its control record is the counters; it has none yet only while they
are what they were at the start. -/
structure InSync (v : Env) (start : Nat × Nat) (s : Session) : Prop where
  isOpen : s.persist.isSome
  control : controlRecord v s = some (counters s) ∨
    (controlRecord v s = none ∧ counters s = start)

section
variable {v : Env} {s : Session} {m : Msg} {start : Nat × Nat}

/-! ## Sending -/

theorem getControl_putControl (hv : v.persister = .file) (st : Store) (a b : Nat) :
    v.getControl (st.putControl v.persister a b) = some (a, b) := by
  have hget : (st.putControl v.persister a b).get? 0 = some (.control a b) := by
    rw [hv, Store.putControl, OrdMap.get?_replace, if_pos rfl, OrdMap.get?_insert, if_pos rfl]
    rfl
  rw [Env.getControl, hget, hv]

theorem sendProcess_nextReceiveSeq :
    (sendProcess v m s).2.nextReceiveSeq = s.nextReceiveSeq :=
  sendProcess_frame silent_nextReceiveSeq.1

/-- A call that stores nothing leaves record and counters as they are. -/
theorem inSync_of_unchanged (hp : (sendProcess v m s).2.persist = s.persist)
    (hn : (sendProcess v m s).2.nextSendSeq = s.nextSendSeq) :
    InSync v start (sendProcess v m s).2 ↔ InSync v start s := by
  have hc : counters (sendProcess v m s).2 = counters s := by
    rw [counters, counters, hn, sendProcess_nextReceiveSeq]
  have hr : controlRecord v (sendProcess v m s).2 = controlRecord v s := by
    rw [controlRecord, controlRecord, hp]
  constructor
  · intro h
    exact ⟨hp ▸ h.isOpen, by rw [← hc, ← hr]; exact h.control⟩
  · intro h
    exact ⟨hp ▸ h.isOpen, by rw [hc, hr]; exact h.control⟩

/-- A call that stores puts the next number into the record, whether it counts or not. -/
theorem controlRecord_sent (hv : v.persister = .file) (hopen : s.persist.isSome)
    (h : Succeeded v s m) (hdup : isDup v s m = false) :
    controlRecord v (sendProcess v m s).2 =
      some (nextUnsigned s.nextSendSeq, s.nextReceiveSeq) := by
  obtain ⟨st, hst⟩ := Option.isSome_iff_exists.1 hopen
  rw [controlRecord, h.persist, hdup, hst]
  exact getControl_putControl hv _ _ _

/-- **What one call of `send_process` does to the record**, wherever it is made: a message that
goes out and is no duplicate must be counted. -/
theorem sendProcess_inSync (hv : v.persister = .file) (h : InSync v start s)
    (hm : GoesOut v s m → isDup v s m = false → Counts m) :
    InSync v start (sendProcess v m s).2 := by
  rcases sendProcess_cases v s m with hfail | hsucc
  · exact (inSync_of_unchanged hfail.persist hfail.nextSendSeq).2 h
  cases hdup : isDup v s m with
  | true =>
    refine (inSync_of_unchanged ?_ ?_).2 h
    · rw [hsucc.persist, hdup, if_pos rfl]
    · rw [hsucc.nextSendSeq, hdup, if_neg (by simp)]
  | false =>
    have hcounts := hm (hsucc.goesOut) hdup
    refine ⟨by rw [persist_isSome]; exact h.isOpen, .inl ?_⟩
    rw [controlRecord_sent hv h.isOpen hsucc hdup, counters, hsucc.nextSendSeq, hdup,
      if_pos ⟨rfl, hcounts⟩, sendProcess_nextReceiveSeq]

/-- A message that goes out, is no duplicate and is not counted leaves the record ahead. -/
theorem sendProcess_ahead (hv : v.persister = .file) (hopen : s.persist.isSome)
    (h : Succeeded v s m) (hdup : isDup v s m = false) (hm : ¬ Counts m) :
    ¬ InSync v start (sendProcess v m s).2 := by
  intro hs
  have hrec := controlRecord_sent hv hopen h hdup
  have hcount : counters (sendProcess v m s).2 = (s.nextSendSeq, s.nextReceiveSeq) := by
    rw [counters, h.nextSendSeq, if_neg fun hc => hm hc.2, sendProcess_nextReceiveSeq]
  rcases hs.control with heq | heq
  · rw [hrec, hcount] at heq
    exact nextUnsigned_ne _ (Prod.mk.inj (Option.some.inj heq)).1
  · rw [hrec] at heq
    exact absurd heq.1 (by simp)

/-- The messages a session makes are counted. -/
theorem inSync_counted (hv : v.persister = .file) (h : InSync v start s) (hc : m.customSeqnum = 0)
    (hn : m.noIncrement = false) (ht : m.msgType ≠ .sequenceReset) :
    InSync v start (sendProcess v m s).2 :=
  sendProcess_inSync hv h fun _ _ => ⟨hc, hn, ht⟩

/-! ## The persister stays open -/

/-- An open persister stays open. -/
def StaysOpen (s s' : Session) : Prop := s.persist.isSome → s'.persist.isSome

instance : IsPreorder Session StaysOpen where
  refl _ := id
  trans _ _ _ h h' hs := h' (h hs)

variable {seqnum : Nat} {msg : Msg}

theorem staysOpen_modify {f : Session → Session} (h : ∀ s, (f s).persist = s.persist) :
    Act.Moves StaysOpen (Act.modify f : Method Unit) :=
  Act.moves_modify fun s hs => by rwa [h s]

theorem staysOpen_send {c : Nat} {n : Bool} : Act.Moves StaysOpen (send v m c n) := by
  intro s hs
  show (sendProcess v _ s).2.persist.isSome
  rwa [persist_isSome]

theorem staysOpen_enforce : Act.Moves StaysOpen (enforce v seqnum msg) := by
  intro s hs
  rw [enforce_eq]
  cases enforceEnd v s seqnum msg with
  | error e => exact hs
  | ok b =>
    show (enforceState v s seqnum msg).persist.isSome
    unfold enforceState sequenceState askResend
    split
    · split
      · rwa [persist_isSome]
      · exact hs
    · exact hs

theorem staysOpen_changeFrom {old new : SessionState} :
    Act.Moves StaysOpen (changeFrom old new) :=
  Act.moves_bind Act.moves_get fun _ => Act.moves_ite (staysOpen_modify fun _ => rfl)
    (Act.moves_pure _)

theorem staysOpen_takeNewSeqNo : Act.Moves StaysOpen (takeNewSeqNo msg) := by
  unfold takeNewSeqNo
  split
  · exact Act.moves_bind Act.moves_get fun _ => Act.moves_ite (staysOpen_modify fun _ => rfl)
      (Act.moves_throw _)
  · exact Act.moves_pure _

theorem staysOpen_retransmits : Retransmits v StaysOpen where
  made _ _ _ _ := staysOpen_send
  record _ _ _ := staysOpen_send
  nextSendSeq _ _ := id
  state _ _ := id

theorem staysOpen_refuseLogon : Act.Moves StaysOpen refuseLogon :=
  Act.moves_bind (staysOpen_modify fun _ => rfl) fun _ =>
    Act.moves_bind (staysOpen_modify fun _ => rfl) fun _ => Act.moves_pure _

theorem staysOpen_openSession {resetGiven : Bool} :
    Act.Moves StaysOpen (openSession v resetGiven) := by
  refine Act.moves_bind (Act.moves_modify fun s hs => ?_) fun _ => ?_
  · show (openedPersist v s resetGiven).isSome
    unfold openedPersist
    rw [if_neg fun h => by simp [h.2] at hs]
    exact hs
  · unfold startSeqnums
    refine Act.moves_ite (staysOpen_modify fun _ => rfl) (Act.moves_bind ?_ fun _ => ?_)
    · refine staysOpen_modify fun s => ?_
      split <;> rfl
    · exact staysOpen_modify fun _ => rfl

theorem staysOpen_handleLogon : Act.Moves StaysOpen (handleLogon v seqnum msg) := by
  have hreply : Act.Moves StaysOpen (replyLogon v msg) :=
    Act.moves_bind (staysOpen_modify fun _ => rfl) fun _ => Act.moves_bind staysOpen_send fun _ =>
      Act.moves_bind (staysOpen_modify fun _ => rfl) fun _ =>
        Act.moves_ite staysOpen_refuseLogon (Act.moves_pure _)
  refine Act.moves_bind Act.moves_get fun s => Act.moves_ite ?_ ?_
  · exact Act.moves_bind staysOpen_send fun _ => Act.moves_pure _
  refine Act.moves_bind (staysOpen_modify fun _ => rfl) fun _ => ?_
  cases v.role with
  | initiator =>
    refine Act.moves_bind Act.moves_get fun s => Act.moves_ite staysOpen_refuseLogon ?_
    exact Act.moves_bind staysOpen_enforce fun _ =>
      Act.moves_bind (staysOpen_modify fun _ => rfl) fun _ => Act.moves_pure _
  | acceptor =>
    refine Act.moves_bind Act.moves_get fun s => Act.moves_ite staysOpen_refuseLogon
      (Act.moves_ite staysOpen_refuseLogon (Act.moves_bind staysOpen_openSession fun _ => ?_))
    refine Act.moves_ite ?_ staysOpen_refuseLogon
    exact Act.moves_bind (staysOpen_modify fun _ => rfl) fun _ =>
      Act.moves_bind staysOpen_enforce fun _ => hreply

theorem staysOpen_dispatch : Act.Moves StaysOpen (dispatch v seqnum msg) := by
  unfold dispatch
  cases msg.msgType with
  | heartbeat =>
    exact Act.moves_bind staysOpen_enforce fun _ =>
      Act.moves_bind staysOpen_changeFrom fun _ => Act.moves_pure _
  | testRequest =>
    exact Act.moves_bind staysOpen_enforce fun _ =>
      Act.moves_bind staysOpen_send fun _ => Act.moves_pure _
  | resendRequest =>
    exact Act.moves_bind staysOpen_enforce fun _ =>
      Act.moves_bind (moves_answerResendRequest staysOpen_retransmits) fun _ => Act.moves_pure _
  | reject => exact Act.moves_pure _
  | sequenceReset =>
    exact Act.moves_bind staysOpen_enforce fun _ => Act.moves_bind staysOpen_takeNewSeqNo fun _ =>
      Act.moves_bind staysOpen_changeFrom fun _ => Act.moves_pure _
  | logout => exact Act.moves_bind staysOpen_enforce fun _ => Act.moves_pure _
  | logon => exact staysOpen_handleLogon
  | application t =>
    refine Act.moves_bind Act.moves_get fun s => Act.moves_ite ?_ (Act.moves_pure _)
    refine Act.moves_bind (staysOpen_modify fun _ => rfl) fun _ =>
      Act.moves_bind staysOpen_enforce fun _ => Act.moves_ite (Act.moves_pure _) ?_
    cases v.application seqnum msg with
    | ok b => exact Act.moves_pure b
    | error e => exact Act.moves_throw e

/-! ## The exceptions of the handlers -/

theorem throws_enforce : Act.Throws (fun e => e.isF8 = true) (enforce v seqnum msg) := by
  have hcomp : Act.Throws (fun e => e.isF8 = true) (compidCheck v msg) :=
    Act.throws_bind Act.throws_get fun _ => Act.throws_ite (Act.throws_ite (Act.throws_throw rfl)
      (Act.throws_ite (Act.throws_throw rfl) (Act.throws_pure _))) (Act.throws_pure _)
  have hgap : Act.Throws (fun e => e.isF8 = true) (gapCheck v seqnum) :=
    Act.throws_bind Act.throws_get fun _ => Act.throws_ite
      (Act.throws_bind throws_send fun _ => Act.throws_bind (Act.throws_modify _) fun _ =>
        Act.throws_pure _) (Act.throws_ite (Act.throws_throw rfl) (Act.throws_pure _))
  have hlow : Act.Throws (fun e => e.isF8 = true) (lowCheck v seqnum msg) := by
    refine Act.throws_bind Act.throws_get fun _ => Act.throws_ite (Act.throws_throw rfl) ?_
    split
    · exact Act.throws_ite (Act.throws_throw rfl) (Act.throws_pure _)
    · exact Act.throws_pure _
  have hseq : Act.Throws (fun e => e.isF8 = true) (sequenceCheck v seqnum msg) :=
    Act.throws_bind Act.throws_get fun _ => Act.throws_ite hgap
      (Act.throws_ite hlow (Act.throws_pure _))
  refine Act.throws_bind Act.throws_get fun _ => Act.throws_ite ?_ (Act.throws_pure _)
  refine Act.throws_bind (Act.throws_ite hcomp (Act.throws_pure _)) fun _ => ?_
  exact Act.throws_ite (Act.throws_bind hseq fun _ => Act.throws_pure _) (Act.throws_pure _)

theorem isF8_of_isReject {e : Exn} (h : e.isReject = true) : e.isF8 = true := by
  unfold Exn.isReject at h
  cases hf : e.isF8 with
  | true => rfl
  | false => simp [hf] at h

theorem throws_refuseLogon {P : Exn → Prop} : Act.Throws P refuseLogon :=
  Act.throws_bind (Act.throws_modify _) fun _ =>
    Act.throws_bind (Act.throws_modify _) fun _ => Act.throws_pure _

theorem throws_handleLogon : Act.Throws (fun e => e.isF8 = true) (handleLogon v seqnum msg) := by
  refine Act.throws_bind Act.throws_get fun s => Act.throws_ite ?_ ?_
  · exact Act.throws_bind throws_send fun _ => Act.throws_pure _
  refine Act.throws_bind (Act.throws_modify _) fun _ => ?_
  cases v.role with
  | initiator =>
    refine Act.throws_bind Act.throws_get fun s => Act.throws_ite throws_refuseLogon ?_
    exact Act.throws_bind throws_enforce fun _ =>
      Act.throws_bind (Act.throws_modify _) fun _ => Act.throws_pure _
  | acceptor =>
    refine Act.throws_bind Act.throws_get fun s => Act.throws_ite throws_refuseLogon
      (Act.throws_ite throws_refuseLogon (Act.throws_bind ?_ fun _ => ?_))
    · exact Act.throws_bind (Act.throws_modify _) fun _ => Act.throws_ite (Act.throws_modify _)
        (Act.throws_bind (Act.throws_modify _) fun _ => Act.throws_modify _)
    · exact Act.throws_ite (Act.throws_bind (Act.throws_modify _) fun _ =>
        Act.throws_bind throws_enforce fun _ => throws_replyLogon) throws_refuseLogon

/-- Only the application throws what is no `f8Exception`. -/
theorem throws_dispatch (h : ∀ t, msg.msgType ≠ .application t) :
    Act.Throws (fun e => e.isF8 = true) (dispatch v seqnum msg) := by
  unfold dispatch
  cases ht : msg.msgType with
  | heartbeat =>
    exact Act.throws_bind throws_enforce fun _ =>
      Act.throws_bind throws_changeFrom fun _ => Act.throws_pure _
  | testRequest =>
    exact Act.throws_bind throws_enforce fun _ =>
      Act.throws_bind throws_send fun _ => Act.throws_pure _
  | resendRequest =>
    refine Act.throws_bind throws_enforce fun _ => Act.throws_bind ?_ fun _ => Act.throws_pure _
    intro s e s' he
    exact isF8_of_isReject (throws_answerResendRequest s e s' he)
  | reject => exact Act.throws_pure _
  | sequenceReset =>
    refine Act.throws_bind throws_enforce fun _ => Act.throws_bind ?_ fun _ =>
      Act.throws_bind throws_changeFrom fun _ => Act.throws_pure _
    unfold takeNewSeqNo
    split
    · exact Act.throws_bind Act.throws_get fun _ => Act.throws_ite (Act.throws_modify _)
        (Act.throws_throw rfl)
    · exact Act.throws_pure _
  | logout => exact Act.throws_bind throws_enforce fun _ => Act.throws_pure _
  | logon => exact throws_handleLogon
  | application t => exact absurd ht (h t)

/-! ## `process` -/

theorem inSync_congr {s s' : Session} (h : InSync v start s) (hp : s'.persist = s.persist)
    (hn : counters s' = counters s) : InSync v start s' := by
  refine ⟨hp ▸ h.isOpen, ?_⟩
  rw [controlRecord, hp, hn]
  exact h.control

theorem inSync_enforceState (hv : v.persister = .file) (h : InSync v start s) :
    InSync v start (enforceState v s seqnum msg) := by
  have hask : InSync v start (askResend v s) :=
    inSync_congr (inSync_counted hv h rfl rfl (by simp [generateResendRequest])) rfl rfl
  unfold enforceState sequenceState
  split
  · split
    · exact hask
    · exact h
  · exact h

/-- Where the application throws, only `enforce` has sent. -/
theorem inSync_application_throw (hv : v.persister = .file) (h : InSync v start s) {e : Exn}
    {s' : Session} (he : handleApplication v seqnum msg s = .throw e s') :
    InSync v start s' := by
  have happlied : InSync v start { s with applied := s.applied ++ [(seqnum, msg)] } :=
    inSync_congr h rfl rfl
  have hleft : InSync v start (enforceState v { s with applied := s.applied ++ [(seqnum, msg)] }
      seqnum msg) := inSync_enforceState hv happlied
  unfold handleApplication at he
  rw [Act.modify_bind_apply, Act.bind_apply, enforce_eq] at he
  cases hend : enforceEnd v { s with applied := s.applied ++ [(seqnum, msg)] } seqnum msg with
  | error e' =>
    simp only [hend] at he
    cases he
    exact happlied
  | ok b =>
    simp only [hend] at he
    cases b with
    | true => cases he
    | false =>
      cases happ : v.application seqnum msg with
      | ok b => simp [happ] at he
      | error e' =>
        simp only [happ, Bool.false_eq_true, if_false, ofExcept_error, Act.throw_apply] at he
        cases he
        exact hleft

/-- `process` answers the string with a Reject of its own. -/
def RejectsInbound (v : Env) (s : Session) (inb : Inbound) : Prop :=
  match inb.seqnum, inb.result with
  | none, _ => True
  | some _, .error _ => True
  | some seqnum, .ok msg => ∃ e s', dispatch v seqnum msg s = .throw e s' ∧ e.isReject = true

/-- A message that is handled leaves the record in step, whatever its handler has sent. -/
theorem inSync_processMsg (hv : v.persister = .file) (hopen : s.persist.isSome) {b : Bool}
    {s' : Session} (h : processMsg v seqnum msg s = .ok b s') : InSync v start s' := by
  cases hd : dispatch v seqnum msg s with
  | throw e s1 =>
    rw [processMsg_throw hd] at h
    cases h
  | ok b1 s1 =>
    have hopen1 : s1.persist.isSome := by
      have hmoves : StaysOpen s (dispatch v seqnum msg s).state := staysOpen_dispatch s
      rw [hd] at hmoves
      exact hmoves hopen
    obtain ⟨st, hst⟩ := Option.isSome_iff_exists.1 hopen1
    have hupdated : InSync v start { s1 with
        nextReceiveSeq := nextUnsigned s1.nextReceiveSeq
        persist := s1.persist.map
          (·.putControl v.persister s1.nextSendSeq (nextUnsigned s1.nextReceiveSeq)) } := by
      refine ⟨by simpa using hopen1, .inl ?_⟩
      rw [controlRecord, hst]
      exact getControl_putControl hv _ _ _
    unfold processMsg at h
    rw [Act.bind_ok hd, countReceived, updatePersistSeqnums, Act.modify_bind_apply,
      Act.modify_bind_apply] at h
    by_cases hlogout : msg.msgType = .logout
    · rw [if_pos hlogout] at h
      cases h
      exact inSync_congr hupdated rfl rfl
    · rw [if_neg hlogout] at h
      cases h
      exact hupdated

/-- A forced logoff that is not rethrown ends the session. -/
theorem forcedLogoff_shutdown {e : Exn} {x : Exit} {s' : Session}
    (h : forcedLogoff v e s = .ok x s') : s'.shutdown = true := by
  unfold forcedLogoff at h
  rw [Act.get_bind_apply, Act.bind_apply] at h
  revert h
  generalize (if s.state = .stLogonReceived ∧ v.silentDisconnect = false then do
      doStateChange .stSessionTerminated
      let _ ← send v (generateLogout (some e.what)) 0 true
      doStateChange .stLogoffSent
    else pure () : Method Unit) s = r
  cases r with
  | throw e1 s1 =>
    intro h
    cases h
  | ok u s1 =>
    intro h
    by_cases hrel : v.reliable
    · simp only [hrel, if_true, Act.throw_apply] at h
      cases h
    · simp only [hrel, Bool.false_eq_true, if_false] at h
      cases h
      rfl

/-- **What `process` does to the record**: unless it rejects, the record follows the counters when
it returns and the session is still up. -/
theorem process_inSync (hv : v.persister = .file) (h : InSync v start s) {inb : Inbound}
    (hrej : ¬ RejectsInbound v s inb) {x : Exit} {s' : Session} (hp : process v inb s = .ok x s')
    (hup : s'.shutdown = false) : InSync v start s' := by
  unfold RejectsInbound at hrej
  unfold process at hp
  cases hq : inb.seqnum with
  | none => simp [hq] at hrej
  | some seqnum =>
    cases hr : inb.result with
    | error w => simp [hq, hr] at hrej
    | ok msg =>
      simp only [hq, hr] at hrej hp
      cases hm : processMsg v seqnum msg s with
      | ok b s1 =>
        rw [hm] at hp
        cases hp
        exact inSync_processMsg hv h.isOpen hm
      | throw e s1 =>
        rw [hm] at hp
        have hcaught : caught v seqnum (some msg) e s1 = .ok x s' := hp
        have hd : dispatch v seqnum msg s = .throw e s1 := by
          cases hd : dispatch v seqnum msg s with
          | ok b s2 =>
            obtain ⟨s3, hs3, -⟩ := processMsg_ok hd
            rw [hs3] at hm
            cases hm
          | throw e' s2 =>
            rw [processMsg_throw hd] at hm
            exact hm
        have hnot : e.isReject = false := by
          cases he : e.isReject with
          | false => rfl
          | true => exact absurd ⟨e, s1, hd, he⟩ hrej
        cases hf : e.isF8 with
        | true =>
          -- the logoff it forces ends the session
          have hforce : e.forceLogoff = true := by simpa [Exn.isReject, hf] using hnot
          rw [caught, if_pos hf, if_pos hforce] at hcaught
          rw [forcedLogoff_shutdown hcaught] at hup
          cases hup
        | false =>
          rw [caught, if_neg (by simp [hf])] at hcaught
          cases hcaught
          obtain ⟨t, ht⟩ : ∃ t, msg.msgType = .application t := by
            by_contra hno
            have hthrows : e.isF8 = true :=
              throws_dispatch (fun t ht => hno ⟨t, ht⟩) s e _ hd
            exact absurd (hf.symm.trans hthrows) (by simp)
          unfold dispatch at hd
          simp only [ht, Act.get_bind_apply] at hd
          by_cases hactive : s.active
          · rw [if_pos hactive] at hd
            exact inSync_application_throw hv h hd
          · rw [if_neg hactive] at hd
            cases hd

/-! ## The timer -/

theorem inSync_watchReceived (hv : v.persister = .file) (h : InSync v start s) {s' : Session}
    (hw : watchReceived v s = .ok () s') (hup : s'.shutdown = false) : InSync v start s' := by
  unfold watchReceived at hw
  rw [Act.get_bind_apply] at hw
  by_cases hlate : (s.clock - s.lastReceived) / 1000 > s.hbInterval20pc
  swap
  · rw [if_neg hlate] at hw
    cases hw
    exact h
  rw [if_pos hlate] at hw
  by_cases htest : s.state = .stTestRequestSent
  · -- the Logout is not counted, but the session ends
    rw [if_pos htest] at hw
    cases hw
    cases hup
  rw [if_neg htest] at hw
  by_cases hterm : s.state = .stSessionTerminated
  · rw [if_neg (by simp [hterm])] at hw
    cases hw
    exact h
  · rw [if_pos hterm] at hw
    cases hw
    exact inSync_congr (inSync_counted hv h rfl rfl (by simp [generateTestRequest])) rfl rfl

theorem inSync_heartbeatService (hv : v.persister = .file) (h : InSync v start s) {b : Bool}
    {s' : Session} (hs : heartbeatService v s = .ok b s') (hup : s'.shutdown = false) :
    InSync v start s' := by
  unfold heartbeatService at hs
  rw [Act.get_bind_apply] at hs
  by_cases hdown : s.isShutdown
  · rw [if_pos hdown] at hs
    cases hs
    exact h
  rw [if_neg hdown] at hs
  by_cases hconn : v.connected
  swap
  · rw [if_neg hconn] at hs
    cases hs
    exact h
  rw [if_pos hconn] at hs
  obtain ⟨s1, hs1, hsync⟩ : ∃ s1, (if (s.clock - s.lastSent) / 1000 ≥ s.hbInterval then do
      let _ ← send v (generateHeartbeat "")
      pure ()
    else pure () : Method Unit) s = .ok () s1 ∧ InSync v start s1 := by
    by_cases hidle : (s.clock - s.lastSent) / 1000 ≥ s.hbInterval
    · rw [if_pos hidle]
      exact ⟨_, rfl, inSync_counted hv h rfl rfl (by simp [generateHeartbeat])⟩
    · rw [if_neg hidle]
      exact ⟨s, rfl, h⟩
  rw [Act.bind_ok hs1, Act.bind_apply] at hs
  cases hw : watchReceived v s1 with
  | throw e s2 =>
    rw [hw] at hs
    cases hs
  | ok u s2 =>
    rw [hw] at hs
    cases hs
    exact inSync_watchReceived hv hsync hw hup

end

/-! ## Runs -/

/-- A call of the session from outside: `send_process` for the application, `process` for the
reader, `heartbeat_service` for the timer. -/
inductive Call where
  | send (now : Nat) (m : Msg)
  | received (now : Nat) (inb : Inbound)
  | tick (now : Nat)

/-- The session after a call, and whether it is still up: nothing was thrown to the caller, and
there was no `stop`. -/
def callStep (v : Env) (p : Session × Bool) : Call → Session × Bool
  | .send now m => ((sendProcess v m { p.1 with clock := now }).2, p.2)
  | .received now inb =>
    match process v inb { p.1 with clock := now, lastReceived := now } with
    | .ok _ s' => (s', p.2 && !s'.shutdown)
    | .throw _ s' => (s', false)
  | .tick now =>
    match heartbeatService v { p.1 with clock := now } with
    | .ok _ s' => (s', p.2 && !s'.shutdown)
    | .throw _ s' => (s', false)

/-- The call counts the message it stores, and rejects none. -/
def CountsStored (v : Env) (p : Session × Bool) : Call → Prop
  | .send now m => GoesOut v { p.1 with clock := now } m →
      isDup v { p.1 with clock := now } m = false → Counts m
  | .received now inb => ¬ RejectsInbound v { p.1 with clock := now, lastReceived := now } inb
  | .tick _ => True

/-- **The persisted control record follows the counters** in every run whose calls count what they
store and reject nothing, as long as the session is up. -/
theorem control_follows {v : Env} (hv : v.persister = .file) {s : Session}
    (h0 : InSync v (counters s) s) {calls : List Call}
    (h : Along (callStep v) (CountsStored v) (s, true) calls) :
    Throughout (callStep v) (fun p => p.2 = true → InSync v (counters s) p.1) (s, true) calls := by
  refine throughout_of_step ?_ (fun _ => h0) h
  intro ⟨s1, up⟩ call hs1 hcall hup
  have hnow : ∀ now, up = true → InSync v (counters s) { s1 with clock := now } :=
    fun now hu => inSync_congr (hs1 hu) rfl rfl
  cases call with
  | send now m => exact sendProcess_inSync hv (hnow now hup) hcall
  | received now inb =>
    simp only [callStep] at hup ⊢
    cases hp : process v inb { s1 with clock := now, lastReceived := now } with
    | throw e s2 => simp [hp] at hup
    | ok x s2 =>
      simp only [hp, Bool.and_eq_true, Bool.not_eq_true'] at hup ⊢
      have hreceived : InSync v (counters s) { s1 with clock := now, lastReceived := now } :=
        inSync_congr (hs1 hup.1) rfl rfl
      exact process_inSync hv hreceived hcall hp hup.2
  | tick now =>
    simp only [callStep] at hup ⊢
    cases hp : heartbeatService v { s1 with clock := now } with
    | throw e s2 => simp [hp] at hup
    | ok b s2 =>
      simp only [hp, Bool.and_eq_true, Bool.not_eq_true'] at hup ⊢
      exact inSync_heartbeatService hv (hnow now hup.1) hp hup.2

/-- A session on a `FilePersister` without a control record yet. -/
def demoFileEnv : Env := { demoEnv with persister := .file }

theorem control_follows_demo :
    Throughout (callStep demoFileEnv)
      (fun p => p.2 = true → InSync demoFileEnv (counters demoOpen) p.1) (demoOpen, true)
      [.send 3 demoNewOrder, .received 4 (demoHeartbeat 5).inbound, .tick 50000] := by
  refine control_follows rfl ⟨rfl, .inr ⟨rfl, rfl⟩⟩ ⟨fun _ _ => ⟨rfl, rfl, by decide⟩, ?_, trivial,
    trivial⟩
  intro ⟨e, s', hd, _⟩
  cases hd

/-- A string that does not decode is rejected: the Reject puts the record, and the string is
counted after that. -/
theorem rejected_not_recorded : ¬ ∀ (v : Env) (s : Session) (calls : List Call),
    v.persister = .file → InSync v (counters s) s →
    Throughout (callStep v) (fun p => p.2 = true → InSync v (counters s) p.1) (s, true) calls := by
  intro h
  have hrun := h demoFileEnv demoOpen [.received 0 ⟨"34=5", some 5, .error "Invalid FIX Message"⟩] rfl
    ⟨rfl, .inr ⟨rfl, rfl⟩⟩
  rcases (hrun.last rfl).control with hc | hc
  · exact absurd hc (by decide)
  · exact absurd hc.1 (by decide)

end Fix8.Session
