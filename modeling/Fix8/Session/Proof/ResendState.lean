import Fix8.Session.Proof.Batch
import Fix8.Session.Proof.Partition

/-!
# The state of a retransmission

`handle_resend_request` goes into `st_resend_request_received` and leaves it in the last call of
`retrans_callback`. What the callback throws on a record passes over that call, and from then on
every ResendRequest is ignored.

* `ComesTo`: the records that a retransmission comes to; `getLoop_end`: it throws on the first that
  does not decode;
* **`restored_iff`**: the condition for the state to be left;
* `restored_of_store`: a store whose records decode; `answer_ignored`: what follows otherwise.
-/

namespace Fix8

open Lib Lib.Act

namespace Session

/-! ## The records -/

/-- The retransmission of the records up to `finish` comes from the record under `key` to another:
what is before that one has been decoded and sent. -/
inductive ComesTo (v : Env) (finish : Nat) :
    Nat → RetransmissionContext → Session → Nat → Session → Prop where
  | here (key : Nat) (rctx : RetransmissionContext) (s : Session) :
      ComesTo v finish key rctx s key s
  | next {key key' target : Nat} {rctx rctx' : RetransmissionContext} {s s' s'' : Session} {r : Rec}
      (hrecord : recordAt s key = some r) (hkey : key ≠ 0) (hle : key ≤ finish)
      (hsent : retransRecord v rctx key r.text s = .ok (true, rctx') s')
      (hnext : nextKey s' key = some key') (h : ComesTo v finish key' rctx' s' target s'') :
      ComesTo v finish key rctx s target s''

/-- Every record that the retransmission comes to decodes. -/
def AllDecode (v : Env) (finish key : Nat) (rctx : RetransmissionContext) (s : Session) : Prop :=
  ∀ key' s' r, ComesTo v finish key rctx s key' s' → recordAt s' key' = some r → key' ≠ 0 →
    key' ≤ finish → (factory v r.text).isOk = true

/-- What a range request asks of the store. -/
def startOf (st : Store) (first : Nat) : Nat := st.findNearestHighestSeqnum first st.getLastSeqnum

def finishOf (st : Store) (last : Nat) : Nat := if last = 0 then st.getLastSeqnum else last

/-- The session when the retransmission of a range begins. -/
def retransmitting (s : Session) : Session := { s with state := .stResendRequestReceived }

/-- The records that answer the range decode, as far as the retransmission comes. -/
def RangeDecodes (v : Env) (s : Session) (st : Store) (first last : Nat) : Prop :=
  startOf st first = 0 ∨ finishOf st last < first ∨
    AllDecode v (finishOf st last) (startOf st first)
      { beginSeq := first, endSeq := last, interruptedSeqnum := s.nextSendSeq } (retransmitting s)

/-- The request asks for a range in order. -/
def InOrder (msg : Msg) : Prop :=
  ¬ ((msg.beginSeqNo.getD 0 > msg.endSeqNo.getD 0 ∧ msg.endSeqNo.getD 0 ≠ 0) ∨
    msg.beginSeqNo.getD 0 = 0)

/-- Every record that the answer to the request comes to decodes. -/
def AnswerDecodes (v : Env) (msg : Msg) (s : Session) : Prop :=
  ∀ st, s.persist = some st → InOrder msg →
    RangeDecodes v s st (toUnsigned (msg.beginSeqNo.getD 0)) (toUnsigned (msg.endSeqNo.getD 0))

/-- `handle_resend_request` has left `st_resend_request_received`, where it returns and where it
throws what `process` turns into a Reject. -/
def Restored (v : Env) (seqnum : Nat) (msg : Msg) (s : Session) : Prop :=
  match handleResendRequest v seqnum msg s with
  | .ok _ s' => s'.state ≠ .stResendRequestReceived
  | .throw e s' => e.isReject = true → s'.state ≠ .stResendRequestReceived

section
variable {v : Env} {s s' : Session} {seqnum : Nat} {msg : Msg} {finish key : Nat}
  {rctx : RetransmissionContext}

/-! ## A record -/

theorem sendFrame_state : SendFrame Session.state := fun _ _ _ _ _ _ _ _ => rfl

/-- The gap fill in front of a record throws nothing. -/
theorem retransFill_end (v : Env) (rctx : RetransmissionContext) (key : Nat) (s : Session) :
    ∃ s', retransFill v rctx key s = .ok () s' ∧ s'.state = s.state := by
  unfold retransFill
  split
  · split
    · exact ⟨_, rfl, sendProcess_frame sendFrame_state⟩
    · exact ⟨s, rfl, rfl⟩
  · split
    · exact ⟨_, rfl, sendProcess_frame sendFrame_state⟩
    · exact ⟨s, rfl, rfl⟩

/-- The callback throws on a record exactly when it does not decode, and leaves the state. -/
theorem retransRecord_end (v : Env) (rctx : RetransmissionContext) (key : Nat) (t : Text)
    (s : Session) :
    ((factory v t).isOk = true ∧ ∃ b s', retransRecord v rctx key t s =
      .ok (b, { rctx with last := key }) s' ∧ s'.state = s.state) ∨
    ((factory v t).isOk = false ∧ ∃ e s', retransRecord v rctx key t s = .throw e s' ∧
      s'.state = s.state ∧ e.isReject = true) := by
  obtain ⟨s₁, hfill, hstate⟩ := retransFill_end v rctx key s
  unfold retransRecord
  rw [bind_ok hfill]
  cases hfactory : factory v t with
  | ok m =>
    refine .inl ⟨rfl, (sendProcess v m s₁).1, (sendProcess v m s₁).2, ?_, ?_⟩
    · rfl
    · exact (sendProcess_frame sendFrame_state).trans hstate
  | error w => exact .inr ⟨rfl, _, s₁, rfl, hstate, rfl⟩

/-! ## The loop -/

theorem allDecode_of_lt (h : finish < key) : AllDecode v finish key rctx s := by
  intro key' s' r hcomes hrecord hkey hle
  cases hcomes with
  | here => omega
  | next _ _ hle' => omega

theorem allDecode_of_none (h : recordAt s key = none) : AllDecode v finish key rctx s := by
  intro key' s' r hcomes hrecord hkey hle
  cases hcomes with
  | here =>
    rw [h] at hrecord
    cases hrecord
  | next hrecord' =>
    rw [h] at hrecord'
    cases hrecord'

/-- A record decodes, and where it is sent those behind it decode. -/
theorem allDecode_iff {r : Rec} (hrecord : recordAt s key = some r) (hkey : key ≠ 0)
    (hle : key ≤ finish) : AllDecode v finish key rctx s ↔ (factory v r.text).isOk = true ∧
      ∀ rctx' s' key', retransRecord v rctx key r.text s = .ok (true, rctx') s' →
        nextKey s' key = some key' → AllDecode v finish key' rctx' s' := by
  constructor
  · intro h
    refine ⟨h key s r (.here key rctx s) hrecord hkey hle, fun rctx' s' key' hsent hnext => ?_⟩
    intro target s'' r' hcomes
    exact h target s'' r' (.next hrecord hkey hle hsent hnext hcomes)
  · intro h key' s' r' hcomes hrecord' hkey' hle'
    obtain ⟨hok, hrest⟩ := h
    cases hcomes with
    | here =>
      rw [hrecord] at hrecord'
      cases hrecord'
      exact hok
    | next hr _ _ hsent hnext hcomes =>
      rw [hrecord] at hr
      cases hr
      exact hrest _ _ _ hsent hnext _ _ _ hcomes hrecord' hkey' hle'

/-- Behind a record that is sent. -/
theorem allDecode_sent {r : Rec} {rctx' : RetransmissionContext} (hrecord : recordAt s key = some r)
    (hkey : key ≠ 0) (hle : key ≤ finish) (hok : (factory v r.text).isOk = true)
    (hsent : retransRecord v rctx key r.text s = .ok (true, rctx') s') :
    AllDecode v finish key rctx s ↔
      ∀ key', nextKey s' key = some key' → AllDecode v finish key' rctx' s' := by
  rw [allDecode_iff hrecord hkey hle]
  constructor
  · exact fun h key' hnext => h.2 _ _ _ hsent hnext
  · refine fun h => ⟨hok, fun rctx'' s'' key' hsent' hnext => ?_⟩
    rw [hsent] at hsent'
    cases hsent'
    exact h key' hnext

/-- A record that is not sent is the last one. -/
theorem allDecode_unsent {r : Rec} {rctx' : RetransmissionContext}
    (hrecord : recordAt s key = some r) (hkey : key ≠ 0) (hle : key ≤ finish)
    (hok : (factory v r.text).isOk = true)
    (hsent : retransRecord v rctx key r.text s = .ok (false, rctx') s') :
    AllDecode v finish key rctx s := by
  rw [allDecode_iff hrecord hkey hle]
  refine ⟨hok, fun rctx'' s'' key' hsent' => ?_⟩
  rw [hsent] at hsent'
  cases hsent'

/-- What the loop leaves: its result when the records it comes to decode, else a Reject's
exception. -/
def LoopEnd (st : SessionState) (decode : Prop) : Res Session Exn RetransmissionContext → Prop
  | .ok _ s' => decode ∧ s'.state = st
  | .throw e s' => ¬ decode ∧ s'.state = st ∧ e.isReject = true

/-- **The loop throws on the first record that does not decode.** -/
theorem getLoop_end (v : Env) (finish : Nat) : ∀ (fuel key : Nat) (rctx : RetransmissionContext)
    (s : Session), finish + 2 ≤ fuel + key → key ≠ 0 →
    LoopEnd s.state (AllDecode v finish key rctx s) (getLoop v finish fuel key rctx s)
  | 0, key, rctx, s, hfuel, _ => ⟨allDecode_of_lt (by omega), rfl⟩
  | fuel + 1, key, rctx, s, hfuel, hkey => by
    rw [getLoop, getTurn, get_bind_apply]
    cases hrecord : recordAt s key with
    | none => exact ⟨allDecode_of_none hrecord, rfl⟩
    | some r =>
      dsimp only
      by_cases hlt : finish < key
      · rw [if_pos (.inr hlt)]
        exact ⟨allDecode_of_lt hlt, rfl⟩
      have hle := not_lt.1 hlt
      rw [if_neg (by omega)]
      rcases retransRecord_end v rctx key r.text s with
        ⟨hok, b, s₁, hr, hs₁⟩ | ⟨hno, e, s₁, hr, hs₁, he⟩
      · rw [bind_ok hr]
        cases b with
        | false => exact ⟨allDecode_unsent hrecord hkey hle hok hr, hs₁⟩
        | true =>
          rw [allDecode_sent hrecord hkey hle hok hr]
          show LoopEnd s.state _ (moveOn key { rctx with last := key } (getLoop v finish fuel) s₁)
          unfold moveOn
          rw [get_bind_apply]
          cases hnext : nextKey s₁ key with
          | none => exact ⟨fun key' h => (by cases h), hs₁⟩
          | some key' =>
            obtain ⟨st, -, hst⟩ := Option.bind_eq_some_iff.1 hnext
            have hgt := (OrdMap.next?_eq_some hst).1
            have hrest := getLoop_end v finish fuel key' { rctx with last := key } s₁ (by omega)
              (by omega)
            rw [hs₁] at hrest
            have hiff : (∀ k, some key' = some k →
                AllDecode v finish k { rctx with last := key } s₁) ↔
                AllDecode v finish key' { rctx with last := key } s₁ :=
              ⟨fun h => h key' rfl, fun h k hk => Option.some.inj hk ▸ h⟩
            rw [hiff]
            exact hrest
      · rw [bind_throw hr]
        refine ⟨fun h => ?_, hs₁, he⟩
        have hok := ((allDecode_iff hrecord hkey hle).1 h).1
        rw [hno] at hok
        cases hok

/-- The last call of the callback leaves the state. -/
theorem retransEnd_end (v : Env) (rctx : RetransmissionContext) (s : Session) :
    ∃ s', retransEnd v rctx s = .ok () s' ∧ s'.state = .stContinuous := by
  unfold retransEnd
  split
  · exact ⟨_, rfl, rfl⟩
  · exact ⟨_, rfl, rfl⟩

/-! ## The request -/

/-- What the answer leaves. -/
def AnswerEnd (decode : Prop) : Res Session Exn Unit → Prop
  | .ok _ s' => decode ∧ s'.state ≠ .stResendRequestReceived
  | .throw e s' => ¬ decode ∧ s'.state = .stResendRequestReceived ∧ e.isReject = true

/-- **A range request** leaves the state when the records it comes to decode. -/
theorem getRange_end (v : Env) (s : Session) (st : Store) (first last : Nat) :
    AnswerEnd (RangeDecodes v s st first last)
      (getRange v st first last (retransmitting s)) := by
  show AnswerEnd _ ((if startOf st first = 0 ∨ first > finishOf st last then
    retransEnd v { beginSeq := first, endSeq := last, interruptedSeqnum := s.nextSendSeq } else do
      let rctx ← getLoop v (finishOf st last) (finishOf st last + 1) (startOf st first)
        { beginSeq := first, endSeq := last, interruptedSeqnum := s.nextSendSeq }
      retransEnd v rctx : Method Unit) (retransmitting s))
  unfold RangeDecodes
  by_cases hnone : startOf st first = 0 ∨ first > finishOf st last
  · rw [if_pos hnone]
    obtain ⟨s₁, h₁, hs₁⟩ := retransEnd_end v
      { beginSeq := first, endSeq := last, interruptedSeqnum := s.nextSendSeq } (retransmitting s)
    rw [h₁]
    refine ⟨hnone.imp_right .inl, ?_⟩
    rw [hs₁]
    decide
  · rw [if_neg hnone]
    obtain ⟨hstart, hle⟩ := not_or.1 hnone
    have hloop := getLoop_end v (finishOf st last) (finishOf st last + 1) (startOf st first)
      { beginSeq := first, endSeq := last, interruptedSeqnum := s.nextSendSeq } (retransmitting s)
      (by omega) hstart
    rw [bind_apply]
    cases hr : getLoop v (finishOf st last) (finishOf st last + 1) (startOf st first)
        { beginSeq := first, endSeq := last, interruptedSeqnum := s.nextSendSeq }
        (retransmitting s) with
    | ok rctx s₁ =>
      rw [hr] at hloop
      obtain ⟨s₂, h₂, hs₂⟩ := retransEnd_end v rctx s₁
      dsimp only
      rw [h₂]
      refine ⟨.inr (.inr hloop.1), ?_⟩
      rw [hs₂]
      decide
    | throw e s₁ =>
      rw [hr] at hloop
      obtain ⟨hnot, hs₁, he⟩ := hloop
      refine ⟨?_, hs₁, he⟩
      rintro (h | h | h)
      · exact hstart h
      · exact hle h
      · exact hnot h

/-- A request that comes while the state is not left is ignored. -/
theorem answer_ignored (h : s.state = .stResendRequestReceived) :
    answerResendRequest v seqnum msg s = .ok () s := by
  unfold answerResendRequest
  rw [get_bind_apply]
  exact congrFun (if_neg (not_not.2 h)) s

/-- The answer to a request in another state. -/
theorem answer_end (v : Env) (seqnum : Nat) (msg : Msg) (h : s.state ≠ .stResendRequestReceived) :
    AnswerEnd (AnswerDecodes v msg s) (answerResendRequest v seqnum msg s) := by
  unfold answerResendRequest AnswerDecodes
  rw [get_bind_apply]
  dsimp only
  rw [if_pos h]
  by_cases horder : (msg.beginSeqNo.getD 0 > msg.endSeqNo.getD 0 ∧ msg.endSeqNo.getD 0 ≠ 0) ∨
      msg.beginSeqNo.getD 0 = 0
  · rw [if_pos horder]
    exact ⟨fun st _ hin => absurd horder hin, (sendProcess_frame sendFrame_state).trans_ne h⟩
  · rw [if_neg horder]
    unfold serveResend
    rw [get_bind_apply]
    cases hst : s.persist with
    | none =>
      exact ⟨fun st h => (by cases h), (sendProcess_frame sendFrame_state).trans_ne h⟩
    | some st =>
      have hrange := getRange_end v s st (toUnsigned (msg.beginSeqNo.getD 0))
        (toUnsigned (msg.endSeqNo.getD 0))
      show AnswerEnd _ (getRange v st _ _ (retransmitting s))
      have hiff : (∀ st', some st = some st' → InOrder msg → RangeDecodes v s st'
          (toUnsigned (msg.beginSeqNo.getD 0)) (toUnsigned (msg.endSeqNo.getD 0))) ↔
          RangeDecodes v s st (toUnsigned (msg.beginSeqNo.getD 0))
            (toUnsigned (msg.endSeqNo.getD 0)) :=
        ⟨fun h => h st rfl horder, fun h st' hst' _ => Option.some.inj hst' ▸ h⟩
      rw [hiff]
      exact hrange

/-- `enforce` does not go into the state, and leaves a session in it alone. -/
theorem enforceState_cases (v : Env) (s : Session) (seqnum : Nat) (msg : Msg) :
    enforceState v s seqnum msg = s ∨
    (s.state = .stContinuous ∧ (enforceState v s seqnum msg).state = .stResendRequestSent) := by
  unfold enforceState sequenceState
  split
  · split
    · rename_i h
      exact .inr ⟨h.2, rfl⟩
    · exact .inl rfl
  · exact .inl rfl

/-- The request, once `enforce` has let it through. -/
theorem restored_of_enforced {b : Bool} (h : enforceEnd v s seqnum msg = .ok b) :
    Restored v seqnum msg s ↔
      match answerResendRequest v seqnum msg (enforceState v s seqnum msg) with
      | .ok _ s' => s'.state ≠ .stResendRequestReceived
      | .throw e s' => e.isReject = true → s'.state ≠ .stResendRequestReceived := by
  unfold Restored handleResendRequest
  rw [bind_apply, enforce_eq, h]
  dsimp only
  rw [bind_apply]
  cases answerResendRequest v seqnum msg (enforceState v s seqnum msg) <;> rfl

/-- **`handle_resend_request` restores the state** exactly when `enforce` gives the request up, or
the session is not in the state already and every record that the answer comes to decodes. -/
theorem restored_iff (v : Env) (seqnum : Nat) (msg : Msg) (s : Session) :
    Restored v seqnum msg s ↔ ∀ b, enforceEnd v s seqnum msg = .ok b →
      s.state ≠ .stResendRequestReceived ∧ AnswerDecodes v msg (enforceState v s seqnum msg) := by
  cases henforce : enforceEnd v s seqnum msg with
  | error e =>
    refine iff_of_true ?_ fun b h => by cases h
    unfold Restored handleResendRequest
    rw [bind_apply, enforce_eq, henforce]
    intro he
    rw [enforceEnd_not_isReject henforce] at he
    cases he
  | ok b =>
    rw [restored_of_enforced henforce]
    by_cases hstate : s.state = .stResendRequestReceived
    · refine iff_of_false ?_ fun h => (h b rfl).1 hstate
      rcases enforceState_cases v s seqnum msg with heq | ⟨hc, -⟩
      · rw [heq, answer_ignored hstate]
        exact not_not.2 hstate
      · rw [hstate] at hc
        cases hc
    · have hstate' : (enforceState v s seqnum msg).state ≠ .stResendRequestReceived := by
        rcases enforceState_cases v s seqnum msg with heq | ⟨-, hs⟩
        · rw [heq]
          exact hstate
        · rw [hs]
          decide
      have hend := answer_end v seqnum msg hstate'
      have hiff : (∀ b', (Except.ok b : Except Exn Bool) = .ok b' → s.state ≠ .stResendRequestReceived ∧
          AnswerDecodes v msg (enforceState v s seqnum msg)) ↔
          AnswerDecodes v msg (enforceState v s seqnum msg) :=
        ⟨fun h => (h b rfl).2, fun h _ _ => ⟨hstate, h⟩⟩
      refine Iff.trans ?_ hiff.symm
      cases hr : answerResendRequest v seqnum msg (enforceState v s seqnum msg) with
      | ok u s' =>
        rw [hr] at hend
        exact iff_of_true hend.2 hend.1
      | throw e s' =>
        rw [hr] at hend
        exact iff_of_false (fun h => h hend.2.2 hend.2.1) hend.1

/-! ## Stores whose records decode -/

/-- A duplicate and an administrative message leave the messages of the store. -/
theorem recordAt_sendProcess {m : Msg} {k : Nat} (h : isDup v s m = true ∨ m.isAdmin = true)
    (hk : k ≠ 0) : recordAt (sendProcess v m s).2 k = recordAt s k := by
  rcases sendProcess_cases v s m with hfailed | hsucceeded
  · unfold recordAt
    rw [hfailed.persist]
  · rw [recordAt_sent hsucceeded hk]
    refine if_neg fun hstored => ?_
    rcases h with hdup | hadmin
    · rw [hstored.1] at hdup
      cases hdup
    · rw [hstored.2.1] at hadmin
      cases hadmin

theorem recordAt_retransFill (v : Env) (rctx : RetransmissionContext) (key : Nat) (s : Session)
    {k : Nat} (hk : k ≠ 0) : recordAt (retransFill v rctx key s).state k = recordAt s k := by
  unfold retransFill
  split
  · split
    · exact recordAt_sendProcess (.inr rfl) hk
    · rfl
  · split
    · exact recordAt_sendProcess (.inr rfl) hk
    · rfl

/-- Where numbers are not always assigned, a resend stores nothing. -/
theorem recordAt_retransRecord {k : Nat} {t : Text} {b : Bool} {rctx' : RetransmissionContext}
    (hassign : v.alwaysSeqnumAssign = false) (hk : k ≠ 0)
    (h : retransRecord v rctx key t s = .ok (b, rctx') s') : recordAt s' k = recordAt s k := by
  have hkept := recordAt_retransFill v rctx key s hk
  obtain ⟨s₁, hfill, -⟩ := retransFill_end v rctx key s
  rw [hfill] at hkept
  cases hfactory : factory v t with
  | error w =>
    have hthrow : retransRecord v rctx key t s = .throw (codecExn w) s₁ := by
      unfold retransRecord
      rw [bind_ok hfill, hfactory]
      rfl
    rw [hthrow] at h
    cases h
  | ok m =>
    have hsend : retransRecord v rctx key t s =
        .ok ((sendProcess v m s₁).1, { rctx with last := key }) (sendProcess v m s₁).2 := by
      unfold retransRecord
      rw [bind_ok hfill, hfactory]
      rfl
    rw [hsend] at h
    cases h
    exact (recordAt_sendProcess (.inl (isDup_of_seqnum hassign (factory_seqnum hfactory).1)) hk).trans
      hkept

theorem ComesTo.recordAt {target k : Nat} (hassign : v.alwaysSeqnumAssign = false) (hk : k ≠ 0)
    (h : ComesTo v finish key rctx s target s') : recordAt s' k = recordAt s k := by
  induction h with
  | here => rfl
  | next _ _ _ hsent _ _ ih => exact ih.trans (recordAt_retransRecord hassign hk hsent)

/-- **A store whose messages decode** is retransmitted to the end, where numbers are not always
assigned. -/
theorem restored_of_store (hassign : v.alwaysSeqnumAssign = false)
    (hstate : s.state ≠ .stResendRequestReceived)
    (hdecode : ∀ k r, k ≠ 0 → recordAt s k = some r → (factory v r.text).isOk = true) :
    Restored v seqnum msg s := by
  rw [restored_iff]
  refine fun b _ => ⟨hstate, fun st hst _ => .inr (.inr fun key s' r hcomes hrecord hkey _ => ?_)⟩
  rw [hcomes.recordAt hassign hkey] at hrecord
  refine hdecode key r hkey (hrecord ▸ ?_)
  show Session.recordAt s key = Session.recordAt (enforceState v s seqnum msg) key
  unfold enforceState sequenceState
  split
  · split
    · exact (recordAt_sendProcess (m := generateResendRequest s.nextReceiveSeq) (.inr rfl) hkey).symm
    · rfl
  · rfl

end

/-- A session whose store has an empty text, which the last message of a batch leaves. -/
def demoEmptyText : Session :=
  { demoSession with nextSendSeq := 6, persist := some (OrdMap.empty.insert 5 (.message [])) }

/-- The text does not decode, and the session stays in the state. -/
theorem empty_text_stays : ¬ ∀ (v : Env) (seqnum : Nat) (msg : Msg) (s : Session),
    s.state ≠ .stResendRequestReceived → Restored v seqnum msg s := by
  intro h
  have hrestored := h demoEnv 5 demoResendRequest demoEmptyText (by decide)
  unfold Restored at hrestored
  have hthrows : handleResendRequest demoEnv 5 demoResendRequest demoEmptyText =
      .throw (codecExn "Invalid FIX Message") (retransmitting demoEmptyText) := by decide
  rw [hthrows] at hrestored
  exact hrestored rfl rfl

end Session

end Fix8
