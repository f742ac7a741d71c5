import Fix8.Session.Process

/-!
# A retransmission among other sends

The answer to a ResendRequest, step by step, with `send_process` calls of other threads in between:
every `send_process` is one step (the connection locks it), and so are the capture of the
interrupted number and the assignment of `_next_send_seq`. `Answer` is where the reader's thread
stands.

* `startAnswer`: `handle_resend_request` up to its first callback;
* `advance`: the next step of the answer;
* **`uninterrupted`**: without other sends the steps are `handle_resend_request`.
-/

namespace Fix8.Session

open Lib

/-- Where the reader's thread stands in an answer. -/
inductive Answer where
  | idle
  /-- The iterator of `MemoryPersister::get` is at `key`. -/
  | turn (rctx : RetransmissionContext) (finish key : Nat)
  /-- `retrans_callback` has filled the hole before the record and sends it next. -/
  | resend (rctx : RetransmissionContext) (finish key : Nat) (second : Text)
  /-- The last gap fill is sent next; `continuous` when a persister is served. -/
  | fill (position nseq : Nat) (continuous : Bool)
  /-- `_next_send_seq = nseq` is next. -/
  | assign (nseq : Nat) (continuous : Bool)
deriving DecidableEq

/-- The last callback, which has the interrupted number from the start of the answer. -/
def lastCallback (rctx : RetransmissionContext) : Answer :=
  let position := if rctx.last = 0 then rctx.beginSeq else nextUnsigned rctx.last
  .fill position
    (if position ≥ rctx.interruptedSeqnum then nextUnsigned position
      else rctx.interruptedSeqnum) true

/-- `MemoryPersister::get` up to its first callback: the interrupted number is captured. -/
def capture (st : Store) (first last : Nat) (s : Session) : Answer :=
  let lastSeq := st.getLastSeqnum
  let startSeqNum := st.findNearestHighestSeqnum first lastSeq
  let finish := if last = 0 then lastSeq else last
  let rctx : RetransmissionContext :=
    { beginSeq := first, endSeq := last, interruptedSeqnum := s.nextSendSeq }
  if startSeqNum = 0 ∨ first > finish then lastCallback rctx else .turn rctx finish startSeqNum

/-- `handle_resend_request` for a range it serves, up to the first callback. -/
def startServing (first last : Int) (s : Session) : Session × Answer :=
  match s.persist with
  | none =>
    let nxt := toInt s.nextSendSeq
    let nseq := if first ≥ nxt then first + 1 else nxt
    (s, .fill (toUnsigned first) (toUnsigned nseq) false)
  | some st =>
    ({ s with state := .stResendRequestReceived },
      capture st (toUnsigned first) (toUnsigned last) s)

/-- `handle_resend_request` after `enforce`, up to the first callback. -/
def startAnswer (v : Env) (seqnum : Nat) (msg : Msg) (s : Session) : Session × Answer :=
  if s.state ≠ .stResendRequestReceived then
    let first := msg.beginSeqNo.getD 0
    let last := msg.endSeqNo.getD 0
    if (first > last ∧ last ≠ 0) ∨ first = 0 then
      ((handleOutboundReject v seqnum (some msg)
        "Invalid resend range: Begin > End or Begin = 0" s).state, .idle)
    else startServing first last s
  else (s, .idle)

/-- The record is sent, and the iterator moves on. -/
def sendRecord (v : Env) (rctx : RetransmissionContext) (finish key : Nat) (second : Text)
    (s : Session) : Session × Answer :=
  match factory v second with
  | .error _ => (s, .idle)
  | .ok msg =>
    let p := sendProcess v msg s
    let rctx := { rctx with last := key }
    if !p.1 then (p.2, lastCallback rctx)
    else match nextKey p.2 key with
      | none => (p.2, lastCallback rctx)
      | some key' => (p.2, .turn rctx finish key')

/-- The iterator's record is looked at, and the hole before it is filled. -/
def lookAt (v : Env) (rctx : RetransmissionContext) (finish key : Nat) (s : Session) :
    Session × Answer :=
  match recordAt s key with
  | none => (s, lastCallback rctx)
  | some r =>
    if key = 0 ∨ finish < key then (s, lastCallback rctx)
    else ((retransFill v rctx key s).state, .resend rctx finish key r.text)

/-- The next step of an answer. -/
def advance (v : Env) (p : Session × Answer) : Session × Answer :=
  match p with
  | (s, .idle) => (s, .idle)
  | (s, .turn rctx finish key) => lookAt v rctx finish key s
  | (s, .resend rctx finish key second) => sendRecord v rctx finish key second s
  | (s, .fill position nseq continuous) =>
    ((send v (generateSequenceReset nseq true) position false s).state, .assign nseq continuous)
  | (s, .assign nseq continuous) =>
    ({ s with
      nextSendSeq := nseq
      state := if continuous then .stContinuous else s.state }, .idle)

/-- A step of the session: a `send_process` of another thread, a ResendRequest that has passed
`enforce`, or the next step of the answer. -/
inductive Action where
  | send (now : Nat) (m : Msg)
  | request (seqnum : Nat) (msg : Msg)
  | advance

/-- The session after a step; the reader takes a request when it has answered the one before. -/
def interleave (v : Env) (p : Session × Answer) : Action → Session × Answer
  | .send now m => ((sendProcess v m { p.1 with clock := now }).2, p.2)
  | .request seqnum msg =>
    match p.2 with
    | .idle => startAnswer v seqnum msg p.1
    | _ => p
  | .advance => advance v p

/-! ## Without other sends -/

section
variable {v : Env} {s : Session} {rctx : RetransmissionContext}

/-- The answer runs to its end and leaves `s'`. -/
def Answers (v : Env) (p : Session × Answer) (s' : Session) : Prop :=
  ∃ n, (advance v)^[n] p = (s', .idle)

theorem Answers.step {p : Session × Answer} {s' : Session} (h : Answers v (advance v p) s') :
    Answers v p s' := by
  obtain ⟨n, hn⟩ := h
  exact ⟨n + 1, hn⟩

theorem answers_lastCallback : Answers v (s, lastCallback rctx) (retransEnd v rctx s).state := by
  refine ⟨2, ?_⟩
  unfold retransEnd
  by_cases h : rctx.last = 0
  · rw [if_pos h]
    unfold lastCallback
    rw [if_pos h]
    rfl
  · rw [if_neg h]
    unfold lastCallback
    rw [if_neg h]
    rfl

theorem retransFill_ok (key : Nat) :
    retransFill v rctx key s = .ok () (retransFill v rctx key s).state := by
  unfold retransFill
  split
  · split <;> rfl
  · split <;> rfl

theorem lookAt_stop {finish key : Nat} (h : finish < key) :
    lookAt v rctx finish key s = (s, lastCallback rctx) := by
  unfold lookAt
  cases recordAt s key with
  | none => rfl
  | some r => exact if_pos (.inr h)

theorem getTurn_none {finish key : Nat} (h : recordAt s key = none)
    (loop : Nat → RetransmissionContext → Method RetransmissionContext) :
    getTurn v finish key rctx loop s = .ok rctx s := by
  unfold getTurn
  rw [Act.get_bind_apply, h]
  rfl

theorem getTurn_outside {finish key : Nat} {r : Rec} (h : recordAt s key = some r)
    (hout : key = 0 ∨ finish < key)
    (loop : Nat → RetransmissionContext → Method RetransmissionContext) :
    getTurn v finish key rctx loop s = .ok rctx s := by
  unfold getTurn
  rw [Act.get_bind_apply, h]
  dsimp only
  rw [if_pos hout]
  rfl

/-- A turn of the loop on a record in the range: the hole, then the record. -/
theorem getTurn_inside {finish key : Nat} {r : Rec} (h : recordAt s key = some r)
    (hin : ¬ (key = 0 ∨ finish < key))
    (loop : Nat → RetransmissionContext → Method RetransmissionContext) :
    getTurn v finish key rctx loop s =
      match factory v r.text with
      | .error w => .throw (codecExn w) (retransFill v rctx key s).state
      | .ok msg =>
        let p := sendProcess v msg (retransFill v rctx key s).state
        if !p.1 then .ok { rctx with last := key } p.2
        else moveOn key { rctx with last := key } loop p.2 := by
  unfold getTurn
  rw [Act.get_bind_apply, h]
  dsimp only
  rw [if_neg hin, Act.bind_apply, retransRecord, Act.bind_ok (retransFill_ok key)]
  cases factory v r.text with
  | error w => rfl
  | ok msg =>
    have hsend : (ofExcept (Except.mapError codecExn (.ok msg)) >>= fun msg => do
        let sent ← send v msg
        pure (sent, { rctx with last := key }) : Method (Bool × RetransmissionContext))
        (retransFill v rctx key s).state =
      .ok ((sendProcess v msg (retransFill v rctx key s).state).1, { rctx with last := key })
        (sendProcess v msg (retransFill v rctx key s).state).2 := rfl
    rw [hsend]
    dsimp only
    split <;> rfl

theorem nextKey_lt {key key' : Nat} (h : nextKey s key = some key') : key < key' := by
  unfold nextKey at h
  obtain ⟨st, -, hst⟩ := Option.bind_eq_some_iff.1 h
  exact (OrdMap.next?_eq_some hst).1

theorem answers_aborted {e : Exn} {s' : Session} (m : Method RetransmissionContext)
    (h : m s = .throw e s') :
    Answers v (s', .idle) ((m >>= retransEnd v) s).state := by
  rw [Act.bind_throw h]
  exact ⟨0, rfl⟩

theorem answers_ended {s' : Session} {rctx' : RetransmissionContext}
    (m : Method RetransmissionContext) (h : m s = .ok rctx' s') :
    Answers v (s', lastCallback rctx') ((m >>= retransEnd v) s).state := by
  rw [Act.bind_ok h]
  exact answers_lastCallback

/-- The steps of the loop are the loop, when it has turns enough. -/
theorem answers_turn {finish fuel key : Nat} (h : finish < key + fuel) :
    Answers v (s, .turn rctx finish key)
      ((getLoop v finish fuel key rctx >>= retransEnd v) s).state := by
  induction fuel generalizing key rctx s with
  | zero =>
    apply Answers.step
    show Answers v (lookAt v rctx finish key s) _
    rw [lookAt_stop (show finish < key from h)]
    exact answers_ended (getLoop v finish 0 key rctx) rfl
  | succ fuel ih =>
    apply Answers.step
    show Answers v (lookAt v rctx finish key s) _
    unfold lookAt
    cases hr : recordAt s key with
    | none => exact answers_ended (getLoop v finish (fuel + 1) key rctx) (getTurn_none hr _)
    | some r =>
      dsimp only
      by_cases hout : key = 0 ∨ finish < key
      · rw [if_pos hout]
        exact answers_ended (getLoop v finish (fuel + 1) key rctx) (getTurn_outside hr hout _)
      rw [if_neg hout]
      have hturn := @getTurn_inside v s rctx finish key r hr hout (getLoop v finish fuel)
      apply Answers.step
      show Answers v (sendRecord v rctx finish key r.text (retransFill v rctx key s).state) _
      unfold sendRecord
      cases hf : factory v r.text with
      | error w =>
        rw [hf] at hturn
        exact answers_aborted (getLoop v finish (fuel + 1) key rctx) hturn
      | ok msg =>
        simp only [hf] at hturn ⊢
        by_cases hsent : (sendProcess v msg (retransFill v rctx key s).state).1
        · simp only [hsent, Bool.not_true, Bool.false_eq_true, if_false, moveOn,
            Act.get_bind_apply] at hturn ⊢
          cases hnext : nextKey (sendProcess v msg (retransFill v rctx key s).state).2 key with
          | none =>
            simp only [hnext] at hturn ⊢
            exact answers_ended (getLoop v finish (fuel + 1) key rctx) hturn
          | some key' =>
            simp only [hnext] at hturn ⊢
            have hlt := nextKey_lt hnext
            have hloop : Answers v ((sendProcess v msg (retransFill v rctx key s).state).2,
                .turn { rctx with last := key } finish key')
                ((getLoop v finish fuel key' { rctx with last := key } >>= retransEnd v)
                  (sendProcess v msg (retransFill v rctx key s).state).2).state := ih (by omega)
            have heq : (getLoop v finish (fuel + 1) key rctx >>= retransEnd v) s =
                (getLoop v finish fuel key' { rctx with last := key } >>= retransEnd v)
                  (sendProcess v msg (retransFill v rctx key s).state).2 := by
              have hfirst : getLoop v finish (fuel + 1) key rctx s = _ := hturn
              rw [Act.bind_apply, Act.bind_apply, hfirst]
            rw [heq]
            exact hloop
        · simp only [hsent, Bool.not_false, if_true] at hturn ⊢
          exact answers_ended (getLoop v finish (fuel + 1) key rctx) hturn

theorem answers_capture {st : Store} {first last : Nat} :
    Answers v (s, capture st first last s) (getRange v st first last s).state := by
  unfold capture getRange
  rw [Act.get_bind_apply]
  dsimp only
  by_cases h : st.findNearestHighestSeqnum first st.getLastSeqnum = 0 ∨
      first > if last = 0 then st.getLastSeqnum else last
  · rw [if_pos h, if_pos h]
    exact answers_lastCallback
  · rw [if_neg h, if_neg h]
    refine answers_turn ?_
    generalize (if last = 0 then st.getLastSeqnum else last) = finish
    omega

theorem answers_serving (first last : Int) :
    Answers v (startServing first last s) (serveResend v first last s).state := by
  cases hp : s.persist with
  | none =>
    refine ⟨2, ?_⟩
    unfold startServing serveResend
    rw [Act.get_bind_apply, hp]
    rfl
  | some st =>
    have hstart : startServing first last s = ({ s with state := .stResendRequestReceived },
        capture st (toUnsigned first) (toUnsigned last)
          { s with state := .stResendRequestReceived }) := by
      unfold startServing
      rw [hp]
      rfl
    have hserve : serveResend v first last s = getRange v st (toUnsigned first) (toUnsigned last)
        { s with state := .stResendRequestReceived } := by
      unfold serveResend
      rw [Act.get_bind_apply, hp]
      dsimp only
      rw [doStateChange_bind_apply, hp]
    rw [hstart, hserve]
    exact answers_capture

/-- **Without other sends the steps are `handle_resend_request`** after its `enforce`. -/
theorem uninterrupted (v : Env) (seqnum : Nat) (msg : Msg) (s : Session) :
    Answers v (startAnswer v seqnum msg s) (answerResendRequest v seqnum msg s).state := by
  unfold startAnswer answerResendRequest
  rw [Act.get_bind_apply]
  by_cases hstate : s.state ≠ .stResendRequestReceived
  swap
  · rw [if_neg hstate, if_neg hstate]
    exact ⟨0, rfl⟩
  rw [if_pos hstate, if_pos hstate]
  dsimp only
  by_cases hrange : (msg.beginSeqNo.getD 0 > msg.endSeqNo.getD 0 ∧ msg.endSeqNo.getD 0 ≠ 0) ∨
      msg.beginSeqNo.getD 0 = 0
  · rw [if_pos hrange, if_pos hrange]
    exact ⟨0, rfl⟩
  · rw [if_neg hrange, if_neg hrange]
    exact answers_serving _ _

end

end Fix8.Session
