import Fix8.Session.Interleave
import Fix8.Session.Proof.Stored
import Mathlib.Data.List.Nodup

/-!
# Fresh numbers, while a ResendRequest is answered

A message is fresh when it is no possible duplicate, no SequenceReset, and has no number of its own.
The fresh numbers on the wire and in the batch are below the counter; an answer puts the counter
back to where it was when it started, below the numbers sent in between.

* `sendProcess_once`: a call of `send_process` that counts its fresh message keeps them apart;
* **`fresh_numbers_unique`**: they stay apart in every run whose answers do not lower the counter and
  whose sends do not pass the end of `unsigned`.
-/

namespace Fix8.Session

open Lib

/-! ## Fresh numbers -/

/-- A message on the wire that is fresh. -/
def Fresh (m : Msg) : Prop :=
  m.customSeqnum = 0 ∧ m.msgType ≠ .sequenceReset ∧ m.header.possDupFlag ≠ some true

instance (m : Msg) : Decidable (Fresh m) := inferInstanceAs (Decidable (_ ∧ _))

/-- The number of a fresh message. -/
def freshNumber (m : Msg) : Option Nat := if Fresh m then m.header.msgSeqNum else none

/-- The numbers of the fresh messages of a text. -/
def freshNumbers (t : Text) : List Nat := t.filterMap freshNumber

/-- The message will be fresh on the wire. -/
def GoesFresh (v : Env) (m : Msg) : Prop :=
  m.customSeqnum = 0 ∧ m.msgType ≠ .sequenceReset ∧ goesPossDup v m.header = false

/-- The fresh numbers are below the counter, each of them once. -/
structure NumbersOnce (s : Session) : Prop where
  nodup : (freshNumbers (s.wire ++ s.batchmsgsBuffer)).Nodup
  below : ∀ n ∈ freshNumbers (s.wire ++ s.batchmsgsBuffer), n < s.nextSendSeq

section
variable {v : Env} {s s' : Session} {m : Msg}

theorem freshNumbers_append (t t' : Text) :
    freshNumbers (t ++ t') = freshNumbers t ++ freshNumbers t' := List.filterMap_append

@[simp] theorem freshNumbers_nil : freshNumbers [] = [] := rfl

theorem freshNumber_cstr : freshNumber m.cstr = freshNumber m := by
  unfold freshNumber Fresh Msg.cstr
  split <;> rfl

theorem fresh_stamp : Fresh (stamp v s m) ↔ GoesFresh v m := by
  have hflag : (stamp v s m).header.possDupFlag ≠ some true ↔ goesPossDup v m.header = false := by
    rw [ne_eq, stamp_goesPossDup, Bool.not_eq_true]
  exact and_congr Iff.rfl (and_congr Iff.rfl hflag)

theorem freshNumbers_wireText :
    freshNumbers (wireText v s m) = (freshNumber (stamp v s m)).toList := by
  have hone : ∀ m' : Msg, freshNumbers [m'] = (freshNumber m').toList := by
    intro m'
    unfold freshNumbers
    cases h : freshNumber m' with
    | none => exact List.filterMap_cons_none h
    | some n => exact List.filterMap_cons_some h
  unfold wireText
  split
  · exact hone _
  · rw [hone, freshNumber_cstr]

theorem freshNumber_stale (h : ¬ GoesFresh v m) : freshNumber (stamp v s m) = none :=
  if_neg fun hf => h (fresh_stamp.1 hf)

/-- A fresh message that came without a flag has the number that is next. -/
theorem freshNumber_next (h : GoesFresh v m) (hflag : m.header.possDupFlag = none) :
    freshNumber (stamp v s m) = some s.nextSendSeq := by
  have hnum : assignedSeqnum s m = s.nextSendSeq := assignedSeqnum_eq.2 (.inl h.1)
  rw [freshNumber, if_pos (fresh_stamp.2 h), stamp_msgSeqNum h.2.2 hflag, hnum]

/-! ## A call of `send_process` -/

/-- The counter has a next value. -/
def HasNext (s : Session) : Prop := s.nextSendSeq + 1 < 4294967296

instance (s : Session) : Decidable (HasNext s) := inferInstanceAs (Decidable (_ < _))

/-- A message that goes out and counts has a number behind it; a fresh one that goes out counts, and
a batch it ends does not stay in the buffer. -/
structure SendSafe (v : Env) (s : Session) (m : Msg) : Prop where
  hasNext : GoesOut v s m → isDup v s m = false → Counts m → HasNext s
  counted : GoesFresh v m → GoesOut v s m → m.header.possDupFlag = none ∧ m.noIncrement = false
  flushed : GoesFresh v m → m.encodeErr = none → m.endOfBatch = true → s.batchmsgsBuffer ≠ [] →
    v.link s.writes ≠ .threw

/-- The session has the same fresh numbers, or fewer, below a counter that is no lower. -/
theorem NumbersOnce.mono (h : NumbersOnce s)
    (hsub : (freshNumbers (s'.wire ++ s'.batchmsgsBuffer)).Sublist
      (freshNumbers (s.wire ++ s.batchmsgsBuffer)))
    (hle : s.nextSendSeq ≤ s'.nextSendSeq) : NumbersOnce s' := by
  refine ⟨h.nodup.sublist hsub, ?_⟩
  intro n hn
  have hlt := h.below n (hsub.subset hn)
  omega

/-- The number that is next is used, and the counter moves on. -/
theorem NumbersOnce.push (h : NumbersOnce s)
    (hnumbers : freshNumbers (s'.wire ++ s'.batchmsgsBuffer) =
      freshNumbers (s.wire ++ s.batchmsgsBuffer) ++ [s.nextSendSeq])
    (hnext : s'.nextSendSeq = s.nextSendSeq + 1) : NumbersOnce s' := by
  refine ⟨?_, ?_⟩
  · rw [hnumbers]
    refine List.Nodup.append h.nodup (List.nodup_singleton _) ?_
    intro n hn hn'
    obtain rfl := List.mem_singleton.1 hn'
    exact absurd (h.below _ hn) (lt_irrefl _)
  · intro n hn
    rw [hnumbers] at hn
    rw [hnext]
    obtain hold | hnew := List.mem_append.1 hn
    · have hlt := h.below n hold
      omega
    · obtain rfl := List.mem_singleton.1 hnew
      exact Nat.lt_succ_self _

/-- What is on the wire and in the batch after a call that returns true. -/
theorem Succeeded.sent (h : Succeeded v s m) :
    (sendProcess v m s).2.wire ++ (sendProcess v m s).2.batchmsgsBuffer =
      s.wire ++ s.batchmsgsBuffer ++ wireText v s m := by
  rw [h.wire, h.buffer]
  cases m.endOfBatch with
  | true => rw [if_pos rfl, if_pos rfl, List.append_nil]
  | false => rw [if_neg Bool.false_ne_true, if_neg Bool.false_ne_true, List.append_assoc]

/-- A counted message moves the counter on by one. -/
theorem Succeeded.counter_succ (h : Succeeded v s m) (hsafe : SendSafe v s m)
    (hdup : isDup v s m = false) (hcounts : Counts m) :
    (sendProcess v m s).2.nextSendSeq = s.nextSendSeq + 1 := by
  rw [h.nextSendSeq, if_pos ⟨hdup, hcounts⟩]
  exact nextUnsigned_of_lt (hsafe.hasNext h.goesOut hdup hcounts)

theorem Succeeded.counter_le (h : Succeeded v s m) (hsafe : SendSafe v s m) :
    s.nextSendSeq ≤ (sendProcess v m s).2.nextSendSeq := by
  by_cases hc : isDup v s m = false ∧ Counts m
  · have hnext := h.counter_succ hsafe hc.1 hc.2
    omega
  · rw [h.nextSendSeq, if_neg hc]

theorem Succeeded.numbers (h : Succeeded v s m) :
    freshNumbers ((sendProcess v m s).2.wire ++ (sendProcess v m s).2.batchmsgsBuffer) =
      freshNumbers (s.wire ++ s.batchmsgsBuffer) ++ (freshNumber (stamp v s m)).toList := by
  rw [h.sent, freshNumbers_append, freshNumbers_wireText]

theorem Succeeded.once (h : Succeeded v s m) (hs : NumbersOnce s) (hsafe : SendSafe v s m) :
    NumbersOnce (sendProcess v m s).2 := by
  by_cases hfresh : GoesFresh v m
  · obtain ⟨hflag, hinc⟩ := hsafe.counted hfresh h.goesOut
    have hdup : isDup v s m = false := by
      rw [isDup_of_not_possDup hfresh.2.2, hflag]
      rfl
    have hcounts : Counts m := ⟨hfresh.1, hinc, hfresh.2.1⟩
    apply hs.push
    · rw [h.numbers, freshNumber_next hfresh hflag]
      rfl
    · exact h.counter_succ hsafe hdup hcounts
  · apply hs.mono
    · rw [h.numbers, freshNumber_stale hfresh]
      simp
    · exact h.counter_le hsafe

/-- What a failed call leaves in the buffer: no new fresh number. -/
theorem Failed.once (h : Failed v s m) (hs : NumbersOnce s) (hsafe : SendSafe v s m) :
    NumbersOnce (sendProcess v m s).2 := by
  refine hs.mono ?_ h.nextSendSeq.ge
  rw [h.wire]
  obtain hsame | hempty | ⟨hkept, hend, hbatch, hthrew⟩ := h.buffer
  · rw [hsame]
  · rw [hempty, List.append_nil, freshNumbers_append]
    exact List.sublist_append_left _ _
  · have hstale : freshNumbers [(stamp v s m).cstr] = [] := by
      unfold freshNumbers
      refine List.filterMap_cons_none ?_
      rw [freshNumber_cstr]
      refine if_neg fun hf => ?_
      cases henc : m.encodeErr with
      | none => exact hsafe.flushed (fresh_stamp.1 hf) henc hend hbatch hthrew
      | some w =>
        have hid : sendProcess v m s = (false, s) := if_pos (by rw [stamp_encodeErr, henc]; rfl)
        rw [hid] at hkept
        exact absurd (congrArg List.length hkept) (by simp)
    rw [hkept, ← List.append_assoc, freshNumbers_append _ [_], hstale, List.append_nil]

/-- A call that counts its fresh message keeps the fresh numbers apart. -/
theorem sendProcess_once (hs : NumbersOnce s) (hsafe : SendSafe v s m) :
    NumbersOnce (sendProcess v m s).2 := by
  obtain hfail | hsucc := sendProcess_cases v s m
  · exact hfail.once hs hsafe
  · exact hsucc.once hs hsafe

/-- A gap fill has no fresh number. -/
theorem sendReset_once (hs : NumbersOnce s) (newseqnum : Nat) (gapfill : Bool) (custom : Nat)
    (noInc : Bool) :
    NumbersOnce (send v (generateSequenceReset newseqnum gapfill) custom noInc s).state := by
  apply sendProcess_once hs
  have hstale : ∀ m : Msg, m.msgType = .sequenceReset → ¬ GoesFresh v m :=
    fun m hm hfresh => hfresh.2.1 hm
  exact ⟨fun _ _ hcounts => absurd rfl hcounts.2.2, fun hf => absurd hf (hstale _ rfl),
    fun hf => absurd hf (hstale _ rfl)⟩

end

/-! ## The steps of an answer -/

/-- The step counts the fresh message it sends, and does not lower the counter. A request may have to
be refused with a Reject, which is a fresh message. -/
def StepSafe (v : Env) (p : Session × Answer) : Action → Prop
  | .send now m => SendSafe v { p.1 with clock := now } m
  | .request _ _ => HasNext p.1 ∧ (p.1.batchmsgsBuffer ≠ [] → v.link p.1.writes ≠ .threw)
  | .advance =>
    match p.2 with
    | .resend _ _ _ second => ∀ m, factory v second = .ok m → SendSafe v p.1 m
    | .assign nseq _ => p.1.nextSendSeq ≤ nseq
    | _ => True

section
variable {v : Env} {s : Session} {rctx : RetransmissionContext}

theorem reject_once {seqnum : Nat} {msg : Msg} {errstr : String} (hs : NumbersOnce s)
    (hnext : HasNext s) (hlink : s.batchmsgsBuffer ≠ [] → v.link s.writes ≠ .threw) :
    NumbersOnce (handleOutboundReject v seqnum (some msg) errstr s).state := by
  apply sendProcess_once hs
  exact ⟨fun _ _ _ => hnext, fun _ _ => ⟨rfl, rfl⟩, fun _ _ _ => hlink⟩

theorem startAnswer_once {seqnum : Nat} {msg : Msg} (hs : NumbersOnce s) (hnext : HasNext s)
    (hlink : s.batchmsgsBuffer ≠ [] → v.link s.writes ≠ .threw) :
    NumbersOnce (startAnswer v seqnum msg s).1 := by
  unfold startAnswer
  split
  · dsimp only
    split
    · exact reject_once hs hnext hlink
    · unfold startServing
      cases s.persist with
      | none => exact hs
      | some st => exact ⟨hs.nodup, hs.below⟩
  · exact hs

theorem retransFill_once {first : Nat} (hs : NumbersOnce s) :
    NumbersOnce (retransFill v rctx first s).state := by
  unfold retransFill
  split
  · split
    · exact sendReset_once hs _ _ _ _
    · exact hs
  · split
    · exact sendReset_once hs _ _ _ _
    · exact hs

theorem lookAt_once {finish key : Nat} (hs : NumbersOnce s) :
    NumbersOnce (lookAt v rctx finish key s).1 := by
  unfold lookAt
  cases recordAt s key with
  | none => exact hs
  | some r =>
    dsimp only
    split
    · exact hs
    · exact retransFill_once hs

theorem sendRecord_once {finish key : Nat} {second : Text} (hs : NumbersOnce s)
    (hsafe : ∀ m, factory v second = .ok m → SendSafe v s m) :
    NumbersOnce (sendRecord v rctx finish key second s).1 := by
  unfold sendRecord
  cases hf : factory v second with
  | error w => exact hs
  | ok m =>
    have hsent := sendProcess_once hs (hsafe m hf)
    dsimp only
    split
    · exact hsent
    · cases nextKey (sendProcess v m s).2 key with
      | none => exact hsent
      | some key' => exact hsent

/-- A step of an answer, one case for each place the reader can stand. -/
theorem advance_once {a : Answer} (hs : NumbersOnce s) (hsafe : StepSafe v (s, a) .advance) :
    NumbersOnce (advance v (s, a)).1 := by
  cases a with
  | idle => exact hs
  | turn rctx finish key => exact lookAt_once hs
  | resend rctx finish key second => exact sendRecord_once hs hsafe
  | fill position nseq continuous => exact sendReset_once hs _ _ _ _
  | assign nseq continuous =>
    have hle : s.nextSendSeq ≤ nseq := hsafe
    exact ⟨hs.nodup, fun n hn => lt_of_lt_of_le (hs.below n hn) hle⟩

theorem interleave_once {p : Session × Answer} {act : Action} (hs : NumbersOnce p.1)
    (hsafe : StepSafe v p act) : NumbersOnce (interleave v p act).1 := by
  obtain ⟨s, a⟩ := p
  cases act with
  | send now m =>
    have hs' : NumbersOnce { s with clock := now } := ⟨hs.nodup, hs.below⟩
    exact sendProcess_once hs' hsafe
  | request seqnum msg =>
    cases a with
    | idle => exact startAnswer_once hs hsafe.1 hsafe.2
    | _ => exact hs
  | advance => exact advance_once hs hsafe

end

/-! ## Runs -/

/-- **No fresh number is on the wire twice**, in a run whose fresh messages are counted, whose counter
does not wrap, and whose answers end before another message was sent. -/
theorem fresh_numbers_unique (v : Env) (s : Session) (acts : List Action) (hs : NumbersOnce s)
    (h : Along (interleave v) (StepSafe v) (s, .idle) acts) :
    Throughout (interleave v) (fun p => (freshNumbers p.1.wire).Nodup) (s, .idle) acts := by
  have hstep : ∀ p act, NumbersOnce p.1 → StepSafe v p act → NumbersOnce (interleave v p act).1 :=
    fun p act hp hact => interleave_once hp hact
  have hrun := throughout_of_step (P := fun p => NumbersOnce p.1) hstep hs h
  refine hrun.mono ?_
  intro p hp
  have hall := hp.nodup
  rw [freshNumbers_append] at hall
  exact hall.of_append_left

/-- A session whose next message is number 5; nothing is on the wire. -/
def demoAtFive : Session := { demoOpen with nextSendSeq := 5 }

theorem demoAtFive_once : NumbersOnce demoAtFive := ⟨List.nodup_nil, by decide⟩

/-- An order is sent before and after an answer, and in it once the counter is assigned. -/
theorem fresh_numbers_unique_demo : Throughout (interleave demoEnv)
    (fun p => (freshNumbers p.1.wire).Nodup) (demoAtFive, .idle)
    [.send 1 demoNewOrder, .request 7 (generateResendRequest 1), .advance, .advance, .advance,
      .advance, .send 2 demoNewOrder] := by
  refine fresh_numbers_unique demoEnv demoAtFive _ demoAtFive_once
    ⟨?_, ?_, trivial, ?_, trivial, ?_, ?_, trivial⟩
  · exact ⟨fun _ _ _ => by decide, fun _ _ => ⟨rfl, rfl⟩, fun _ _ _ h => absurd rfl h⟩
  · exact ⟨by decide, fun h => absurd rfl h⟩
  · intro m hm
    obtain rfl := Except.ok.inj hm
    exact ⟨fun _ _ _ => by decide, fun h => absurd h.2.2 (by decide),
      fun h => absurd h.2.2 (by decide)⟩
  · show 6 ≤ 7
    decide
  · exact ⟨fun _ _ _ => by decide, fun _ _ => ⟨rfl, rfl⟩, fun _ _ _ h => absurd rfl h⟩

/-- An order is sent while the answer runs, and its number is used again. -/
theorem number_used_again : ¬ ∀ (v : Env) (s : Session) (acts : List Action), NumbersOnce s →
    Throughout (interleave v) (fun p => (freshNumbers p.1.wire).Nodup) (s, .idle) acts := by
  intro h
  have hrun := (h demoEnv demoAtFive [.request 7 (generateResendRequest 1), .send 1 demoNewOrder,
    .advance, .advance, .send 2 demoNewOrder] demoAtFive_once).last
  exact absurd hrun (by decide)

end Fix8.Session
