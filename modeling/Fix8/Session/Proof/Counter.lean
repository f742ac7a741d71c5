import Mathlib.Order.Bounds.Basic
import Fix8.Session.Proof.Outcome

/-!
# The receive counter over runs

`accountStep` runs a session together with the numbers it has received in a processed message or
skipped by an accepted SequenceReset; `Accounted` says that the receive counter is one above the
highest number up to which all are there.

`process` counts every message it does not refuse, whatever its number, so a run keeps `Accounted`
as long as every event is `Accountable`: the message is refused, or has the expected number, or is
a SequenceReset to a number that was not received before.

* `accounted_step`: an event keeps `Accounted` iff it is `Accountable`;
* **`process_run_accounted`**: a run of `Accountable` events keeps `Accounted`.
-/

namespace Fix8.Session

open Lib

/-! ## The account -/

/-- The numbers an accepted SequenceReset skips. -/
def skipped (s : Session) (inb : Inbound) : List Nat :=
  match inb.result with
  | .ok msg => match resetTo msg with
    | some nsn => List.range' s.nextReceiveSeq (toUnsigned nsn - s.nextReceiveSeq)
    | none => []
  | .error _ => []

/-- The session as `process` finds it. -/
def arrive (s : Session) (now : Nat) : Session := { s with clock := now, lastReceived := now }

/-- The numbers received in a processed message or skipped by an accepted SequenceReset, after an
event. -/
def account (v : Env) (s : Session) (numbers : List Nat) : Event → List Nat
  | .tick _ => numbers
  | .received now inb =>
    match process v inb (arrive s now) with
    | .ok (.handled _) _ => inb.seqnum.getD 0 :: (skipped s inb ++ numbers)
    | .ok .rejected _ => inb.seqnum.getD 0 :: numbers
    | _ => numbers

/-- An event on a session and its account. -/
def accountStep (v : Env) (p : Session × List Nat) (ev : Event) : Session × List Nat :=
  (step v p.1 ev, account v p.1 p.2 ev)

/-- `_next_receive_seq - 1` is the highest `N` such that every number `1..N` is in `numbers`. -/
def Accounted (s : Session) (numbers : List Nat) : Prop :=
  ∃ N, s.nextReceiveSeq = N + 1 ∧ IsGreatest {N | ∀ n, 1 ≤ n → n ≤ N → n ∈ numbers} N

/-- The message starts no new numbering: no logon procedure moves the receive counter. -/
def KeepsNumbering (v : Env) (s : Session) (msg : Msg) : Prop :=
  expectedSeq v s msg = s.nextReceiveSeq

/-- Counting a message with this number, and skipping up to this new number, keeps the account. -/
def Countable (nextReceiveSeq : Nat) (numbers : List Nat) (seqnum : Nat) : Option Int → Prop
  | some nsn => toUnsigned nsn ≠ 0 ∧ toUnsigned nsn ∉ seqnum :: numbers
  | none => seqnum = nextReceiveSeq ∧ nextReceiveSeq + 1 < 4294967296 ∧ nextReceiveSeq + 1 ∉ numbers

/-- The condition on an event: the message is refused, or has the expected number with its
successor not received yet, or is a SequenceReset to a number not received yet; and no Logon
starts a new numbering. -/
def Accountable (v : Env) (p : Session × List Nat) : Event → Prop
  | .tick _ => True
  | .received now inb =>
    match inb.seqnum, inb.result with
    | some seqnum, .ok msg =>
      KeepsNumbering v (arrive p.1 now) msg ∧
        ((refusal v (arrive p.1 now) seqnum msg).isSome ∨
          Countable p.1.nextReceiveSeq p.2 seqnum (resetTo msg))
    | seqnum, _ => Countable p.1.nextReceiveSeq p.2 (seqnum.getD 0) none

section Account
variable {v : Env} {s : Session} {numbers : List Nat}

theorem accounted_iff : Accounted s numbers ↔ 1 ≤ s.nextReceiveSeq ∧
    (∀ n, 1 ≤ n → n < s.nextReceiveSeq → n ∈ numbers) ∧ s.nextReceiveSeq ∉ numbers := by
  constructor
  · rintro ⟨N, hN, hall, hmax⟩
    refine ⟨by omega, fun n h1 h2 => hall n h1 (by omega), fun hmem => ?_⟩
    have : N + 1 ≤ N := hmax fun n h1 h2 => by
      rcases Nat.lt_or_ge N n with h | h
      · rwa [show n = s.nextReceiveSeq by omega]
      · exact hall n h1 h
    omega
  · rintro ⟨h1, hall, hnot⟩
    obtain ⟨N, hN⟩ : ∃ N, s.nextReceiveSeq = N + 1 := ⟨s.nextReceiveSeq - 1, by omega⟩
    refine ⟨N, hN, fun n hn1 hn2 => hall n hn1 (by omega), fun M hM => ?_⟩
    by_contra hlt
    exact hnot (hN ▸ hM (N + 1) (by omega) (by omega))

/-- The account after a counted message: it stands iff the message was countable. -/
theorem accounted_counted {s' : Session} {seqnum : Nat} (reset : Option Int) (skips : List Nat)
    (h : Accounted s numbers)
    (hn : s'.nextReceiveSeq = match reset with
      | some nsn => toUnsigned nsn
      | none => nextUnsigned s.nextReceiveSeq)
    (hskips : ∀ n, n ∈ skips ↔ s.nextReceiveSeq ≤ n ∧ n < s'.nextReceiveSeq ∧ reset.isSome) :
    Accounted s' (seqnum :: (skips ++ numbers)) ↔
      Countable s.nextReceiveSeq numbers seqnum reset := by
  obtain ⟨h1, hall, hnot⟩ := accounted_iff.1 h
  rw [accounted_iff]
  cases reset with
  | some nsn =>
    simp only at hn
    have hmem : ∀ n, 1 ≤ n → n < s'.nextReceiveSeq → n ∈ seqnum :: (skips ++ numbers) := by
      intro n hn1 hn2
      rcases Nat.lt_or_ge n s.nextReceiveSeq with hlt | hge
      · simp [hall n hn1 hlt]
      · simp [(hskips n).2 ⟨hge, hn2, rfl⟩]
    have hself : s'.nextReceiveSeq ∉ skips := fun hs => by
      have := (hskips _).1 hs
      omega
    simp only [Countable, List.mem_cons, List.mem_append, hself, false_or, ← hn]
    constructor
    · exact fun hx => ⟨by omega, hx.2.2⟩
    · exact fun hx => ⟨by omega, fun n h1 h2 => by simpa using hmem n h1 h2, hx.2⟩
  | none =>
    simp only at hn
    have hempty : ∀ n, n ∉ skips := fun n hs => by simpa using ((hskips n).1 hs).2.2
    simp only [Countable, List.mem_cons, List.mem_append, hempty, false_or]
    by_cases hwrap : s.nextReceiveSeq + 1 < 4294967296
    swap
    · -- the counter starts again, at a number that has been received
      refine iff_of_false ?_ fun hx => hwrap hx.2.1
      rintro ⟨h0, -, hnot'⟩
      have hlt : s'.nextReceiveSeq < s.nextReceiveSeq := by
        rw [hn]
        have := Nat.mod_lt (s.nextReceiveSeq + 1) (show 0 < 4294967296 by decide)
        unfold nextUnsigned
        omega
      exact hnot' (.inr (hall _ h0 hlt))
    rw [hn, nextUnsigned_of_lt hwrap]
    constructor
    · rintro ⟨-, hall', hnot'⟩
      have := hall' s.nextReceiveSeq h1 (by omega)
      exact ⟨(this.resolve_right hnot).symm, hwrap, fun hx => hnot' (.inr hx)⟩
    · rintro ⟨rfl, -, hx⟩
      refine ⟨by omega, fun n hn1 hn2 => ?_, fun hm => ?_⟩
      · rcases Nat.lt_or_ge n s.nextReceiveSeq with hlt | hge
        · exact .inr (hall n hn1 hlt)
        · exact .inl (by omega)
      · rcases hm with hm | hm
        · omega
        · exact hx hm

theorem accounted_rejected {s' : Session} {seqnum : Nat} (h : Accounted s numbers)
    (hn : s'.nextReceiveSeq = nextUnsigned s.nextReceiveSeq) :
    Accounted s' (seqnum :: numbers) ↔ Countable s.nextReceiveSeq numbers seqnum none := by
  exact accounted_counted none [] h hn (by simp)

theorem mem_skipped {inb : Inbound} {msg : Msg} (hm : inb.result = .ok msg) (n : Nat) :
    n ∈ skipped s inb ↔
      s.nextReceiveSeq ≤ n ∧ n < counterAfter v s msg ∧ (resetTo msg).isSome := by
  simp only [skipped, counterAfter, hm]
  cases resetTo msg with
  | none => simp
  | some nsn =>
    simp only [List.mem_range'_1, Option.isSome_some, and_true]
    omega

/-- The event starts no new numbering. -/
def EventKeepsNumbering (v : Env) (s : Session) : Event → Prop
  | .tick _ => True
  | .received now inb => ∀ msg, inb.result = .ok msg → KeepsNumbering v (arrive s now) msg

theorem keeps_heartbeatService : Act.Keeps Session.nextReceiveSeq (heartbeatService v) := by
  unfold heartbeatService watchReceived
  refine Act.moves_bind Act.moves_get fun s => Act.moves_ite (Act.moves_pure _)
    (Act.moves_ite (Act.moves_bind (Act.moves_ite ?_ (Act.moves_pure _)) fun _ =>
      Act.moves_bind ?_ fun _ => Act.moves_pure _) (Act.moves_pure _))
  · exact Act.moves_bind (keeps_send silent_nextReceiveSeq.1) fun _ => Act.moves_pure _
  · refine Act.moves_bind Act.moves_get fun s => Act.moves_ite (Act.moves_ite ?_
      (Act.moves_ite ?_ (Act.moves_pure _))) (Act.moves_pure _)
    · exact Act.moves_bind (keeps_send silent_nextReceiveSeq.1) fun _ =>
        Act.moves_bind (keeps_doStateChange silent_nextReceiveSeq) fun _ =>
          Act.moves_modify fun _ => rfl
    · exact Act.moves_bind (keeps_send silent_nextReceiveSeq.1) fun _ =>
        keeps_doStateChange silent_nextReceiveSeq

/-- The step of a string that is no message. -/
theorem accounted_undecoded {inb : Inbound} (h : Accounted s numbers) (now : Nat)
    (hu : inb.seqnum = none ∨ ∃ w, inb.result = .error w) :
    Accounted (step v s (.received now inb)) (account v s numbers (.received now inb)) ↔
      Countable s.nextReceiveSeq numbers (inb.seqnum.getD 0) none := by
  obtain ⟨s', hp, hn⟩ := process_undecoded (v := v) (s := arrive s now) hu
  have hstep : step v s (.received now inb) = s' := congrArg Res.state hp
  simp only [hstep, account, hp]
  exact accounted_rejected h hn

theorem account_of_failed {now : Nat} {inb : Inbound}
    (h : ∀ x s', process v inb (arrive s now) = .ok x s' → x = .failed) :
    account v s numbers (.received now inb) = numbers := by
  cases hp : process v inb (arrive s now) with
  | ok x s' =>
    obtain rfl := h x s' hp
    simp [account, hp]
  | throw e s' => simp [account, hp]

/-- The step of a decoded message. -/
theorem accounted_decoded {now seqnum : Nat} {inb : Inbound} {msg : Msg}
    (h : Accounted s numbers) (hq : inb.seqnum = some seqnum) (hm : inb.result = .ok msg)
    (hk : KeepsNumbering v (arrive s now) msg) :
    Accounted (step v s (.received now inb)) (account v s numbers (.received now inb)) ↔
      (refusal v (arrive s now) seqnum msg).isSome ∨
        Countable s.nextReceiveSeq numbers seqnum (resetTo msg) := by
  have hstep : step v s (.received now inb) = (process v inb (arrive s now)).state := rfl
  rcases process_decoded hq hm with ⟨hr, hn, hx⟩ | ⟨hr, x, s', hp, hx⟩
  · -- given up: neither the counter nor the account moves
    rw [hk] at hn
    rw [account_of_failed hx, hstep, accounted_iff, hn]
    exact iff_of_true (accounted_iff.1 h) (.inl hr)
  · obtain ⟨hxf, hrej, hn⟩ := hx
    have hback : s'.nextReceiveSeq = match resetTo msg with
        | some nsn => toUnsigned nsn
        | none => nextUnsigned s.nextReceiveSeq := by
      rw [hn, counterAfter, hk]
      rfl
    rw [hstep, hp, hr]
    simp only [account, hp, hq, Option.getD_some, Res.state_ok, Option.isSome_none,
      Bool.false_eq_true, false_or]
    cases x with
    | failed => exact absurd rfl hxf
    | handled b =>
      exact accounted_counted _ _ h hback fun n => by rw [hn]; exact mem_skipped hm n
    | rejected =>
      have ht := hrej rfl
      rw [ht] at hback ⊢
      exact accounted_rejected h hback

/-- **One event keeps the account iff it is accountable.** -/
theorem accounted_step {ev : Event} (h : Accounted s numbers)
    (hk : EventKeepsNumbering v s ev) :
    Accounted (accountStep v (s, numbers) ev).1 (accountStep v (s, numbers) ev).2 ↔
      Accountable v (s, numbers) ev := by
  cases ev with
  | tick now =>
    have hn : (step v s (.tick now)).nextReceiveSeq = s.nextReceiveSeq :=
      keeps_heartbeatService { s with clock := now }
    simp only [accountStep, account, Accountable, iff_true, accounted_iff, hn]
    exact accounted_iff.1 h
  | received now inb =>
    cases hq : inb.seqnum with
    | none =>
      have := accounted_undecoded (v := v) h now (.inl hq)
      simpa [accountStep, Accountable, hq] using this
    | some seqnum =>
      cases hm : inb.result with
      | error w =>
        have := accounted_undecoded (v := v) h now (.inr ⟨w, hm⟩)
        simpa [accountStep, Accountable, hq, hm] using this
      | ok msg =>
        have := accounted_decoded (v := v) h hq hm (hk msg hm)
        simpa [accountStep, Accountable, hq, hm, hk msg hm] using this

theorem eventKeepsNumbering {ev : Event} (h : Accountable v (s, numbers) ev) :
    EventKeepsNumbering v s ev ∨ ∃ now inb, ev = .received now inb ∧ inb.seqnum = none := by
  cases ev with
  | tick now => exact .inl trivial
  | received now inb =>
    cases hq : inb.seqnum with
    | none => exact .inr ⟨now, inb, rfl, hq⟩
    | some seqnum =>
      refine .inl fun msg hm => ?_
      simp only [Accountable, hq, hm] at h
      exact h.1

/-- An accountable event keeps the account. -/
theorem accounted_of_accountable {ev : Event} (h : Accounted s numbers)
    (hc : Accountable v (s, numbers) ev) :
    Accounted (accountStep v (s, numbers) ev).1 (accountStep v (s, numbers) ev).2 := by
  rcases eventKeepsNumbering hc with hk | ⟨now, inb, rfl, hq⟩
  · exact (accounted_step h hk).2 hc
  · refine (accounted_undecoded h now (.inl hq)).2 ?_
    simpa [Accountable, hq] using hc

/-- **A run of accountable events keeps the account**: after each of them, `_next_receive_seq - 1`
is the highest number up to which every number was received in a processed message or skipped. -/
theorem process_run_accounted {evs : List Event} (h : Accounted s numbers)
    (hrun : Along (accountStep v) (Accountable v) (s, numbers) evs) :
    Throughout (accountStep v) (fun p => Accounted p.1 p.2) (s, numbers) evs :=
  throughout_of_step (P := fun p => Accounted p.1 p.2)
    (fun ⟨_, _⟩ _ hs hc => accounted_of_accountable hs hc) h hrun

end Account

/-! ## An in-order run, and a gap -/

/-- An initiator with its defaults. -/
def demoEnv : Env := { role := .initiator, sci := "" }

/-- An established session that has received the messages up to 4. -/
def demoSession : Session :=
  { nextSendSeq := 1, nextReceiveSeq := 5, state := .stContinuous, senderCompID := "A",
    targetCompID := "B" }

/-- A header of the session's peer. -/
def demoHeader (seqnum : Nat) : Header :=
  { msgSeqNum := some seqnum
    senderCompID := some "B"
    targetCompID := some "A"
    sendingTime := some 0 }

/-- A heartbeat of the session's peer. -/
def demoHeartbeat (seqnum : Nat) : Msg :=
  { msgType := .heartbeat, isAdmin := true, header := demoHeader seqnum }

/-- A gap fill of the session's peer. -/
def demoGapFill (seqnum newSeqNo : Nat) : Msg :=
  { generateSequenceReset newSeqNo true with header := demoHeader seqnum }

theorem demo_accounted : Accounted demoSession [1, 2, 3, 4] :=
  accounted_iff.2 ⟨by decide, by decide, by decide⟩

/-- In order, then skipped up to 9, then a duplicate that is no `PossDup`: refused. -/
theorem process_run_accounted_demo :
    Along (accountStep demoEnv) (Accountable demoEnv) (demoSession, [1, 2, 3, 4])
      [.received 0 (demoHeartbeat 5).inbound, .received 0 (demoGapFill 6 9).inbound,
        .received 0 (demoHeartbeat 3).inbound] ∧
    Throughout (accountStep demoEnv) (fun p => Accounted p.1 p.2) (demoSession, [1, 2, 3, 4])
      [.received 0 (demoHeartbeat 5).inbound, .received 0 (demoGapFill 6 9).inbound,
        .received 0 (demoHeartbeat 3).inbound] := by
  have hrun : Along (accountStep demoEnv) (Accountable demoEnv) (demoSession, [1, 2, 3, 4])
      [.received 0 (demoHeartbeat 5).inbound, .received 0 (demoGapFill 6 9).inbound,
        .received 0 (demoHeartbeat 3).inbound] := by
    refine ⟨⟨rfl, .inr ⟨?_, ?_, ?_⟩⟩, ⟨rfl, .inr ⟨?_, ?_⟩⟩, ⟨rfl, .inl ?_⟩, trivial⟩
    · decide
    · decide
    · decide
    · decide
    · decide
    · decide
  exact ⟨hrun, process_run_accounted demo_accounted hrun⟩

/-- Message 7 arrives where 5 is expected: the counter goes to 6, and 5 was never received. -/
theorem gap_not_accounted : ¬ ∀ (v : Env) (s : Session) (numbers : List Nat) (evs : List Event),
    s.state = .stContinuous → Accounted s numbers →
    Along (accountStep v) (fun p ev => EventKeepsNumbering v p.1 ev) (s, numbers) evs →
    Throughout (accountStep v) (fun p => Accounted p.1 p.2) (s, numbers) evs := by
  intro h
  have h7 := (h demoEnv demoSession [1, 2, 3, 4] [.received 0 (demoHeartbeat 7).inbound] rfl
    demo_accounted ⟨fun msg hm => by cases hm; rfl, trivial⟩).last
  exact absurd ((accounted_iff.1 h7).2.1 5 (by decide) (by decide)) (by decide)

end Fix8.Session
