import Fix8.Session.Proof.Counter

/-!
# Gaps over runs

A message above the expected number is met by `sequence_check` in the state the session is in:
`st_continuous` asks for a resend, every other state throws, unless the configuration ignores the
sequence number. `gapStep` runs a session together with the numbers it has asked for and not got
(`Gap`).

* `checkSession`: the session on which `sequence_check` sees a message;
* `process_gap`: a gap ends in a logoff iff `sequence_check` throws on it;
* `gap_step`: an event keeps the gap open and asked for once iff it is `GapSafe`;
* **`gap_run`**: so does a run of `GapSafe` events.
-/

namespace Fix8.Session

open Lib

/-- The states of the session after logon that a running session goes through. -/
def afterLogon : SessionState → Bool
  | .stContinuous => true
  | .stTestRequestSent => true
  | .stResendRequestSent => true
  | .stResendRequestReceived => true
  | _ => false

/-- The session on which `sequence_check` sees the message, when it does; a Logon outside
`st_continuous` runs the logon procedure first. -/
def checkSession (v : Env) (s : Session) (msg : Msg) : Option Session :=
  match msg.msgType with
  | .reject => none
  | .sequenceReset => none
  | .application _ => if s.active then some s else none
  | .logon =>
    if s.state = .stContinuous ∨ logonRefused v s msg ∨
        (v.role = .acceptor ∧ v.authenticate msg = false) then none
    else some { s with state := .stLogonReceived, nextReceiveSeq := logonReceiveSeq v s msg }
  | _ => some s

/-- An inbound message above the expected number, with the session on which `sequence_check` sees
it: after logon, with its comp ids in order. -/
def gapped (v : Env) (s : Session) (inb : Inbound) : Option (Session × Nat × Msg) :=
  match inb.seqnum, inb.result with
  | some seqnum, .ok msg =>
    (checkSession v s msg).bind fun cs =>
      if afterLogon s.state ∧ compidEnd v cs msg = none ∧ seqnum > cs.nextReceiveSeq then
        some (cs, seqnum, msg)
      else none
  | _, _ => none

/-- How many ResendRequests the session has sent. -/
def asksIn (s : Session) : Nat := s.sends.countP (·.msgType = .resendRequest)

/-- What a session has asked for: the numbers still missing, how often it asked since some are, and
whether a message above the expected number has ended in an exception or a logoff. -/
structure Gap where
  missing : List Nat := []
  asked : Nat := 0
  lost : Bool := false

/-- The gap after `sequence_check` has seen a number above the expected one. -/
def noteCheck (v : Env) (g : Gap) : Option (Session × Nat × Msg) → Gap
  | none => g
  | some (cs, seqnum, msg) =>
    match sequenceCheck v seqnum msg cs with
    | .throw _ _ => { g with lost := true }
    | .ok _ cs' =>
      if asksIn cs' = asksIn cs then g
      else { g with
        missing := g.missing ++ List.range' cs.nextReceiveSeq (seqnum - cs.nextReceiveSeq)
        asked := g.asked + (asksIn cs' - asksIn cs) }

/-- A missing number stays missing: it is not the one received, nor below a new number. -/
def staysMissing (inb : Inbound) (n : Nat) : Bool :=
  n ≠ inb.seqnum.getD 0 &&
    match inb.result with
    | .ok msg => match resetTo msg with
      | some nsn => decide (nsn ≤ n)
      | none => true
    | .error _ => true

/-- The gap after the message was processed; with nothing missing the count starts again. -/
def settle (g : Gap) (inb : Inbound) : Gap :=
  { g with
    missing := g.missing.filter (staysMissing inb)
    asked := if g.missing.filter (staysMissing inb) = [] then 0 else g.asked }

/-- An event on a session and its gap. -/
def gapStep (v : Env) (p : Session × Gap) (ev : Event) : Session × Gap :=
  (step v p.1 ev,
    match ev with
    | .tick _ => p.2
    | .received now inb =>
      let g := noteCheck v p.2 (gapped v (arrive p.1 now) inb)
      match process v inb (arrive p.1 now) with
      | .ok .failed _ => { g with lost := g.lost || (gapped v (arrive p.1 now) inb).isSome }
      | .ok _ _ => settle g inb
      | .throw _ _ => { g with lost := g.lost || (gapped v (arrive p.1 now) inb).isSome })

/-- What is missing was asked for once, what is not missing was not, and nothing was lost. -/
def Gap.Tracked (g : Gap) : Prop :=
  g.asked = (if g.missing = [] then 0 else 1) ∧ g.lost = false

/-- The condition on an event: a message above the expected number comes in `st_continuous` with
nothing missing, or outside it with the sequence check configured to ignore it. -/
def GapSafe (v : Env) (p : Session × Gap) : Event → Prop
  | .tick _ => True
  | .received now inb =>
    match gapped v (arrive p.1 now) inb with
    | none => True
    | some (cs, _, _) =>
      (cs.state = .stContinuous ∧ p.2.missing = []) ∨
        (cs.state ≠ .stContinuous ∧ v.ignoreLogonSequenceCheck = some true)

section
variable {v : Env} {s cs : Session} {g : Gap} {seqnum : Nat} {msg : Msg} {inb : Inbound}

theorem asks_askResend : asksIn (askResend v s) = asksIn s + 1 := by
  have h := sendProcess_sends (v := v) (s := s) (m := generateResendRequest s.nextReceiveSeq) rfl
  unfold asksIn askResend
  dsimp only
  rw [h, List.countP_append]
  rfl

theorem isEstablished_of_afterLogon {st : SessionState} (h : afterLogon st = true) :
    st.isEstablished = true := by
  cases st <;> first | rfl | cases h

/-! ## The message and its check -/

/-- What `gapped` found. -/
theorem gapped_eq_some (h : gapped v s inb = some (cs, seqnum, msg)) :
    inb.seqnum = some seqnum ∧ inb.result = .ok msg ∧ checkSession v s msg = some cs ∧
      afterLogon s.state = true ∧ compidEnd v cs msg = none ∧ cs.nextReceiveSeq < seqnum := by
  unfold gapped at h
  split at h
  · rename_i n m hq hm
    obtain ⟨cs', hcs, hif⟩ := Option.bind_eq_some_iff.1 h
    split at hif
    · rename_i hc
      cases hif
      exact ⟨hq, hm, hcs, hc⟩
    · cases hif
  · cases h

theorem checkSession_isEstablished (h : checkSession v s msg = some cs)
    (hs : afterLogon s.state = true) : cs.state.isEstablished = true := by
  have hest := isEstablished_of_afterLogon hs
  unfold checkSession at h
  split at h
  · cases h
  · cases h
  · split at h <;> cases h
    exact hest
  · split at h <;> cases h
    rfl
  · cases h
    exact hest

theorem checkSession_ne_sequenceReset (h : checkSession v s msg = some cs) :
    msg.msgType ≠ .sequenceReset := by
  intro ht
  rw [checkSession, ht] at h
  cases h

/-- How `sequence_check` ends on a number above the expected one. -/
theorem sequenceEnd_above (v : Env) (msg : Msg) (h : cs.nextReceiveSeq < seqnum) :
    sequenceEnd v cs seqnum msg = if cs.state = .stContinuous ∨ v.ignoreLogonSequenceCheck = some true then .ok false
    else .error (.invalidMsgSequence seqnum cs.nextReceiveSeq) := if_pos h

theorem enforceEnd_above (hg : gapped v s inb = some (cs, seqnum, msg)) :
    enforceEnd v cs seqnum msg = (sequenceEnd v cs seqnum msg).map (!·) := by
  obtain ⟨-, -, hcs, hs, hid, -⟩ := gapped_eq_some hg
  rw [enforceEnd, if_pos (checkSession_isEstablished hcs hs), hid]
  exact if_neg (checkSession_ne_sequenceReset hcs)

/-- A gap is refused iff its check throws. -/
theorem refusal_above (hg : gapped v s inb = some (cs, seqnum, msg)) :
    refusal v s seqnum msg = endError (sequenceEnd v cs seqnum msg) := by
  have he := enforceEnd_above hg
  obtain ⟨-, -, hcs, -, -, hlt⟩ := gapped_eq_some hg
  have hends : sequenceEnd v cs seqnum msg = .ok false ∨
      ∃ e, sequenceEnd v cs seqnum msg = .error e := by
    rw [sequenceEnd_above _ _ hlt]
    split
    · exact .inl rfl
    · exact .inr ⟨_, rfl⟩
  unfold checkSession at hcs
  unfold refusal
  cases ht : msg.msgType with
  | reject => simp [ht] at hcs
  | sequenceReset => simp [ht] at hcs
  | application t =>
    rw [ht] at hcs
    dsimp only at hcs ⊢
    split at hcs
    · rename_i ha
      cases hcs
      rw [if_pos ha, he]
      rcases hends with h | ⟨e, h⟩ <;> rw [h] <;> rfl
    · cases hcs
  | logon =>
    rw [ht] at hcs
    dsimp only at hcs ⊢
    split at hcs
    · cases hcs
    · rename_i hn
      cases hcs
      rw [if_neg hn, he]
      rcases hends with h | ⟨e, h⟩ <;> rw [h] <;> rfl
  | heartbeat | testRequest | resendRequest | logout =>
    rw [ht] at hcs
    cases hcs
    dsimp only
    rw [he]
    rcases hends with h | ⟨e, h⟩ <;> rw [h] <;> rfl

/-- **A gap ends in a logoff iff `sequence_check` throws on it.** -/
theorem process_gap (hg : gapped v s inb = some (cs, seqnum, msg)) :
    (sequenceEnd v cs seqnum msg = .ok false ∧
      ∃ x s', process v inb s = .ok x s' ∧ x ≠ .failed) ∨
    ((∃ e, sequenceEnd v cs seqnum msg = .error e) ∧
      ∀ x s', process v inb s = .ok x s' → x = .failed) := by
  obtain ⟨hq, hm, hcs, -, -, hlt⟩ := gapped_eq_some hg
  have href := refusal_above hg
  have hends := sequenceEnd_above v msg hlt
  rcases process_decoded (v := v) hq hm with ⟨hr, -, hx⟩ | ⟨hr, x, s', hp, hx, -⟩
  · refine .inr ⟨?_, hx⟩
    split at hends
    · rw [href, hends] at hr
      cases hr
    · exact ⟨_, hends⟩
  · refine .inl ⟨?_, x, s', hp, hx⟩
    split at hends
    · exact hends
    · rw [href, hends] at hr
      cases hr

/-! ## One event -/

/-- What `sequence_check` does to the gap. -/
theorem noteCheck_eq (hlt : cs.nextReceiveSeq < seqnum) : noteCheck v g (some (cs, seqnum, msg)) =
    if cs.state = .stContinuous then { g with
      missing := g.missing ++ List.range' cs.nextReceiveSeq (seqnum - cs.nextReceiveSeq)
      asked := g.asked + 1 }
    else if v.ignoreLogonSequenceCheck = some true then g
    else { g with lost := true } := by
  simp only [noteCheck, sequenceCheck_eq, sequenceEnd_above _ _ hlt, sequenceState]
  by_cases h1 : cs.state = .stContinuous
  · simp [h1, hlt, asks_askResend]
  · by_cases h2 : v.ignoreLogonSequenceCheck = some true <;> simp [h1, h2]

theorem settle_tracked (h : g.Tracked) : (settle g inb).Tracked := by
  refine ⟨?_, h.2⟩
  by_cases hf : g.missing.filter (staysMissing inb) = []
  · simp [settle, hf]
  · have hne : g.missing ≠ [] := fun hn => hf (by rw [hn]; rfl)
    have := h.1
    rw [if_neg hne] at this
    simp only [settle, hf, if_false, this]

/-- The expected number stays missing when a higher one arrives. -/
theorem staysMissing_expected (hg : gapped v s inb = some (cs, seqnum, msg)) :
    staysMissing inb cs.nextReceiveSeq = true := by
  obtain ⟨hq, hm, hcs, -, -, hlt⟩ := gapped_eq_some hg
  have ht := resetTo_eq_none (checkSession_ne_sequenceReset hcs)
  simp only [staysMissing, hq, hm, ht, Option.getD_some, Bool.and_true, decide_eq_true_eq]
  omega

/-- Asking opens a gap that the message itself does not close. -/
theorem settle_asked (hg : gapped v s inb = some (cs, seqnum, msg)) {asked : Nat} {lost : Bool} :
    (settle { g with
      missing := g.missing ++ List.range' cs.nextReceiveSeq (seqnum - cs.nextReceiveSeq)
      asked := asked, lost := lost } inb).Tracked ↔ asked = 1 ∧ lost = false := by
  obtain ⟨-, -, -, -, -, hlt⟩ := gapped_eq_some hg
  have hne : (g.missing ++ List.range' cs.nextReceiveSeq (seqnum - cs.nextReceiveSeq)).filter
      (staysMissing inb) ≠ [] := by
    refine List.ne_nil_of_mem (a := cs.nextReceiveSeq) (List.mem_filter.2
      ⟨List.mem_append_right _ (List.mem_range'_1.2 ?_), staysMissing_expected hg⟩)
    omega
  simp only [Gap.Tracked, settle, hne, if_false]

theorem gapStep_received {p : Session × Gap} {now : Nat} (x : Exit) {s' : Session}
    (h : process v inb (arrive p.1 now) = .ok x s') (hx : x ≠ .failed) :
    (gapStep v p (.received now inb)).2 =
      settle (noteCheck v p.2 (gapped v (arrive p.1 now) inb)) inb := by
  cases x with
  | failed => exact absurd rfl hx
  | handled b => simp only [gapStep, h]
  | rejected => simp only [gapStep, h]

theorem gapStep_failed {p : Session × Gap} {now : Nat}
    (h : ∀ x s', process v inb (arrive p.1 now) = .ok x s' → x = .failed) :
    (gapStep v p (.received now inb)).2 =
      { noteCheck v p.2 (gapped v (arrive p.1 now) inb) with
        lost := (noteCheck v p.2 (gapped v (arrive p.1 now) inb)).lost ||
          (gapped v (arrive p.1 now) inb).isSome } := by
  cases hp : process v inb (arrive p.1 now) with
  | ok x s' =>
    obtain rfl := h x s' hp
    simp only [gapStep, hp]
  | throw e s' => simp only [gapStep, hp]

/-- A message that is no gap leaves the gap tracked. -/
theorem gap_step_none {p : Session × Gap} {now : Nat} (h : p.2.Tracked)
    (hg : gapped v (arrive p.1 now) inb = none) :
    (gapStep v p (.received now inb)).2.Tracked := by
  by_cases hf : ∀ x s', process v inb (arrive p.1 now) = .ok x s' → x = .failed
  · rw [gapStep_failed hf, hg]
    exact ⟨h.1, by simp [noteCheck, h.2]⟩
  · push Not at hf
    obtain ⟨x, s', hp, hx⟩ := hf
    rw [gapStep_received x hp hx, hg]
    exact settle_tracked h

/-- A gap stays tracked iff it was met safely. -/
theorem gap_step_some {p : Session × Gap} {now : Nat} (h : p.2.Tracked)
    (hg : gapped v (arrive p.1 now) inb = some (cs, seqnum, msg)) :
    (gapStep v p (.received now inb)).2.Tracked ↔
      (cs.state = .stContinuous ∧ p.2.missing = []) ∨
        (cs.state ≠ .stContinuous ∧ v.ignoreLogonSequenceCheck = some true) := by
  obtain ⟨-, -, -, -, -, hlt⟩ := gapped_eq_some hg
  have hends := sequenceEnd_above v msg hlt
  rcases process_gap hg with ⟨hok, x, s', hp, hx⟩ | ⟨⟨e, he⟩, hf⟩
  · rw [gapStep_received x hp hx, hg, noteCheck_eq hlt]
    by_cases hc : cs.state = .stContinuous
    · rw [if_pos hc, settle_asked hg, h.1]
      by_cases hm : p.2.missing = [] <;> simp [hc, hm, h.2]
    · rw [if_neg hc]
      have hi : v.ignoreLogonSequenceCheck = some true := by
        by_contra hi
        rw [hok, if_neg (by simp [hc, hi])] at hends
        cases hends
      rw [if_pos hi]
      exact iff_of_true (settle_tracked h) (.inr ⟨hc, hi⟩)
  · have hn : ¬(cs.state = .stContinuous ∨ v.ignoreLogonSequenceCheck = some true) := by
      intro hn
      rw [he, if_pos hn] at hends
      cases hends
    push Not at hn
    rw [gapStep_failed hf, hg]
    refine iff_of_false (fun ht => ?_) (by simp [hn])
    exact absurd ht.2 (by simp)

/-- **One event keeps the gap tracked iff it is safe.** -/
theorem gap_step {p : Session × Gap} {ev : Event} (h : p.2.Tracked) :
    (gapStep v p ev).2.Tracked ↔ GapSafe v p ev := by
  cases ev with
  | tick now => exact iff_of_true h trivial
  | received now inb =>
    cases hg : gapped v (arrive p.1 now) inb with
    | none =>
      simp only [GapSafe, hg, iff_true]
      exact gap_step_none h hg
    | some c =>
      simp only [GapSafe, hg]
      exact gap_step_some h hg

/-- **In a run of safe events a gap is asked for at most once and never ends in a logoff.** -/
theorem gap_run {evs : List Event} (hg : g.Tracked)
    (hrun : Along (gapStep v) (GapSafe v) (s, g) evs) :
    Throughout (gapStep v) (fun p => p.2.asked ≤ 1 ∧ p.2.lost = false) (s, g) evs := by
  have h : Throughout (gapStep v) (fun p => p.2.Tracked) (s, g) evs :=
    throughout_of_step (P := fun p => p.2.Tracked) (fun _ _ hs hc => (gap_step hs).2 hc) hg hrun
  refine h.mono fun p hp => ⟨?_, hp.2⟩
  rw [hp.1]
  split <;> decide

end

/-- A gap, its resend request, and the gap fill that closes it. -/
theorem gap_run_demo :
    Along (gapStep demoEnv) (GapSafe demoEnv) (demoSession, {})
      [.received 0 (demoHeartbeat 7).inbound, .received 0 (demoGapFill 5 8).inbound,
        .received 0 (demoHeartbeat 9).inbound] ∧
    Throughout (gapStep demoEnv) (fun p => p.2.asked ≤ 1 ∧ p.2.lost = false) (demoSession, {})
      [.received 0 (demoHeartbeat 7).inbound, .received 0 (demoGapFill 5 8).inbound,
        .received 0 (demoHeartbeat 9).inbound] := by
  have hrun : Along (gapStep demoEnv) (GapSafe demoEnv) (demoSession, {})
      [.received 0 (demoHeartbeat 7).inbound, .received 0 (demoGapFill 5 8).inbound,
        .received 0 (demoHeartbeat 9).inbound] :=
    ⟨.inl ⟨by decide, by decide⟩, trivial, .inl ⟨by decide, by decide⟩, trivial⟩
  exact ⟨hrun, gap_run ⟨rfl, rfl⟩ hrun⟩

/-- Two messages above the expected number, one behind the other: the second ends in a logoff. -/
theorem second_gap_lost : ¬ ∀ (v : Env) (s : Session) (evs : List Event),
    afterLogon s.state = true →
    Throughout (gapStep v) (fun p => p.2.asked ≤ 1 ∧ p.2.lost = false) (s, {}) evs := by
  intro h
  have h8 := (h demoEnv demoSession [.received 0 (demoHeartbeat 7).inbound,
    .received 0 (demoHeartbeat 8).inbound] rfl).last
  exact absurd h8.2 (by decide)

end Fix8.Session
