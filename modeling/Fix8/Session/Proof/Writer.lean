import Fix8.Queue.Proof.OneConsumer
import Fix8.Session.Proof.Agreement
import Fix8.Session.Writer

/-!
# What a pipelined writer sends

The messages of each thread are sent in its order, and the session is where sending them one after
the other would have left it: with new messages and a connection that takes them, what goes out is
numbered from the counter on, while the number is one that `MsgSeqNum` can print.

* `Serves`: the invariant; `serves_caller`, `serves_writer`;
* `sendInTurn`, `exchanges_sendInTurn`: one message after the other;
* **`writes_in_order`**: every run of the threads.
-/

namespace Fix8.Session

open Lib Queue Queue.Mpmc

variable {ι : Type} {v : Env} {s₀ : Session}

/-- The session when the messages have been sent, one after the other. -/
def sendInTurn (v : Env) (msgs : List (ι × Msg)) (s : Session) : Session :=
  msgs.foldl (fun s m => (sendProcess v m.2 s).2) s

theorem sendInTurn_concat (msgs : List (ι × Msg)) (m : ι × Msg) :
    sendInTurn v (msgs ++ [m]) s₀ = (sendProcess v m.2 (sendInTurn v msgs s₀)).2 := by
  simp [sendInTurn]

/-- New messages are numbered from the counter on. -/
theorem exchanges_sendInTurn (hl : Lossless v) : ∀ {msgs : List (ι × Msg)} {s : Session},
    (∀ m ∈ msgs, New s m.2 ∧ m.2.noIncrement = false) →
      s.nextSendSeq + msgs.length < 4294967296 → Exchanges 0 s (sendInTurn v msgs s)
  | [], s, _, _ => exchanges_refl s
  | m :: msgs, s, h, hn => by
    obtain ⟨⟨hnew, hinc⟩, hrest⟩ := List.forall_mem_cons.1 h
    rw [List.length_cons] at hn
    have hone : s.nextSendSeq + 1 < 4294967296 := by omega
    have hfirst := exchanges_sendProcess hl hnew hinc hone
    have hcounter := counter_sendProcess (v := v) (s := s) (m := m.2) hone
    have hsender : (sendProcess v m.2 s).2.senderCompID = s.senderCompID :=
      sendProcess_frame (f := Session.senderCompID) fun _ _ _ _ _ _ _ _ => rfl
    have htarget : (sendProcess v m.2 s).2.targetCompID = s.targetCompID :=
      sendProcess_frame (f := Session.targetCompID) fun _ _ _ _ _ _ _ _ => rfl
    refine hfirst.trans (exchanges_sendInTurn hl (fun m' hm' => ?_) (by omega))
    obtain ⟨hnew', hinc'⟩ := hrest m' hm'
    exact ⟨⟨hnew'.msgType, hnew'.msgSeqNum, hnew'.possDupFlag, hsender ▸ hnew'.senderCompID,
      htarget ▸ hnew'.targetCompID, hnew'.customSeqnum⟩, hinc'⟩

/-- What `execute` is about to have sent. -/
def WriterPc.inHand : WriterPc ι → List (ι × Msg)
  | .sending inmsg => [inmsg]
  | _ => []

/-- What each thread has put, or is about to. -/
def Writer.calls (s : Writer ι) : Option ι → List (ι × Msg)
  | none => []
  | some i => (s.written i).map (i, ·)

variable [DecidableEq ι]

/-- The invariant. -/
structure Serves (v : Env) (s₀ : Session) (s : Writer ι) : Prop where
  served : Served (queueCount 4) none (some ·.1) s.queue s.calls
  idle : s.writer ≠ .popping → s.queue.threads none = .idle
  taken : returns s.queue = s.sent ++ s.writer.inHand
  session : s.session = sendInTurn v s.sent s₀

variable {s : Writer ι}

theorem serves_init : Serves v s₀ ({ session := s₀ } : Writer ι) where
  served := by
    have hcalls : Writer.calls { session := s₀ } = fun _ : Option ι => ([] : List (ι × Msg)) := by
      funext th
      cases th <;> rfl
    rw [hcalls]
    exact served_init 4
  idle _ := rfl
  taken := rfl
  session := rfl

/-- A turn of a thread that writes. -/
theorem serves_caller (h : Serves v s₀ s) (i : ι) (msg : Msg) :
    Serves v s₀ (s.callerTurn i msg) := by
  have hidle : s.writer ≠ .popping → (s.queue.run (some i) (.push (i, msg))).threads none = .idle := by
    rw [threads_run_of_ne (by simp)]
    exact h.idle
  have htaken : returns (s.queue.run (some i) (.push (i, msg))) = s.sent ++ s.writer.inHand := by
    rw [returns_run_of_ne, h.taken]
    intro data pr hdone
    have hother := h.served.alone.others (some i) (by simp)
    simp [hdone, inPop] at hother
  unfold Writer.callerTurn
  dsimp only
  split
  · rename_i hpc
    refine ⟨?_, hidle, htaken, h.session⟩
    have hpush := h.served.push (m := (i, msg)) hpc rfl (by simp)
    convert hpush using 1
    funext th
    cases th with
    | none => simp [Writer.calls]
    | some j =>
      by_cases hj : j = i
      · subst hj
        simp [Writer.calls]
      · simp [Writer.calls, hj]
  · rename_i hpc
    have hcall : some i ≠ none → MpmcCall.push (i, msg) ≠ .pop := by simp
    exact ⟨h.served.run hpc hcall, hidle, htaken, h.session⟩

/-- A turn of `execute`. -/
theorem serves_writer (h : Serves v s₀ s) : Serves v s₀ (s.writerTurn v) := by
  have htaken := h.taken
  cases hpc : s.writer with
  | token =>
    have hidle := h.idle (by simp [hpc])
    simp only [Writer.writerTurn, hpc]
    refine ⟨h.served, fun _ => hidle, ?_, h.session⟩
    rw [htaken, hpc]
    split <;> rfl
  | shutdown =>
    have hidle := h.idle (by simp [hpc])
    simp only [Writer.writerTurn, hpc]
    refine ⟨h.served, fun _ => hidle, ?_, h.session⟩
    rw [htaken, hpc]
    split <;> rfl
  | sending inmsg =>
    have hidle := h.idle (by simp [hpc])
    simp only [Writer.writerTurn, hpc]
    refine ⟨h.served, fun _ => hidle, ?_, ?_⟩
    · rw [htaken, hpc]
      simp [WriterPc.inHand]
    · rw [sendInTurn_concat, h.session]
  | left =>
    simp only [Writer.writerTurn, hpc]
    exact h
  | popping =>
    rw [hpc] at htaken
    simp only [WriterPc.inHand, List.append_nil] at htaken
    simp only [Writer.writerTurn, hpc]
    split
    · rename_i inmsg pr hdone
      have hidle : (s.queue.run none .pop).threads none = .idle := by
        simp [Queue.Mpmc.run, hdone, goto]
      refine ⟨h.served.pop, fun _ => hidle, ?_, h.session⟩
      rw [returns_run_done hdone, htaken]
      rfl
    · rename_i pr hdone
      have hidle : (s.queue.run none .pop).threads none = .idle := by
        simp [Queue.Mpmc.run, hdone, goto]
      refine ⟨h.served.pop, fun _ => hidle, ?_, h.session⟩
      rw [returns_run, hdone, htaken]
      rfl
    · rename_i hsome hnone
      have hother : ∀ data pr, s.queue.threads none ≠ .popDone data pr := by
        intro data pr hdone
        cases data with
        | none => exact hnone pr hdone
        | some inmsg => exact hsome inmsg pr hdone
      refine ⟨h.served.pop, fun hne => absurd rfl hne, ?_, h.session⟩
      rw [returns_run_of_ne hother, htaken]
      exact (List.append_nil _).symm

theorem serves_step (h : Serves v s₀ s) (t : WriterTurn ι) : Serves v s₀ (s.step v t) := by
  cases t with
  | caller i msg => exact serves_caller h i msg
  | writer => exact serves_writer h
  | cancel => exact ⟨h.served, h.idle, h.taken, h.session⟩

/-- The messages of one thread that have been sent. -/
def Writer.sentOf (s : Writer ι) (i : ι) : List Msg :=
  (s.sent.filter (·.1 = i)).map (·.2)

theorem map_snd_filter {i : ι} {msgs : List (ι × Msg)} {calls : List Msg}
    (h : msgs.filter (some ·.1 = some i) <+: calls.map (i, ·)) :
    (msgs.filter (·.1 = i)).map (·.2) <+: calls := by
  have hmap := h.map (·.2)
  simpa [Function.comp_def] using hmap

/-- **Messages are sent in the order of each thread.** However the turns of the threads that call
`write` and of `execute` are interleaved: the messages of a thread are sent in its order, each once,
and all of them when `execute` finds the queue empty and no thread is in `write`; the session is as
if the messages had been sent one after the other by one thread, and if the connection takes what it
is given, the messages are new and the counter stays below the first number that `MsgSeqNum`, an
`int`, prints as negative, they are numbered from the counter on without a gap. -/
theorem writes_in_order (v : Env) (s₀ : Session) (turns : List (WriterTurn ι)) :
    let s := runFrom (Writer.step v) { session := s₀ } turns
    (∀ i, s.sentOf i <+: s.written i) ∧ s.session = sendInTurn v s.sent s₀ ∧
      (Lossless v → (∀ m ∈ s.sent, New s₀ m.2 ∧ m.2.noIncrement = false) →
        s₀.nextSendSeq + s.sent.length < 2147483648 → ∃ ms, Transmits s₀ s.session ms) ∧
      ∀ pr, s.queue.threads none = .popFilled pr → s.queue.seqP (pr &&& s.queue.mask) ≤ pr →
        (∀ i, s.queue.threads (some i) = .idle) → ∀ i, s.sentOf i = s.written i := by
  intro s
  have h : Serves v s₀ s := runFrom_of_step (P := Serves v s₀) (fun _ t h => serves_step h t)
    serves_init turns
  refine ⟨fun i => ?_, h.session, fun hl hnew hcounter => ?_, fun pr hpc hempty hpush i => ?_⟩
  · refine map_snd_filter (List.IsPrefix.trans ?_ (h.served.inOrder (some i)))
    rw [h.taken, List.filter_append]
    exact List.prefix_append _ _
  · rw [h.session]
    exact (exchanges_sendInTurn hl hnew (by omega)).sends
  · have hpop : s.writer = .popping := by
      by_contra hne
      rw [h.idle hne] at hpc
      contradiction
    have hall := h.served.drained hpc hempty (fun th hth => ?_) (some i)
    · rw [h.taken, hpop] at hall
      have hmap := congrArg (List.map (·.2)) hall
      simpa [WriterPc.inHand, Writer.calls, Writer.sentOf, Function.comp_def] using hmap
    · cases th with
      | none => contradiction
      | some j => exact hpush j

end Fix8.Session
