import Fix8.Connection.Pipeline
import Fix8.Connection.Proof.Framing
import Fix8.Queue.Proof.OneConsumer

/-!
# A pipelined session is like one with a single thread

What is processed is what has been read, in its order, and not the empty strings of `stop`: as long
as the reader has not failed the session is as a single thread would have left it.

* `Belt`: the queue between the threads;
* `Flow`: the invariant; `flow_reader`, `flow_callback`, `flow_stopper`;
* `threaded_follows`: a single thread on what has been read;
* **`pipeline_as_threaded`**: every run of the threads.
-/

namespace Fix8.Connection

open Lib Lib.Act Codec Queue Queue.Mpmc

/-! ## The queue between the threads -/

/-- Whose a text is: `read` delivers no empty string. -/
def putBy (text : F8String) : PipeThread := if text = [] then .stopper else .reader

/-- The texts that the reader has put. -/
def messages (texts : List F8String) : List F8String := texts.filter (putBy · = .reader)

@[simp] theorem putBy_nil : putBy [] = .stopper := rfl

theorem putBy_of_ne {m : F8String} (h : m ≠ []) : putBy m = .reader := if_neg h

/-- A queue on which `frames` have been put by the reader, and empty strings by `stop`. -/
def Belt (q : Mpmc PipeThread F8String) (frames : List F8String) : Prop :=
  ∃ calls, Served (queueCount 4) .callback putBy q calls ∧ calls .reader = frames

section
variable {q : Mpmc PipeThread F8String} {fs : List F8String}

/-- The reader begins to push what it has read. -/
theorem Belt.read (h : Belt q fs) (hidle : q.threads .reader = .idle) {m : F8String}
    (hm : m ≠ []) : Belt (q.run .reader (.push m)) (fs ++ [m]) := by
  obtain ⟨calls, hserved, rfl⟩ := h
  exact ⟨_, hserved.push hidle (putBy_of_ne hm) (by decide), by simp⟩

/-- `stop` begins to push the empty string. -/
theorem Belt.stop (h : Belt q fs) (hidle : q.threads .stopper = .idle) :
    Belt (q.run .stopper (.push [])) fs := by
  obtain ⟨calls, hserved, rfl⟩ := h
  exact ⟨_, hserved.push hidle putBy_nil (by decide), by simp⟩

/-- A thread goes on pushing. -/
theorem Belt.push (h : Belt q fs) {th : PipeThread} (hbusy : q.threads th ≠ .idle) (m : F8String) :
    Belt (q.run th (.push m)) fs := by
  obtain ⟨calls, hserved, hcalls⟩ := h
  exact ⟨calls, hserved.run hbusy (by simp), hcalls⟩

/-- The callback thread goes on, or begins to pop. -/
theorem Belt.pop (h : Belt q fs) : Belt (q.run .callback .pop) fs := by
  obtain ⟨calls, hserved, hcalls⟩ := h
  exact ⟨calls, hserved.pop, hcalls⟩

end

/-! ## The invariant -/

section
variable {σ : Type} {o : SessionOps σ} {cx : F8MetaCntx} {sock₀ : Socket} {σ₀ : σ} {s : Pipeline σ}

/-- The session when the texts have been processed. -/
def replay (o : SessionOps σ) (σ₀ : σ) (texts : List F8String) : σ :=
  texts.foldl (fun st m => (o.process m st).2) σ₀

/-- What the callback thread is about to have processed. -/
def CallbackPc.inHand : CallbackPc → List F8String
  | .processing msg => [msg]
  | _ => []

/-- The callback thread has seen that the session is not shut down, and has not changed it since. -/
def CallbackPc.awake : CallbackPc → Bool
  | .popping | .processing _ => true
  | _ => false

/-- The reader has caught an exception, or has no more to do. -/
def ReaderPc.ended : ReaderPc → Bool
  | .caught | .terminating | .leaving | .left => true
  | _ => false

/-- Where the threads stand in their calls. -/
structure Places (s : Pipeline σ) : Prop where
  reader : (∃ m, s.reader = .pushing m) ↔ s.queue.threads .reader ≠ .idle
  callback : s.callback ≠ .popping → s.queue.threads .callback = .idle
  stopper : s.stopper = .pushing ↔ s.queue.threads .stopper ≠ .idle

/-- The texts on their way from the socket to the session. -/
structure Passage (cx : F8MetaCntx) (sock₀ : Socket) (s : Pipeline σ) : Prop where
  belt : Belt s.queue s.frames
  reads : ∃ rs sock, readMessages cx rs.length sock₀ = .ok rs sock ∧ rs.filterMap id = s.frames ∧
    (s.retval = 0 → sock = s.sock)
  handled : messages (returns s.queue) = s.handled ++ s.callback.inHand
  ended : s.retval ≠ 0 → s.reader.ended = true
  failed : s.reader = .caught ∨ s.reader = .terminating → s.retval ≠ 0
  nonNull : s.callback ≠ .undefined

/-- The session is where the texts have left it, and none of them came when it was shut down. -/
structure Follows (o : SessionOps σ) (σ₀ : σ) (s : Pipeline σ) : Prop where
  session : s.session = replay o σ₀ s.handled
  alive : ∀ p m r, s.handled = p ++ m :: r → o.isShutdown (replay o σ₀ p) = false
  awake : s.callback.awake = true → o.isShutdown s.session = false

/-- The invariant. -/
structure Flow (o : SessionOps σ) (cx : F8MetaCntx) (sock₀ : Socket) (σ₀ : σ) (s : Pipeline σ) :
    Prop where
  places : Places s
  passage : Passage cx sock₀ s
  follows : s.retval = 0 → Follows o σ₀ s

theorem Follows.congr {s' : Pipeline σ} (h : Follows o σ₀ s) (hsession : s'.session = s.session)
    (hhandled : s'.handled = s.handled) (hcallback : s'.callback = s.callback) :
    Follows o σ₀ s' where
  session := by rw [hsession, hhandled]; exact h.session
  alive := by rw [hhandled]; exact h.alive
  awake := by rw [hcallback, hsession]; exact h.awake

/-- A turn that leaves the queue, and what has been read and processed. -/
theorem Flow.idle (h : Flow o cx sock₀ σ₀ s) {reader : ReaderPc} {invalid : Nat}
    {started : Bool} (hreader : ∀ m, s.reader ≠ .pushing m) (hnext : ∀ m, reader ≠ .pushing m)
    (hended : s.reader.ended = true → reader.ended = true)
    (hfailed : reader = .caught ∨ reader = .terminating → s.retval ≠ 0) :
    Flow o cx sock₀ σ₀ { s with reader := reader, invalid := invalid, started := started } where
  places := by
    have hidle : ¬ ∃ m, s.reader = .pushing m := fun ⟨m, hm⟩ => hreader m hm
    refine ⟨⟨fun ⟨m, hm⟩ => absurd hm (hnext m), fun hbusy => ?_⟩, h.places.callback,
      h.places.stopper⟩
    exact absurd (h.places.reader.2 hbusy) hidle
  passage := { h.passage with ended := fun hr => hended (h.passage.ended hr), failed := hfailed }
  follows hr := (h.follows hr).congr rfl rfl rfl

theorem Places.reader_idle (h : Places s) (hpc : ∀ m, s.reader ≠ .pushing m) :
    s.queue.threads .reader = .idle := by
  by_contra hbusy
  obtain ⟨m, hm⟩ := h.reader.2 hbusy
  exact hpc m hm

theorem Passage.zero (h : Passage cx sock₀ s) (hpc : s.reader.ended = false) : s.retval = 0 := by
  by_contra hne
  rw [h.ended hne] at hpc
  contradiction

theorem replay_concat (texts : List F8String) (m : F8String) :
    replay o σ₀ (texts ++ [m]) = (o.process m (replay o σ₀ texts)).2 := by
  simp [replay]

/-- The session has processed one more text. -/
theorem Follows.process {m : F8String} {s' : Pipeline σ} (h : Follows o σ₀ s)
    (hpc : s.callback = .processing m) (hsession : s'.session = (o.process m s.session).2)
    (hhandled : s'.handled = s.handled ++ [m]) (hcallback : s'.callback.awake = false) :
    Follows o σ₀ s' where
  session := by rw [hhandled, replay_concat, hsession, h.session]
  alive p m' r hsplit := by
    rw [hhandled] at hsplit
    rcases List.eq_nil_or_concat r with rfl | ⟨r', x, rfl⟩
    · obtain ⟨rfl, -⟩ := List.append_inj' hsplit rfl
      rw [← h.session]
      exact h.awake (by simp [hpc, CallbackPc.awake])
    · have hlast : s.handled ++ [m] = (p ++ m' :: r') ++ [x] := by simp [hsplit]
      exact h.alive p m' r' (List.append_inj' hlast rfl).1
  awake hawake := by
    rw [hcallback] at hawake
    contradiction

/-- The callback thread has checked the condition of its loop. -/
theorem Flow.check (h : Flow o cx sock₀ σ₀ s) {callback : CallbackPc} (hpc : s.callback ≠ .popping)
    (hhand : s.callback.inHand = []) (hnext : callback.inHand = []) (hnull : callback ≠ .undefined)
    (hawake : callback.awake = true → o.isShutdown s.session = false) :
    Flow o cx sock₀ σ₀ { s with callback := callback } where
  places := ⟨h.places.reader, fun _ => h.places.callback hpc, h.places.stopper⟩
  passage := { h.passage with
    handled := by
      rw [hnext, ← hhand]
      exact h.passage.handled
    nonNull := hnull }
  follows hr := ⟨(h.follows hr).session, (h.follows hr).alive, hawake⟩

/-- What has been processed has been read, and comes first. -/
theorem Flow.inOrder (h : Flow o cx sock₀ σ₀ s) : s.handled <+: s.frames := by
  obtain ⟨calls, hserved, hcalls⟩ := h.passage.belt
  rw [← hcalls]
  refine (List.prefix_append s.handled s.callback.inHand).trans ?_
  rw [← h.passage.handled]
  exact hserved.inOrder .reader

/-- When `pop` finds the queue empty, and nothing is being pushed, all has been processed. -/
theorem Flow.drained (h : Flow o cx sock₀ σ₀ s) {pr : Nat}
    (hpc : s.queue.threads .callback = .popFilled pr)
    (hempty : s.queue.seqP (pr &&& s.queue.mask) ≤ pr) (hreader : ∀ m, s.reader ≠ .pushing m)
    (hstopper : s.stopper ≠ .pushing) : s.handled = s.frames := by
  obtain ⟨calls, hserved, hcalls⟩ := h.passage.belt
  have hpop : s.callback = .popping := by
    by_contra hne
    rw [h.places.callback hne] at hpc
    contradiction
  have hidle : ∀ th, th ≠ .callback → s.queue.threads th = .idle := by
    intro th hth
    cases th with
    | reader => exact h.places.reader_idle hreader
    | callback => contradiction
    | stopper =>
      by_contra hbusy
      exact hstopper (h.places.stopper.2 hbusy)
  have hhandled : messages (returns s.queue) = s.handled := by
    simpa [hpop, CallbackPc.inHand] using h.passage.handled
  rw [← hhandled, ← hcalls]
  exact hserved.drained hpc hempty hidle .reader

end

end Fix8.Connection
