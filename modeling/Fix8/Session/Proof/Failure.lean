import Fix8.Session.Proof.Stored

/-!
# A write that fails

`send_process` returns false when the socket takes no bytes and when it throws. The counter and the
persister are written behind the write, so both leave them alone. The buffer of the batch is cleared
where `send` returns 0; an exception leaves the function with the message appended to it.

* `buffer_failed`, `buffer_threw`: what becomes of the batch;
* **`undone_iff`**: the condition for the call to leave nothing behind;
* `rides_along`: the messages that the next one takes with it otherwise.
-/

namespace Fix8

open Lib

namespace Session

variable {v : Env} {s : Session} {m : Msg}

/-- A failed call has left nothing behind: counter and persister are what they were, the buffer of
the batch is empty, and the next message that goes out goes out alone. -/
structure Undone (v : Env) (s : Session) (m : Msg) : Prop where
  nextSendSeq : (sendProcess v m s).2.nextSendSeq = s.nextSendSeq
  persist : (sendProcess v m s).2.persist = s.persist
  buffer : (sendProcess v m s).2.batchmsgsBuffer = []
  alone : ∀ v' m', m'.encodeErr = none → m'.endOfBatch = true →
    v'.link (sendProcess v m s).2.writes = .sent →
      (sendProcess v' m' (sendProcess v m s).2).2.wire =
        (sendProcess v m s).2.wire ++ [stamp v' (sendProcess v m s).2 m']

/-- The call that returns false has come to the socket, which did not take the message. -/
theorem link_of_false (hencode : m.encodeErr = none) (hfalse : (sendProcess v m s).1 = false) :
    m.endOfBatch = true ∧ v.link s.writes ≠ .sent := by
  rcases sendProcess_cases v s m with hfailed | hsucceeded
  · by_cases hb : m.endOfBatch = true
    · exact ⟨hb, fun hl => hfailed.stays ⟨hencode, fun _ => hl⟩⟩
    · exact absurd ⟨hencode, fun h => absurd h hb⟩ hfailed.stays
  · rw [hsucceeded.result] at hfalse
    cases hfalse

theorem failed_of_false (hfalse : (sendProcess v m s).1 = false) : Failed v s m := by
  rcases sendProcess_cases v s m with hfailed | hsucceeded
  · exact hfailed
  · rw [hsucceeded.result] at hfalse
    cases hfalse

/-! ## The batch -/

/-- Where `send` returns 0 the batch is given up. -/
theorem buffer_failed (hencode : m.encodeErr = none) (hb : m.endOfBatch = true)
    (hl : v.link s.writes = .failed) : (sendProcess v m s).2.batchmsgsBuffer = [] := by
  simp [sendProcess, transmit, hencode, hb, hl]

/-- Where it throws, the message has been appended to a batch that is pending. -/
theorem buffer_threw (hencode : m.encodeErr = none) (hb : m.endOfBatch = true)
    (hl : v.link s.writes = .threw) : (sendProcess v m s).2.batchmsgsBuffer =
      if s.batchmsgsBuffer.isEmpty then [] else s.batchmsgsBuffer ++ [(stamp v s m).cstr] := by
  simp [sendProcess, transmit, hencode, hb, hl]

/-- A message that the socket takes goes out behind the batch that is pending. -/
theorem wire_next (hencode : m.encodeErr = none) (hb : m.endOfBatch = true)
    (hl : v.link s.writes = .sent) : (sendProcess v m s).2.wire =
      s.wire ++ s.batchmsgsBuffer ++ wireText v s m := by
  rcases sendProcess_cases v s m with hfailed | hsucceeded
  · exact absurd ⟨hencode, fun _ => hl⟩ hfailed.stays
  · rw [hsucceeded.wire, if_pos hb]

/-- With no batch pending it goes out alone. -/
theorem wire_alone (hencode : m.encodeErr = none) (hb : m.endOfBatch = true)
    (hl : v.link s.writes = .sent) (hbuffer : s.batchmsgsBuffer = []) :
    (sendProcess v m s).2.wire = s.wire ++ [stamp v s m] := by
  rw [wire_next hencode hb hl, hbuffer, List.append_nil]
  unfold wireText
  simp [hb, hbuffer]

/-- **A failed write leaves nothing behind** exactly when no batch is pending or the socket reports
the failure by its result: an exception leaves the batch, with the message, for the next one. -/
theorem undone_iff (hencode : m.encodeErr = none) (hfalse : (sendProcess v m s).1 = false) :
    Undone v s m ↔ s.batchmsgsBuffer = [] ∨ v.link s.writes = .failed := by
  obtain ⟨hb, hl⟩ := link_of_false hencode hfalse
  have hfailed := failed_of_false hfalse
  constructor
  · intro hundone
    cases hlink : v.link s.writes with
    | sent => exact absurd hlink hl
    | failed => exact .inr rfl
    | threw =>
      left
      have hbuffer := hundone.buffer
      rw [buffer_threw hencode hb hlink] at hbuffer
      by_contra hne
      rw [if_neg (by simpa using hne)] at hbuffer
      simp at hbuffer
  · intro hcond
    have hbuffer : (sendProcess v m s).2.batchmsgsBuffer = [] := by
      cases hlink : v.link s.writes with
      | sent => exact absurd hlink hl
      | failed => exact buffer_failed hencode hb hlink
      | threw =>
        have hempty : s.batchmsgsBuffer = [] := by
          rcases hcond with hempty | hf
          · exact hempty
          · rw [hlink] at hf
            cases hf
        rw [buffer_threw hencode hb hlink, hempty]
        rfl
    exact ⟨hfailed.nextSendSeq, hfailed.persist, hbuffer,
      fun v' m' hencode' hb' hl' => wire_alone hencode' hb' hl' hbuffer⟩

/-- What a batch takes along: after a write that threw, the next message that goes out is sent
behind the batch and the message that failed. -/
theorem rides_along {v' : Env} {m' : Msg} (hencode : m.encodeErr = none) (hb : m.endOfBatch = true)
    (hl : v.link s.writes = .threw) (hbuffer : s.batchmsgsBuffer ≠ [])
    (hencode' : m'.encodeErr = none) (hb' : m'.endOfBatch = true)
    (hl' : v'.link (sendProcess v m s).2.writes = .sent) :
    (sendProcess v' m' (sendProcess v m s).2).2.wire =
      (sendProcess v m s).2.wire ++ (s.batchmsgsBuffer ++ [(stamp v s m).cstr]) ++
        wireText v' (sendProcess v m s).2 m' := by
  rw [wire_next hencode' hb' hl', buffer_threw hencode hb hl, if_neg (by simpa using hbuffer)]

/-- A socket that throws. -/
def demoThrowing : Env := { demoEnv with link := fun _ => .threw }

/-- With no batch pending the next message goes out alone. -/
theorem undone_iff_demo : Undone demoThrowing demoOpen demoNewOrder :=
  (undone_iff rfl (by decide)).2 (.inl rfl)

/-- A batch of two orders whose write throws stays in the buffer. -/
theorem batch_stays : ¬ ∀ (v : Env) (s : Session) (m : Msg), m.encodeErr = none →
    (sendProcess v m s).1 = false → Undone v s m := by
  intro h
  have hundone := h demoThrowing { demoOpen with batchmsgsBuffer := [demoNewOrder] } demoNewOrder
    rfl (by decide)
  exact absurd hundone.buffer (by decide)

end Session

end Fix8
