import Fix8.Queue.Mpmc
import Fix8.Session.Send

/-!
# A pipelined writer

`FIXWriter` in the model `pm_pipeline`: `write` puts the message on the queue, whatever thread calls
it, and the thread of `execute` takes it from there and has it sent. A `send_process` is one turn.
`stop` is not part of this: the null pointer that it puts is not a message.
-/

namespace Fix8.Session

open Lib Queue

/-- Where `execute` stands. -/
inductive WriterPc (ι : Type) where
  /-- The cancellation token is read next. -/
  | token
  | shutdown
  /-- In `pop`. -/
  | popping
  | sending (inmsg : ι × Msg)
  | left
deriving DecidableEq

/-- A pipelined writer, with the threads `ι` that call `write`; a message has its caller with it. -/
structure Writer (ι : Type) where
  queue : Queue.Mpmc (Option ι) (ι × Msg) := .init 4
  session : Session
  cancellationToken : Bool := false
  writer : WriterPc ι := .token
  processed : Nat := 0
  /-- What each thread has called `write` with. -/
  written : ι → List Msg := fun _ => []
  /-- What `send_process` has been called with. -/
  sent : List (ι × Msg) := []

/-- A turn of one of the threads, or the request to stop. -/
inductive WriterTurn (ι : Type) where
  /-- The thread goes on with `write`, or calls it with `msg`. -/
  | caller (i : ι) (msg : Msg)
  | writer
  | cancel

namespace Writer

variable {ι : Type} [DecidableEq ι]

/-- A turn of a thread that calls `write`. -/
def callerTurn (s : Writer ι) (i : ι) (msg : Msg) : Writer ι :=
  let s' := { s with queue := s.queue.run (some i) (.push (i, msg)) }
  match s.queue.threads (some i) with
  | .idle => { s' with written := Function.update s.written i (s.written i ++ [msg]) }
  | _ => s'

/-- A turn of `execute`. -/
def writerTurn (v : Env) (s : Writer ι) : Writer ι :=
  match s.writer with
  | .token => { s with writer := if s.cancellationToken then .left else .shutdown }
  | .shutdown => { s with writer := if s.session.isShutdown then .left else .popping }
  | .popping =>
    let s' := { s with queue := s.queue.run none .pop }
    match s.queue.threads none with
    | .popDone (some inmsg) _ => { s' with writer := .sending inmsg }
    | .popDone none _ => { s' with writer := .left }
    | _ => s'
  | .sending inmsg =>
    { s with
      session := (sendProcess v inmsg.2 s.session).2, writer := .token
      processed := s.processed + 1, sent := s.sent ++ [inmsg] }
  | .left => s

/-- A turn. -/
def step (v : Env) (s : Writer ι) : WriterTurn ι → Writer ι
  | .caller i msg => s.callerTurn i msg
  | .writer => s.writerTurn v
  | .cancel => { s with cancellationToken := true }

end Writer

end Fix8.Session
