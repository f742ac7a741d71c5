import Fix8.Connection.Reader
import Fix8.Queue.Mpmc

/-!
# Reading and processing

`FIXReader` with a thread of its own for each (`pm_pipeline`): `execute` reads and puts what it has
read on the queue, `callback_processor` takes it from there and has it processed, and `stop` puts an
empty string on the queue. And with one thread for both (`pm_thread`).

A turn of a thread is one access to what the threads share; a `process` is a turn too.
-/

namespace Fix8.Connection

open Lib Lib.Act Codec Queue

/-- What a reader uses of its session. -/
structure SessionOps (σ : Type) where
  /-- `Session::process`. -/
  process : F8String → σ → Bool × σ
  /-- `Session::is_shutdown`. -/
  isShutdown : σ → Bool
  /-- `do_state_change(States::st_session_terminated)`. -/
  terminate : σ → σ

inductive PipeThread where
  | reader
  | callback
  | stopper
deriving DecidableEq, Repr

/-- Where `execute` stands. -/
inductive ReaderPc where
  /-- The cancellation token is read next. -/
  | token
  | shutdown
  | reading
  /-- In `try_push`. -/
  | pushing (msg : F8String)
  /-- An exception has been caught, and `is_shutdown` is next. -/
  | caught
  | terminating
  | leaving
  | left
deriving DecidableEq, Repr

/-- Where `callback_processor` stands. -/
inductive CallbackPc where
  | token
  | shutdown
  /-- In `pop`. -/
  | popping
  | processing (msg : F8String)
  | left
  /-- `pop` has set nothing, and the pointer is null. -/
  | undefined
deriving DecidableEq, Repr

/-- Where `stop` stands. -/
inductive StopPc where
  | idle
  | pushing
  | requesting
deriving DecidableEq, Repr

/-- A pipelined reader, with its session. -/
structure Pipeline (σ : Type) where
  queue : Mpmc PipeThread F8String := .init 4
  sock : Socket
  session : σ
  cancellationToken : Bool := false
  started : Bool := true
  reader : ReaderPc := .token
  callback : CallbackPc := .token
  stopper : StopPc := .idle
  /-- `processed`, `invalid` and `retval` of `execute`. -/
  processed : Nat := 0
  invalid : Nat := 0
  retval : Int := 0
  /-- `processed` and `ignored` of `callback_processor`. -/
  handledOk : Nat := 0
  ignored : Nat := 0
  /-- What `read` has delivered. -/
  frames : List F8String := []
  /-- What has been processed. -/
  handled : List F8String := []

namespace Pipeline

variable {σ : Type} (o : SessionOps σ) (cx : F8MetaCntx)

/-- A turn of `execute`. -/
def readerTurn (s : Pipeline σ) : Pipeline σ :=
  match s.reader with
  | .token => { s with reader := if s.cancellationToken then .leaving else .shutdown }
  | .shutdown => { s with reader := if o.isShutdown s.session then .leaving else .reading }
  | .reading =>
    match read cx s.sock with
    | .ok (some msg) sock =>
      { s with
        sock := sock, frames := s.frames ++ [msg], reader := .pushing msg
        queue := s.queue.run .reader (.push msg) }
    | .ok none sock => { s with sock := sock, invalid := s.invalid + 1, reader := .token }
    | .throw _ sock => { s with sock := sock, reader := .caught, retval := -1 }
  | .pushing msg =>
    let queue := s.queue.run .reader (.push msg)
    if queue.threads .reader = .idle then
      { s with queue := queue, processed := s.processed + 1, reader := .token }
    else { s with queue := queue }
  | .caught =>
    { s with
      invalid := s.invalid + 1
      reader := if o.isShutdown s.session then .leaving else .terminating }
  | .terminating => { s with session := o.terminate s.session, reader := .leaving }
  | .leaving =>
    -- `stop` has the mutex
    if s.stopper ≠ .idle then s else { s with started := false, reader := .left }
  | .left => s

/-- A turn of `callback_processor`. -/
def callbackTurn (s : Pipeline σ) : Pipeline σ :=
  match s.callback with
  | .token => { s with callback := if s.cancellationToken then .left else .shutdown }
  | .shutdown => { s with callback := if o.isShutdown s.session then .left else .popping }
  | .popping =>
    let s' := { s with queue := s.queue.run .callback .pop }
    match s.queue.threads .callback with
    | .popDone (some msg) _ =>
      { s' with callback := if msg.isEmpty then .left else .processing msg }
    | .popDone none _ => { s' with callback := .undefined }
    | _ => s'
  | .processing msg =>
    let (ok, session) := o.process msg s.session
    { s with
      session := session, callback := .token, handled := s.handled ++ [msg]
      handledOk := if ok then s.handledOk + 1 else s.handledOk
      ignored := if ok then s.ignored else s.ignored + 1 }
  | .left => s
  | .undefined => s

/-- A turn of the thread that calls `stop`, now or again. -/
def stopTurn (s : Pipeline σ) : Pipeline σ :=
  match s.stopper with
  | .idle =>
    if s.started then
      { s with queue := s.queue.run .stopper (.push []), stopper := .pushing }
    else s
  | .pushing =>
    let queue := s.queue.run .stopper (.push [])
    { s with
      queue := queue
      stopper := if queue.threads .stopper = .idle then .requesting else .pushing }
  | .requesting => { s with cancellationToken := true, stopper := .idle }

/-- A turn of a thread. -/
def step (s : Pipeline σ) : PipeThread → Pipeline σ
  | .reader => s.readerTurn o cx
  | .callback => s.callbackTurn o
  | .stopper => s.stopTurn

end Pipeline

/-- A reader that processes what it reads, with its session. -/
structure Threaded (σ : Type) where
  sock : Socket
  session : σ
  left : Bool := false
  processed : Nat := 0
  invalid : Nat := 0
  retval : Int := 0
  /-- What has been processed. -/
  handled : List F8String := []

/-- A turn of the loop of `execute` that is not cancelled. -/
def Threaded.turn {σ : Type} (o : SessionOps σ) (cx : F8MetaCntx) (t : Threaded σ) : Threaded σ :=
  if t.left || o.isShutdown t.session then { t with left := true }
  else
    match read cx t.sock with
    | .ok (some msg) sock =>
      let (ok, session) := o.process msg t.session
      { t with
        sock := sock, session := session, handled := t.handled ++ [msg]
        processed := if ok then t.processed + 1 else t.processed
        invalid := if ok then t.invalid else t.invalid + 1 }
    | .ok none sock => { t with sock := sock, invalid := t.invalid + 1 }
    | .throw _ sock =>
      { t with
        sock := sock, invalid := t.invalid + 1, left := true, retval := -1
        -- the session is not shut down
        session := o.terminate t.session }

end Fix8.Connection
