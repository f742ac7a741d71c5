import Fix8.Codec.Field
import Fix8.Lib.Loop

/-!
# Writing to a socket

`FIXWriter::send` over a socket that takes the bytes piece by piece, and the sends of one text after
the other: what `send` throws is caught in `send_process`, and the next text is sent all the same.
-/

namespace Fix8.Connection

open Lib Codec

/-- What leaves a writer other than a result. -/
inductive WriteStop where
  | peerReset
  | fuel
deriving DecidableEq, Repr

/-- A connected socket to write to: the bytes that it has taken, and what the calls do. A call takes
so many bytes at most, or, at `none`, would block. Behind the list a socket that `breaks` is gone,
any other takes what it is given. -/
structure SendSocket where
  taken : F8String
  answers : List (Option Nat)
  breaks : Bool
deriving DecidableEq, Repr

/-- What a call of `sendBytes` returns; `wouldBlock` is a negative result with the error number
`EAGAIN` or `EWOULDBLOCK`, `failed` one with another. -/
inductive Wrote where
  | bytes (wrtSz : Nat)
  | wouldBlock
  | failed
deriving DecidableEq, Repr

/-- `sendBytes`. -/
def SendSocket.sendBytes (s : SendSocket) (data : F8String) : Wrote × SendSocket :=
  match s.answers with
  | [] =>
    if s.breaks then (.failed, s)
    else (.bytes data.length, { s with taken := s.taken ++ data })
  | none :: answers => (.wouldBlock, { s with answers := answers })
  | some k :: answers =>
    (.bytes (data.take k).length, { s with taken := s.taken ++ data.take k, answers := answers })

/-- A turn of the loop of `send`, with `remaining` and `wrdone`. -/
def sendTurn (data : F8String) (nb : Bool) (c : Nat × Nat) :
    Act SendSocket WriteStop ((Nat × Nat) ⊕ Nat) := do
  let s ← Act.get
  if 0 < c.1 then do
    let r := s.sendBytes ((data.drop c.2).take c.1)
    Act.modify fun _ => r.2
    match r.1 with
    | .wouldBlock => if nb then pure (.inr c.2) else pure (.inl c)
    | .failed => Act.throw .peerReset
    | .bytes wrtSz => pure (.inl (c.1 - wrtSz, c.2 + wrtSz))
  else pure (.inr c.2)

/-- `FIXWriter::send`; each turn uses up one of the answers or writes the rest. -/
def send (data : F8String) (nb : Bool) : Act SendSocket WriteStop Nat := do
  let s ← Act.get
  Act.loop .fuel (sendTurn data nb) (s.answers.length + 2) (data.length, 0)

/-- `Connection::send` of one text after the other, as `send_process` calls it: whether each has
been written. -/
def sendAll : List F8String → SendSocket → List Bool × SendSocket
  | [], s => ([], s)
  | text :: texts, s =>
    let (written, s) := match send text false s with
      | .ok wrdone s => (decide (wrdone ≠ 0), s)
      | .throw _ s => (false, s)
    let (rest, s) := sendAll texts s
    (written :: rest, s)

end Fix8.Connection
