import Fix8.Codec.Number
import Fix8.Lib.Buffer
import Fix8.Lib.Loop

/-!
# Reading from a socket

The two versions of `FIXReader::sockRead`: one asks the socket for what is requested, the other
reads ahead into a buffer that is compacted when its first half has been handed out. A socket is the
stream of bytes that the peer sends before it closes the connection, with how it comes in.
-/

namespace Fix8.Connection

open Lib Codec

/-- `_max_msg_len`. -/
def maxMsgLen : Nat := maxMsgLength

/-- What leaves a reader other than a result. -/
inductive ReadStop where
  | peerReset
  | illegalMessage (text : F8String)
  | invalidVersion (version : F8String)
  | invalidBodyLength (mlen : Nat)
  /-- An array is overrun. -/
  | undefined
  | fuel
deriving DecidableEq, Repr

/-! ## The socket -/

/-- A connected socket: the bytes that are still to come, and how many each call brings at most. At
a 0 there is nothing yet, and the call would block; behind the list each call brings what it asks
for. -/
structure Socket where
  stream : F8String
  splits : List Nat
deriving DecidableEq, Repr

/-- What a call of `receiveBytes` brings; `wouldBlock` is a result that is not positive with the
error number `EAGAIN` or `EWOULDBLOCK`, `closed` one with another. -/
inductive Received where
  | bytes (bs : F8String)
  | wouldBlock
  | closed
deriving DecidableEq, Repr

namespace Socket

/-- Up to `n` bytes of the stream. -/
def take (s : Socket) (n : Nat) : Received × Socket :=
  match s.stream.take n with
  | [] => (.closed, s)
  | c :: cs => (.bytes (c :: cs), { s with stream := s.stream.drop n })

/-- `receiveBytes`. -/
def receiveBytes (s : Socket) (n : Nat) : Received × Socket :=
  match s.splits with
  | [] => s.take n
  | 0 :: splits => (.wouldBlock, { s with splits := splits })
  | k :: splits => ({ s with splits := splits } : Socket).take (min k n)

end Socket

/-! ## Plain reading -/

/-- A turn of the loop of `sockRead`, with `remaining` and what has been placed in `where`. -/
def readTurn (c : Nat × F8String) : Act Socket ReadStop ((Nat × F8String) ⊕ F8String) := do
  let s ← Act.get
  if 0 < c.1 then do
    let r := s.receiveBytes c.1
    Act.modify fun _ => r.2
    match r.1 with
    | .wouldBlock => pure (.inl c)
    | .closed => Act.throw .peerReset
    | .bytes bs => pure (.inl (c.1 - bs.length, c.2 ++ bs))
  else pure (.inr c.2)

/-- `sockRead`; each turn reads a byte or uses up one of the splits. -/
def sockRead (sz : Nat) : Act Socket ReadStop F8String := do
  let s ← Act.get
  Act.loop .fuel readTurn (s.splits.length + sz + 1) (sz, [])

/-! ## Buffered reading -/

/-- `sizeof(_read_buffer)`. -/
def readBufferSize : Nat := maxMsgLen * 2

/-- A reader with its `_read_buffer` and the two pointers into it. -/
structure BufferedReader where
  sock : Socket
  buffer : F8String
  rptr : Nat
  wptr : Nat

/-- A new reader. -/
def BufferedReader.opened (sock : Socket) : BufferedReader :=
  ⟨sock, List.replicate readBufferSize 0, 0, 0⟩

/-- A turn of the loop of `realSockRead`, with `maxremaining` and `remaining`. -/
def receiveTurn (c : Int × Int) : Act BufferedReader ReadStop ((Int × Int) ⊕ Unit) := do
  let b ← Act.get
  if 0 < c.2 ∧ b.wptr < readBufferSize then do
    let r := b.sock.receiveBytes c.1.toNat
    Act.modify fun b => { b with sock := r.2 }
    match r.1 with
    | .wouldBlock => pure (.inl c)
    | .closed => Act.throw .peerReset
    | .bytes bs =>
      match write b.buffer b.wptr bs with
      | none => Act.throw .undefined
      | some buffer => do
        Act.modify fun b => { b with buffer := buffer, wptr := b.wptr + bs.length }
        pure (.inl (c.1 - bs.length, c.2 - bs.length))
  else pure (.inr ())

/-- The `maxremaining` and `remaining` that `realSockRead` begins with. -/
def BufferedReader.toReceive (b : BufferedReader) (sz maxsz : Nat) : Int × Int :=
  (min maxsz (readBufferSize - b.wptr), min sz (readBufferSize - b.wptr))

/-- `realSockRead`. -/
def realSockRead (sz maxsz : Nat) : Act BufferedReader ReadStop Nat := do
  let b ← Act.get
  Act.loop .fuel receiveTurn (b.sock.splits.length + sz + 1) (b.toReceive sz maxsz)
  let b' ← Act.get
  pure (b'.wptr - b.wptr)

/-- The first step of the buffered `sockRead`: what the buffer does not have is read. -/
def fill (sz : Nat) : Act BufferedReader ReadStop Unit := do
  let b ← Act.get
  let availableInBuffer := b.wptr - b.rptr
  if availableInBuffer < sz then do
    let _ ← realSockRead (sz - availableInBuffer) maxMsgLen
    pure ()
  else pure ()

/-- The second step: the bytes are copied and passed over. -/
def handOver (sz : Nat) : Act BufferedReader ReadStop F8String := do
  let b ← Act.get
  let sz := min (b.wptr - b.rptr) sz
  match read b.buffer b.rptr sz with
  | none => Act.throw .undefined
  | some bytes => do
    Act.modify fun b => { b with rptr := b.rptr + sz }
    pure bytes

/-- The last step: the second half of the buffer becomes the first. -/
def compact : Act BufferedReader ReadStop Unit := do
  let b ← Act.get
  let shift := maxMsgLen
  if shift ≤ b.rptr then
    match write b.buffer 0 (b.buffer.drop shift) with
    | none => Act.throw .undefined
    | some buffer =>
      Act.modify fun b => { b with buffer := buffer, rptr := b.rptr - shift, wptr := b.wptr - shift }
  else pure ()

/-- The buffered `sockRead`. -/
def bufferedSockRead (sz : Nat) : Act BufferedReader ReadStop F8String := do
  fill sz
  let bytes ← handOver sz
  compact
  pure bytes

/-! ## Requests -/

/-- What a sequence of requests delivers, up to the first that throws, and the state it leaves. -/
def reads {S : Type} (sockRead : Nat → Act S ReadStop F8String) :
    List Nat → S → List (Except ReadStop F8String) × S
  | [], s => ([], s)
  | sz :: sizes, s =>
    match sockRead sz s with
    | .ok bytes s' => ((.ok bytes :: (reads sockRead sizes s').1), (reads sockRead sizes s').2)
    | .throw e s' => ([.error e], s')

end Fix8.Connection
