import Fix8.Lib.Fifo
import Fix8.Lib.Run
import Mathlib.Logic.Function.Basic

/-!
# The unbounded queue of any number of threads

`ff::uMPMC_Ptr_Queue`, the queue behind `ff_unbounded_queue`: a power of two of unbounded buffers
(`Fix8.Queue.Unbounded`), used in turn. A `push` and a `pop` each take a number, by a compare and
swap of a counter, and have the buffer of that number for themselves until they set its sequence. A
turn of a thread is one access to what the threads share. The counters are naturals: 2^64 numbers
are not handed out.
-/

namespace Fix8.Queue

open Lib

/-- `isPowerOf2`. -/
def isPowerOf2 (x : Nat) : Bool := x ≠ 0 && x &&& (x - 1) = 0

/-- The number of buffers that `init` makes. -/
def queueCount (nqueues : Nat) : Nat :=
  let nqueues := if nqueues < 2 then 2 else nqueues
  if isPowerOf2 nqueues then nqueues else nqueues.nextPowerOfTwo

/-- Where a thread stands. -/
inductive MpmcPc (α : Type) where
  | idle
  /-- `push(data)`: `preadP` is read next. -/
  | pushRead (data : α)
  /-- `seqP[idx]` is read next. -/
  | pushLook (data : α) (pw : Nat)
  /-- The compare and swap of `preadP` is next. -/
  | pushCas (data : α) (pw : Nat)
  /-- The buffer's `push` is next. -/
  | pushStore (data : α) (pw : Nat)
  /-- `seqP[idx]` is set next. -/
  | pushDone (data : α) (pw : Nat)
  /-- `pop`: `preadC` is read next. -/
  | popRead
  /-- `seqC[idx]` is read next. -/
  | popLook (pr : Nat)
  /-- `seqP[idx]` is read next. -/
  | popFilled (pr : Nat)
  /-- The compare and swap of `preadC` is next. -/
  | popCas (pr : Nat)
  /-- The buffer's `pop` is next. -/
  | popTake (pr : Nat)
  /-- `seqC[idx]` is set next; `data` is what the buffer's `pop` has set, if it has. -/
  | popDone (data : Option α) (pr : Nat)
deriving DecidableEq, Repr

/-- `uMPMC_Ptr_Queue`, with the threads that use it. -/
structure Mpmc (τ α : Type) where
  mask : Nat
  preadP : Nat := 0
  preadC : Nat := 0
  seqP : Nat → Nat
  seqC : Nat → Nat
  buf : Nat → List α
  threads : τ → MpmcPc α := fun _ => .idle
  /-- What the calls of `pop` have returned, with the numbers they took. -/
  popped : List (Nat × Option α) := []
  /-- The items that have been given a number for, or been taken. -/
  acts : List (FifoAct α) := []

/-- What a thread calls when it is not in a call. -/
inductive MpmcCall (α : Type) where
  | push (data : α)
  | pop
deriving DecidableEq, Repr

namespace Mpmc

variable {τ α : Type}

/-- `init`. -/
def init (nqueues : Nat) : Mpmc τ α :=
  { mask := queueCount nqueues - 1, seqP := id, seqC := id, buf := fun _ => [] }

variable [DecidableEq τ]

/-- The thread goes on from `pc`. -/
def goto (s : Mpmc τ α) (th : τ) (pc : MpmcPc α) : Mpmc τ α :=
  { s with threads := Function.update s.threads th pc }

/-- A turn of a thread. -/
def run (s : Mpmc τ α) (th : τ) (call : MpmcCall α) : Mpmc τ α :=
  match s.threads th with
  | .idle =>
    match call with
    | .push data => s.goto th (.pushRead data)
    | .pop => s.goto th .popRead
  | .pushRead data => s.goto th (.pushLook data s.preadP)
  | .pushLook data pw =>
    if pw = s.seqP (pw &&& s.mask) then s.goto th (.pushCas data pw)
    else s.goto th (.pushRead data)
  | .pushCas data pw =>
    if s.preadP = pw then
      { s.goto th (.pushStore data pw) with preadP := pw + 1, acts := s.acts ++ [.put data] }
    else s.goto th (.pushRead data)
  | .pushStore data pw =>
    let idx := pw &&& s.mask
    { s.goto th (.pushDone data pw) with buf := Function.update s.buf idx (s.buf idx ++ [data]) }
  | .pushDone _ pw =>
    { s.goto th .idle with seqP := Function.update s.seqP (pw &&& s.mask) (pw + s.mask + 1) }
  | .popRead => s.goto th (.popLook s.preadC)
  | .popLook pr =>
    if pr = s.seqC (pr &&& s.mask) then s.goto th (.popFilled pr) else s.goto th .popRead
  | .popFilled pr =>
    -- the number is not in use: there is nothing to take
    if s.seqP (pr &&& s.mask) ≤ pr then s.goto th .idle else s.goto th (.popCas pr)
  | .popCas pr =>
    if s.preadC = pr then
      { s.goto th (.popTake pr) with
        preadC := pr + 1, acts := s.acts ++ (puts s.acts)[pr]?.toList.map .take }
    else s.goto th .popRead
  | .popTake pr =>
    let idx := pr &&& s.mask
    match s.buf idx with
    | data :: rest =>
      { s.goto th (.popDone (some data) pr) with buf := Function.update s.buf idx rest }
    | [] => s.goto th (.popDone none pr)
  | .popDone data pr =>
    { s.goto th .idle with
      seqC := Function.update s.seqC (pr &&& s.mask) (pr + s.mask + 1)
      popped := s.popped ++ [(pr, data)] }

/-- A turn: whose it is, and what the thread calls if it is not in a call. -/
structure Turn (τ α : Type) where
  thread : τ
  call : MpmcCall α

/-- The queue after a turn. -/
def step (s : Mpmc τ α) (t : Turn τ α) : Mpmc τ α := s.run t.thread t.call

end Mpmc

end Fix8.Queue
