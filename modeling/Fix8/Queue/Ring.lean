import Fix8.Lib.Fifo
import Fix8.Lib.Run

/-!
# The bounded buffer of one writer and one reader

`ff::SWSR_Ptr_Buffer`: a circular buffer of pointers without a lock. A null pointer says that a
place is free, so that the two threads share the places and nothing else. A turn of a thread is one
access to the buffer or to its own index.
-/

namespace Fix8.Queue

open Lib

/-- Where the writer stands in `push(data)`. -/
inductive RingPush (α : Type) where
  | idle
  /-- `available` has returned true. -/
  | store (data : α)
  /-- `buf[pwrite]` is written, `pwrite` is next. -/
  | advance
deriving DecidableEq, Repr

/-- Where the reader stands in `pop`. -/
inductive RingPop (α : Type) where
  | idle
  /-- `empty` has returned false. -/
  | load
  /-- `inc` sets `buf[pread]` to null next. -/
  | clear (data : α)
  /-- `pread` is next. -/
  | advance (data : α)
deriving DecidableEq, Repr

/-- `SWSR_Ptr_Buffer`, with its two threads; a null pointer is `none`. -/
structure Ring (α : Type) where
  size : Nat
  buf : List (Option α)
  pread : Nat := 0
  pwrite : Nat := 0
  push : RingPush α := .idle
  pop : RingPop α := .idle
  /-- What the calls of `push` and of `pop` have returned. -/
  pushed : List Bool := []
  popped : List (Option α) := []
  /-- The items stored and cleared so far. -/
  acts : List (FifoAct α) := []
deriving DecidableEq, Repr

namespace Ring

variable {α : Type}

/-- The constructor and `init`. -/
def init (size : Nat) : Ring α := { size := size, buf := List.replicate size none }

/-- `buf[i]`. -/
def cell (s : Ring α) (i : Nat) : Option α := s.buf.getD i none

/-- `available`. -/
def available (s : Ring α) : Bool := (s.cell s.pwrite).isNone

/-- `empty`. -/
def empty (s : Ring α) : Bool := (s.cell s.pread).isNone

/-- The next index of the circular buffer. -/
def next (size i : Nat) : Nat := if i + 1 ≥ size then i + 1 - size else i + 1

/-- A turn of the writer; it calls `push` with `data` when it is not in a call. -/
def write (s : Ring α) (data : α) : Ring α :=
  match s.push with
  | .idle =>
    if s.available then { s with push := .store data }
    else { s with pushed := s.pushed ++ [false] }
  | .store data =>
    { s with buf := s.buf.set s.pwrite (some data), push := .advance, acts := s.acts ++ [.put data] }
  | .advance =>
    { s with pwrite := next s.size s.pwrite, push := .idle, pushed := s.pushed ++ [true] }

/-- A turn of the reader; it calls `pop` when it is not in a call. -/
def read (s : Ring α) : Ring α :=
  match s.pop with
  | .idle =>
    if s.empty then { s with popped := s.popped ++ [none] } else { s with pop := .load }
  | .load =>
    match s.cell s.pread with
    | some data => { s with pop := .clear data }
    | none => s  -- there is no other reader that could have cleared it
  | .clear data =>
    { s with buf := s.buf.set s.pread none, pop := .advance data, acts := s.acts ++ [.take data] }
  | .advance data =>
    { s with
      pread := next s.size s.pread, pop := .idle, popped := s.popped ++ [some data] }

/-- Whose turn it is, and what the writer pushes. -/
inductive Turn (α : Type) where
  | writer (data : α)
  | reader
deriving DecidableEq, Repr

/-- The buffer after a turn. -/
def step (s : Ring α) : Turn α → Ring α
  | .writer data => s.write data
  | .reader => s.read

end Ring

end Fix8.Queue
