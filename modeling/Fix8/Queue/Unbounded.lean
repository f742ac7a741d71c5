import Fix8.Lib.Fifo
import Fix8.Lib.Run
import Mathlib.Logic.Function.Basic

/-!
# The unbounded buffer of one writer and one reader

`ff::uSWSR_Ptr_Buffer`: a chain of bounded buffers. The writer appends a buffer to the chain when
the last one is full, the reader leaves the first one when it is empty, and hands it back for use
again through a cache. A turn of a thread is one operation on what the two share: a bounded buffer
(`Fix8.Queue.Ring`), the list of the buffers in use, the cache, or the pointer `buf_w`.
-/

namespace Fix8.Queue

open Lib

/-- `CACHE_SIZE`. -/
def cacheSize : Nat := 32

/-- Where the writer stands in `push(data)`. -/
inductive UnboundedPush (α : Type) where
  | idle
  /-- `available` has returned false; `pool.next_w` takes a buffer from the cache next. -/
  | fetch (data : α)
  /-- `pool.next_w` pushes the buffer to `inuse` next. -/
  | enlist (data : α) (buf : Nat)
  /-- `buf_w` is set next. -/
  | switch (data : α) (buf : Nat)
  /-- `buf_w->push(data)` is next. -/
  | store (data : α)
deriving DecidableEq, Repr

/-- Where the reader stands in `pop`. -/
inductive UnboundedPop where
  | idle
  /-- `buf_r->empty()` has returned true; `buf_w` is compared next. `wasEmpty` says whether there
  was no item at all. -/
  | compare (wasEmpty : Bool)
  /-- `buf_w` is another buffer; `buf_r->empty()` is asked again. -/
  | recheck
  /-- `pool.next_r` is next. -/
  | fetch
  /-- `pool.release(buf_r)` is next, and `buf` is the next buffer. -/
  | release (buf : Nat)
  /-- `buf_r` is set next. -/
  | adopt (buf : Nat)
  /-- `buf_r->pop(data)` is next. -/
  | take
deriving DecidableEq, Repr

/-- `uSWSR_Ptr_Buffer`, with its two threads. A bounded buffer is known by a number, and `bufs` are
the items in each. -/
structure Unbounded (α : Type) where
  size : Nat
  bufs : Nat → List α
  bufR : Nat
  bufW : Nat
  inuse : List Nat := []
  bufcache : List Nat := []
  /-- The buffer that the next `malloc` gives. -/
  fresh : Nat
  push : UnboundedPush α := .idle
  pop : UnboundedPop := .idle
  /-- What the calls of `pop` have returned. -/
  popped : List (Option α) := []
  /-- The items stored and taken so far. -/
  acts : List (FifoAct α) := []

namespace Unbounded

variable {α : Type}

/-- The constructor and `init`. -/
def init (size : Nat) : Unbounded α :=
  { size := size, bufs := fun _ => [], bufR := 0, bufW := 0, fresh := 1 }

/-- The buffers from the reader's to the last one. -/
def chain (s : Unbounded α) : List Nat :=
  match s.pop with
  | .release buf => s.bufR :: buf :: s.inuse
  | .adopt buf => buf :: s.inuse
  | _ => s.bufR :: s.inuse

/-- What the buffers hold. -/
def items (s : Unbounded α) : List α := s.chain.flatMap s.bufs

/-- `available`. -/
def available (s : Unbounded α) : Bool := (s.bufs s.bufW).length < s.size

/-- A turn of the writer; it calls `push` with `data` when it is not in a call. -/
def write (s : Unbounded α) (data : α) : Unbounded α :=
  match s.push with
  | .idle =>
    if s.available then { s with push := .store data } else { s with push := .fetch data }
  | .fetch data =>
    match s.bufcache with
    | buf :: rest => { s with bufcache := rest, push := .enlist data buf }
    | [] =>
      { s with
        bufs := Function.update s.bufs s.fresh [], fresh := s.fresh + 1
        push := .enlist data s.fresh }
  | .enlist data buf => { s with inuse := s.inuse ++ [buf], push := .switch data buf }
  | .switch data buf => { s with bufW := buf, push := .store data }
  | .store data =>
    -- the result of this `push` is not looked at
    if (s.bufs s.bufW).length < s.size then
      { s with
        bufs := Function.update s.bufs s.bufW (s.bufs s.bufW ++ [data]), push := .idle
        acts := s.acts ++ [.put data] }
    else { s with push := .idle }

/-- A turn of the reader; it calls `pop` when it is not in a call. -/
def read (s : Unbounded α) : Unbounded α :=
  match s.pop with
  | .idle =>
    if (s.bufs s.bufR).isEmpty then { s with pop := .compare s.items.isEmpty }
    else { s with pop := .take }
  | .compare _ =>
    if s.bufR = s.bufW then { s with pop := .idle, popped := s.popped ++ [none] }
    else { s with pop := .recheck }
  | .recheck =>
    if (s.bufs s.bufR).isEmpty then { s with pop := .fetch } else { s with pop := .take }
  | .fetch =>
    match s.inuse with
    | buf :: rest => { s with inuse := rest, pop := .release buf }
    | [] => { s with pop := .take }
  | .release buf =>
    { s with
      bufs := Function.update s.bufs s.bufR []
      bufcache :=
        if s.bufcache.length < cacheSize then s.bufcache ++ [s.bufR] else s.bufcache
      pop := .adopt buf }
  | .adopt buf => { s with bufR := buf, pop := .take }
  | .take =>
    match s.bufs s.bufR with
    | data :: rest =>
      { s with
        bufs := Function.update s.bufs s.bufR rest, pop := .idle
        popped := s.popped ++ [some data], acts := s.acts ++ [.take data] }
    | [] => { s with pop := .idle, popped := s.popped ++ [none] }

/-- Whose turn it is, and what the writer pushes. -/
inductive Turn (α : Type) where
  | writer (data : α)
  | reader
deriving DecidableEq, Repr

/-- The buffer after a turn. -/
def step (s : Unbounded α) : Turn α → Unbounded α
  | .writer data => s.write data
  | .reader => s.read

end Unbounded

end Fix8.Queue
