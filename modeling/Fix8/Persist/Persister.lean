import Fix8.Codec.Number
import Fix8.Lib.OrdMap

/-!
# Persisters

`MemoryPersister` and an opened `FilePersister`, on bytes: messages are stored under their
sequence numbers, the control record under 0. No call to the operating system fails here.
-/

namespace Fix8.Persist

open Lib Codec

/-- The loop of `find_nearest_highest_seqnum`, whose `unsigned` wraps; `fuel` turns, none of which
repeats a number while there are at most 2^32. -/
def search (found : Nat → Bool) (last : Nat) : Nat → Nat → Option Nat
  | 0, _ => none
  | fuel + 1, startseqnum =>
    if startseqnum ≤ last then
      if found startseqnum then some startseqnum
      else search found last fuel ((startseqnum + 1) % 4294967296)
    else some 0

/-- `find_nearest_highest_seqnum`; `none` when it does not return. -/
def findNearestHighestSeqnum {α : Type} (m : OrdMap Nat α) (requested last : Nat) : Option Nat :=
  if last ≠ 0 then search (fun k => (m.get? k).isSome) last 4294967296 requested else some 0

/-- `get_last_seqnum`. -/
def getLastSeqnum {α : Type} (m : OrdMap Nat α) : Nat := m.lastKey?.getD 0

/-- A call of a persister. -/
inductive Call where
  | putMessage (seqnum : Nat) (what : F8String)
  | putControl (senderSeqnum targetSeqnum : Nat)
  | getMessage (seqnum : Nat)
  | getControl
  | getLastSeqnum
  | findNearestHighestSeqnum (requested last : Nat)
deriving DecidableEq, Repr

/-- What a call returns: its result with what it assigned, nothing when it does not return, or
`undefined` when it overruns its buffer. -/
inductive Reply where
  | flag (b : Bool)
  | message (what : Option F8String)
  | control (seqnums : Option (Nat × Nat))
  | number (n : Option Nat)
  | undefined
deriving DecidableEq, Repr

/-! ## In memory -/

/-- The bytes of an `unsigned`. -/
def wordBytes (n : Nat) : F8String :=
  [n, n / 256, n / 65536, n / 16777216].map fun d => UInt8.ofNat (d % 256)

/-- `MemoryPersister`. `words` is what the first two words of the `std::string` object that holds
the control record contain. -/
structure MemoryPersister where
  store : OrdMap Nat F8String
  words : Nat × Nat

namespace MemoryPersister

/-- `_store.insert`, with its `second`. -/
def insert (p : MemoryPersister) (key : Nat) (what : F8String) : Bool × MemoryPersister :=
  ((p.store.get? key).isNone, { p with store := p.store.insert key what })

/-- `put` of a message. -/
def putMessage (p : MemoryPersister) (seqnum : Nat) (what : F8String) : Bool × MemoryPersister :=
  if seqnum = 0 then (false, p) else p.insert seqnum what

/-- `put` of a control record. -/
def putControl (p : MemoryPersister) (senderSeqnum targetSeqnum : Nat) :
    Bool × MemoryPersister :=
  p.insert 0 (wordBytes senderSeqnum ++ wordBytes targetSeqnum)

/-- `get` of a message. -/
def getMessage (p : MemoryPersister) (seqnum : Nat) : Option F8String :=
  if seqnum = 0 then none else p.store.get? seqnum

/-- `get` of the control record. -/
def getControl (p : MemoryPersister) : Option (Nat × Nat) := (p.store.get? 0).map fun _ => p.words

/-- The callback of a `get` of a range: a record, or the call with `_no_more_records`. It may use
the persister. -/
abbrev Callback (σ : Type) :=
  Nat × F8String → Bool → σ × MemoryPersister → Bool × (σ × MemoryPersister)

/-- The loop of `get` of a range with the iterator at `key`; keys only grow, so `finish + 1` turns
are enough. -/
def rangeLoop {σ : Type} (callback : Callback σ) (finish : Nat) :
    Nat → Nat → Nat → σ × MemoryPersister → Nat × (σ × MemoryPersister)
  | 0, _, recsSent, s => (recsSent, s)
  | fuel + 1, key, recsSent, s =>
    match s.2.store.get? key with
    | none => (recsSent, s)
    | some what =>
      if key = 0 ∨ finish < key then (recsSent, s)
      else
        let r := callback (key, what) false s
        if !r.1 then (recsSent + 1, r.2)
        else
          match r.2.2.store.next? key with
          | none => (recsSent + 1, r.2)
          | some key' => rangeLoop callback finish fuel key' (recsSent + 1) r.2

/-- `get` of a range, with the number of records that it has handed out. -/
def getRange {σ : Type} (callback : Callback σ) (first last : Nat) (s : σ × MemoryPersister) :
    Option (Nat × (σ × MemoryPersister)) :=
  let lastSeq := Persist.getLastSeqnum s.2.store
  let finish := if last = 0 then lastSeq else last
  match Persist.findNearestHighestSeqnum s.2.store first lastSeq with
  | none => none
  | some startSeqNum =>
    if startSeqNum = 0 ∨ first > finish then some (0, (callback (0, []) true s).2)
    else
      let r := rangeLoop callback finish (finish + 1) startSeqNum 0 s
      some (r.1, (callback (0, []) true r.2).2)

/-- The calls of a `MemoryPersister`. -/
def call (p : MemoryPersister) : Call → Reply × MemoryPersister
  | .putMessage seqnum what => (.flag (p.putMessage seqnum what).1, (p.putMessage seqnum what).2)
  | .putControl sender target => (.flag (p.putControl sender target).1, (p.putControl sender target).2)
  | .getMessage seqnum => (.message (p.getMessage seqnum), p)
  | .getControl => (.control p.getControl, p)
  | .getLastSeqnum => (.number (some (Persist.getLastSeqnum p.store)), p)
  | .findNearestHighestSeqnum requested last =>
    (.number (Persist.findNearestHighestSeqnum p.store requested last), p)

end MemoryPersister

/-! ## In files -/

/-- `Prec`: where a message is in the data file, or the two numbers of the control record. -/
structure Prec where
  offset : Nat
  size : Nat
deriving DecidableEq, Repr

/-- `IPrec`, a record of the index file. -/
structure IPrec where
  seq : Nat
  prec : Prec
deriving DecidableEq, Repr

/-- `FilePersister`: the index, the index file as its records, and the data file. -/
structure FilePersister where
  index : OrdMap Nat Prec
  iod : List IPrec
  fod : F8String

namespace FilePersister

/-- A write at the start of the index file. -/
def writeFirst (r : IPrec) : List IPrec → List IPrec
  | [] => [r]
  | _ :: iod => r :: iod

/-- The message that an index entry stands for. -/
def read (p : FilePersister) (prec : Prec) : Option F8String :=
  let buff := (p.fod.drop prec.offset).take prec.size
  if buff.length = prec.size then some buff else none

/-- `put` of a message. -/
def putMessage (p : FilePersister) (seqnum : Nat) (what : F8String) : Bool × FilePersister :=
  if seqnum = 0 ∨ (p.index.get? seqnum).isSome then (false, p)
  else
    let prec : Prec := ⟨p.fod.length, what.length⟩
    (true, ⟨p.index.insert seqnum prec, p.iod ++ [⟨seqnum, prec⟩], p.fod ++ what⟩)

/-- The index entry of the control record. -/
def indexControl (index : OrdMap Nat Prec) (prec : Prec) : OrdMap Nat Prec :=
  if (index.get? 0).isNone then index.insert 0 prec else index.replace 0 prec

/-- `put` of a control record. -/
def putControl (p : FilePersister) (senderSeqnum targetSeqnum : Nat) : Bool × FilePersister :=
  let prec : Prec := ⟨senderSeqnum, targetSeqnum⟩
  (true, { p with index := indexControl p.index prec, iod := writeFirst ⟨0, prec⟩ p.iod })

/-- `get` of a message, into a buffer of `maxMsgLength` bytes. -/
def getMessage (p : FilePersister) (seqnum : Nat) : Reply :=
  if seqnum = 0 then .message none
  else
    match p.index.get? seqnum with
    | none => .message none
    | some prec => if prec.size > maxMsgLength then .undefined else .message (p.read prec)

/-- `get` of the control record. -/
def getControl (p : FilePersister) : Option (Nat × Nat) :=
  (p.index.get? 0).map fun prec => (prec.offset, prec.size)

/-- The calls of an opened `FilePersister`. -/
def call (p : FilePersister) : Call → Reply × FilePersister
  | .putMessage seqnum what => (.flag (p.putMessage seqnum what).1, (p.putMessage seqnum what).2)
  | .putControl sender target => (.flag (p.putControl sender target).1, (p.putControl sender target).2)
  | .getMessage seqnum => (p.getMessage seqnum, p)
  | .getControl => (.control p.getControl, p)
  | .getLastSeqnum => (.number (some (Persist.getLastSeqnum p.index)), p)
  | .findNearestHighestSeqnum requested last =>
    (.number (Persist.findNearestHighestSeqnum p.index requested last), p)

/-! ### Ranges -/

/-- The callback of a `get` of a range: a record, or the call with `_no_more_records`. It may use
the persister. -/
abbrev Callback (σ : Type) :=
  Nat × F8String → Bool → σ × FilePersister → Bool × (σ × FilePersister)

/-- The loop of `get` of a range with the iterator at `key`; keys only grow, so `finish + 1` turns
are enough. Nothing is returned when a record overruns the buffer. -/
def rangeLoop {σ : Type} (callback : Callback σ) (finish : Nat) :
    Nat → Nat → Nat → σ × FilePersister → Option (Nat × (σ × FilePersister))
  | 0, _, recsSent, s => some (recsSent, s)
  | fuel + 1, key, recsSent, s =>
    match s.2.index.get? key with
    | none => some (recsSent, s)
    | some prec =>
      if key = 0 ∨ finish < key then some (recsSent, s)
      else if prec.size > maxMsgLength then none
      else
        match s.2.read prec with
        | none => some (recsSent, s)
        | some what =>
          let r := callback (key, what) false s
          if !r.1 then some (recsSent + 1, r.2)
          else
            match r.2.2.index.next? key with
            | none => some (recsSent + 1, r.2)
            | some key' => rangeLoop callback finish fuel key' (recsSent + 1) r.2

/-- `get` of a range, with the number of records that it has handed out. -/
def getRange {σ : Type} (callback : Callback σ) (first last : Nat) (s : σ × FilePersister) :
    Option (Nat × (σ × FilePersister)) :=
  let lastSeq := Persist.getLastSeqnum s.2.index
  let finish := if last = 0 then lastSeq else last
  match Persist.findNearestHighestSeqnum s.2.index first lastSeq with
  | none => none
  | some startSeqNum =>
    if startSeqNum = 0 ∨ first > finish then some (0, (callback (0, []) true s).2)
    else
      (rangeLoop callback finish (finish + 1) startSeqNum 0 s).map fun r =>
        (r.1, (callback (0, []) true r.2).2)

/-! ### Reopening -/

/-- The index that `initialise` makes of an existing index file: `insert` ignores a record whose key
is there. -/
def reloadIndex (iod : List IPrec) : OrdMap Nat Prec :=
  iod.foldl (fun index iprec => index.insert iprec.seq iprec.prec) OrdMap.empty

/-- A new `FilePersister` that `initialise` opens, without `purge`, on the files that `p` has
closed. -/
def reload (p : FilePersister) : FilePersister := { p with index := reloadIndex p.iod }

end FilePersister

end Fix8.Persist
