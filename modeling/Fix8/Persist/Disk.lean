import Fix8.Persist.Persister
import Fix8.Lib.Bytes

/-!
# Files that fail

`FilePersister` on the bytes of its two files, with the system calls of a `put` that may fail: an
`lseek` does not succeed, a `write` writes less than it should. Reading and the other calls do not
fail.
-/

namespace Fix8.Persist

open Lib Codec

/-- `FilePersister`: the index, the bytes of the index file and those of the data file. -/
structure DiskPersister where
  index : OrdMap Nat Prec
  iod : F8String
  fod : F8String
deriving DecidableEq

/-- What the system calls of a `put` come to: whether the two `lseek`s succeed, and how much the two
`write`s have written, nothing where they fail. -/
structure Outcome where
  seekIndex : Bool
  seekData : Bool
  writeIndex : Option Nat
  writeData : Option Nat
deriving DecidableEq, Repr

/-- All calls of a `put` succeed. -/
def Outcome.success (what : F8String) : Outcome := ⟨true, true, some 16, some what.length⟩

/-- The bytes of an `IPrec`, which is packed. -/
def recordBytes (r : IPrec) : F8String :=
  leBytes 4 r.seq ++ leBytes 8 r.prec.offset ++ leBytes 4 r.prec.size

/-- The `IPrec` whose bytes are given; a negative offset or size is a large one. -/
def record (bytes : F8String) : IPrec :=
  ⟨leNat (bytes.take 4), ⟨leNat ((bytes.drop 4).take 8), leNat (bytes.drop 12)⟩⟩

/-- The loop of `initialise`. A `read` that comes to the end of the file leaves the rest of `iprec`
as it was. -/
def readRecords : Nat → F8String → F8String → List IPrec
  | 0, _, _ => []
  | fuel + 1, iprec, iod =>
    if iod = [] then []
    else
      let iprec := iod.take 16 ++ iprec.drop (iod.take 16).length
      record iprec :: readRecords fuel iprec (iod.drop 16)

/-- The records that `initialise` reads. -/
def records (iod : F8String) : List IPrec := readRecords iod.length (List.replicate 16 0) iod

namespace DiskPersister

/-- `put` of a message. -/
def putMessage (p : DiskPersister) (o : Outcome) (seqnum : Nat) (what : F8String) :
    Bool × DiskPersister :=
  if seqnum = 0 then (false, p)
  else if (p.index.get? seqnum).isSome then (false, p)
  else if o.seekIndex = false then (false, p)
  else if o.seekData = false then (false, p)
  else
    let iprec : IPrec := ⟨seqnum, ⟨p.fod.length, what.length⟩⟩
    let p := { p with iod := p.iod ++ (recordBytes iprec).take (o.writeIndex.getD 0) }
    if o.writeIndex ≠ some 16 then (false, p)
    else
      let p := { p with fod := p.fod ++ what.take (o.writeData.getD 0) }
      if o.writeData ≠ some what.length then (false, p)
      else (true, { p with index := p.index.insert seqnum iprec.prec })

/-- `put` of a control record. -/
def putControl (p : DiskPersister) (senderSeqnum targetSeqnum : Nat) : DiskPersister :=
  let prec : Prec := ⟨senderSeqnum, targetSeqnum⟩
  { p with
    index := FilePersister.indexControl p.index prec
    iod := recordBytes ⟨0, prec⟩ ++ p.iod.drop 16 }

/-- A new persister that `initialise` opens on the files that `p` has closed. -/
def reopen (p : DiskPersister) : DiskPersister :=
  { p with index := FilePersister.reloadIndex (records p.iod) }

/-- The message that an index entry stands for: no `lseek` goes to a negative offset. -/
def read (p : DiskPersister) (prec : Prec) : Option F8String :=
  if 2 ^ 63 ≤ prec.offset then none
  else
    let buff := (p.fod.drop prec.offset).take prec.size
    if buff.length = prec.size then some buff else none

/-- `get` of a message, into a buffer of `maxMsgLength` bytes. -/
def getMessage (p : DiskPersister) (seqnum : Nat) : Reply :=
  if seqnum = 0 then .message none
  else
    match p.index.get? seqnum with
    | none => .message none
    | some prec => if prec.size > maxMsgLength then .undefined else .message (p.read prec)

/-- `get` of the control record. -/
def getControl (p : DiskPersister) : Option (Nat × Nat) :=
  (p.index.get? 0).map fun prec => (prec.offset % 4294967296, prec.size)

end DiskPersister

/-- What a persister is asked for while nothing fails. -/
inductive Step where
  | putMessage (seqnum : Nat) (what : F8String)
  | putControl (senderSeqnum targetSeqnum : Nat)
  | reopen
deriving DecidableEq, Repr

/-- The persister after a step. -/
def DiskPersister.step (p : DiskPersister) : Step → DiskPersister
  | .putMessage seqnum what => (p.putMessage (.success what) seqnum what).2
  | .putControl senderSeqnum targetSeqnum => p.putControl senderSeqnum targetSeqnum
  | .reopen => p.reopen

end Fix8.Persist
