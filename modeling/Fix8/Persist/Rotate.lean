import Fix8.Lib.Rotation
import Fix8.Codec.Number

/-!
# Rotation of files

`FileLogger::rotate` and `FilePersister::initialise` up to the opening of their files: the files of
earlier generations go to the next number first.
-/

namespace Fix8.Persist

open Lib Codec

/-- The files by name, with their contents. -/
abbrev Files := Dir F8String F8String

/-- `Logger::max_rotation`. -/
def maxRotation : Nat := 1024

/-- `.` and the number of a generation. -/
def generation (ii : Nat) : F8String := ascii "." ++ itoa (ii + 1)

/-- The file is there, or it is made; with `trunc` it is empty. -/
def openFile (d : Files) (name : F8String) (trunc : Bool) : Files :=
  { d with files := fun x =>
      if x = name then (if trunc then some [] else some ((d.files x).getD [])) else d.files x }

/-! ## `FileLogger` -/

/-- The members of a `FileLogger` that `rotate` reads, its flags among them. -/
structure FileLogger where
  pathname : F8String
  rotnum : Nat
  append : Bool
  compress : Bool
deriving DecidableEq, Repr

namespace FileLogger

/-- The extension of a compressed file. -/
def gz (l : FileLogger) : F8String := if l.compress then ascii ".gz" else []

/-- `thislFile`; without `HAVE_COMPRESSION` it is not compressed. -/
def thislFile (haveCompression : Bool) (l : FileLogger) : F8String :=
  if haveCompression then l.pathname ++ l.gz else l.pathname

/-- `rlst`. -/
def rlst (haveCompression : Bool) (l : FileLogger) : List F8String :=
  l.thislFile haveCompression :: (List.range (min l.rotnum maxRotation)).map fun ii =>
    l.pathname ++ generation ii ++ l.gz

/-- Whether files are renamed. -/
def rotates (l : FileLogger) (force : Bool) : Bool := 0 < l.rotnum && (!l.append || force)

/-- `rotate`. -/
def rotate (haveCompression : Bool) (l : FileLogger) (force : Bool) (d : Files) : Option Files := do
  let d ← (if l.rotates force then d.shift [l.rlst haveCompression] l.rotnum else some d)
  return openFile d (l.thislFile haveCompression) (!l.append)

end FileLogger

/-! ## `FilePersister` -/

/-- `CheckAddTrailingSlash`. -/
def checkAddTrailingSlash (src : F8String) : F8String :=
  if src ≠ [] ∧ src.getLast? ≠ some 47 then src ++ [47] else src

/-- The names that `initialise` makes, and the rotation count. -/
structure DbFiles where
  dbDir : F8String
  dbFname : F8String
  rotnum : Nat
deriving DecidableEq, Repr

namespace DbFiles

/-- `_dbFname`. -/
def fname (p : DbFiles) : F8String := checkAddTrailingSlash p.dbDir ++ p.dbFname

/-- `_dbIname`. -/
def iname (p : DbFiles) : F8String := p.fname ++ ascii ".idx"

def dblst (p : DbFiles) : List F8String :=
  p.fname :: (List.range (min p.rotnum maxRotation)).map fun ii => p.fname ++ generation ii

def idxlst (p : DbFiles) : List F8String :=
  p.iname :: (List.range (min p.rotnum maxRotation)).map fun ii =>
    p.fname ++ generation ii ++ ascii ".idx"

/-- `initialise` of a persister that is not open yet, up to the reading of the index. -/
def initialise (p : DbFiles) (purge : Bool) (d : Files) : Option Files := do
  if (d.files p.fname).isNone || purge then
    let d ← (if purge && 0 < p.rotnum then d.shift [p.dblst, p.idxlst] p.rotnum else some d)
    return openFile (openFile d p.fname true) p.iname true
  else return d

end DbFiles

end Fix8.Persist
