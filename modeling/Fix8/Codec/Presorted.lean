import Fix8.Codec.Traits
import Fix8.Lib.LowerBound

/-!
# Presorted sets

`presorted_set`: a sorted array on the heap, searched by halving, with room for more elements behind
those it has. `Presence` is its specialisation for traits, which may find them through a
`FieldTrait_Hash_Array`. An operation without a result is one that reads or writes where it may not.
-/

namespace Fix8.Codec

open Lib

/-! ## Memory -/

/-- An array on the heap, by the number of its allocation; `new` leaves its elements unset. -/
structure Block (α : Type) where
  id : Nat
  cells : List (Option α)

/-- A pointer to an element of an array. -/
structure Pointer where
  block : Nat
  index : Nat
deriving DecidableEq

namespace Block

variable {α : Type}

/-- `new` of `n` elements. -/
def new (id n : Nat) : Block α := ⟨id, List.replicate n none⟩

/-- The element at an index. -/
def read (b : Block α) (i : Nat) : Option α := b.cells[i]?.join

/-- What `memcpy` and `memmove` take from the array. -/
def slice (b : Block α) (i n : Nat) : Option (List (Option α)) :=
  if i + n ≤ b.cells.length then some ((b.cells.drop i).take n) else none

/-- What they do to the array they write. -/
def write (b : Block α) (i : Nat) (xs : List (Option α)) : Option (Block α) :=
  if i + xs.length ≤ b.cells.length then
    some { b with cells := b.cells.take i ++ xs ++ b.cells.drop (i + xs.length) }
  else none

end Block

/-! ## Sets -/

/-- `presorted_set`; `_rsz` is left unset by the constructor with a hash array, and `_arr` may be a
null pointer. -/
structure PresortedSet (α : Type) where
  reserve : Nat
  sz : Nat
  rsz : Option Nat
  arr : Option (Block α)

namespace PresortedSet

variable {α κ : Type} [LinearOrder κ]

/-- `calc_reserve`. -/
def calcReserve (sz res : Nat) : Nat :=
  if sz = 0 then res
  else
    let val := sz * res % 18446744073709551616 / 100
    if val ≠ 0 then val else 1

/-- The constructor from a static sorted array. -/
def ofStatic (arrStart : List α) (reserve : Nat) : PresortedSet α where
  reserve := reserve
  sz := arrStart.length
  rsz := some (arrStart.length + calcReserve arrStart.length reserve)
  arr := some ⟨0, arrStart.map some ++ List.replicate (calcReserve arrStart.length reserve) none⟩

/-- The constructor that defers the allocation. -/
def ofSize (sz reserve : Nat) : PresortedSet α := ⟨reserve, sz, some (sz + calcReserve sz reserve), none⟩

/-- `clear`. -/
def clear (s : PresortedSet α) : PresortedSet α := { s with sz := 0 }

/-- The element at an index of `_arr`. -/
def read (s : PresortedSet α) (i : Nat) : Option α := s.arr.bind (·.read i)

/-- The number of the next allocation. -/
def nextId (s : PresortedSet α) : Nat := s.arr.elim 0 (·.id + 1)

/-- `std::equal_range` over the elements, which `Comp` compares by their keys. -/
def equalRange (key : α → κ) (s : PresortedSet α) (what : κ) : Option (Nat × Nat) := do
  let first ← partitionPointM s.read (fun x => key x < what) s.sz
  let last ← partitionPointM s.read (fun x => ¬ what < key x) s.sz
  some (first, last)

/-- `find` with an answer: where the element is, or where it would be inserted. -/
def findAnswer (key : α → κ) (s : PresortedSet α) (what : κ) : Option (Option Nat × Bool) := do
  let (first, last) ← s.equalRange key what
  some (some first, first ≠ last)

/-- The other `find`s: `none` is `end()`. -/
def find (key : α → κ) (s : PresortedSet α) (what : κ) : Option (Option Nat) := do
  let (first, last) ← s.equalRange key what
  some (if first ≠ last then some first else none)

/-- `insert` of one element, with the `find` of the class, which may deliver a null pointer. -/
def insertWith (find : α → Option (Option Nat × Bool)) (s : PresortedSet α) (what : α) :
    Option (PresortedSet α × Pointer × Bool) :=
  if s.sz = 0 then do
    let rsz ← s.rsz
    let arr ← (Block.new s.nextId rsz).write 0 [some what]
    some ({ s with arr := some arr, sz := s.sz + 1 }, ⟨arr.id, 0⟩, true)
  else do
    let (found, answer) ← find what
    let arr ← s.arr
    if answer then some (s, ⟨arr.id, s.sz⟩, false)
    else do
      let wptr ← found
      let rsz ← s.rsz
      if s.sz < rsz then do
        let arr ← arr.write (wptr + 1) (← arr.slice wptr (s.sz - wptr))
        let arr ← arr.write wptr [some what]
        some ({ s with arr := some arr, sz := s.sz + 1 }, ⟨arr.id, wptr⟩, true)
      else do
        let rsz := s.sz + calcReserve s.sz s.reserve
        let newArr := Block.new s.nextId rsz
        let newArr ← (if 0 < wptr then (arr.slice 0 wptr).bind (newArr.write 0) else some newArr)
        let newArr ← newArr.write wptr [some what]
        let newArr ← newArr.write (wptr + 1) (← arr.slice wptr (s.sz - wptr))
        -- `where` is returned, which points into the array that has been deleted
        some ({ s with rsz := some rsz, arr := some newArr, sz := s.sz + 1 }, ⟨arr.id, wptr⟩, true)

/-- `insert` of a range, with the `insert` of the class. -/
def insertRangeWith {σ : Type} (insert : σ → α → Option (σ × Pointer × Bool)) (s : σ) :
    List α → Option σ
  | [] => some s
  | what :: rest => do
    let (s, _, inserted) ← insert s what
    if inserted then insertRangeWith insert s rest else some s

/-- `insert`. -/
def insert (key : α → κ) (s : PresortedSet α) (what : α) :
    Option (PresortedSet α × Pointer × Bool) :=
  s.insertWith (fun what => s.findAnswer key (key what)) what

/-- `insert` of a range. -/
def insertRange (key : α → κ) (s : PresortedSet α) (range : List α) : Option (PresortedSet α) :=
  insertRangeWith (insert key) s range

end PresortedSet

/-! ## Traits -/

/-- `FieldTrait_Hash_Array`. -/
structure FieldTraitHashArray where
  els : Nat
  sz : Nat
  arr : List Nat

namespace FieldTraitHashArray

/-- The loop of the constructor; an offset is an `unsigned short`. -/
def fill (arr : List Nat) : Nat → List FieldTrait → Option (List Nat)
  | _, [] => some arr
  | offset, t :: rest =>
    if t.fnum < arr.length then fill (arr.set t.fnum (offset % 65536)) (offset + 1) rest else none

/-- The constructor. -/
def create (table : List FieldTrait) : Option FieldTraitHashArray := do
  let last ← table.getLast?
  let sz := last.fnum + 1
  let arr ← fill (List.replicate sz 0) 0 table
  some ⟨table.length, sz, arr⟩

end FieldTraitHashArray

/-- The specialisation of `presorted_set` for `FieldTrait`. -/
structure Presence where
  set : PresortedSet FieldTrait
  ftha : Option FieldTraitHashArray

/-- The constructor of `FieldTrait` from a tag. -/
def FieldTrait.ofTag (field : Nat) : FieldTrait := { fnum := field, pos := 0 }

namespace Presence

/-- The constructor with a hash array. -/
def ofHashed (arrStart : List FieldTrait) (ftha : FieldTraitHashArray) : Presence where
  set := ⟨0, arrStart.length, none, some ⟨0, arrStart.map some⟩⟩
  ftha := some ftha

/-- The constructor from a static sorted array. -/
def ofStatic (arrStart : List FieldTrait) (reserve : Nat) : Presence := ⟨.ofStatic arrStart reserve, none⟩

/-- The constructor that defers the allocation. -/
def ofSize (sz reserve : Nat) : Presence := ⟨.ofSize sz reserve, none⟩

/-- The test of a tag in the hash array: where its trait is. -/
def hashed (p : Presence) (ftha : FieldTraitHashArray) (field : Nat) : Option (Option Nat) :=
  if field < ftha.sz then do
    let slot ← ftha.arr[field]?
    let t ← p.set.read slot
    some (if t.fnum = field then some slot else none)
  else some none

/-- The body that three of the `find`s have in common: `none` is `end()`. -/
def lookup (p : Presence) (field : Nat) : Option (Option Nat) :=
  match p.ftha with
  | some ftha => p.hashed ftha field
  | none => p.set.find FieldTrait.fnum field

/-- `find(const FieldTrait what, bool& answer)`. -/
def findAnswer (p : Presence) (what : FieldTrait) : Option (Option Nat × Bool) :=
  match p.ftha with
  | some ftha => (p.hashed ftha what.fnum).map fun found => (found, found.isSome)
  | none => p.set.findAnswer FieldTrait.fnum what.fnum

/-- `find(const unsigned short key, bool& answer)`. -/
def findAnswerKey (p : Presence) (key : Nat) : Option (Option Nat × Bool) :=
  p.findAnswer (.ofTag key)

/-- `find(const unsigned short key) const`. -/
def findKeyConst (p : Presence) (key : Nat) : Option (Option Nat) := p.lookup key

/-- `find(const FieldTrait what) const`. -/
def findConst (p : Presence) (what : FieldTrait) : Option (Option Nat) := p.lookup what.fnum

/-- `find(const unsigned short key)`. -/
def findKey (p : Presence) (key : Nat) : Option (Option Nat) := p.lookup key

/-- `find(const FieldTrait what)`, which has no use for the hash array. -/
def find (p : Presence) (what : FieldTrait) : Option (Option Nat) :=
  p.set.find FieldTrait.fnum what.fnum

/-- `insert`. -/
def insert (p : Presence) (what : FieldTrait) : Option (Presence × Pointer × Bool) :=
  (p.set.insertWith p.findAnswer what).map fun (set, result) => ({ p with set := set }, result)

/-- `insert` of a range; also `FieldTraits::add` of one. -/
def insertRange (p : Presence) (range : List FieldTrait) : Option Presence :=
  PresortedSet.insertRangeWith insert p range

end Presence

end Fix8.Codec
