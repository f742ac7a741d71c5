import Fix8.Codec.Number

/-!
# Checksums

The two versions of `Message::calc_chksum`, selected when the library is configured. `calcChksum`
is the one for 64-bit words on the bytes that it is to add up; `chksumWords` and `chksumBytes` are
the two with their arguments, where `none` for `len` stands for -1 and `none` as the result for a
read outside the string.
-/

namespace Fix8.Codec

/-- `COLLAPSE_INT64`. -/
def collapse (x : UInt64) : UInt64 :=
  x + (x >>> 8) + (x >>> 16) + (x >>> 24) + (x >>> 32) + (x >>> 40) + (x >>> 48) + (x >>> 56)

/-- `OVERFLOW_MASK`. -/
def overflowMask : UInt64 := 0x0101010101010100

/-- A `char` that is added to an `unsigned long`. -/
def charWord (c : UInt8) : UInt64 := c.toInt8.toInt64.toUInt64

/-- The eight bytes at an address as an `unsigned long`. -/
def wordAt (a b c d e f g h : UInt8) : UInt64 :=
  a.toUInt64 ||| b.toUInt64 <<< 8 ||| c.toUInt64 <<< 16 ||| d.toUInt64 <<< 24 |||
    e.toUInt64 <<< 32 ||| f.toUInt64 <<< 40 ||| g.toUInt64 <<< 48 ||| h.toUInt64 <<< 56

/-- The loops of `calc_chksum`: eight bytes at a time, where `overflow` counts the carries between
the byte lanes, then the rest one by one. -/
def calcChksumFrom (ret overflow : UInt64) : F8String → Nat
  | a :: b :: c :: d :: e :: f :: g :: h :: rest =>
    let word := wordAt a b c d e f g h
    let expectedOverflow := (ret &&& overflowMask) ^^^ (overflowMask &&& word)
    let ret := ret + word
    calcChksumFrom ret (overflow + ((expectedOverflow ^^^ ret) &&& overflowMask)) rest
  | rest =>
    let ret := rest.foldl (fun ret c => ret + charWord c) (collapse ret)
    ((ret - collapse overflow) &&& 0xff).toNat

/-- `calc_chksum` on the bytes that its arguments select. -/
def calcChksum (text : F8String) : Nat := calcChksumFrom 0 0 text

/-- `calc_chksum` for 64-bit words. -/
def chksumWords (text : F8String) (offset : Nat) (len : Option Nat) : Option Nat :=
  let elen := len.getD text.length
  if text.length < offset + elen then none else some (calcChksum ((text.drop offset).take elen))

/-- The native `calc_chksum`, up to `eptr`. -/
def chksumBytes (text : F8String) (offset : Nat) (len : Option Nat) : Option Nat :=
  let eptr := len.elim (text.length - offset) (· + offset)
  if text.length < eptr then none
  else
    let val := ((text.take eptr).drop offset).foldl
      (fun (val : UInt32) c => val + c.toInt8.toInt32.toUInt32) 0
    some (val % 256).toNat

end Fix8.Codec
