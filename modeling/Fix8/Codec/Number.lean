import Mathlib.Tactic.Common

/-!
# Text and decimal numbers

The C strings of the codec and its conversions between decimal text and machine integers: none of
them checks its input, and arithmetic wraps at the width of the result.
-/

namespace Fix8.Codec

/-- `f8String`: the bytes of a message or of a value. -/
abbrev F8String := List UInt8

/-- `default_field_separator`, SOH. -/
def fieldSeparator : UInt8 := 1

/-- `default_assignment_separator`, `=`. -/
def assignmentSeparator : UInt8 := 61

/-- `FIX8_MAX_MSG_LENGTH`, as it is configured by default. -/
def maxMsgLength : Nat := 8192

/-- `MAX_MSGTYPE_FIELD_LEN`. -/
def maxMsgtypeFieldLen : Nat := 32

/-- The bytes of an ASCII literal. -/
def ascii (s : String) : F8String := s.toList.map fun c => UInt8.ofNat c.toNat

def isdigit (c : UInt8) : Bool := 48 ≤ c && c ≤ 57

/-- `std::string::find`: where the first occurrence of `what` begins. -/
def findText (what : F8String) : F8String → Option Nat
  | [] => if what.isEmpty then some 0 else none
  | c :: cs => if what.isPrefixOf (c :: cs) then some 0 else (findText what cs).map (· + 1)

/-- What a function that takes a `const char *` sees: the bytes up to the first NUL. -/
def cstr (s : F8String) : F8String := s.takeWhile (· ≠ 0)

/-- The value of a `char`, which is signed. -/
def charVal (c : UInt8) : Int := (c.toNat : Int).bmod 256

/-- `fast_atoi`, before the result is cut to the width of its type. -/
def fastAtoi (str : F8String) : Int :=
  (cstr str).foldl (fun retval c => retval * 10 + (charVal c - 48)) 0

/-- `fast_atoi` with a terminator other than NUL; without one in the text it reads on behind it. -/
def fastAtoiTo (term : UInt8) (str : F8String) : Option Int :=
  if term ∈ str then
    some ((str.takeWhile (· ≠ term)).foldl (fun retval c => retval * 10 + (charVal c - 48)) 0)
  else none

/-- `fast_atoi<unsigned short>`. -/
def fastAtoiU16 (str : F8String) : Nat := (fastAtoi str % 65536).toNat

/-- `fast_atoi<unsigned>`. -/
def fastAtoiU32 (str : F8String) : Nat := (fastAtoi str % 4294967296).toNat

/-- `fast_atoi<int>`. -/
def fastAtoiInt (str : F8String) : Int := (fastAtoi str).bmod 4294967296

/-- `itoa` of an unsigned value. -/
def itoa (n : Nat) : F8String := (Nat.toDigits 10 n).map fun c => UInt8.ofNat c.toNat

/-- `itoa<int>`. -/
def itoaInt (n : Int) : F8String :=
  if n < 0 then 45 :: itoa n.natAbs else itoa n.natAbs

/-- `format0`: the last `width` decimal digits of `data`; of a negative number each character is
`'0'` plus a remainder that is not positive. -/
def format0 (data : Int) : Nat → F8String
  | 0 => []
  | width + 1 =>
    format0 (data.tdiv 10) width ++ [UInt8.ofNat ((data.tmod 10 + 48) % 256).toNat]

/-- `parse_decimal` on the next `len` bytes; past the end of the text stands a NUL. -/
def parseDecimal (s : F8String) (len : Nat) : Int :=
  ((s ++ List.replicate len 0).take len).foldl (fun val c => val * 10 + (charVal c - 48)) 0

end Fix8.Codec
