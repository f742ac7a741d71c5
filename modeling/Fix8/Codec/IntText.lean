import Fix8.Codec.Field

/-!
# The text of an `int`, step by step

`itoa<int>` and `fast_atoi<int>` with each of their intermediate results: arithmetic that leaves
the range of `int` is undefined. `Field<int>` prints with the first, in base 10, and constructs
from a text with the second.
-/

namespace Fix8.Codec

/-- A result of type `int`. -/
def toInt32 (x : Int) : Option Int :=
  if -2147483648 ≤ x ∧ x ≤ 2147483647 then some x else none

/-! ## `itoa<int>` -/

/-- The table that `itoa` indexes with a remainder of either sign. -/
def itoaTable : F8String :=
  ascii "zyxwvutsrqponmlkjihgfedcba9876543210123456789abcdefghijklmnopqrstuvwxyz"

/-- The character at `35 + rem`. -/
def itoaChar (rem : Int) : Option UInt8 := do
  let index ← toInt32 (35 + rem)
  if index < 0 then none else itoaTable[index.toNat]?

/-- The `do` loop, and the sign behind it: what stands in front of `ptr` in the end. -/
def itoaLoop (tmpValue : Int) : Option F8String := do
  let value := tmpValue.tdiv 10
  let prod ← toInt32 (value * 10)
  let rem ← toInt32 (tmpValue - prod)
  let c ← itoaChar rem
  if _h : value = 0 then pure (c :: if tmpValue < 0 then [45] else [])
  else do
    let rest ← itoaLoop value
    pure (c :: rest)
termination_by tmpValue.natAbs
decreasing_by
  have habs : value.natAbs = tmpValue.natAbs / 10 := Int.natAbs_tdiv tmpValue 10
  omega

/-- The loop that swaps the bytes at `ptr1` and `ptr`, from both ends. -/
def itoaSwap (s : F8String) (ptr1 ptr : Nat) : F8String :=
  if ptr1 < ptr then
    itoaSwap ((s.set ptr (s.getD ptr1 0)).set ptr1 (s.getD ptr 0)) (ptr1 + 1) (ptr - 1)
  else s
termination_by ptr

/-- `itoa<int>` in base 10. -/
def itoaInt32 (value : Int) : Option F8String := do
  let s ← itoaLoop value
  pure (itoaSwap s 0 (s.length - 1))

/-! ## `fast_atoi<int>` -/

/-- `retval = (retval << 3) + (retval << 1) + *str - '0'`. -/
def fastAtoiTurn (retval : Int) (c : UInt8) : Option Int := do
  let shl3 ← toInt32 (retval * 8)
  let shl1 ← toInt32 (retval * 2)
  let sum ← toInt32 (shl3 + shl1)
  let sum ← toInt32 (sum + charVal c)
  toInt32 (sum - 48)

/-- `fast_atoi<int>`. -/
def fastAtoiInt32 (str : F8String) : Option Int := (cstr str).foldlM fastAtoiTurn 0

/-- A value that comes back from its text, without an intermediate result out of range. -/
def IntRoundTrips (v : Int) : Prop :=
  ∃ text, itoaInt32 v = some text ∧ fastAtoiInt32 text = some v

end Fix8.Codec
