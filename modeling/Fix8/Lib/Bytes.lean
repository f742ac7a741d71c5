import Mathlib.Data.Nat.Digits.Defs

/-!
# Numbers as bytes

The little-endian bytes of a number and the number of some bytes.

* `leNat_leBytes`: a number comes back up to what its bytes hold;
* `leNat_append`: what stands further on weighs more.
-/

namespace Lib

/-- The `k` low bytes of a number, the lowest first. -/
def leBytes : Nat → Nat → List UInt8
  | 0, _ => []
  | k + 1, n => UInt8.ofNat (n % 256) :: leBytes k (n / 256)

/-- The number whose bytes are given, the lowest first. -/
def leNat (bytes : List UInt8) : Nat := Nat.ofDigits 256 (bytes.map UInt8.toNat)

@[simp] theorem leBytes_length {k n : Nat} : (leBytes k n).length = k := by
  induction k generalizing n with
  | zero => rfl
  | succ k ih => rw [leBytes, List.length_cons, ih]

theorem leNat_cons {b : UInt8} {bytes : List UInt8} :
    leNat (b :: bytes) = b.toNat + 256 * leNat bytes := by
  rw [leNat, List.map_cons, Nat.ofDigits_cons]
  rfl

theorem leNat_append {l l' : List UInt8} :
    leNat (l ++ l') = leNat l + 256 ^ l.length * leNat l' := by
  rw [leNat, List.map_append, Nat.ofDigits_append, List.length_map]
  rfl

theorem leNat_leBytes {k n : Nat} : leNat (leBytes k n) = n % 256 ^ k := by
  induction k generalizing n with
  | zero => rw [leBytes, Nat.pow_zero, Nat.mod_one]; rfl
  | succ k ih =>
    have hlow : (UInt8.ofNat (n % 256)).toNat = n % 256 := by
      rw [UInt8.toNat_ofNat']
      omega
    rw [leBytes, leNat_cons, ih, hlow, Nat.pow_succ', Nat.mod_mul]

end Lib
