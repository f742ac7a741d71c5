import Mathlib.Data.Nat.Bitwise
import Mathlib.Tactic.IntervalCases
import Fix8.Codec.Checksum
import Fix8.Lib.Lanes

/-!
# The two checksums

`calcChksumFrom` adds eight byte lanes at a time and counts in a second word, lane by lane, the
carries that it must take back. The count of a lane can itself outgrow its byte: then it spills into
the next lane, and the result is off by what was spilled (`calcChksumFrom_spec`).

* `chksum_correct_iff`: both versions return the sum of the selected bytes modulo 256 exactly when
  the offset is 0 or a length is given, and what the counts spill is a multiple of 256.
* `lanesHold_of_short`: fewer than 2048 bytes never spill.
-/

namespace Fix8.Codec

open Lib Finset

/-- The whole words of a text, from its start. -/
def words : F8String → List Nat
  | a :: b :: c :: d :: e :: f :: g :: h :: rest => (wordAt a b c d e f g h).toNat :: words rest
  | _ => []

/-- The sum of the bytes of a text. -/
def byteSum (text : F8String) : Nat := (text.map UInt8.toNat).sum

/-- What the carry counts of the words spill from lane to lane is a multiple of 256. -/
def LanesHold (text : F8String) : Prop :=
  (∑ k ∈ range 8, spill 256 (laneCarry 256 (words text)) k) % 256 = 0

instance (text : F8String) : Decidable (LanesHold text) :=
  inferInstanceAs (Decidable (_ = _))

/-- The bytes `[offset, offset + len)`, or those to the end of the string. -/
def region (text : F8String) (offset : Nat) (len : Option Nat) : F8String :=
  (text.drop offset).take (len.getD (text.length - offset))

/-! ## The words of a text -/

theorem shiftLeft_toNat (c : UInt8) (k : Nat) (h : k < 8) :
    (c.toUInt64 <<< UInt64.ofNat (8 * k)).toNat = 256 ^ k * c.toNat := by
  have hc := c.toNat_lt
  have hpow : (256 : Nat) ^ k * 256 ≤ 2 ^ 64 := by
    rw [← pow_succ]
    exact Nat.pow_le_pow_right (by omega) (show k + 1 ≤ 8 by omega)
  have hlt : 256 ^ k * c.toNat < 2 ^ 64 :=
    lt_of_lt_of_le (Nat.mul_lt_mul_of_pos_left hc (Nat.pow_pos (by omega))) hpow
  rw [UInt64.toNat_shiftLeft, UInt8.toNat_toUInt64, UInt64.toNat_ofNat',
    Nat.mod_eq_of_lt (by omega : 8 * k < 2 ^ 64), Nat.mod_eq_of_lt (by omega : 8 * k < 64),
    Nat.shiftLeft_eq, pow_mul, mul_comm]
  exact Nat.mod_eq_of_lt hlt

theorem or_shiftLeft_toNat (x : UInt64) (c : UInt8) (k : Nat) (h : k < 8)
    (hx : x.toNat < 256 ^ k) :
    (x ||| c.toUInt64 <<< UInt64.ofNat (8 * k)).toNat = x.toNat + 256 ^ k * c.toNat := by
  rw [UInt64.toNat_or, shiftLeft_toNat c k h, Nat.or_comm]
  rw [show (256 : Nat) ^ k = 2 ^ (8 * k) from (pow_mul 2 8 k).symm] at hx ⊢
  rw [← Nat.two_pow_add_eq_or_of_lt hx, add_comm]

/-- The `k`th byte of a word. -/
def lane (bytes : F8String) (k : Nat) : Nat := (bytes.getD k 0).toNat

theorem lane_lt (bytes : F8String) (k : Nat) : lane bytes k < 256 := UInt8.toNat_lt _

theorem wordAt_toNat (a b c d e f g h : UInt8) :
    (wordAt a b c d e f g h).toNat = pack 256 (lane [a, b, c, d, e, f, g, h]) 8 := by
  have hle := fun k => lane_lt [a, b, c, d, e, f, g, h] k
  have hstep (x : UInt64) (y : UInt8) (k : Nat) (hk : k < 8)
      (hx : x.toNat = pack 256 (lane [a, b, c, d, e, f, g, h]) k)
      (hy : lane [a, b, c, d, e, f, g, h] k = y.toNat) :
      (x ||| y.toUInt64 <<< UInt64.ofNat (8 * k)).toNat =
        pack 256 (lane [a, b, c, d, e, f, g, h]) (k + 1) := by
    have hlt : x.toNat < 256 ^ k := hx ▸ pack_lt _ fun j _ => hle j
    rw [or_shiftLeft_toNat x y k hk hlt, pack_succ, hx, hy, mul_comm]
  have h0 : a.toUInt64.toNat = pack 256 (lane [a, b, c, d, e, f, g, h]) 1 := by
    simp [pack, lane]
  exact hstep _ h 7 (by omega) (hstep _ g 6 (by omega) (hstep _ f 5 (by omega)
    (hstep _ e 4 (by omega) (hstep _ d 3 (by omega) (hstep _ c 2 (by omega)
      (hstep _ b 1 (by omega) h0 rfl) rfl) rfl) rfl) rfl) rfl) rfl

/-- The lanes of a word are its bytes. -/
theorem laneSum_wordAt (a b c d e f g h : UInt8) :
    laneSum 256 8 (wordAt a b c d e f g h).toNat ≡ byteSum [a, b, c, d, e, f, g, h] [MOD 256] := by
  have hpack := laneSum_pack (n := 8) (b := 256) (by omega) (lane [a, b, c, d, e, f, g, h])
  have hspill : ∑ k ∈ range 8, spill 256 (lane [a, b, c, d, e, f, g, h]) k = 0 :=
    sum_eq_zero fun k _ => spill_eq_zero _ fun j _ => lane_lt _ j
  have hbytes : ∑ k ∈ range 8, lane [a, b, c, d, e, f, g, h] k =
      byteSum [a, b, c, d, e, f, g, h] := by
    simp [sum_range_succ, lane, byteSum, add_assoc]
  rwa [← wordAt_toNat, hspill, hbytes, add_zero] at hpack

/-! ## One word -/

/-- The bits of `n` that a sum of distinct powers of two selects, highest first. -/
theorem and_add_two_pow (n m i : Nat) (hm : m < 2 ^ i) :
    n &&& (m + 2 ^ i) = (n &&& m) + (n.testBit i).toNat * 2 ^ i := by
  have hlow : n &&& m < 2 ^ i := lt_of_le_of_lt Nat.and_le_right hm
  have hadd := Nat.two_pow_add_eq_or_of_lt hm 1
  have hand := Nat.two_pow_add_eq_or_of_lt hlow (n.testBit i).toNat
  rw [mul_one] at hadd
  rw [add_comm m, hadd, Nat.and_or_distrib_left, Nat.and_two_pow, mul_comm _ (2 ^ i), add_comm,
    hand, mul_comm]

/-- The bits that the mask selects, one for each lane. -/
theorem overflowMask_and (n : Nat) :
    n &&& overflowMask.toNat =
      pack 256 (fun k => if k = 0 then 0 else (n.testBit (8 * k)).toNat) 8 := by
  have h1 := and_add_two_pow n 0 8 (by omega)
  have h2 := and_add_two_pow n (2 ^ 8) 16 (by omega)
  have h3 := and_add_two_pow n (2 ^ 8 + 2 ^ 16) 24 (by omega)
  have h4 := and_add_two_pow n (2 ^ 8 + 2 ^ 16 + 2 ^ 24) 32 (by omega)
  have h5 := and_add_two_pow n (2 ^ 8 + 2 ^ 16 + 2 ^ 24 + 2 ^ 32) 40 (by omega)
  have h6 := and_add_two_pow n (2 ^ 8 + 2 ^ 16 + 2 ^ 24 + 2 ^ 32 + 2 ^ 40) 48 (by omega)
  have h7 := and_add_two_pow n (2 ^ 8 + 2 ^ 16 + 2 ^ 24 + 2 ^ 32 + 2 ^ 40 + 2 ^ 48) 56 (by omega)
  have hmask : overflowMask.toNat =
      2 ^ 8 + 2 ^ 16 + 2 ^ 24 + 2 ^ 32 + 2 ^ 40 + 2 ^ 48 + 2 ^ 56 := rfl
  rw [Nat.zero_add, Nat.and_zero, Nat.zero_add] at h1
  rw [hmask, h7, h6, h5, h4, h3, h2, h1]
  simp [pack, sum_range_succ]

/-- A bit of the two words and of their sum together is the carry into it. -/
theorem testBit_xor_add (x y : UInt64) (i : Nat) (h : i < 64) :
    (x.toNat.testBit i ^^ (y.toNat.testBit i ^^ (x + y).toNat.testBit i)) =
      decide (2 ^ i ≤ x.toNat % 2 ^ i + y.toNat % 2 ^ i) := by
  have hadd := BitVec.getLsbD_add h x.toBitVec y.toBitVec
  have hsum : (x + y).toNat.testBit i = (x.toBitVec + y.toBitVec).getLsbD i := rfl
  have hx : x.toNat.testBit i = x.toBitVec.getLsbD i := rfl
  have hy : y.toNat.testBit i = y.toBitVec.getLsbD i := rfl
  rw [hsum, hx, hy, hadd]
  cases x.toBitVec.getLsbD i <;> cases y.toBitVec.getLsbD i <;> simp [BitVec.carry]

/-- What the loop adds to `overflow` for a word. -/
def carryBits (ret word : UInt64) : UInt64 :=
  (((ret &&& overflowMask) ^^^ (overflowMask &&& word)) ^^^ (ret + word)) &&& overflowMask

theorem carryBits_toNat (ret word : UInt64) :
    (carryBits ret word).toNat =
      pack 256 (fun k => (ret.toNat % 256 ^ k + word.toNat % 256 ^ k) / 256 ^ k) 8 := by
  rw [carryBits, UInt64.toNat_and, overflowMask_and]
  apply pack_congr
  intro k hk
  rcases Nat.eq_zero_or_pos k with rfl | hpos
  · simp [Nat.mod_one]
  have hmask : overflowMask.toNat.testBit (8 * k) = true := by
    interval_cases k <;> rfl
  have hcarry := testBit_xor_add ret word (8 * k) (by omega)
  rw [show (2 : Nat) ^ (8 * k) = 256 ^ k from pow_mul 2 8 k] at hcarry
  have hbit : (((ret &&& overflowMask) ^^^ (overflowMask &&& word)) ^^^ (ret + word)).toNat.testBit
      (8 * k) = decide (256 ^ k ≤ ret.toNat % 256 ^ k + word.toNat % 256 ^ k) := by
    rw [← hcarry, UInt64.toNat_xor, UInt64.toNat_xor, UInt64.toNat_and, UInt64.toNat_and,
      Nat.testBit_xor, Nat.testBit_xor, Nat.testBit_and, Nat.testBit_and, hmask, Bool.and_true,
      Bool.true_and, Bool.xor_assoc]
  have hlow := Nat.mod_lt ret.toNat (show 0 < 256 ^ k from Nat.pow_pos (by omega))
  have hlow' := Nat.mod_lt word.toNat (show 0 < 256 ^ k from Nat.pow_pos (by omega))
  rw [if_neg (by omega), hbit]
  by_cases hge : 256 ^ k ≤ ret.toNat % 256 ^ k + word.toNat % 256 ^ k
  · rw [decide_eq_true hge, Bool.toNat_true,
      Nat.div_eq_of_lt_le (by omega : 1 * 256 ^ k ≤ _) (by omega)]
  · rw [decide_eq_false hge, Bool.toNat_false, Nat.div_eq_of_lt (by omega)]

/-- What the two accumulators hold after the words `ws`. -/
structure Accumulated (ws : List Nat) (ret overflow : UInt64) : Prop where
  ret : ret.toNat = ws.sum % 256 ^ 8
  overflow : overflow.toNat = pack 256 (laneCarry 256 ws) 8 % 256 ^ 8

theorem Accumulated.nil : Accumulated [] 0 0 :=
  ⟨rfl, by simp [pack, laneCarry_nil]⟩

theorem Accumulated.append {ws : List Nat} {ret overflow : UInt64} (word : UInt64)
    (h : Accumulated ws ret overflow) :
    Accumulated (ws ++ [word.toNat]) (ret + word) (overflow + carryBits ret word) := by
  constructor
  · rw [UInt64.toNat_add, h.ret, List.sum_append, List.sum_singleton]
    exact Nat.mod_add_mod _ _ _
  · have hpack : pack 256 (laneCarry 256 (ws ++ [word.toNat])) 8 =
        pack 256 (laneCarry 256 ws) 8 + (carryBits ret word).toNat := by
      rw [carryBits_toNat, ← pack_add]
      apply pack_congr
      intro k hk
      obtain ⟨d, hd⟩ : ∃ d, 8 = k + d := ⟨8 - k, by omega⟩
      have hmod : ret.toNat % 256 ^ k = ws.sum % 256 ^ k := by
        rw [h.ret, hd, pow_add, Nat.mod_mul_right_mod]
      rw [laneCarry_append (by omega), hmod]
    rw [UInt64.toNat_add, h.overflow, hpack]
    exact Nat.mod_add_mod _ _ _

/-! ## The loops -/

theorem collapse_modEq (x : UInt64) : (collapse x).toNat ≡ laneSum 256 8 x.toNat [MOD 256] := by
  have hshift (k : Nat) (h : k < 8) : (x >>> UInt64.ofNat (8 * k)).toNat = x.toNat / 256 ^ k := by
    rw [UInt64.toNat_shiftRight, UInt64.toNat_ofNat', Nat.mod_eq_of_lt (by omega : 8 * k < 2 ^ 64),
      Nat.mod_eq_of_lt (by omega : 8 * k < 64), Nat.shiftRight_eq_div_pow,
      show (256 : Nat) ^ k = 2 ^ (8 * k) from (pow_mul 2 8 k).symm]
  have h1 := hshift 1 (by omega)
  have h2 := hshift 2 (by omega)
  have h3 := hshift 3 (by omega)
  have h4 := hshift 4 (by omega)
  have h5 := hshift 5 (by omega)
  have h6 := hshift 6 (by omega)
  have h7 := hshift 7 (by omega)
  have hsum : laneSum 256 8 x.toNat = x.toNat + (x >>> 8).toNat + (x >>> 16).toNat +
      (x >>> 24).toNat + (x >>> 32).toNat + (x >>> 40).toNat + (x >>> 48).toNat +
      (x >>> 56).toNat := by
    simp only [laneSum, sum_range_succ, sum_range_zero, Nat.zero_add, pow_zero, Nat.div_one,
      ← h1, ← h2, ← h3, ← h4, ← h5, ← h6, ← h7]
    rfl
  rw [hsum]
  simp only [collapse, UInt64.toNat_add, Nat.ModEq]
  omega

theorem charWord_modEq (c : UInt8) : (charWord c).toNat ≡ c.toNat [MOD 256] := by
  have hall : ∀ n : Fin 256, (charWord (UInt8.ofNat n)).toNat % 256 = n % 256 := by
    decide +kernel
  have h := hall ⟨c.toNat, c.toNat_lt⟩
  rwa [UInt8.ofNat_toNat] at h

theorem foldl_charWord (text : F8String) : ∀ ret : UInt64,
    (text.foldl (fun ret c => ret + charWord c) ret).toNat ≡ ret.toNat + byteSum text
      [MOD 256] := by
  induction text with
  | nil =>
    intro ret
    rfl
  | cons c text ih =>
    intro ret
    have hc := charWord_modEq c
    have hrest := ih (ret + charWord c)
    simp only [Nat.ModEq, List.foldl_cons, UInt64.toNat_add, byteSum, List.map_cons,
      List.sum_cons] at hc hrest ⊢
    omega

theorem sub_modEq (x y : UInt64) : (x - y).toNat + y.toNat ≡ x.toNat [MOD 256] := by
  have h : (x - y + y).toNat = x.toNat := by rw [UInt64.sub_add_cancel]
  rw [UInt64.toNat_add] at h
  have hx := x.toNat_lt
  simp only [Nat.ModEq]
  omega

theorem and_255_toNat (x : UInt64) : (x &&& 0xff).toNat = x.toNat % 256 := by
  rw [UInt64.toNat_and]
  exact Nat.and_two_pow_sub_one_eq_mod x.toNat 8

theorem byteSum_append (s t : F8String) : byteSum (s ++ t) = byteSum s + byteSum t := by
  simp [byteSum]

/-- **The loops of `calc_chksum`**: with the words `ws` accumulated, the result and what their
carry counts and those of the rest spill make up the sum of the bytes. -/
theorem calcChksumFrom_spec (text : F8String) (ret overflow : UInt64) (ws : List Nat)
    (hacc : Accumulated ws ret overflow) :
    calcChksumFrom ret overflow text +
        ∑ k ∈ range 8, spill 256 (laneCarry 256 (ws ++ words text)) k ≡
      (ws.map (laneSum 256 8)).sum + byteSum text [MOD 256] := by
  induction ret, overflow, text using calcChksumFrom.induct generalizing ws with
  | case1 ret overflow a b c d e f g h rest word expected ret' ih =>
    have hword := laneSum_wordAt a b c d e f g h
    have hrest := ih (ws ++ [word.toNat]) (hacc.append word)
    rw [List.append_assoc, List.map_append, List.sum_append] at hrest
    have hsplit : byteSum (a :: b :: c :: d :: e :: f :: g :: h :: rest) =
        byteSum [a, b, c, d, e, f, g, h] + byteSum rest :=
      byteSum_append [a, b, c, d, e, f, g, h] rest
    rw [hsplit]
    calc calcChksumFrom ret overflow (a :: b :: c :: d :: e :: f :: g :: h :: rest) +
          ∑ k ∈ range 8, spill 256
            (laneCarry 256 (ws ++ words (a :: b :: c :: d :: e :: f :: g :: h :: rest))) k
        ≡ (ws.map (laneSum 256 8)).sum + ([word.toNat].map (laneSum 256 8)).sum + byteSum rest
          [MOD 256] := hrest
      _ ≡ (ws.map (laneSum 256 8)).sum + (byteSum [a, b, c, d, e, f, g, h] + byteSum rest)
          [MOD 256] := by
        rw [List.map_singleton, List.sum_singleton, add_assoc]
        exact Nat.ModEq.add_left _ (Nat.ModEq.add_right _ hword)
  | case2 ret overflow rest hshort =>
    have hloop : calcChksumFrom ret overflow rest =
        ((rest.foldl (fun ret c => ret + charWord c) (collapse ret) - collapse overflow) &&&
          0xff).toNat := by
      rw [calcChksumFrom]
      exact hshort
    have hwords : words rest = [] := by
      rw [words]
      exact hshort
    have hret : laneSum 256 8 ret.toNat ≡
        (ws.map (laneSum 256 8)).sum + ∑ k ∈ range 8, laneCarry 256 ws k [MOD 256] := by
      rw [← laneSum_sum (by omega), hacc.ret]
      exact laneSum_mod _
    have hoverflow : laneSum 256 8 overflow.toNat ≡
        ∑ k ∈ range 8, laneCarry 256 ws k + ∑ k ∈ range 8, spill 256 (laneCarry 256 ws) k
          [MOD 256] := by
      rw [hacc.overflow]
      exact (laneSum_mod _).trans (laneSum_pack (by omega) _)
    have hsub := sub_modEq (rest.foldl (fun ret c => ret + charWord c) (collapse ret))
      (collapse overflow)
    have hfold := foldl_charWord rest (collapse ret)
    have hcret := collapse_modEq ret
    have hcov := collapse_modEq overflow
    rw [hloop, hwords, List.append_nil, and_255_toNat]
    simp only [Nat.ModEq] at hret hoverflow hsub hfold hcret hcov ⊢
    omega

theorem calcChksumFrom_lt (text : F8String) (ret overflow : UInt64) :
    calcChksumFrom ret overflow text < 256 := by
  induction ret, overflow, text using calcChksumFrom.induct with
  | case1 ret overflow a b c d e f g h rest word expected ret' ih => exact ih
  | case2 ret overflow rest hshort =>
    rw [calcChksumFrom, and_255_toNat]
    · exact Nat.mod_lt _ (by omega)
    · exact hshort

/-- The word-parallel sum is the sum of the bytes exactly when the counts spill nothing. -/
theorem calcChksum_eq_iff (text : F8String) :
    calcChksum text = byteSum text % 256 ↔ LanesHold text := by
  have hspec := calcChksumFrom_spec text 0 0 [] Accumulated.nil
  have hlt := calcChksumFrom_lt text 0 0
  simp only [List.nil_append, List.map_nil, List.sum_nil, Nat.zero_add, Nat.ModEq] at hspec
  rw [calcChksum, LanesHold]
  constructor
  · intro h
    omega
  · intro h
    omega

/-! ## Short texts -/

theorem words_length_le (text : F8String) : 8 * (words text).length ≤ text.length := by
  induction hn : text.length using Nat.strong_induction_on generalizing text with
  | _ n ih =>
    unfold words
    split
    · next a b c d e f g h rest =>
      simp only [List.length_cons] at hn ⊢
      have hrest := ih rest.length (by omega) rest rfl
      omega
    · exact Nat.zero_le _

/-- Fewer than 2048 bytes never spill: no lane can count 256 carries. -/
theorem lanesHold_of_short (text : F8String) (h : text.length < 2048) : LanesHold text := by
  have hcount (k : Nat) : laneCarry 256 (words text) k < 256 := by
    by_cases hnil : words text = []
    · rw [hnil, laneCarry_nil]
      omega
    · have hlt := laneCarry_lt (k := k) (show 0 < 256 by omega) (words text) hnil
      have hlen := words_length_le text
      omega
  have hzero : ∑ k ∈ range 8, spill 256 (laneCarry 256 (words text)) k = 0 :=
    sum_eq_zero fun k _ => spill_eq_zero _ fun j _ => hcount j
  rw [LanesHold, hzero]

example : ¬ LanesHold (List.replicate 4096 0xff) := by decide +kernel

/-! ## The two versions -/

theorem foldl_native (text : F8String) : ∀ val : UInt32,
    (text.foldl (fun (val : UInt32) c => val + c.toInt8.toInt32.toUInt32) val).toNat ≡
      val.toNat + byteSum text [MOD 256] := by
  have hchar (c : UInt8) : c.toInt8.toInt32.toUInt32.toNat ≡ c.toNat [MOD 256] := by
    have hall : ∀ n : Fin 256,
        (UInt8.ofNat n).toInt8.toInt32.toUInt32.toNat % 256 = n % 256 := by
      decide +kernel
    have h := hall ⟨c.toNat, c.toNat_lt⟩
    rwa [UInt8.ofNat_toNat] at h
  induction text with
  | nil =>
    intro val
    rfl
  | cons c text ih =>
    intro val
    have hc := hchar c
    have hrest := ih (val + c.toInt8.toInt32.toUInt32)
    simp only [Nat.ModEq, List.foldl_cons, UInt32.toNat_add, byteSum, List.map_cons,
      List.sum_cons] at hc hrest ⊢
    omega

/-- The native loop is right for every text, given the region's end. -/
theorem chksumBytes_eq (text : F8String) (offset : Nat) (len : Option Nat)
    (hin : ∀ n ∈ len, offset + n ≤ text.length) (h : offset = 0 ∨ len ≠ none) :
    chksumBytes text offset len = some (byteSum (region text offset len) % 256) := by
  have hregion : (text.take (len.elim (text.length - offset) (· + offset))).drop offset =
      region text offset len := by
    cases len with
    | none =>
      obtain rfl : offset = 0 := by simpa using h
      simp [region]
    | some n => simp [region, List.drop_take]
  have heptr : ¬ text.length < len.elim (text.length - offset) (· + offset) := by
    cases len with
    | none => simp
    | some n =>
      have := hin n rfl
      simp only [Option.elim_some]
      omega
  have hsum := foldl_native (region text offset len) 0
  rw [UInt32.toNat_zero, Nat.zero_add] at hsum
  rw [chksumBytes, if_neg heptr, hregion]
  exact congrArg some hsum

/-- The word-parallel version reads inside the string only from the start or with a length. -/
theorem chksumWords_eq (text : F8String) (offset : Nat) (len : Option Nat)
    (hin : ∀ n ∈ len, offset + n ≤ text.length) (h : offset = 0 ∨ len ≠ none) :
    chksumWords text offset len = some (calcChksum (region text offset len)) := by
  cases len with
  | none =>
    obtain rfl : offset = 0 := by simpa using h
    simp [chksumWords, region]
  | some n =>
    have hn := hin n rfl
    rw [chksumWords, Option.getD_some, if_neg (by omega)]
    rfl

/-- **Both versions return the sum of the selected bytes modulo 256** exactly when the offset is 0
or a length is given, and the carry counts of the selected words hold. -/
theorem chksum_correct_iff (text : F8String) (offset : Nat) (len : Option Nat)
    (hlen : ∀ n ∈ len, offset + n ≤ text.length) :
    (chksumWords text offset len = some (byteSum (region text offset len) % 256) ∧
        chksumBytes text offset len = some (byteSum (region text offset len) % 256)) ↔
      (offset = 0 ∨ len ≠ none) ∧ LanesHold (region text offset len) := by
  constructor
  · intro ⟨hwords, _⟩
    have hsel : offset = 0 ∨ len ≠ none := by
      by_contra hno
      obtain ⟨hpos, rfl⟩ : offset ≠ 0 ∧ len = none := by simpa using hno
      rw [chksumWords, Option.getD_none, if_pos (by omega)] at hwords
      exact absurd hwords (by simp)
    rw [chksumWords_eq text offset len hlen hsel] at hwords
    exact ⟨hsel, (calcChksum_eq_iff _).mp (Option.some.inj hwords)⟩
  · intro ⟨hsel, hlanes⟩
    refine ⟨?_, chksumBytes_eq text offset len hlen hsel⟩
    rw [chksumWords_eq text offset len hlen hsel, (calcChksum_eq_iff _).mpr hlanes]

theorem chksum_correct_demo :
    (chksumWords (ascii "8=FIXT.1.1") 2 (some 8) =
          some (byteSum (region (ascii "8=FIXT.1.1") 2 (some 8)) % 256) ∧
        chksumBytes (ascii "8=FIXT.1.1") 2 (some 8) =
          some (byteSum (region (ascii "8=FIXT.1.1") 2 (some 8)) % 256)) ↔
      (2 = 0 ∨ some 8 ≠ none) ∧ LanesHold (region (ascii "8=FIXT.1.1") 2 (some 8)) :=
  chksum_correct_iff (ascii "8=FIXT.1.1") 2 (some 8)
    (fun _ h => by cases h; decide)

/-- With an offset and no length the word-parallel version reads past the end, and the native one
leaves out the end: `"ab"` from offset 1. -/
theorem offset_without_len_differs :
    ¬ (chksumWords (ascii "ab") 1 none = some (byteSum (region (ascii "ab") 1 none) % 256) ∧
        chksumBytes (ascii "ab") 1 none = some (byteSum (region (ascii "ab") 1 none) % 256)) := by
  decide

end Fix8.Codec
