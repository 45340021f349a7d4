import Mathlib.Data.Int.Bitwise
import StaticReflection.Number.Digits

/-!
The bits of 64-bit integers. An integer of any size has its bits in two's complement: those of a
negative number do not end, and all but finitely many of them are ones. A 64-bit integer keeps the
lowest 64 of them, and its sign repeats the highest.
-/

namespace StaticReflection.Number

/-- Integers with the same bits are the same. -/
theorem eq_of_testBit_eq {a b : Int} (h : ∀ k, a.testBit k = b.testBit k) : a = b := by
  -- A natural number has no bits beyond its own size, a negative one has all of them.
  have hdiffer : ∀ m n : Nat, ∃ k, (Int.ofNat m).testBit k ≠ (Int.negSucc n).testBit k := by
    intro m n
    refine ⟨m + n, ?_⟩
    have hsize : ∀ x ≤ m + n, x.testBit (m + n) = false := fun x hx =>
      Nat.testBit_eq_false_of_lt (Nat.lt_of_le_of_lt hx Nat.lt_two_pow_self)
    simp [Int.testBit, hsize m (by omega), hsize n (by omega)]
  cases a with
  | ofNat m =>
    cases b with
    | ofNat n => exact congrArg Int.ofNat (Nat.eq_of_testBit_eq h)
    | negSucc n =>
      obtain ⟨k, hk⟩ := hdiffer m n
      exact absurd (h k) hk
  | negSucc m =>
    cases b with
    | ofNat n =>
      obtain ⟨k, hk⟩ := hdiffer n m
      exact absurd (h k).symm hk
    | negSucc n =>
      refine congrArg Int.negSucc (Nat.eq_of_testBit_eq fun k => ?_)
      simpa [Int.testBit] using h k

theorem testBit_toInt {w : Nat} (x : BitVec w) (k : Nat) :
    x.toInt.testBit k = if k < w then x.getLsbD k else x.msb := by
  rw [BitVec.toInt_eq_msb_cond]
  cases hmsb : x.msb with
  | false =>
    change x.toNat.testBit k = _
    rw [BitVec.testBit_toNat]
    split
    · rfl
    · exact BitVec.getLsbD_of_ge x k (by omega)
  | true =>
    have hlt : x.toNat < 2 ^ w := x.isLt
    have hneg : (x.toNat : Int) - (2 ^ w : Nat) = Int.negSucc (2 ^ w - (x.toNat + 1)) := by omega
    rw [if_pos rfl, hneg]
    change (!(2 ^ w - (x.toNat + 1)).testBit k) = _
    rw [Nat.testBit_two_pow_sub_succ hlt, BitVec.testBit_toNat]
    by_cases hk : k < w <;> simp [hk]

theorem toInt_or (x y : Int64) : (x ||| y).toInt = x.toInt.lor y.toInt := by
  refine eq_of_testBit_eq fun k => ?_
  rw [Int.testBit_lor, ← Int64.toInt_toBitVec, ← Int64.toInt_toBitVec, ← Int64.toInt_toBitVec,
    Int64.toBitVec_or]
  simp only [testBit_toInt, BitVec.getLsbD_or, BitVec.msb_or]
  split <;> rfl

theorem toInt_and (x y : Int64) : (x &&& y).toInt = x.toInt.land y.toInt := by
  refine eq_of_testBit_eq fun k => ?_
  rw [Int.testBit_land, ← Int64.toInt_toBitVec, ← Int64.toInt_toBitVec, ← Int64.toInt_toBitVec,
    Int64.toBitVec_and]
  simp only [testBit_toInt, BitVec.getLsbD_and, BitVec.msb_and]
  split <;> rfl

theorem toInt_xor (x y : Int64) : (x ^^^ y).toInt = x.toInt.xor y.toInt := by
  refine eq_of_testBit_eq fun k => ?_
  rw [Int.testBit_lxor, ← Int64.toInt_toBitVec, ← Int64.toInt_toBitVec, ← Int64.toInt_toBitVec,
    Int64.toBitVec_xor]
  simp only [testBit_toInt, BitVec.getLsbD_xor, BitVec.msb_xor]
  split <;> rfl

/-! ### Shifts -/

section Shifts

variable {n : Int64} (hlow : 0 ≤ n.toInt) (hhigh : n.toInt < 64)

include hlow hhigh

/-- An amount below the width is left as it is. -/
theorem toNat_amount : (n.toBitVec.smod 64).toNat = n.toInt.toNat := by
  have hmsb : n.toBitVec.msb = false := by
    rw [BitVec.msb_eq_toInt, Int64.toInt_toBitVec, decide_eq_false_iff_not]
    omega
  have hnat : n.toInt = n.toBitVec.toNat := by
    rw [← Int64.toInt_toBitVec, BitVec.toInt_eq_toNat_of_msb hmsb]
  have hwidth : (64 : BitVec 64).msb = false := by decide
  rw [BitVec.smod_eq, hmsb, hwidth]
  change n.toBitVec.toNat % 64 = _
  omega

theorem toInt_shiftLeft (x : Int64) :
    (x <<< n).toInt = (x.toInt * 2 ^ n.toInt.toNat).bmod (2 ^ 64) := by
  rw [← Int64.toInt_toBitVec, Int64.toBitVec_shiftLeft, BitVec.shiftLeft_eq',
    toNat_amount hlow hhigh, BitVec.toInt_shiftLeft, ← Int64.toInt_toBitVec x,
    BitVec.toInt_eq_toNat_bmod x.toBitVec, Int.bmod_mul_bmod, Nat.shiftLeft_eq]
  push_cast
  rfl

theorem toInt_shiftRight (x : Int64) :
    (x >>> n).toInt = x.toInt / 2 ^ n.toInt.toNat := by
  rw [← Int64.toInt_toBitVec, Int64.toBitVec_shiftRight, BitVec.toInt_sshiftRight',
    toNat_amount hlow hhigh, Int.shiftRight_eq_div_pow, Int64.toInt_toBitVec]
  push_cast
  rfl

end Shifts

end StaticReflection.Number
