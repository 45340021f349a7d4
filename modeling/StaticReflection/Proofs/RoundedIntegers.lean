import Mathlib
import StaticReflection.Number.Numeral

/-!
Doubles that come from integers. A double has 53 binary digits, so an integer with more digits is
rounded, and two integers that round alike cannot be told apart any more. Comparing the doubles of
two integers is comparing the rounded integers.
-/

namespace StaticReflection.Number

open Float.Model Float.Model.UnpackedFloat

/-- The quotient by `2 ^ k`, rounded: to the nearest whole number, and a half to the even one. -/
def roundedQuotient (n k : Nat) : Nat :=
  let rest := n % 2 ^ k
  n / 2 ^ k + if 2 * rest < 2 ^ k ∨ 2 * rest = 2 ^ k ∧ n / 2 ^ k % 2 = 0 then 0 else 1

/-- A whole number rounded to 53 binary digits. -/
def roundedNat (n : Nat) : Nat := roundedQuotient n (n.log2 - 52) * 2 ^ (n.log2 - 52)

/-- What is left of an integer as a double. -/
def rounded (i : Int) : Int := i.sign * roundedNat i.natAbs

/-! ### Rounding of whole numbers -/

theorem roundedQuotient_zero (n : Nat) : roundedQuotient n 0 = n := by
  simp [roundedQuotient, Nat.mod_one]

theorem le_roundedQuotient (n k : Nat) : n / 2 ^ k ≤ roundedQuotient n k := Nat.le_add_right _ _

theorem roundedQuotient_le (n k : Nat) : roundedQuotient n k ≤ n / 2 ^ k + 1 := by
  rw [roundedQuotient]
  split <;> omega

theorem log2_sub_of_lt {n : Nat} (h : n < 2 ^ 53) : n.log2 - 52 = 0 := by
  by_cases hn : n = 0
  · simp [hn]
  · have := (Nat.log2_lt hn).mpr h
    omega

theorem roundedNat_of_lt {n : Nat} (h : n < 2 ^ 53) : roundedNat n = n := by
  rw [roundedNat, log2_sub_of_lt h, roundedQuotient_zero, Nat.pow_zero, Nat.mul_one]

theorem roundedQuotient_mono {n n' : Nat} (h : n ≤ n') (k : Nat) :
    roundedQuotient n k ≤ roundedQuotient n' k := by
  have hquotient : n / 2 ^ k ≤ n' / 2 ^ k := Nat.div_le_div_right h
  have hdiv := Nat.div_add_mod n (2 ^ k)
  have hdiv' := Nat.div_add_mod n' (2 ^ k)
  by_cases hsame : n / 2 ^ k = n' / 2 ^ k
  · rw [← hsame] at hdiv'
    have hrest : n % 2 ^ k ≤ n' % 2 ^ k := by omega
    rw [roundedQuotient, roundedQuotient, ← hsame]
    split <;> split <;> omega
  · have hle := roundedQuotient_le n k
    have hge := le_roundedQuotient n' k
    omega

theorem le_div_of_log2 {n : Nat} (h : 52 ≤ n.log2) : 2 ^ 52 ≤ n / 2 ^ (n.log2 - 52) := by
  have hn : n ≠ 0 := by
    rintro rfl
    simp at h
  rw [Nat.le_div_iff_mul_le (Nat.two_pow_pos _), ← Nat.pow_add, Nat.add_sub_cancel' h]
  exact Nat.log2_self_le hn

theorem div_lt_of_log2 (n : Nat) : n / 2 ^ (n.log2 - 52) < 2 ^ 53 := by
  rw [Nat.div_lt_iff_lt_mul (Nat.two_pow_pos _), ← Nat.pow_add]
  exact Nat.lt_of_lt_of_le Nat.lt_log2_self (Nat.pow_le_pow_right (by decide) (by omega))

/-- Rounding does not leave the powers of two between which a number lies. -/
theorem roundedNat_bounds {n : Nat} (hn : n ≠ 0) :
    2 ^ n.log2 ≤ roundedNat n ∧ roundedNat n ≤ 2 ^ (n.log2 + 1) := by
  by_cases hfits : n.log2 < 52
  · rw [roundedNat_of_lt ((Nat.log2_lt hn).mp (by omega))]
    exact ⟨Nat.log2_self_le hn, Nat.le_of_lt Nat.lt_log2_self⟩
  · have hlow := Nat.le_trans (le_div_of_log2 (by omega)) (le_roundedQuotient n (n.log2 - 52))
    have hhigh : roundedQuotient n (n.log2 - 52) ≤ 2 ^ 53 :=
      Nat.le_trans (roundedQuotient_le n _) (div_lt_of_log2 n)
    have hlowPower : 2 ^ n.log2 = 2 ^ 52 * 2 ^ (n.log2 - 52) := by
      rw [← Nat.pow_add, Nat.add_sub_cancel' (by omega)]
    have hhighPower : 2 ^ (n.log2 + 1) = 2 ^ 53 * 2 ^ (n.log2 - 52) := by
      rw [← Nat.pow_add]
      congr 1
      omega
    rw [hlowPower, hhighPower]
    exact ⟨Nat.mul_le_mul_right _ hlow, Nat.mul_le_mul_right _ hhigh⟩

theorem roundedNat_mono {n n' : Nat} (h : n ≤ n') : roundedNat n ≤ roundedNat n' := by
  by_cases hn : n = 0
  · rw [hn, roundedNat_of_lt (by decide)]
    exact Nat.zero_le _
  have hn' : n' ≠ 0 := by omega
  have hlog : n.log2 ≤ n'.log2 := (Nat.le_log2 hn').mpr (Nat.le_trans (Nat.log2_self_le hn) h)
  rcases Nat.eq_or_lt_of_le hlog with hsame | hless
  · rw [roundedNat, roundedNat, ← hsame]
    exact Nat.mul_le_mul_right _ (roundedQuotient_mono h _)
  · calc roundedNat n ≤ 2 ^ (n.log2 + 1) := (roundedNat_bounds hn).2
      _ ≤ 2 ^ n'.log2 := Nat.pow_le_pow_right (by decide) hless
      _ ≤ roundedNat n' := (roundedNat_bounds hn').1

theorem rounded_natCast (n : Nat) : rounded n = roundedNat n := by
  rcases Nat.eq_zero_or_pos n with rfl | hpos
  · rw [roundedNat_of_lt (by decide)]
    rfl
  · rw [rounded, Int.sign_eq_one_of_pos (Int.ofNat_lt.mpr hpos), Int.one_mul, Int.natAbs_natCast]

theorem rounded_neg (i : Int) : rounded (-i) = -rounded i := by
  rw [rounded, rounded, Int.sign_neg, Int.natAbs_neg, Int.neg_mul]

theorem rounded_mono {i j : Int} (h : i ≤ j) : rounded i ≤ rounded j := by
  obtain ⟨m, rfl | rfl⟩ := Int.eq_nat_or_neg i <;> obtain ⟨n, rfl | rfl⟩ := Int.eq_nat_or_neg j <;>
    simp only [rounded_neg, rounded_natCast]
  · exact Int.ofNat_le.mpr (roundedNat_mono (by omega))
  · obtain ⟨rfl, rfl⟩ : m = 0 ∧ n = 0 := by omega
    rw [roundedNat_of_lt (by decide)]
    decide
  · omega
  · have := roundedNat_mono (by omega : n ≤ m)
    omega

/-- Integers of up to 53 binary digits are kept. -/
theorem rounded_of_small {i : Int} (h : i.natAbs ≤ 2 ^ 53) : rounded i = i := by
  have hkept : ∀ n ≤ 2 ^ 53, roundedNat n = n := by
    intro n hn
    rcases Nat.eq_or_lt_of_le hn with rfl | hless
    · decide
    · exact roundedNat_of_lt hless
  rw [rounded, hkept _ h]
  exact Int.sign_mul_natAbs i

/-- What rounds to an integer below `2 ^ 53` is that integer. -/
theorem eq_of_rounded_eq {i j : Int} (hj : j.natAbs < 2 ^ 53) (h : rounded i = rounded j) :
    i = j := by
  rw [rounded_of_small (Nat.le_of_lt hj)] at h
  by_cases hi : i.natAbs ≤ 2 ^ 53
  · rwa [rounded_of_small hi] at h
  · have hup : rounded (2 ^ 53) = 2 ^ 53 := rounded_of_small (by decide)
    have hdown : rounded (-2 ^ 53) = -2 ^ 53 := rounded_of_small (by decide)
    rcases Int.le_total 0 i with hpos | hneg
    · have := rounded_mono (by omega : (2 ^ 53 : Int) ≤ i)
      omega
    · have := rounded_mono (by omega : i ≤ (-2 ^ 53 : Int))
      omega

/-! ### Shifting a mantissa -/

/-- What is shifted out is kept as two bits: whether it is at least a half, and whether it is
neither nothing nor a half. -/
theorem shiftRight_eq (m k : Nat) :
    (⟨m, false, false⟩ : ExtendedMantissa) >>> k =
      ⟨m / 2 ^ k, decide (2 ^ k ≤ 2 * (m % 2 ^ k)), decide (2 * (m % 2 ^ k) % 2 ^ k ≠ 0)⟩ := by
  induction k with
  | zero => simp [HShiftRight.hShiftRight, Nat.repeat, Nat.mod_one]
  | succ k ih =>
    have hstep : (⟨m, false, false⟩ : ExtendedMantissa) >>> (k + 1) =
        ((⟨m, false, false⟩ : ExtendedMantissa) >>> k).shiftRightOne := rfl
    have hpos : 0 < 2 ^ k := Nat.two_pow_pos k
    have hrest : m % 2 ^ k < 2 ^ k := Nat.mod_lt _ hpos
    have hsplit : m % 2 ^ (k + 1) = m % 2 ^ k + 2 ^ k * (m / 2 ^ k % 2) := by
      rw [Nat.pow_succ, Nat.mod_mul]
    have hdouble : 2 ^ (k + 1) = 2 * 2 ^ k := by rw [Nat.pow_succ, Nat.mul_comm]
    have hquotient : m / 2 ^ (k + 1) = m / 2 ^ k / 2 := by
      rw [Nat.pow_succ, Nat.div_div_eq_div_mul]
    have htwice : 2 * (m % 2 ^ (k + 1)) % 2 ^ (k + 1) = 2 * (m % 2 ^ k) := by
      rw [hsplit, hdouble, Nat.mul_add, ← Nat.mul_assoc, Nat.add_mul_mod_self_left]
      exact Nat.mod_eq_of_lt (by omega)
    have hbit : (m / 2 ^ k % 2 != 0) = decide (2 ^ (k + 1) ≤ 2 * (m % 2 ^ (k + 1))) := by
      rw [hsplit, hdouble]
      rcases Nat.mod_two_eq_zero_or_one (m / 2 ^ k) with h | h
      · simp [h]
        omega
      · simp [h]
    have hsticky : (decide (2 ^ k ≤ 2 * (m % 2 ^ k)) || decide (2 * (m % 2 ^ k) % 2 ^ k ≠ 0)) =
        decide (2 * (m % 2 ^ (k + 1)) % 2 ^ (k + 1) ≠ 0) := by
      rw [htwice, ← Bool.decide_or, decide_eq_decide]
      by_cases hhalf : 2 ^ k ≤ 2 * (m % 2 ^ k)
      · simp only [hhalf, true_or, true_iff]
        omega
      · rw [Nat.mod_eq_of_lt (by omega : 2 * (m % 2 ^ k) < 2 ^ k)]
        simp [hhalf]
    rw [hstep, ih, ExtendedMantissa.shiftRightOne, hquotient]
    simp only [hbit, hsticky]

theorem mantissa_shiftRight (m k : Nat) :
    ((⟨m, false, false⟩ : ExtendedMantissa) >>> k).mantissa = m / 2 ^ k := by
  rw [shiftRight_eq]

/-- The mantissa that remains is rounded by these two bits. -/
theorem roundedMantissa_shiftRight (m k : Nat) :
    ((⟨m, false, false⟩ : ExtendedMantissa) >>> k).roundedMantissa = roundedQuotient m k := by
  have hrest : m % 2 ^ k < 2 ^ k := Nat.mod_lt _ (Nat.two_pow_pos k)
  rw [shiftRight_eq, roundedQuotient, ExtendedMantissa.roundedMantissa]
  rcases Nat.lt_trichotomy (2 * (m % 2 ^ k)) (2 ^ k) with hless | hhalf | hmore
  · have hbit : ¬ 2 ^ k ≤ 2 * (m % 2 ^ k) := by omega
    simp only [hbit, hless, decide_false, true_or, if_true, Nat.add_zero]
    cases decide (2 * (m % 2 ^ k) % 2 ^ k ≠ 0) <;> rfl
  · simp only [hhalf, Nat.le_refl, Nat.mod_self, ne_eq, not_true, decide_true, decide_false,
      Nat.lt_irrefl, false_or, true_and]
    change m / 2 ^ k + m / 2 ^ k % 2 = _
    split <;> omega
  · have hover : 2 * (m % 2 ^ k) % 2 ^ k ≠ 0 := by
      rw [Nat.mod_eq_sub_mod (by omega), Nat.mod_eq_of_lt (by omega)]
      omega
    have hbit : 2 ^ k ≤ 2 * (m % 2 ^ k) := by omega
    have hup : ¬ (2 * (m % 2 ^ k) < 2 ^ k ∨ 2 * (m % 2 ^ k) = 2 ^ k ∧ m / 2 ^ k % 2 = 0) := by
      omega
    simp only [hbit, hover, hup, ne_eq, not_false_eq_true, decide_true, if_false]
    rfl

/-! ### Doubles that stand for integers -/

/-- A double, taken apart, that stands for an integer. What is not zero has a mantissa of just 53
binary digits. -/
inductive Stands : UnpackedFloat → Int → Prop
  | zero (s : Sign) : Stands (.zero s) 0
  | finite (s : Sign) (m k n : Nat) (hpos : 0 < m) (hlow : 2 ^ 52 ≤ m) (hhigh : m < 2 ^ 53)
      (hsmall : k < 1000) (hvalue : m * 2 ^ k = n * 2 ^ 52) :
      Stands (.finite s m (k - 52) hpos) (s.apply n)

theorem log2_of_normal {m : Nat} (hlow : 2 ^ 52 ≤ m) (hhigh : m < 2 ^ 53) : m.log2 = 52 :=
  (Nat.log2_eq_iff (by omega)).mpr ⟨hlow, hhigh⟩

/-- Bits keep what stands for an integer. -/
theorem Stands.unpack_pack {u : UnpackedFloat} {i : Int} (h : Stands u i) :
    (Float.Model.pack u).unpack = u := by
  cases h with
  | zero s => cases s <;> rfl
  | finite s m k n hpos hlow hhigh hsmall hvalue =>
    have hbiased : ((k : Int) - 52 + Format.binary64.exponentBias +
        Format.binary64.mantissaBitsWithoutImplicit).toNat = k + 1023 := by
      change ((k : Int) - 52 + (1023 : Nat) + (52 : Nat)).toNat = k + 1023
      omega
    have hexponent : (BitVec.ofNat 11 (k + 1023)).toNat = k + 1023 := by
      rw [BitVec.toNat_ofNat, Nat.mod_eq_of_lt (by omega)]
    have hlast : BitVec.ofNat 11 (k + 1023) ≠ -1#11 := by
      intro h
      have := congrArg BitVec.toNat h
      rw [hexponent] at this
      simp at this
      omega
    have hfirst : BitVec.ofNat 11 (k + 1023) ≠ 0#11 := by
      intro h
      have := congrArg BitVec.toNat h
      rw [hexponent] at this
      simp at this
    have hmantissa : (1#1 ++ BitVec.ofNat 52 m).toNat = m := by
      rw [BitVec.toNat_append, ← Nat.shiftLeft_add_eq_or_of_lt (BitVec.ofNat 52 m).isLt,
        BitVec.toNat_ofNat, Nat.shiftLeft_eq]
      simp
      omega
    unfold Float.Model.unpack Float.Model.pack
    simp only [UnpackedFloat.pack, hbiased, log2_of_normal hlow hhigh]
    have hdigits : 52 + 1 = Format.binary64.mantissaBits := rfl
    rw [if_neg (by omega), if_pos hdigits, UnpackedFloat.unpack]
    simp only [unpackExponent_packComponents, unpackMantissa_packComponents,
      unpackSign_packComponents, Sign.ofBitVec_toBitVec]
    rw [if_neg hlast, if_neg hfirst]
    have hunbiased : ((k + 1023 : Nat) : Int) - (((Format.binary64.exponentBias : Nat) : Int) +
        ((Format.binary64.mantissaBitsWithoutImplicit : Nat) : Int)) = k - 52 := by
      change ((k + 1023 : Nat) : Int) - ((1023 : Nat) + (52 : Nat)) = k - 52
      omega
    simp only [hmantissa, hexponent, hunbiased]

/-! ### Rounding gives doubles that stand for the rounded integers -/

/-- A mantissa with more digits than fit is shifted until they fit. -/
theorem shiftToTargetExponent_exact {m : Nat} {e : Int} (he : -52 ≤ e) :
    shiftToTargetExponent .binary64 m e .exact =
      ((⟨m, false, false⟩ : ExtendedMantissa) >>> (m.log2 - 52), e + (m.log2 - 52 : Nat)) := by
  have hamount : (Format.binary64.targetExponent (totalExponent m e) - e).toNat = m.log2 - 52 := by
    have htarget : Format.binary64.targetExponent (totalExponent m e) =
        max ((m.log2 : Int) + 1 + e - (53 : Nat)) (-1074) := rfl
    rw [htarget]
    omega
  simp only [shiftToTargetExponent, shiftToExponent, hamount]
  rfl

/-- Rounding may make a mantissa one digit longer, and then it is shifted again. -/
theorem roundWithAccuracy_exact (s : Sign) {m : Nat} {e : Int} (he : -52 ≤ e) :
    let q := roundedQuotient m (m.log2 - 52)
    roundWithAccuracy .binary64 s m e .exact =
      if h : q / 2 ^ (q.log2 - 52) = 0 then .zero s
      else .finite s (q / 2 ^ (q.log2 - 52)) (e + (m.log2 - 52 : Nat) + (q.log2 - 52 : Nat))
        (Nat.pos_of_ne_zero h) := by
  intro q
  have he' : -52 ≤ e + (m.log2 - 52 : Nat) := by omega
  simp only [roundWithAccuracy, shiftToTargetExponent_exact he, roundedMantissa_shiftRight,
    shiftToTargetExponent_exact he', mantissa_shiftRight]
  rfl

/-- Rounding a mantissa with enough digits gives a double that stands for an integer. -/
theorem stands_roundWithAccuracy (s : Sign) {m n j : Nat} (hdigits : 52 ≤ m.log2)
    (hshort : m.log2 < 64) (hj : j ≤ 52)
    (hvalue : roundedQuotient m (m.log2 - 52) * 2 ^ (j + (m.log2 - 52)) = n * 2 ^ 52) :
    Stands (roundWithAccuracy .binary64 s m (j - 52) .exact) (s.apply n) := by
  have hlow := Nat.le_trans (le_div_of_log2 hdigits) (le_roundedQuotient m (m.log2 - 52))
  have hhigh := roundedQuotient_le m (m.log2 - 52)
  have hquotient := div_lt_of_log2 m
  rw [roundWithAccuracy_exact s (by omega)]
  generalize roundedQuotient m (m.log2 - 52) = q at hlow hhigh hvalue
  by_cases hcarry : q < 2 ^ 53
  · simp only [log2_of_normal hlow hcarry, Nat.sub_self, Nat.pow_zero, Nat.div_one]
    have hexponent : (j : Int) - 52 + (m.log2 - 52 : Nat) + (0 : Nat) =
        ((j + (m.log2 - 52) : Nat) : Int) - 52 := by omega
    rw [dif_neg (by omega), hexponent]
    exact .finite s q _ n (by omega) hlow hcarry (by omega) hvalue
  · obtain rfl : q = 2 ^ 53 := by omega
    have hexponent : (j : Int) - 52 + (m.log2 - 52 : Nat) + (53 - 52 : Nat) =
        ((j + (m.log2 - 52) + 1 : Nat) : Int) - 52 := by omega
    have hhalf : 2 ^ 53 / 2 ^ (53 - 52) = 2 ^ 52 := by decide
    simp only [Nat.log2_two_pow, hhalf, hexponent]
    rw [dif_neg (by decide)]
    refine .finite s (2 ^ 52) _ n (by decide) (Nat.le_refl _) (by decide) (by omega) ?_
    rw [← hvalue, Nat.pow_succ 2 (j + (m.log2 - 52))]
    ring

theorem stands_round (s : Sign) {n : Nat} (hpos : n ≠ 0) (hshort : n < 2 ^ 64) :
    Stands (UnpackedFloat.round .binary64 s n 0) (s.apply (roundedNat n)) := by
  have hlog : n.log2 < 64 := (Nat.log2_lt hpos).mpr hshort
  have hamount : (0 - Format.binary64.targetExponent (totalExponent n 0)).toNat =
      52 - n.log2 := by
    have htarget : Format.binary64.targetExponent (totalExponent n 0) =
        max ((n.log2 : Int) + 1 + 0 - (53 : Nat)) (-1074) := rfl
    rw [htarget]
    omega
  simp only [UnpackedFloat.round, decreaseExponent, hamount, Nat.shiftLeft_eq]
  by_cases hfits : n.log2 < 52
  · -- The mantissa is lengthened until it has all the digits, and nothing is rounded.
    have hlong : (n * 2 ^ (52 - n.log2)).log2 = 52 := by
      have hpow : 2 ^ n.log2 * 2 ^ (52 - n.log2) = 2 ^ 52 := by
        rw [← Nat.pow_add, Nat.add_sub_cancel' (by omega)]
      have hlow := Nat.mul_le_mul_right (2 ^ (52 - n.log2)) (Nat.log2_self_le hpos)
      have hhigh := Nat.mul_lt_mul_of_pos_right (Nat.lt_log2_self (n := n))
        (Nat.two_pow_pos (52 - n.log2))
      rw [Nat.pow_succ, Nat.mul_right_comm, hpow] at hhigh
      exact log2_of_normal (hpow ▸ hlow) hhigh
    have hexponent : (0 : Int) - (52 - n.log2 : Nat) = (n.log2 : Int) - 52 := by omega
    rw [hexponent, roundedNat_of_lt ((Nat.log2_lt hpos).mp (by omega))]
    refine stands_roundWithAccuracy s (by omega) (by omega) (by omega) ?_
    rw [hlong, Nat.sub_self, roundedQuotient_zero, Nat.add_zero, Nat.mul_assoc, ← Nat.pow_add,
      Nat.sub_add_cancel (by omega)]
  · have hexponent : (0 : Int) - (52 - n.log2 : Nat) = ((52 : Nat) : Int) - 52 := by omega
    have hnone : 52 - n.log2 = 0 := by omega
    rw [hexponent, hnone, Nat.pow_zero, Nat.mul_one]
    refine stands_roundWithAccuracy s (by omega) hlog (by omega) ?_
    rw [roundedNat, Nat.pow_add]
    ring

/-- The double of an integer stands for the rounded integer. -/
theorem stands_nearestDouble (i : Int64) :
    Stands (nearestDouble i).toModel.unpack (rounded i.toInt) := by
  have hrange : i.toInt.natAbs < 2 ^ 64 := by
    have hlow := Int64.le_toInt i
    have hhigh := Int64.toInt_lt i
    omega
  have hof : Stands (UnpackedFloat.ofInt .binary64 i.toInt) (rounded i.toInt) := by
    rw [UnpackedFloat.ofInt, UnpackedFloat.normalize, rounded]
    rcases lt_trichotomy i.toInt 0 with hneg | hzero | hpos
    · rw [compare_lt_iff_lt.mpr hneg, Int.sign_eq_neg_one_of_neg hneg]
      have habs : (-i.toInt).toNat = i.toInt.natAbs := by omega
      have hround := stands_round .negative (by omega : i.toInt.natAbs ≠ 0) hrange
      simpa [habs, Sign.apply] using hround
    · rw [compare_eq_iff_eq.mpr hzero, hzero]
      exact .zero .positive
    · rw [compare_gt_iff_gt.mpr hpos, Int.sign_eq_one_of_pos hpos]
      have habs : i.toInt.toNat = i.toInt.natAbs := by omega
      have hround := stands_round .positive (by omega : i.toInt.natAbs ≠ 0) hrange
      simpa [habs, Sign.apply] using hround
  change Stands (Float.Model.pack (UnpackedFloat.ofInt .binary64 i.toInt)).unpack _
  rwa [hof.unpack_pack]

/-! ### Comparing doubles that stand for integers -/

section Comparison

variable {m n k m' n' k' : Nat}

theorem lt_of_exponent_lt (hhigh : m < 2 ^ 53) (hlow : 2 ^ 52 ≤ m')
    (hvalue : m * 2 ^ k = n * 2 ^ 52) (hvalue' : m' * 2 ^ k' = n' * 2 ^ 52) (h : k < k') :
    n < n' := by
  refine Nat.lt_of_mul_lt_mul_right (a := 2 ^ 52) ?_
  calc n * 2 ^ 52 = m * 2 ^ k := hvalue.symm
    _ < 2 ^ 53 * 2 ^ k := Nat.mul_lt_mul_of_pos_right hhigh (Nat.two_pow_pos k)
    _ = 2 ^ 52 * 2 ^ (k + 1) := by ring
    _ ≤ m' * 2 ^ k' := Nat.mul_le_mul hlow (Nat.pow_le_pow_right (by decide) h)
    _ = n' * 2 ^ 52 := hvalue'

/-- Mantissas of the same length are compared by their exponents first. -/
theorem compare_exponents_mantissas (hlow : 2 ^ 52 ≤ m) (hhigh : m < 2 ^ 53)
    (hlow' : 2 ^ 52 ≤ m') (hhigh' : m' < 2 ^ 53) (hvalue : m * 2 ^ k = n * 2 ^ 52)
    (hvalue' : m' * 2 ^ k' = n' * 2 ^ 52) :
    (compare ((k : Int) - 52) ((k' : Int) - 52)).then (compare m m') = compare n n' := by
  rcases Nat.lt_trichotomy k k' with hk | rfl | hk
  · have hn := lt_of_exponent_lt hhigh hlow' hvalue hvalue' hk
    rw [compare_lt_iff_lt.mpr hn, compare_lt_iff_lt.mpr (by omega : (k : Int) - 52 < k' - 52)]
    rfl
  · rw [compare_eq_iff_eq.mpr rfl, Ordering.eq_then]
    have hscale : ∀ {a b c d : Nat}, a * 2 ^ k = b * 2 ^ 52 → c * 2 ^ k = d * 2 ^ 52 →
        a < c → b < d := by
      intro a b c d hab hcd h
      refine Nat.lt_of_mul_lt_mul_right (a := 2 ^ 52) ?_
      rw [← hab, ← hcd]
      exact Nat.mul_lt_mul_of_pos_right h (Nat.two_pow_pos k)
    rcases Nat.lt_trichotomy m m' with hm | rfl | hm
    · rw [compare_lt_iff_lt.mpr hm, compare_lt_iff_lt.mpr (hscale hvalue hvalue' hm)]
    · have hn : n = n' := Nat.eq_of_mul_eq_mul_right (by decide) (hvalue.symm.trans hvalue')
      rw [compare_eq_iff_eq.mpr rfl, compare_eq_iff_eq.mpr hn]
    · rw [compare_gt_iff_gt.mpr hm, compare_gt_iff_gt.mpr (hscale hvalue' hvalue hm)]
  · have hn := lt_of_exponent_lt hhigh' hlow hvalue' hvalue hk
    rw [compare_gt_iff_gt.mpr hn, compare_gt_iff_gt.mpr (by omega : (k' : Int) - 52 < k - 52)]
    rfl

end Comparison

theorem pos_of_normal {m k n : Nat} (hpos : 0 < m) (hvalue : m * 2 ^ k = n * 2 ^ 52) : 0 < n := by
  have := Nat.mul_pos hpos (Nat.two_pow_pos k)
  omega

theorem compare_cast (a b : Nat) : compare (a : Int) (b : Int) = compare a b := by
  rcases Nat.lt_trichotomy a b with h | rfl | h
  · rw [compare_lt_iff_lt.mpr h, compare_lt_iff_lt.mpr (Int.ofNat_lt.mpr h)]
  · rw [compare_eq_iff_eq.mpr rfl, compare_eq_iff_eq.mpr rfl]
  · rw [compare_gt_iff_gt.mpr h, compare_gt_iff_gt.mpr (Int.ofNat_lt.mpr h)]

theorem compare_neg_cast (a b : Nat) : compare (-(a : Int)) (-(b : Int)) = (compare a b).swap := by
  rcases Nat.lt_trichotomy a b with h | rfl | h
  · rw [compare_lt_iff_lt.mpr h, compare_gt_iff_gt.mpr (by omega : -(b : Int) < -(a : Int))]
    rfl
  · rw [compare_eq_iff_eq.mpr rfl, compare_eq_iff_eq.mpr rfl]
    rfl
  · rw [compare_gt_iff_gt.mpr h, compare_lt_iff_lt.mpr (by omega : -(a : Int) < -(b : Int))]
    rfl

/-- Doubles that stand for integers compare as the integers do. -/
theorem Stands.compare_eq {u v : UnpackedFloat} {i j : Int} (hu : Stands u i) (hv : Stands v j) :
    u.compare v = some (compare i j) := by
  cases hu with
  | zero s =>
    cases hv with
    | zero s' => rfl
    | finite s' m k n hpos hlow hhigh hsmall hvalue =>
      have hn := pos_of_normal hpos hvalue
      cases s' with
      | positive => exact congrArg some (compare_lt_iff_lt.mpr (Int.ofNat_lt.mpr hn)).symm
      | negative =>
        exact congrArg some (compare_gt_iff_gt.mpr (by simp only [Sign.apply]; omega)).symm
  | finite s m k n hpos hlow hhigh hsmall hvalue =>
    have hn := pos_of_normal hpos hvalue
    cases hv with
    | zero s' =>
      cases s with
      | positive => exact congrArg some (compare_gt_iff_gt.mpr (Int.ofNat_lt.mpr hn)).symm
      | negative =>
        exact congrArg some (compare_lt_iff_lt.mpr (by simp only [Sign.apply]; omega)).symm
    | finite s' m' k' n' hpos' hlow' hhigh' hsmall' hvalue' =>
      have hn' := pos_of_normal hpos' hvalue'
      have hboth := compare_exponents_mantissas hlow hhigh hlow' hhigh' hvalue hvalue'
      cases s <;> cases s' <;> simp only [UnpackedFloat.compare, Sign.apply, hboth,
        compare_cast, compare_neg_cast, Option.some.injEq]
      · exact (compare_lt_iff_lt.mpr (by omega)).symm
      · exact (compare_gt_iff_gt.mpr (by omega)).symm

/-- Doubles are equal in either order. -/
theorem float_beq_comm (x y : Float) : (x == y) = (y == x) := by
  have hturn : ∀ {x y : Float}, (x == y) = true → (y == x) = true := by
    intro x y h
    obtain ⟨hx, hy, hsame⟩ := Float.beq_iff_ne_nan_and_eq.mp h
    refine Float.beq_iff_ne_nan_and_eq.mpr ⟨hy, hx, ?_⟩
    rcases hsame with rfl | ⟨hzero, hminus⟩ | ⟨hminus, hzero⟩
    · exact .inl rfl
    · exact .inr (.inr ⟨hminus, hzero⟩)
    · exact .inr (.inl ⟨hzero, hminus⟩)
  exact Bool.eq_iff_iff.mpr ⟨hturn, hturn⟩

theorem compare_nearestDouble (i j : Int64) :
    (nearestDouble i).toModel.unpack.compare (nearestDouble j).toModel.unpack =
      some (compare (rounded i.toInt) (rounded j.toInt)) :=
  (stands_nearestDouble i).compare_eq (stands_nearestDouble j)

/-- The doubles of two integers are equal if the integers round alike. -/
theorem nearestDouble_beq (i j : Int64) :
    (nearestDouble i == nearestDouble j) = decide (rounded i.toInt = rounded j.toInt) := by
  change ((nearestDouble i).toModel.unpack.compare (nearestDouble j).toModel.unpack == some .eq) = _
  rw [compare_nearestDouble, Bool.eq_iff_iff, beq_iff_eq, Option.some.injEq, decide_eq_true_iff,
    compare_eq_iff_eq]

/-- No other integer has the same double as one below `2 ^ 53`. -/
theorem nearestDouble_beq_small (i : Int64) {j : Int64} (hj : j.toInt.natAbs < 2 ^ 53) :
    (nearestDouble i == nearestDouble j) = decide (i = j) := by
  rw [nearestDouble_beq, decide_eq_decide, ← Int64.toInt_inj]
  exact ⟨eq_of_rounded_eq hj, congrArg rounded⟩

theorem nearestDouble_lt (i j : Int64) :
    nearestDouble i < nearestDouble j ↔ rounded i.toInt < rounded j.toInt := by
  change decide ((_ == some Ordering.lt) = true) = true ↔ _
  rw [decide_eq_true_iff, compare_nearestDouble, beq_iff_eq, Option.some.injEq, compare_lt_iff_lt]

theorem nearestDouble_le (i j : Int64) :
    nearestDouble i ≤ nearestDouble j ↔ rounded i.toInt ≤ rounded j.toInt := by
  change decide (Option.any Ordering.isLE _ = true) = true ↔ _
  rw [decide_eq_true_iff, compare_nearestDouble, Option.any_some, Std.isLE_compare]

end StaticReflection.Number
