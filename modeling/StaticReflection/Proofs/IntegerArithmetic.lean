import StaticReflection.Proofs.PlainValues
import StaticReflection.Proofs.RoundedIntegers
import StaticReflection.Proofs.TwosComplement

/-!
Arithmetic on integers. An operator gives the exact result as an integer whenever it fits into 64
bits, else a double, and nothing for a divisor of zero or a shift by an amount that is no bit's
place. Powers with an exponent of more than 32 bits are doubles even where they fit.
-/

namespace StaticReflection

open Syntax

namespace Syntax.BinaryOp

/-- The operators of arithmetic, and those on bits. -/
def calculations : List BinaryOp :=
  [.add, .sub, .mul, .div, .mod, .pow, .bitOr, .bitAnd, .bitXor, .shiftLeft, .shiftRight]

/-- The exact result of an operator on integers, where that is an integer. The remainder has the
sign of the dividend; bits are those of two's complement, and of these 64 remain when they are
shifted. -/
def exactResult? : BinaryOp → Int → Int → Option Int
  | .add, x, y => some (x + y)
  | .sub, x, y => some (x - y)
  | .mul, x, y => some (x * y)
  | .div, x, y => if y ≠ 0 ∧ y ∣ x then some (x / y) else none
  | .mod, x, y => if y ≠ 0 then some (x.tmod y) else none
  | .pow, x, y => if 0 ≤ y then some (x ^ y.toNat) else none
  | .bitOr, x, y => some (x.lor y)
  | .bitAnd, x, y => some (x.land y)
  | .bitXor, x, y => some (x.xor y)
  | .shiftLeft, x, y =>
    if 0 ≤ y ∧ y < 64 then some ((x * 2 ^ y.toNat).bmod (2 ^ 64)) else none
  | .shiftRight, x, y => if 0 ≤ y ∧ y < 64 then some (x / 2 ^ y.toNat) else none
  | _, _, _ => none

/-- A divisor of zero, and an amount that is no place of a bit. -/
def Refuses : BinaryOp → Int → Prop
  | .div, y | .mod, y => y = 0
  | .shiftLeft, y | .shiftRight, y => ¬ (0 ≤ y ∧ y < 64)
  | _, _ => False

/-- Powers of zero, one and minus one with an exponent of more than 32 bits. -/
def Overlooks : BinaryOp → Int → Int → Prop
  | .pow, x, y => x.natAbs ≤ 1 ∧ 2 ^ 32 ≤ y
  | _, _, _ => False

/-- Where an operator refuses there is no exact result. -/
theorem exactResult?_ne_of_refuses {op : BinaryOp} {x y z : Int} (h : op.Refuses y) :
    op.exactResult? x y ≠ some z := by
  cases op <;> simp_all [Refuses, exactResult?]

theorem not_refuses_of_overlooks {op : BinaryOp} {x y : Int} (h : op.Overlooks x y) :
    ¬ op.Refuses y := by
  cases op <;> simp_all [Refuses, Overlooks]

end Syntax.BinaryOp

namespace Number

/-! ### Results that fit -/

theorem toInt64?_eq_none {i : Int} (h : ∀ z : Int64, i ≠ z.toInt) : toInt64? i = none := by
  cases hfits : toInt64? i with
  | none => rfl
  | some z => exact absurd (toInt_of_toInt64? hfits).symm (h z)

theorem ofExact_toInt (z : Int64) (rounded : Float) : ofExact z.toInt rounded = .int z := by
  rw [ofExact, toInt64?_toInt]

theorem ofExact_of_ne {i : Int} (h : ∀ z : Int64, i ≠ z.toInt) (rounded : Float) :
    ofExact i rounded = .float rounded := by
  rw [ofExact, toInt64?_eq_none h]

theorem toInt64?_eq_none_of_large {i : Int} (h : 2 ^ 64 ≤ i.natAbs) : toInt64? i = none := by
  refine toInt64?_eq_none fun z hz => ?_
  have hlow := Int64.le_toInt z
  have hhigh := Int64.toInt_lt z
  omega

/-! ### Powers -/

theorem pow_of_natAbs_le_one {x : Int} (h : x.natAbs ≤ 1) (n : Nat) :
    x ^ n = if n = 0 then 1 else if n % 2 = 0 then x * x else x := by
  have hx : x = 0 ∨ x = 1 ∨ x = -1 := by omega
  by_cases hn : n = 0
  · rw [if_pos hn, hn, Int.pow_zero]
  rcases hx with rfl | rfl | rfl
  · simp [hn]
  · simp [hn]
  · rw [if_neg hn]
    split
    · rename_i heven
      exact Even.neg_one_pow (Nat.even_iff.mpr heven)
    · rename_i hodd
      exact Odd.neg_one_pow (Nat.odd_iff.mpr (by omega))

theorem toInt64?_pow_eq_none {x : Int} (hx : 2 ≤ x.natAbs) {n : Nat} (hn : 64 ≤ n) :
    toInt64? (x ^ n) = none := by
  refine toInt64?_eq_none_of_large ?_
  rw [Int.natAbs_pow]
  exact Nat.le_trans (Nat.pow_le_pow_right (by decide) hn) (Nat.pow_le_pow_left hx n)

/-- A power is found if it fits, unless it is overlooked. -/
theorem exactPower?_eq {x y : Int64} (hy : 0 ≤ y.toInt) :
    exactPower? x y = if x.toInt.natAbs ≤ 1 ∧ 2 ^ 32 ≤ y.toInt then none
      else toInt64? (x.toInt ^ y.toInt.toNat) := by
  have hlong : UInt32.size ≤ y.toInt.toNat ↔ 2 ^ 32 ≤ y.toInt := by
    rw [show UInt32.size = 2 ^ 32 from rfl]
    omega
  have hsmall : (x.toInt = 0 ∨ x.toInt = 1) ∨ x.toInt = -1 ↔ x.toInt.natAbs ≤ 1 := by omega
  simp only [exactPower?, hlong, Bool.or_eq_true, decide_eq_true_eq, hsmall]
  by_cases hbase : x.toInt.natAbs ≤ 1
  · by_cases hexponent : 2 ^ 32 ≤ y.toInt
    · rw [if_pos hexponent, if_pos ⟨hbase, hexponent⟩]
    · rw [if_neg hexponent, if_pos hbase, if_neg fun h : _ ∧ _ => hexponent h.2,
        pow_of_natAbs_le_one hbase]
  · rw [if_neg hbase, if_neg fun h : _ ∧ _ => hbase h.1]
    by_cases hexponent : 64 ≤ y.toInt.toNat
    · rw [if_pos hexponent, toInt64?_pow_eq_none (by omega) hexponent, ite_self]
    · rw [if_neg hexponent, if_neg (by omega)]
      rfl

/-! ### Divisors -/

theorem nearestDouble_ne_zero (y : Int64) : (nearestDouble y != 0) = decide (y.toInt ≠ 0) := by
  have hzero : (0 : Float) = nearestDouble 0 := by rfl
  have hrounded : rounded y.toInt = rounded (0 : Int64).toInt ↔ y.toInt = 0 := by
    constructor
    · exact eq_of_rounded_eq (by decide)
    · intro h
      rw [h, Int64.toInt_zero]
  rw [hzero, bne, nearestDouble_beq, decide_eq_decide.mpr hrounded, ← decide_not]

theorem toInt_tmod (x : Int64) {y : Int64} (hy : y.toInt ≠ 0) :
    (Int64.ofInt (x.toInt.tmod y.toInt)).toInt = x.toInt.tmod y.toInt := by
  have hbound := Int.natAbs_tmod x.toInt y.toInt
  have hless : x.toInt.natAbs % y.toInt.natAbs < y.toInt.natAbs := Nat.mod_lt _ (by omega)
  have hlow := Int64.le_toInt y
  have hhigh := Int64.toInt_lt y
  exact Int64.toInt_ofInt_of_le (by omega) (by omega)

theorem shiftAmount?_eq (y : Int64) :
    shiftAmount? (.int y) = if 0 ≤ y.toInt ∧ y.toInt < 64 then some y else none := by
  change (if decide (0 ≤ y.toInt) && decide (y.toInt < 64) then some y else none) = _
  simp only [Bool.and_eq_true, decide_eq_true_eq]

/-! ### What an operator gives -/

/-- What an operator gives for two integers: the exact result if it fits, else a double, and nothing
where it refuses. -/
inductive Calculates (op : BinaryOp) (x y : Int) : Option Number → Prop
  | exact (z : Int64) (hexact : op.exactResult? x y = some z.toInt) (hfound : ¬ op.Overlooks x y)
      (hallowed : ¬ op.Refuses y) : Calculates op x y (some (.int z))
  | rounded (f : Float) (hnone : op.Overlooks x y ∨ ∀ z : Int64, op.exactResult? x y ≠ some z.toInt)
      (hallowed : ¬ op.Refuses y) : Calculates op x y (some (.float f))
  | refused (hrefused : op.Refuses y) : Calculates op x y none

theorem Calculates.ofExact {op : BinaryOp} {x y i : Int} (h : op.exactResult? x y = some i)
    (hfound : ¬ op.Overlooks x y) (hallowed : ¬ op.Refuses y) (f : Float) :
    Calculates op x y (some (ofExact i f)) := by
  by_cases hfits : ∃ z : Int64, i = z.toInt
  · obtain ⟨z, rfl⟩ := hfits
    rw [ofExact_toInt]
    exact .exact z h hfound hallowed
  · rw [not_exists] at hfits
    rw [ofExact_of_ne hfits]
    refine .rounded f (.inr fun z hz => ?_) hallowed
    rw [h, Option.some.injEq] at hz
    exact hfits z hz

theorem calculates_div (x y : Int64) :
    Calculates .div x.toInt y.toInt (arithmetic? .div (.int x) (.int y)) := by
  have hzero : y ≠ 0 ↔ y.toInt ≠ 0 := by rw [ne_eq, ← Int64.toInt_inj, Int64.toInt_zero]
  simp only [arithmetic?, hzero, ← Int.dvd_iff_tmod_eq_zero]
  by_cases hdivides : y.toInt ≠ 0 ∧ y.toInt ∣ x.toInt
  · rw [if_pos hdivides, Int.tdiv_eq_ediv_of_dvd hdivides.2]
    have hexact : BinaryOp.div.exactResult? x.toInt y.toInt = some (x.toInt / y.toInt) :=
      if_pos hdivides
    exact .ofExact hexact id hdivides.1 _
  · rw [if_neg hdivides, floatArithmetic?, nearestDouble_ne_zero]
    by_cases hy : y.toInt = 0
    · rw [if_neg (by simpa using hy)]
      exact .refused hy
    · rw [if_pos (by simpa using hy)]
      refine .rounded _ (.inr fun z hz => ?_) hy
      rw [BinaryOp.exactResult?, if_neg hdivides] at hz
      cases hz

theorem calculates_mod (x y : Int64) :
    Calculates .mod x.toInt y.toInt (arithmetic? .mod (.int x) (.int y)) := by
  have hzero : y = 0 ↔ y.toInt = 0 := by rw [← Int64.toInt_inj, Int64.toInt_zero]
  simp only [arithmetic?, toInt64, hzero]
  by_cases hy : y.toInt = 0
  · rw [if_pos hy]
    exact .refused hy
  · rw [if_neg hy]
    exact .exact _ (by rw [BinaryOp.exactResult?, if_pos hy, toInt_tmod x hy]) id hy

theorem calculates_pow (x y : Int64) :
    Calculates .pow x.toInt y.toInt (arithmetic? .pow (.int x) (.int y)) := by
  simp only [arithmetic?]
  by_cases hy : 0 ≤ y.toInt
  · rw [if_pos hy, exactPower?_eq hy]
    by_cases hlong : x.toInt.natAbs ≤ 1 ∧ 2 ^ 32 ≤ y.toInt
    · rw [if_pos hlong]
      exact .rounded _ (.inl hlong) id
    · have hexact : BinaryOp.pow.exactResult? x.toInt y.toInt = some (x.toInt ^ y.toInt.toNat) :=
        if_pos hy
      have hpower := Calculates.ofExact hexact hlong id
        (Float.pow (nearestDouble x) (nearestDouble y))
      rw [Number.ofExact] at hpower
      rw [if_neg hlong]
      cases hfits : toInt64? (x.toInt ^ y.toInt.toNat) with
      | none =>
        rw [hfits] at hpower
        exact hpower
      | some z =>
        rw [hfits] at hpower
        exact hpower
  · rw [if_neg hy]
    refine .rounded _ (.inr fun z hz => ?_) id
    rw [BinaryOp.exactResult?, if_neg hy] at hz
    cases hz

theorem calculates_shiftLeft (x y : Int64) :
    Calculates .shiftLeft x.toInt y.toInt (arithmetic? .shiftLeft (.int x) (.int y)) := by
  simp only [arithmetic?, shiftAmount?_eq, toInt64]
  by_cases hy : 0 ≤ y.toInt ∧ y.toInt < 64
  · rw [if_pos hy]
    refine .exact _ ?_ id (not_not_intro hy)
    rw [BinaryOp.exactResult?, if_pos hy, toInt_shiftLeft hy.1 hy.2]
  · rw [if_neg hy]
    exact .refused hy

theorem calculates_shiftRight (x y : Int64) :
    Calculates .shiftRight x.toInt y.toInt (arithmetic? .shiftRight (.int x) (.int y)) := by
  simp only [arithmetic?, shiftAmount?_eq, toInt64]
  by_cases hy : 0 ≤ y.toInt ∧ y.toInt < 64
  · rw [if_pos hy]
    refine .exact _ ?_ id (not_not_intro hy)
    rw [BinaryOp.exactResult?, if_pos hy, toInt_shiftRight hy.1 hy.2]
  · rw [if_neg hy]
    exact .refused hy

theorem calculates {op : BinaryOp} (hop : op ∈ BinaryOp.calculations) (x y : Int64) :
    Calculates op x.toInt y.toInt (arithmetic? op (.int x) (.int y)) := by
  simp only [BinaryOp.calculations, List.mem_cons, List.not_mem_nil, or_false] at hop
  rcases hop with rfl | rfl | rfl | rfl | rfl | rfl | rfl | rfl | rfl | rfl | rfl
  · exact .ofExact rfl id id _
  · exact .ofExact rfl id id _
  · exact .ofExact rfl id id _
  · exact calculates_div x y
  · exact calculates_mod x y
  · exact calculates_pow x y
  · exact .exact _ (congrArg some (toInt_or x y).symm) id id
  · exact .exact _ (congrArg some (toInt_and x y).symm) id id
  · exact .exact _ (congrArg some (toInt_xor x y).symm) id id
  · exact calculates_shiftLeft x y
  · exact calculates_shiftRight x y

end Number

theorem Value.binary?_calculation {op : BinaryOp} (hop : op ∈ BinaryOp.calculations)
    (x y : Int64) :
    binary? op (.int x) (.int y) =
      (Number.arithmetic? op (.int x) (.int y)).map ofNumber := by
  simp only [BinaryOp.calculations, List.mem_cons, List.not_mem_nil, or_false] at hop
  rcases hop with rfl | rfl | rfl | rfl | rfl | rfl | rfl | rfl | rfl | rfl | rfl <;> rfl

section Calculation

variable {s : Scope} {follow : String → Option (Except Error Value)}

/-- An operator on two integers gives the exact result as an integer if it fits, unless it overlooks
it; else a double, and nothing known for a divisor of zero or an amount that is no place of a
bit. -/
theorem integers_calculated {op : BinaryOp} (hop : op ∈ BinaryOp.calculations) (span : Span)
    {left right : Expr} {x y : Int64} (hleft : evalWith s follow left = .ok (.int x))
    (hright : evalWith s follow right = .ok (.int y)) :
    (∀ z : Int64, op.exactResult? x.toInt y.toInt = some z.toInt →
        (evalWith s follow (.binary span op left right) = .ok (.int z) ↔
          ¬ op.Overlooks x.toInt y.toInt)) ∧
      ((∀ z : Int64, op.exactResult? x.toInt y.toInt ≠ some z.toInt) → ¬ op.Refuses y.toInt →
        ∃ f, evalWith s follow (.binary span op left right) = .ok (.float f)) ∧
      (op.Overlooks x.toInt y.toInt →
        ∃ f, evalWith s follow (.binary span op left right) = .ok (.float f)) ∧
      (op.Refuses y.toInt → evalWith s follow (.binary span op left right) =
        .ok (.unresolved (Text.under s.source span))) := by
  have hnot : op ≠ .coalesce := by
    rintro rfl
    simp [BinaryOp.calculations] at hop
  rw [evalWith_binary hnot hleft hright rfl rfl, Value.binary?_calculation hop]
  generalize hresult : Number.arithmetic? op (.int x) (.int y) = result
  have hcalculates := Number.calculates hop x y
  rw [hresult] at hcalculates
  cases hcalculates with
  | exact z hexact hfound hallowed =>
    refine ⟨fun z' hz' => ?_, fun hnone => absurd hexact (hnone z), fun h => absurd h hfound,
      fun h => absurd h hallowed⟩
    rw [hexact, Option.some.injEq, Int64.toInt_inj] at hz'
    rw [hz']
    exact iff_of_true rfl hfound
  | rounded f hnone hallowed =>
    refine ⟨fun z hz => ?_, fun _ _ => ⟨f, rfl⟩, fun _ => ⟨f, rfl⟩, fun h => absurd h hallowed⟩
    refine iff_of_false (fun h => by cases h) (not_not_intro ?_)
    exact hnone.resolve_right fun h => h z hz
  | refused hrefused =>
    refine ⟨fun z hz => ?_, fun _ h => absurd hrefused h, fun h => ?_, fun _ => rfl⟩
    · exact absurd hz (BinaryOp.exactResult?_ne_of_refuses hrefused)
    · exact absurd hrefused (BinaryOp.not_refuses_of_overlooks h)

end Calculation

/-- A number literal. -/
def numberLiteral (i : Nat) : Expr := .leaf ⟨0, 10⟩ .number (String.ofList (Number.natText i))

theorem denotes_numberLiteral {i : Int64} {n : Nat} (h : i.toInt = Int.ofNat n) :
    (numberLiteral n).Denotes (.int i) :=
  denotes_natural h _ _

/-- Bits that are shifted beyond the place of the sign are gone. -/
theorem integers_calculated_shift :
    BinaryOp.shiftLeft ∈ BinaryOp.calculations ∧
      evalWith .outermost (fun _ => none) (numberLiteral 7) = .ok (.int 7) ∧
      evalWith .outermost (fun _ => none) (numberLiteral 62) = .ok (.int 62) ∧
      evalWith .outermost (fun _ => none)
          (.binary ⟨0, 10⟩ .shiftLeft (numberLiteral 7) (numberLiteral 62)) =
        .ok (.int (-4611686018427387904)) := by
  have hop : BinaryOp.shiftLeft ∈ BinaryOp.calculations := by decide
  have hseven := denotes_numberLiteral (i := 7) (n := 7) rfl .outermost fun _ => none
  have hplaces := denotes_numberLiteral (i := 62) (n := 62) rfl .outermost fun _ => none
  have hexact : BinaryOp.shiftLeft.exactResult? (7 : Int64).toInt (62 : Int64).toInt =
      some (-4611686018427387904 : Int64).toInt := by decide
  exact ⟨hop, hseven, hplaces,
    ((integers_calculated hop _ hseven hplaces).1 _ hexact).mpr id⟩

/-- A power of one with an exponent of more than 32 bits is no integer. -/
theorem power_of_one_overlooked :
    ¬ ∀ (s : Scope) (follow : String → Option (Except Error Value)) (span : Span) (op : BinaryOp)
      (left right : Expr) (x y z : Int64), op ∈ BinaryOp.calculations →
      evalWith s follow left = .ok (.int x) → evalWith s follow right = .ok (.int y) →
      op.exactResult? x.toInt y.toInt = some z.toInt →
      evalWith s follow (.binary span op left right) = .ok (.int z) := by
  intro h
  have hop : BinaryOp.pow ∈ BinaryOp.calculations := by decide
  have hone := denotes_numberLiteral (i := 1) (n := 1) rfl .outermost fun _ => none
  have hlong := denotes_numberLiteral (i := 4294967296) (n := 4294967296) rfl .outermost
    fun _ => none
  have hpower : BinaryOp.pow.exactResult? (1 : Int64).toInt (4294967296 : Int64).toInt =
      some (1 : Int64).toInt := by
    rw [BinaryOp.exactResult?, if_pos (by decide)]
    exact congrArg some Int.one_pow
  have hexact := h _ _ ⟨0, 10⟩ _ _ _ _ _ _ hop hone hlong hpower
  have hnone : Number.exactPower? 1 4294967296 = none := by decide
  rw [evalWith_binary (by decide) hone hlong rfl rfl, Value.binary?_calculation hop,
    Number.arithmetic?, if_pos (by decide), hnone] at hexact
  cases hexact

end StaticReflection
