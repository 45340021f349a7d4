import StaticReflection.Proofs.PlainValues
import StaticReflection.Proofs.RoundedIntegers

/-!
Comparing integers. Both are turned into doubles first, so the answer is that for the rounded
integers. It is the right one for integers of up to 53 binary digits, and beyond them wherever the
two do not round alike.
-/

namespace StaticReflection

open Syntax

namespace Syntax.BinaryOp

/-- The operators that ask whether two values are equal or which of them is greater. -/
def comparisons : List BinaryOp := [.equal, .notEqual, .less, .lessEqual, .greater, .greaterEqual]

/-- What a comparison says of two integers. -/
def compares : BinaryOp → Int → Int → Bool
  | .equal, a, b => a = b
  | .notEqual, a, b => a ≠ b
  | .less, a, b => a < b
  | .lessEqual, a, b => a ≤ b
  | .greater, a, b => a > b
  | .greaterEqual, a, b => a ≥ b
  | _, _, _ => false

end Syntax.BinaryOp

/-- Values that give an integer: the integer itself, and a string of its digits. -/
inductive Value.Gives : Value → Int64 → Prop
  | int (i : Int64) : Gives (.int i) i
  | digits (i : Int64) : Gives (.string (String.ofList (Number.intText i.toInt))) i

namespace Value

theorem Gives.isResolved {v : Value} {i : Int64} (h : v.Gives i) : v.isResolved = true := by
  cases h <;> rfl

theorem Gives.toComparable? {v : Value} {i : Int64} (h : v.Gives i) :
    v.toComparable? = some (.int i) := by
  cases h with
  | int i => rfl
  | digits i => exact Number.ofString?_intText i false

/-! ### The comparison -/

theorem compareFloats_nearestDouble {op : BinaryOp} (hop : op ∈ BinaryOp.comparisons)
    (a b : Int64) :
    compareFloats op (Number.nearestDouble a) (Number.nearestDouble b) =
      op.compares (Number.rounded a.toInt) (Number.rounded b.toInt) := by
  simp only [BinaryOp.comparisons, List.mem_cons, List.not_mem_nil, or_false] at hop
  rcases hop with rfl | rfl | rfl | rfl | rfl | rfl <;> simp only [compareFloats, BinaryOp.compares]
  · exact Number.nearestDouble_beq a b
  · simp [bne, Number.nearestDouble_beq]
  · exact decide_eq_decide.mpr (Number.nearestDouble_lt a b)
  · exact decide_eq_decide.mpr (Number.nearestDouble_le a b)
  · exact decide_eq_decide.mpr (Number.nearestDouble_lt b a)
  · exact decide_eq_decide.mpr (Number.nearestDouble_le b a)

theorem binary?_comparison {op : BinaryOp} (hop : op ∈ BinaryOp.comparisons) {v w : Value}
    {a b : Int64} (hv : v.Gives a) (hw : w.Gives b) :
    binary? op v w =
      some (.bool (op.compares (Number.rounded a.toInt) (Number.rounded b.toInt))) := by
  have hcompare : compare? op v w =
      some (op.compares (Number.rounded a.toInt) (Number.rounded b.toInt)) := by
    simp only [compare?, hv.toComparable?, hw.toComparable?]
    exact congrArg some (compareFloats_nearestDouble hop a b)
  simp only [BinaryOp.comparisons, List.mem_cons, List.not_mem_nil, or_false] at hop
  rcases hop with rfl | rfl | rfl | rfl | rfl | rfl <;> simp only [binary?, hcompare] <;> rfl

end Value

namespace Syntax.BinaryOp

/-- A comparison asks for nothing but the order. -/
theorem compares_congr (op : BinaryOp) {a b c d : Int} (hless : a < b ↔ c < d)
    (hgreater : b < a ↔ d < c) : op.compares a b = op.compares c d := by
  have hequal : a = b ↔ c = d := by omega
  cases op <;> simp only [compares, decide_eq_decide, ne_eq, hequal, gt_iff_lt, ge_iff_le,
    hless, hgreater] <;> omega

/-- Rounding keeps the answer unless it makes two integers equal and the answer is not the one for
equal integers. -/
theorem compares_rounded_iff (op : BinaryOp) (a b : Int) :
    op.compares (Number.rounded a) (Number.rounded b) = op.compares a b ↔
      (Number.rounded a = Number.rounded b → op.compares a b = op.compares a a) := by
  by_cases hsame : Number.rounded a = Number.rounded b
  · have hself : op.compares (Number.rounded a) (Number.rounded b) = op.compares a a :=
      op.compares_congr (by omega) (by omega)
    rw [hself]
    exact ⟨fun h _ => h.symm, fun h => (h hsame).symm⟩
  · have hless := @Number.rounded_mono a b
    have hgreater := @Number.rounded_mono b a
    exact iff_of_true (op.compares_congr (by omega) (by omega)) fun h => absurd h hsame

end Syntax.BinaryOp

section Comparison

variable {s : Scope} {follow : String → Option (Except Error Value)}

/-- A comparison of two integers, given as integers or as their digits, is the comparison of the
rounded integers. It is the comparison of the integers themselves unless these round alike and it
does not say what it says of equal ones; so it is for integers of up to 53 binary digits. -/
theorem integers_compared_rounded {op : BinaryOp} (hop : op ∈ BinaryOp.comparisons)
    (span : Span) {left right : Expr} {v w : Value} {a b : Int64}
    (hleft : evalWith s follow left = .ok v) (hright : evalWith s follow right = .ok w)
    (hv : v.Gives a) (hw : w.Gives b) :
    evalWith s follow (.binary span op left right) =
        .ok (.bool (op.compares (Number.rounded a.toInt) (Number.rounded b.toInt))) ∧
      (evalWith s follow (.binary span op left right) =
          .ok (.bool (op.compares a.toInt b.toInt)) ↔
        (Number.rounded a.toInt = Number.rounded b.toInt →
          op.compares a.toInt b.toInt = op.compares a.toInt a.toInt)) ∧
      (a.toInt.natAbs ≤ 2 ^ 53 → b.toInt.natAbs ≤ 2 ^ 53 →
        evalWith s follow (.binary span op left right) =
          .ok (.bool (op.compares a.toInt b.toInt))) := by
  have hresult : evalWith s follow (.binary span op left right) =
      .ok (.bool (op.compares (Number.rounded a.toInt) (Number.rounded b.toInt))) := by
    have hnot : op ≠ .coalesce := by
      rintro rfl
      simp [BinaryOp.comparisons] at hop
    rw [evalWith_binary hnot hleft hright hv.isResolved hw.isResolved,
      Value.binary?_comparison hop hv hw]
    rfl
  refine ⟨hresult, ?_, fun ha hb => ?_⟩
  · rw [hresult, Except.ok.injEq, Value.bool.injEq]
    exact op.compares_rounded_iff a.toInt b.toInt
  · rw [hresult, Number.rounded_of_small ha, Number.rounded_of_small hb]

end Comparison

/-- The least whole number that no double is equal to, as a string of its digits. -/
def oddNeighbour : Expr := .string ⟨0, 18⟩ "'9007199254740993'" (some "9007199254740993")

/-- The number below it. -/
def evenNeighbour : Expr := .leaf ⟨21, 37⟩ .number "9007199254740992"

theorem denotes_oddNeighbour : oddNeighbour.Denotes (.string "9007199254740993") :=
  denotes_string _ _ _

theorem denotes_evenNeighbour : evenNeighbour.Denotes (.int 9007199254740992) :=
  denotes_natural (n := 9007199254740992) (by decide) _ _

theorem gives_oddNeighbour : (Value.string "9007199254740993").Gives 9007199254740993 :=
  .digits 9007199254740993

/-- The greater of two neighbours is not found to be greater, since the two round alike. -/
theorem integers_compared_rounded_neighbours :
    BinaryOp.greater ∈ BinaryOp.comparisons ∧
      evalWith .outermost (fun _ => none) oddNeighbour = .ok (.string "9007199254740993") ∧
      evalWith .outermost (fun _ => none) evenNeighbour = .ok (.int 9007199254740992) ∧
      (Value.string "9007199254740993").Gives 9007199254740993 ∧
      (Value.int 9007199254740992).Gives 9007199254740992 ∧
      evalWith .outermost (fun _ => none) (.binary ⟨0, 37⟩ .greater oddNeighbour evenNeighbour) =
        .ok (.bool false) := by
  have hop : BinaryOp.greater ∈ BinaryOp.comparisons := by decide
  have hodd := denotes_oddNeighbour .outermost fun _ => none
  have heven := denotes_evenNeighbour .outermost fun _ => none
  have hresult := (integers_compared_rounded hop ⟨0, 37⟩ hodd heven gives_oddNeighbour
    (.int 9007199254740992)).1
  have hanswer : BinaryOp.greater.compares (Number.rounded (9007199254740993 : Int64).toInt)
      (Number.rounded (9007199254740992 : Int64).toInt) = false := by decide
  rw [hanswer] at hresult
  exact ⟨hop, hodd, heven, gives_oddNeighbour, .int _, hresult⟩

/-- Neighbours that round alike are found to be equal. -/
theorem comparison_misses_neighbours :
    ¬ ∀ (s : Scope) (follow : String → Option (Except Error Value)) (span : Span) (op : BinaryOp)
      (left right : Expr) (v w : Value) (a b : Int64), op ∈ BinaryOp.comparisons →
      evalWith s follow left = .ok v → evalWith s follow right = .ok w → v.Gives a → w.Gives b →
      evalWith s follow (.binary span op left right) =
        .ok (.bool (op.compares a.toInt b.toInt)) := by
  intro h
  have hop : BinaryOp.equal ∈ BinaryOp.comparisons := by decide
  have hodd := denotes_oddNeighbour .outermost fun _ => none
  have heven := denotes_evenNeighbour .outermost fun _ => none
  have hexact := h _ _ ⟨0, 37⟩ _ _ _ _ _ _ _ hop hodd heven gives_oddNeighbour (.int _)
  rw [evalWith_binary (by decide) hodd heven rfl rfl,
    Value.binary?_comparison hop gives_oddNeighbour (.int _)] at hexact
  have hdiffer : BinaryOp.equal.compares (Number.rounded (9007199254740993 : Int64).toInt)
      (Number.rounded (9007199254740992 : Int64).toInt) ≠
        BinaryOp.equal.compares (9007199254740993 : Int64).toInt
          (9007199254740992 : Int64).toInt := by decide
  exact hdiffer (Value.bool.inj (Except.ok.inj hexact))

end StaticReflection
