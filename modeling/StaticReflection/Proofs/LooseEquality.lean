import StaticReflection.Proofs.PlainValues
import StaticReflection.Proofs.RoundedIntegers

/-!
Loose equality with null, truth values and arrays. Such a value is to be compared with another one
by what both count for: as true or false, or pair by pair. Instead both are read as numbers, or else
both are written as text. The answers are the same but for a few kinds of pairs.
-/

namespace StaticReflection

open Syntax

namespace Value

/-- Null, truth values and arrays. -/
inductive Coarse : Value → Prop
  | null : Coarse .null
  | bool (b : Bool) : Coarse (.bool b)
  | array (items : List (Value × Value)) : Coarse (.array items)

/-! ### When values are loosely equal -/

/-- Whether a string is a number equal to an integer, read up to its end. -/
def readsAs (i : Int64) (s : String) : Bool :=
  (Number.ofString? s false).any fun n => n.toFloat == Number.nearestDouble i

section LooseEquality

-- How two numbers or strings compare.
variable (leaf : Value → Value → Bool)

mutual

/-- Whether two values are loosely equal. With a truth value, they have to count for the same; null
is equal to the empty string and to what counts as false; arrays have to have the same keys with
loosely equal values and are equal to nothing else. -/
def looselyEqual : Value → Value → Bool
  | .bool a, w => w.truthy? == some a
  | v, .bool b => v.truthy? == some b
  | .null, .string s => s == ""
  | .string s, .null => s == ""
  | .null, w => w.truthy? == some false
  | v, .null => v.truthy? == some false
  | .array items, .array others => items.length == others.length && looselyFound items others
  | .array _, _ => false
  | _, .array _ => false
  | v, w => leaf v w

/-- Whether each key of the first array is in the second one, with a loosely equal value. -/
def looselyFound : List (Value × Value) → List (Value × Value) → Bool
  | [], _ => true
  | (key, value) :: rest, others =>
    (match others.find? fun other => other.1.same key with
      | some other => looselyEqual value other.2
      | none => false) && looselyFound rest others

end

/-- Pairs of a value and another one that are taken to be equal though they are not, or not to be
equal though they are. -/
inductive Mistaken : Value → Value → Prop
  | nullZero {s : String} (hzero : readsAs 0 s = true) : Mistaken .null (.string s)
  | nullArray : Mistaken .null (.array [])
  | trueInt {i : Int64} (hzero : i ≠ 0) (hone : i ≠ 1) : Mistaken (.bool true) (.int i)
  | trueString {s : String} (hone : readsAs 1 s = false) (hsome : s ≠ "") (hother : s ≠ "0") :
      Mistaken (.bool true) (.string s)
  | falseZero {s : String} (hzero : readsAs 0 s = true) (hother : s ≠ "0") :
      Mistaken (.bool false) (.string s)
  | falseArray : Mistaken (.bool false) (.array [])
  | trueArray {item : Value × Value} {rest : List (Value × Value)} :
      Mistaken (.bool true) (.array (item :: rest))
  | arrayText {items : List (Value × Value)} : Mistaken (.array items) (.string "Array")

/-- Pairs, in either order, and two arrays that are not loosely equal. -/
inductive Misjudged : Value → Value → Prop
  | left {v w : Value} (h : Mistaken v w) : Misjudged v w
  | right {v w : Value} (h : Mistaken w v) : Misjudged v w
  | arrays {items others : List (Value × Value)}
      (h : looselyEqual leaf (.array items) (.array others) = false) :
      Misjudged (.array items) (.array others)

end LooseEquality

/-! ### When values are taken to be equal -/

/-- Whether two values are the same number or, where one of them is none, the same text. -/
def takenEqual (v w : Value) : Bool :=
  match v.toComparable?, w.toComparable? with
  | some x, some y => x.toFloat == y.toFloat
  | _, _ => v.text == w.text

theorem compare?_equal (v w : Value) : compare? .equal v w = some (takenEqual v w) := by
  unfold compare? takenEqual
  cases v.toComparable? <;> cases w.toComparable? <;> rfl

theorem compare?_notEqual (v w : Value) : compare? .notEqual v w = some !(takenEqual v w) := by
  unfold compare? takenEqual
  cases v.toComparable? <;> cases w.toComparable? <;> rfl

theorem takenEqual_comm (v w : Value) : takenEqual v w = takenEqual w v := by
  unfold takenEqual
  cases v.toComparable? <;> cases w.toComparable?
  case some.some x y => exact Number.float_beq_comm _ _
  all_goals exact Bool.beq_comm

theorem takenEqual_array (items : List (Value × Value)) (w : Value) :
    takenEqual (.array items) w = ("Array" == w.text) := rfl

/-- The integer that null and truth values are as numbers. -/
theorem takenEqual_int {v : Value} {j : Int64} (hv : v.toComparable? = some (.int j))
    (hj : j.toInt.natAbs < 2 ^ 53) (i : Int64) : takenEqual v (.int i) = decide (i = j) := by
  rw [takenEqual_comm, takenEqual, hv]
  exact Number.nearestDouble_beq_small i hj

/-- A string is the number that null or a truth value is, or it is its text. -/
theorem takenEqual_string {v : Value} {j : Int64} (hv : v.toComparable? = some (.int j))
    (s : String) : takenEqual v (.string s) =
      (readsAs j s || ((Number.ofString? s false).isNone && s == v.text)) := by
  rw [takenEqual_comm, takenEqual, hv, toComparable?, readsAs]
  cases Number.ofString? s false with
  | none => rfl
  | some n => exact (Bool.or_false _).symm

/-! ### Texts -/

theorem ofString?_empty : Number.ofString? "" false = none := by rfl

theorem ofString?_one : Number.ofString? "1" false = some (.int 1) := by rfl

theorem readsAs_empty (i : Int64) : readsAs i "" = false := by
  rw [readsAs, ofString?_empty, Option.any_none]

theorem readsAs_zero {i : Int64} (hi : i.toInt.natAbs < 2 ^ 53) : readsAs i "0" = decide (0 = i) :=
  Number.nearestDouble_beq_small 0 hi

theorem takenEqual_null_string (s : String) :
    takenEqual .null (.string s) = (readsAs 0 s || s == "") := by
  rw [takenEqual_string (v := .null) rfl]
  by_cases hs : s = ""
  · rw [hs, ofString?_empty]
    rfl
  · rw [text, beq_false_of_ne hs, Bool.and_false]

theorem takenEqual_false_string (s : String) :
    takenEqual (.bool false) (.string s) = (readsAs 0 s || s == "") :=
  takenEqual_null_string s

theorem takenEqual_true_string (s : String) :
    takenEqual (.bool true) (.string s) = readsAs 1 s := by
  rw [takenEqual_string (v := .bool true) rfl]
  by_cases hs : s = "1"
  · rw [hs, ofString?_one]
    exact Bool.or_false _
  · have htext : (s == (Value.bool true).text) = false := beq_false_of_ne hs
    rw [htext, Bool.and_false, Bool.or_false]
    rfl

theorem truthy?_string (s : String) : truthy? (.string s) = some !(s == "" || s == "0") := by
  rw [truthy?, Bool.eq_iff_iff.mpr (String.isEmpty_iff.trans beq_iff_eq.symm)]

theorem intText_ne_array (i : Int) : String.ofList (Number.intText i) ≠ "Array" := by
  intro h
  have hchars : Number.intText i = ['A', 'r', 'r', 'a', 'y'] := by
    rw [← String.toList_ofList (l := Number.intText i), h]
    rfl
  cases i with
  | ofNat n =>
    have hdigit : ('A' : Char).isDigit = true := by
      refine Number.isDigit_of_mem_natText (n := n) ?_
      rw [show Number.natText n = _ from hchars]
      exact List.mem_cons_self
    cases hdigit
  | negSucc n => cases hchars

/-! ### Where the two agree -/

section Agreement

variable {leaf : Value → Value → Bool}

theorem looselyEqual_null_int (i : Int64) : looselyEqual leaf .null (.int i) = decide (i = 0) := by
  rw [Bool.eq_iff_iff]
  simp [looselyEqual, truthy?]

theorem looselyEqual_false_int (i : Int64) :
    looselyEqual leaf (.bool false) (.int i) = decide (i = 0) := by
  change looselyEqual leaf .null (.int i) = _
  exact looselyEqual_null_int i

theorem looselyEqual_true_int (i : Int64) :
    looselyEqual leaf (.bool true) (.int i) = decide (i ≠ 0) := by
  rw [Bool.eq_iff_iff]
  simp [looselyEqual, truthy?]

theorem looselyEqual_bool_string (b : Bool) (s : String) :
    looselyEqual leaf (.bool b) (.string s) = (b != (s == "" || s == "0")) := by
  rw [looselyEqual, truthy?_string]
  cases b <;> cases s == "" || s == "0" <;> rfl

theorem takenEqual_false_string_iff (s : String) :
    takenEqual (.bool false) (.string s) = looselyEqual leaf (.bool false) (.string s) ↔
      ¬ Misjudged leaf (.bool false) (.string s) := by
  rw [takenEqual_false_string, looselyEqual_bool_string, Bool.false_bne]
  constructor
  · rintro h (⟨hleft⟩ | ⟨⟨⟩⟩)
    cases hleft with
    | falseZero hzero hother =>
      rw [hzero, beq_false_of_ne hother, Bool.true_or, Bool.or_false, eq_comm, beq_iff_eq] at h
      rw [h, readsAs_empty] at hzero
      cases hzero
  · intro h
    by_cases hother : s = "0"
    · rw [hother, readsAs_zero (by decide)]
      rfl
    · rw [Bool.eq_false_iff.mpr fun hzero => h (.left (.falseZero hzero hother)),
        beq_false_of_ne hother, Bool.false_or, Bool.or_false]

theorem takenEqual_true_int_iff (i : Int64) :
    takenEqual (.bool true) (.int i) = looselyEqual leaf (.bool true) (.int i) ↔
      ¬ Misjudged leaf (.bool true) (.int i) := by
  rw [takenEqual_int (v := .bool true) rfl (by decide), looselyEqual_true_int, decide_eq_decide]
  constructor
  · rintro hagree (⟨hleft⟩ | ⟨⟨⟩⟩)
    cases hleft with
    | trueInt hzero hone => exact hone (hagree.mpr hzero)
  · intro h
    constructor
    · rintro rfl
      decide
    · intro hzero
      by_contra hone
      exact h (.left (.trueInt hzero hone))

theorem takenEqual_true_string_iff (s : String) :
    takenEqual (.bool true) (.string s) = looselyEqual leaf (.bool true) (.string s) ↔
      ¬ Misjudged leaf (.bool true) (.string s) := by
  rw [takenEqual_true_string, looselyEqual_bool_string, Bool.true_bne]
  constructor
  · rintro h (⟨hleft⟩ | ⟨⟨⟩⟩)
    cases hleft with
    | trueString hone hsome hother =>
      rw [hone, beq_false_of_ne hsome, beq_false_of_ne hother] at h
      cases h
  · intro h
    by_cases hsome : s = ""
    · rw [hsome, readsAs_empty]
      rfl
    by_cases hother : s = "0"
    · rw [hother, readsAs_zero (by decide)]
      rfl
    · have hone : readsAs 1 s ≠ false := fun hone => h (.left (.trueString hone hsome hother))
      rw [ne_eq, Bool.not_eq_false] at hone
      rw [hone, beq_false_of_ne hsome, beq_false_of_ne hother]
      rfl

theorem takenEqual_null_iff {w : Value} (hw : w.isResolved = true) (hfloat : ∀ x, w ≠ .float x) :
    takenEqual .null w = looselyEqual leaf .null w ↔ ¬ Misjudged leaf .null w := by
  cases w with
  | float x => exact absurd rfl (hfloat x)
  | classConstant | constant | unresolved => cases hw
  | null => exact iff_of_true rfl (by rintro (⟨⟨⟩⟩ | ⟨⟨⟩⟩))
  | bool b => exact iff_of_true (by cases b <;> rfl) (by rintro (⟨⟨⟩⟩ | ⟨⟨⟩⟩))
  | int i =>
    rw [takenEqual_int (v := .null) rfl (by decide), looselyEqual_null_int]
    exact iff_of_true rfl (by rintro (⟨⟨⟩⟩ | ⟨⟨⟩⟩))
  | string s =>
    rw [takenEqual_null_string, looselyEqual]
    constructor
    · rintro h (⟨⟨hzero⟩⟩ | ⟨⟨⟩⟩)
      rw [hzero, Bool.true_or, eq_comm, beq_iff_eq] at h
      rw [h, readsAs_empty] at hzero
      cases hzero
    · intro h
      rw [Bool.eq_false_iff.mpr fun hzero => h (.left (.nullZero hzero)), Bool.false_or]
  | array items =>
    cases items with
    | nil => exact iff_of_false (fun h => by cases h) (not_not_intro (.left .nullArray))
    | cons item rest => exact iff_of_true rfl (by rintro (⟨⟨⟩⟩ | ⟨⟨⟩⟩))

theorem takenEqual_false_iff {w : Value} (hw : w.isResolved = true) (hfloat : ∀ x, w ≠ .float x) :
    takenEqual (.bool false) w = looselyEqual leaf (.bool false) w ↔
      ¬ Misjudged leaf (.bool false) w := by
  cases w with
  | float x => exact absurd rfl (hfloat x)
  | classConstant | constant | unresolved => cases hw
  | null => exact iff_of_true rfl (by rintro (⟨⟨⟩⟩ | ⟨⟨⟩⟩))
  | bool b => exact iff_of_true (by cases b <;> rfl) (by rintro (⟨⟨⟩⟩ | ⟨⟨⟩⟩))
  | int i =>
    rw [takenEqual_int (v := .bool false) rfl (by decide), looselyEqual_false_int]
    exact iff_of_true rfl (by rintro (⟨⟨⟩⟩ | ⟨⟨⟩⟩))
  | string s => exact takenEqual_false_string_iff s
  | array items =>
    cases items with
    | nil => exact iff_of_false (fun h => by cases h) (not_not_intro (.left .falseArray))
    | cons item rest => exact iff_of_true rfl (by rintro (⟨⟨⟩⟩ | ⟨⟨⟩⟩))

theorem takenEqual_true_iff {w : Value} (hw : w.isResolved = true) (hfloat : ∀ x, w ≠ .float x) :
    takenEqual (.bool true) w = looselyEqual leaf (.bool true) w ↔
      ¬ Misjudged leaf (.bool true) w := by
  cases w with
  | float x => exact absurd rfl (hfloat x)
  | classConstant | constant | unresolved => cases hw
  | null => exact iff_of_true rfl (by rintro (⟨⟨⟩⟩ | ⟨⟨⟩⟩))
  | bool b => exact iff_of_true (by cases b <;> rfl) (by rintro (⟨⟨⟩⟩ | ⟨⟨⟩⟩))
  | int i => exact takenEqual_true_int_iff i
  | string s => exact takenEqual_true_string_iff s
  | array items =>
    cases items with
    | nil => exact iff_of_true rfl (by rintro (⟨⟨⟩⟩ | ⟨⟨⟩⟩))
    | cons item rest =>
      exact iff_of_false (fun h => by cases h) (not_not_intro (.left .trueArray))

/-- Unless both are arrays, it does not matter which value stands on the left. -/
theorem takenEqual_iff_comm {v w : Value} (hv : v.Coarse)
    (hother : (∀ items, v ≠ .array items) ∨ ∀ items, w ≠ .array items)
    (h : takenEqual v w = looselyEqual leaf v w ↔ ¬ Misjudged leaf v w) :
    takenEqual w v = looselyEqual leaf w v ↔ ¬ Misjudged leaf w v := by
  have hnot : ∀ items others, ¬ (v = .array items ∧ w = .array others) := by
    rintro items others ⟨rfl, rfl⟩
    exact hother.elim (fun h => h items rfl) fun h => h others rfl
  have hspec : looselyEqual leaf w v = looselyEqual leaf v w := by
    cases hv with
    | null => cases w <;> rfl
    | bool b =>
      cases w with
      | bool b' => exact Bool.beq_comm
      | _ => rfl
    | array items =>
      cases w with
      | array others => exact absurd ⟨rfl, rfl⟩ (hnot items others)
      | _ => rfl
  have hpairs : Misjudged leaf w v ↔ Misjudged leaf v w := by
    constructor <;> rintro (hleft | hright | _)
    · exact .right hleft
    · exact .left hright
    · exact absurd ⟨rfl, rfl⟩ (hnot _ _)
    · exact .right hleft
    · exact .left hright
    · exact absurd ⟨rfl, rfl⟩ (hnot _ _)
  rw [takenEqual_comm, hspec, hpairs]
  exact h

theorem takenEqual_array_iff (items : List (Value × Value)) {w : Value}
    (hitems : (Value.array items).isResolved = true) (hw : w.isResolved = true)
    (hfloat : ∀ x, w ≠ .float x) :
    takenEqual (.array items) w = looselyEqual leaf (.array items) w ↔
      ¬ Misjudged leaf (.array items) w := by
  cases w with
  | float x => exact absurd rfl (hfloat x)
  | classConstant | constant | unresolved => cases hw
  | null =>
    refine takenEqual_iff_comm .null (.inl fun _ h => by cases h) ?_
    exact takenEqual_null_iff hitems fun _ h => by cases h
  | bool b =>
    refine takenEqual_iff_comm (.bool b) (.inl fun _ h => by cases h) ?_
    cases b with
    | false => exact takenEqual_false_iff hitems fun _ h => by cases h
    | true => exact takenEqual_true_iff hitems fun _ h => by cases h
  | int i =>
    refine iff_of_true ?_ (by rintro (⟨⟨⟩⟩ | ⟨⟨⟩⟩))
    exact beq_false_of_ne (intText_ne_array i.toInt).symm
  | string s =>
    have hspec : looselyEqual leaf (.array items) (.string s) = false := rfl
    rw [takenEqual_array, hspec]
    constructor
    · rintro h (⟨⟨⟩⟩ | ⟨⟨⟩⟩)
      cases h
    · intro h
      refine beq_false_of_ne fun hs => h (.left ?_)
      rw [← show "Array" = s from hs]
      exact .arrayText
  | array others =>
    have htaken : takenEqual (.array items) (.array others) = true := rfl
    rw [htaken]
    constructor
    · rintro h (⟨⟨⟩⟩ | ⟨⟨⟩⟩ | hdiffer)
      exact Bool.false_ne_true (hdiffer.symm.trans h.symm)
    · intro h
      by_contra hdiffer
      exact h (.arrays (Bool.eq_false_iff.mpr (Ne.symm hdiffer)))

/-- Taking values to be equal is loose equality but for the pairs that are misjudged. -/
theorem takenEqual_iff {v w : Value} (hcoarse : v.Coarse ∨ w.Coarse) (hv : v.isResolved = true)
    (hw : w.isResolved = true) (hfloat : ∀ x, v ≠ .float x) (hfloat' : ∀ x, w ≠ .float x) :
    takenEqual v w = looselyEqual leaf v w ↔ ¬ Misjudged leaf v w := by
  have hleft : ∀ {v w : Value}, v.Coarse → v.isResolved = true → w.isResolved = true →
      (∀ x, w ≠ .float x) →
      (takenEqual v w = looselyEqual leaf v w ↔ ¬ Misjudged leaf v w) := by
    intro v w hcoarse hv hw hfloat
    cases hcoarse with
    | null => exact takenEqual_null_iff hw hfloat
    | bool b =>
      cases b with
      | false => exact takenEqual_false_iff hw hfloat
      | true => exact takenEqual_true_iff hw hfloat
    | array items => exact takenEqual_array_iff items hv hw hfloat
  by_cases hfirst : v.Coarse
  · exact hleft hfirst hv hw hfloat'
  · have hsecond := hcoarse.resolve_left hfirst
    refine takenEqual_iff_comm hsecond (.inr fun items h => hfirst ?_) (hleft hsecond hw hv hfloat)
    rw [h]
    exact .array items

/-- Values of one type that are equal are taken to be equal. -/
theorem takenEqual_of_same {v w : Value} (hcoarse : v.Coarse ∨ w.Coarse) (h : v.same w = true) :
    takenEqual v w = true := by
  cases v <;> cases w <;> simp only [same, Bool.false_eq_true, beq_iff_eq] at h
  case null.null => rfl
  case bool.bool b b' =>
    rw [h]
    cases b' <;> rfl
  case array.array => rfl
  -- Neither of two values of another type is null, a truth value or an array.
  all_goals exact hcoarse.elim (fun h => by cases h) fun h => by cases h

end Agreement

end Value

section LooseEquality

variable {s : Scope} {follow : String → Option (Except Error Value)}

/-- With null, a truth value or an array on one side, what is found equal is loosely equal unless
the pair is misjudged, whatever numbers and strings are loosely equal. What is found unequal is the
rest, and identical values are found equal. -/
theorem loosely_equal_unless_misjudged (leaf : Value → Value → Bool) (span : Span)
    {left right : Expr} {v w : Value} (hleft : evalWith s follow left = .ok v)
    (hright : evalWith s follow right = .ok w)
    (hcoarse : v.Coarse ∨ w.Coarse) (hv : v.isResolved = true) (hw : w.isResolved = true)
    (hfloat : ∀ x, v ≠ .float x) (hfloat' : ∀ x, w ≠ .float x) :
    ∃ b, evalWith s follow (.binary span .equal left right) = .ok (.bool b) ∧
      evalWith s follow (.binary span .notEqual left right) = .ok (.bool !b) ∧
      (b = Value.looselyEqual leaf v w ↔ ¬ Value.Misjudged leaf v w) ∧
      (evalWith s follow (.binary span .identical left right) = .ok (.bool true) → b = true) := by
  refine ⟨Value.takenEqual v w, ?_, ?_, ?_, fun hidentical => ?_⟩
  · rw [evalWith_binary (by decide) hleft hright hv hw, Value.binary?, Value.compare?_equal]
    rfl
  · rw [evalWith_binary (by decide) hleft hright hv hw, Value.binary?, Value.compare?_notEqual]
    rfl
  · exact Value.takenEqual_iff hcoarse hv hw hfloat hfloat'
  · rw [evalWith_binary (by decide) hleft hright hv hw, Value.binary?, Option.getD_some,
      Except.ok.injEq, Value.bool.injEq] at hidentical
    exact Value.takenEqual_of_same hcoarse hidentical

end LooseEquality

/-- The literal of null. -/
def nullLiteral : Expr := .leaf ⟨0, 4⟩ .name "null"

/-- The literal of a truth value. -/
def boolLiteral (b : Bool) : Expr := .leaf ⟨8, 13⟩ .name (if b then "true" else "false")

/-- Null is equal to false. -/
theorem loosely_equal_null_false :
    evalWith .outermost (fun _ => none) nullLiteral = .ok .null ∧
      evalWith .outermost (fun _ => none) (boolLiteral false) = .ok (.bool false) ∧
      evalWith .outermost (fun _ => none) (.binary ⟨0, 13⟩ .equal nullLiteral (boolLiteral false)) =
        .ok (.bool true) := by
  have hnull := denotes_null ⟨0, 4⟩ .name .outermost fun _ => none
  have hfalse := denotes_bool false ⟨8, 13⟩ .name .outermost fun _ => none
  obtain ⟨b, hequal, -, hagree, -⟩ := loosely_equal_unless_misjudged
    (fun _ _ => false) ⟨0, 13⟩ hnull hfalse (.inl .null) rfl rfl (fun _ h => by cases h)
    (fun _ h => by cases h)
  have hjudged : ¬ Value.Misjudged (fun _ _ => false) .null (.bool false) := by
    rintro (⟨⟨⟩⟩ | ⟨⟨⟩⟩)
  have hb : b = true := hagree.mpr hjudged
  exact ⟨hnull, hfalse, hb ▸ hequal⟩

/-- An integer that counts as true is not found equal to true. -/
theorem loose_equality_misses_integers :
    ¬ ∀ (leaf : Value → Value → Bool) (s : Scope) (follow : String → Option (Except Error Value))
      (span : Span) (left right : Expr) (v w : Value), evalWith s follow left = .ok v →
      evalWith s follow right = .ok w → v.Coarse ∨ w.Coarse → v.isResolved = true →
      w.isResolved = true → (∀ x, v ≠ .float x) → (∀ x, w ≠ .float x) →
      evalWith s follow (.binary span .equal left right) =
        .ok (.bool (Value.looselyEqual leaf v w)) := by
  intro h
  have htrue := denotes_bool true ⟨0, 4⟩ .name .outermost fun _ => none
  have hfive := denotes_natural (i := 5) (n := 5) rfl ⟨8, 9⟩ .number .outermost fun _ => none
  have hequal := h (fun _ _ => false) _ _ ⟨0, 9⟩ _ _ _ _ htrue hfive (.inl (.bool true)) rfl rfl
    (fun _ h => by cases h) (fun _ h => by cases h)
  have htaken : Value.takenEqual (.bool true) (.int 5) = false :=
    Value.takenEqual_int (v := .bool true) rfl (by decide) 5
  rw [evalWith_binary (by decide) htrue hfive rfl rfl, Value.binary?, Value.compare?_equal,
    htaken] at hequal
  cases hequal

end StaticReflection
