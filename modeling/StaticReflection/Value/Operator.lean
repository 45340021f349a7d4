import StaticReflection.Syntax.Tree
import StaticReflection.Value.Basic

/-!
What operators make of values. An operator that gives nothing for its operands leaves the
expression unresolved. Integer results that do not fit into 64 bits become doubles.
-/

namespace StaticReflection

open Syntax

namespace Number

/-- An exact integer result, or the double computed instead when it does not fit. -/
def ofExact (exact : Int) (rounded : Float) : Number :=
  match toInt64? exact with
  | some i => .int i
  | none => .float rounded

/-- The exact power, when the exponent is below 2^32 and the result fits into 64 bits. -/
def exactPower? (x y : Int64) : Option Int64 :=
  let base := x.toInt
  let exponent := y.toInt.toNat
  if UInt32.size ≤ exponent then none
  else if base = 0 || base = 1 || base = -1 then
    toInt64? (if exponent = 0 then 1 else if exponent % 2 = 0 then base * base else base)
  else if 64 ≤ exponent then none
  else toInt64? (Int.pow base exponent)

/-- A shift amount, which is less than the width of an integer. -/
def shiftAmount? (n : Number) : Option Int64 :=
  let amount := n.toInt64
  if 0 ≤ amount.toInt && amount.toInt < 64 then some amount else none

/-- An arithmetic operator on doubles. A zero divisor has no result. -/
def floatArithmetic? (op : BinaryOp) (x y : Float) : Option Number :=
  match op with
  | .add => some (.float (x + y))
  | .sub => some (.float (x - y))
  | .mul => some (.float (x * y))
  | .div => if y != 0 then some (.float (x / y)) else none
  | .pow => some (.float (Float.pow x y))
  | _ => none

/-- An operator of arithmetic on numbers. The remainder, bits and shifts work on integers. -/
def arithmetic? (op : BinaryOp) (a b : Number) : Option Number :=
  match op with
  | .mod =>
    if b.toInt64 = 0 then none
    else some (.int (Int64.ofInt (a.toInt64.toInt.tmod b.toInt64.toInt)))
  | .bitOr => some (.int (a.toInt64 ||| b.toInt64))
  | .bitAnd => some (.int (a.toInt64 &&& b.toInt64))
  | .bitXor => some (.int (a.toInt64 ^^^ b.toInt64))
  | .shiftLeft => (shiftAmount? b).map fun n => .int (a.toInt64 <<< n)
  | .shiftRight => (shiftAmount? b).map fun n => .int (a.toInt64 >>> n)
  | _ =>
    match op, a, b with
    | .add, .int x, .int y =>
      some (ofExact (x.toInt + y.toInt) (nearestDouble x + nearestDouble y))
    | .sub, .int x, .int y =>
      some (ofExact (x.toInt - y.toInt) (nearestDouble x - nearestDouble y))
    | .mul, .int x, .int y =>
      some (ofExact (x.toInt * y.toInt) (nearestDouble x * nearestDouble y))
    | .div, .int x, .int y =>
      if y ≠ 0 ∧ x.toInt.tmod y.toInt = 0 then
        some (ofExact (x.toInt.tdiv y.toInt) (nearestDouble x / nearestDouble y))
      else floatArithmetic? .div (nearestDouble x) (nearestDouble y)
    | .pow, .int x, .int y =>
      if 0 ≤ y.toInt then
        match exactPower? x y with
        | some i => some (.int i)
        | none => some (.float (Float.pow (nearestDouble x) (nearestDouble y)))
      else floatArithmetic? .pow (nearestDouble x) (nearestDouble y)
    | op, a, b => floatArithmetic? op a.toFloat b.toFloat

end Number

namespace Value

def compareFloats : BinaryOp → Float → Float → Bool
  | .equal, x, y => x == y
  | .notEqual, x, y => x != y
  | .less, x, y => x < y
  | .lessEqual, x, y => x ≤ y
  | .greater, x, y => x > y
  | _, x, y => x ≥ y

/-- A comparison of values: as numbers if both are, else of their texts, which can be equal or not
but are in no order. -/
def compare? (op : BinaryOp) (a b : Value) : Option Bool :=
  match a.toComparable?, b.toComparable? with
  | some x, some y => some (compareFloats op x.toFloat y.toFloat)
  | _, _ =>
    match op with
    | .equal => some (a.text == b.text)
    | .notEqual => some (a.text != b.text)
    | _ => none

/-- A logical operator, when both operands say whether they are true. -/
def logical? (op : Bool → Bool → Bool) (a b : Value) : Option Value :=
  match a.truthy?, b.truthy? with
  | some x, some y => some (.bool (op x y))
  | _, _ => none

/-- An operator between two values that are known in full. -/
def binary? (op : BinaryOp) (a b : Value) : Option Value :=
  match op with
  | .concat => some (.string (a.text ++ b.text))
  | .coalesce => some (if a.same .null then b else a)
  | .and => logical? (· && ·) a b
  | .or => logical? (· || ·) a b
  | .xor => logical? (· != ·) a b
  | .identical => some (.bool (a.same b))
  | .notIdentical => some (.bool !(a.same b))
  | .equal | .notEqual | .less | .lessEqual | .greater | .greaterEqual =>
    (compare? op a b).map .bool
  | .spaceship | .instanceOf => none
  | .add | .sub | .mul | .div | .mod | .pow | .bitOr | .bitAnd | .bitXor | .shiftLeft
  | .shiftRight =>
    match a.toNumber?, b.toNumber? with
    | some x, some y => (Number.arithmetic? op x y).map ofNumber
    | _, _ => none

/-- The negative of a number. That of the least integer does not fit and is a double. -/
def negate : Number → Value
  | .int i => ofNumber (.ofExact (-i.toInt) (-Number.nearestDouble i))
  | .float x => .float (-x)

/-- A prefix operator on a value that is known in full. -/
def unary? (op : UnaryOp) (a : Value) : Option Value :=
  match op with
  | .not => a.truthy?.map fun b => .bool !b
  | .minus => a.toNumber?.map negate
  | .plus => a.toNumber?.map ofNumber
  | .complement =>
    match a.toNumber? with
    | some (.int i) => some (.int (~~~ i))
    | _ => none
  | .other => none

end Value

end StaticReflection
