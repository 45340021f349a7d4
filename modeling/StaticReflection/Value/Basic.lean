import StaticReflection.Number.Numeral

/-!
Values of constant expressions. A value is known in full, or it refers to a constant that is not
known here, or it is no more than the text of an expression that cannot be evaluated.
-/

namespace StaticReflection

/-- A value. Arrays keep the order of their pairs of key and value. -/
inductive Value where
  | null
  | bool (value : Bool)
  | int (value : Int64)
  | float (value : Float)
  | string (value : String)
  | array (items : List (Value × Value))
  | classConstant (scope name : String)
  | constant (name : String)
  | unresolved (text : String)
  deriving Repr, Inhabited

namespace Value

def typeName : Value → String
  | .null => "NULL"
  | .bool _ => "boolean"
  | .int _ => "integer"
  | .float _ => "double"
  | .string _ => "string"
  | .array _ => "array"
  | .classConstant .. | .constant _ | .unresolved _ => "unknown type"

mutual

/-- Whether the value is known in full. -/
def isResolved : Value → Bool
  | .null | .bool _ | .int _ | .float _ | .string _ => true
  | .array items => allResolved items
  | .classConstant .. | .constant _ | .unresolved _ => false

/-- Whether all keys and values are known in full. -/
def allResolved : List (Value × Value) → Bool
  | [] => true
  | (key, value) :: rest => key.isResolved && value.isResolved && allResolved rest

end

mutual

/-- Whether two values are the same: of one type and equal. A double that is no number differs from
itself. -/
def same : Value → Value → Bool
  | .null, .null => true
  | .bool a, .bool b => a == b
  | .int a, .int b => a == b
  | .float a, .float b => a == b
  | .string a, .string b => a == b
  | .array a, .array b => sameItems a b
  | .classConstant a b, .classConstant c d => a == c && b == d
  | .constant a, .constant b => a == b
  | .unresolved a, .unresolved b => a == b
  | _, _ => false

def sameItems : List (Value × Value) → List (Value × Value) → Bool
  | [], [] => true
  | (k, v) :: rest, (k', v') :: rest' => k.same k' && v.same v' && sameItems rest rest'
  | _, _ => false

end

/-- Whether the value counts as true. Values that are not known do not say. -/
def truthy? : Value → Option Bool
  | .null => some false
  | .bool b => some b
  | .int i => some (i != 0)
  | .float x => some (x != 0)
  | .string s => some !(s.isEmpty || s == "0")
  | .array items => some !items.isEmpty
  | .classConstant .. | .constant _ | .unresolved _ => none

/-- The text of a double: whole numbers below 10^15 as integers, others with the fewest digits that
read back. -/
def floatText (x : Float) : String :=
  let whole := x.isFinite && x.floor == x && x.abs < 1e15
  String.ofList (if whole then Number.intText x.toInt64.toInt else Number.doubleText x)

def text : Value → String
  | .null => ""
  | .bool b => if b then "1" else ""
  | .int i => String.ofList (Number.intText i.toInt)
  | .float x => floatText x
  | .string s => s
  | .array _ => "Array"
  | .classConstant scope name => "\\" ++ scope ++ "::" ++ name
  | .constant name => name
  | .unresolved text => text

/-- The value as a number. Of a string, any text behind the number is passed over. -/
def toNumber? : Value → Option Number
  | .null => some (.int 0)
  | .bool b => some (.int (if b then 1 else 0))
  | .int i => some (.int i)
  | .float x => some (.float x)
  | .string s => Number.ofString? s true
  | .array _ | .classConstant .. | .constant _ | .unresolved _ => none

/-- The value as a number to compare with. A string has to be numeric from end to end. -/
def toComparable? : Value → Option Number
  | .string s => Number.ofString? s false
  | value => value.toNumber?

def ofNumber : Number → Value
  | .int i => .int i
  | .float x => .float x

/-- Text between single quotes, with a backslash before each backslash and quote. -/
def quoted (cs : List Char) : List Char :=
  '\'' :: (cs.flatMap fun c => if c == '\\' || c == '\'' then ['\\', c] else [c]) ++ ['\'']

mutual

def exported : Value → String
  | .null => "null"
  | .bool b => if b then "true" else "false"
  | .int i => String.ofList (Number.intText i.toInt)
  | .float x => floatText x
  | .string s => String.ofList (quoted s.toList)
  | .array items => "[" ++ exportedItems items ++ "]"
  | .classConstant scope name => "\\" ++ scope ++ "::" ++ name
  | .constant name => name
  | .unresolved text => text

/-- Pairs of key and value as source code, with commas between them. -/
def exportedItems : List (Value × Value) → String
  | [] => ""
  | [(key, value)] => key.exported ++ " => " ++ value.exported
  | (key, value) :: rest => key.exported ++ " => " ++ value.exported ++ ", " ++ exportedItems rest

end

end Value

end StaticReflection
