import StaticReflection.Number.Double
import StaticReflection.Text.Cut

/-!
Reading numbers: number literals of source code, and strings that stand for numbers. A literal may
be decimal, hexadecimal, octal, binary or a float and may hold underscores. A numeric string is
decimal only, may have blanks around it, and where the reader allows it any text behind it.
-/

namespace StaticReflection

/-- A number is a 64-bit integer or a double. -/
inductive Number where
  | int (value : Int64)
  | float (value : Float)
  deriving Repr

namespace Number

def toFloat : Number → Float
  | .int i => nearestDouble i
  | .float x => x

/-- The number as an integer: doubles lose their fraction, those out of range become the nearest
end, and what is no number becomes zero. -/
def toInt64 : Number → Int64
  | .int i => i
  | .float x => x.toInt64

def ofDigits? (base : Nat) (cs : List Char) : Option Number :=
  ((readDigits? base cs).bind fun n => toInt64? n).map .int

/-- A decimal literal: an integer if it is written as one that fits into 64 bits, else a double. -/
def ofDecimal? (cs : List Char) : Option Number :=
  match cs.head?, takeDecimal? cs with
  | some first, some (d, []) =>
    if first == '-' || first == '+' then none
    else if d.isWhole then
      match toInt64? d.toInt with
      | some i => some (.int i)
      | none => some (.float d.toFloat)
    else some (.float d.toFloat)
  | _, _ => none

/-- The value of a number literal. Underscores are dropped first, wherever they stand; integers
that do not fit into 64 bits become doubles in decimal notation and have no value in others. -/
def ofLiteral? (text : String) : Option Number :=
  match Text.lower (text.toList.filter (· != '_')) with
  | '0' :: 'x' :: digits => ofDigits? 16 digits
  | '0' :: 'b' :: digits => ofDigits? 2 digits
  | '0' :: 'o' :: digits => ofDigits? 8 digits
  | '0' :: c :: digits =>
    if (c :: digits).all Char.isDigit then ofDigits? 8 (c :: digits)
    else ofDecimal? ('0' :: c :: digits)
  | cs => ofDecimal? cs

/-- The blanks that may surround a numeric string. -/
def isNumericBlank (c : Char) : Bool :=
  c == ' ' || c == '\t' || c == '\n' || c == '\r' || c == '\x0b' || c == '\x0c'

/-- Space, tab, line feed, carriage return, vertical tab and form feed. -/
theorem isNumericBlank_iff {c : Char} :
    isNumericBlank c = true ↔ c ∈ [' ', '\t', '\n', '\r', '\x0b', '\x0c'] := by
  simp [isNumericBlank, or_assoc]

theorem isNumericBlank_of_isDigit {c : Char} (h : c.isDigit = true) : isNumericBlank c = false := by
  rw [← Bool.not_eq_true, isNumericBlank_iff]
  intro hblank
  simp only [List.mem_cons, List.not_mem_nil, or_false] at hblank
  rcases hblank with rfl | rfl | rfl | rfl | rfl | rfl <;> cases h

/-- The number that a string stands for: blanks, the longest decimal number, and blanks again or,
where that is allowed, any text. -/
def ofString? (text : String) (allowTrailing : Bool) : Option Number :=
  match takeDecimal? (text.toList.dropWhile isNumericBlank) with
  | none => none
  | some (d, rest) =>
    if !allowTrailing && !rest.all isNumericBlank then none
    else if d.isWhole then
      match toInt64? d.toInt with
      | some i => some (.int i)
      | none => some (.float d.toFloat)
    else some (.float d.toFloat)

end Number

end StaticReflection
