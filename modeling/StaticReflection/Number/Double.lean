import StaticReflection.Number.Digits

/-!
Double-precision numbers and their decimal notation. A finite double is `m * 2 ^ q` for whole `m`
and `q`; its text is the decimal with the fewest digits among those that read back to the same
double, and of two such the nearer one. Texts are positional: they never carry an exponent.
-/

namespace StaticReflection.Number

/-- The double next to an integer. Between two that are as near, it is the one whose last binary
digit is zero. -/
def nearestDouble (i : Int64) : Float := .ofModel (.ofInt64 i)

/-- A number written as an optional sign, digits with an optional point, and an optional
exponent. -/
structure DecimalText where
  negative : Bool
  whole : List Char
  point : Bool
  fraction : List Char
  exponent : Option Int
  deriving DecidableEq, Repr

def takeSign : List Char → Bool × List Char
  | '-' :: cs => (true, cs)
  | '+' :: cs => (false, cs)
  | cs => (false, cs)

/-- The exponent at the front of the text and what follows it. An `e` without a digit behind it is
no exponent. -/
def takeExponent : List Char → Option Int × List Char
  | [] => (none, [])
  | c :: cs =>
    if c == 'e' || c == 'E' then
      let (negative, unsigned) := takeSign cs
      let digits := unsigned.takeWhile Char.isDigit
      match readDigits? 10 digits with
      | none => (none, c :: cs)
      | some n =>
        (some (if negative then -Int.ofNat n else Int.ofNat n), unsigned.dropWhile Char.isDigit)
    else (none, c :: cs)

/-- The longest decimal number at the front of the text and what follows it. On one side of the
point the digits may be missing. -/
def takeDecimal? (cs : List Char) : Option (DecimalText × List Char) :=
  let (negative, unsigned) := takeSign cs
  let whole := unsigned.takeWhile Char.isDigit
  let afterWhole := unsigned.dropWhile Char.isDigit
  let (point, fraction, rest) :=
    match afterWhole with
    | '.' :: more =>
      let fraction := more.takeWhile Char.isDigit
      if whole.isEmpty && fraction.isEmpty then (false, [], afterWhole)
      else (true, fraction, more.dropWhile Char.isDigit)
    | _ => (false, [], afterWhole)
  if whole.isEmpty && fraction.isEmpty then none
  else
    let (exponent, rest) := takeExponent rest
    some (⟨negative, whole, point, fraction, exponent⟩, rest)

namespace DecimalText

/-- The digits without the point, as one number. -/
def mantissa (d : DecimalText) : Nat := (readDigits? 10 (d.whole ++ d.fraction)).getD 0

def scale (d : DecimalText) : Int := d.exponent.getD 0 - d.fraction.length

def isWhole (d : DecimalText) : Bool := !d.point && d.exponent.isNone

def toInt (d : DecimalText) : Int := if d.negative then -Int.ofNat d.mantissa else d.mantissa

/-- The nearest double. Beyond 310 digits before the point it is infinite, and with more than 330
zeros behind the point it is zero. -/
def toFloat (d : DecimalText) : Float :=
  let magnitude : Int := (natText d.mantissa).length + d.scale
  let unsigned : Float :=
    if d.mantissa = 0 || magnitude < -330 then 0
    else if magnitude > 310 then 1 / 0
    else if d.scale < 0 then Float.ofScientific d.mantissa true d.scale.natAbs
    else Float.ofScientific d.mantissa false d.scale.natAbs
  if d.negative then -unsigned else unsigned

end DecimalText

/-- A positive finite double as a whole number times a power of two, with the distance to the next
smaller double in quarters of the unit `2 ^ q`: a half of it, or a quarter at a power of two. -/
structure BinaryParts where
  m : Nat
  q : Int
  below : Nat
  deriving DecidableEq, Repr

/-- How many fractions a double tells apart: they are its lowest 52 bits. -/
def fractionCount : Nat := 0x10000000000000

/-- How many exponents a double tells apart: they are the 11 bits above the fraction. The sign is
the bit above these. -/
def exponentCount : Nat := 0x800

def BinaryParts.ofBits (bits : UInt64) : BinaryParts :=
  let fraction := bits.toNat % fractionCount
  let exponent := bits.toNat / fractionCount % exponentCount
  if exponent = 0 then ⟨fraction, -1074, 2⟩
  else
    ⟨fractionCount + fraction, Int.ofNat exponent - 1075,
      if fraction = 0 && exponent > 1 then 1 else 2⟩

/-- Whether the sign of a double is negative. Zero and what is no number have a sign as well. -/
def isNegative (x : Float) : Bool := x.toBits.toNat / (fractionCount * exponentCount) = 1

/-- The whole multiples of `10 ^ k` next to the double that read back to it, the nearer first. The
interval of numbers that read back holds its ends iff `m` is even. -/
def gridPoint? (parts : BinaryParts) (k : Int) : Option Nat :=
  let twos := parts.q - 2
  let up := Nat.pow 2 twos.toNat * Nat.pow 10 (-k).toNat
  let unit := Nat.pow 2 (-twos).toNat * Nat.pow 10 k.toNat
  let value := 4 * parts.m * up
  let low := (4 * parts.m - parts.below) * up
  let high := (4 * parts.m + 2) * up
  let isEven := parts.m % 2 = 0
  let reads (n : Nat) : Bool :=
    if isEven then low ≤ n * unit && n * unit ≤ high else low < n * unit && n * unit < high
  let floor := value / unit
  match reads floor, reads (floor + 1) with
  | true, true =>
    if value - floor * unit < (floor + 1) * unit - value then some floor else some (floor + 1)
  | true, false => some floor
  | false, true => some (floor + 1)
  | false, false => none

/-- The first grid, from `k` downwards, that has a point which reads back. -/
def searchGrid (parts : BinaryParts) : Nat → Int → Nat × Int
  | 0, k => (0, k)
  | fuel + 1, k =>
    match gridPoint? parts k with
    | some n => (n, k)
    | none => searchGrid parts fuel (k - 1)

/-- The shortest decimal that reads back to the double: its digits and the power of ten. The search
starts above the leading digit, and seventeen digits always suffice. -/
def shortest (parts : BinaryParts) : Nat × Int :=
  let bits : Int := parts.q + parts.m.log2
  searchGrid parts 24 (bits * 30103 / 100000 + 2)

def positional (digits : Nat) (k : Int) : List Char :=
  let text := natText digits
  if 0 ≤ k then text ++ List.replicate k.toNat '0'
  else
    let places := k.natAbs
    let padded := List.replicate (places + 1 - text.length) '0' ++ text
    padded.take (padded.length - places) ++ '.' :: padded.drop (padded.length - places)

/-- The text of a double: the shortest decimal that reads back, without an exponent and without a
point when it is whole. -/
def doubleText (x : Float) : List Char :=
  if x.isNaN then "NaN".toList
  else
    let sign := if isNegative x then ['-'] else []
    if x.isInf then sign ++ "inf".toList
    else
      let parts := BinaryParts.ofBits x.toBits
      if parts.m = 0 then sign ++ ['0']
      else
        let (digits, k) := shortest parts
        sign ++ positional digits k

end StaticReflection.Number
