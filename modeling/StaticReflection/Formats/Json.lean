import StaticReflection.Number.Double

/-!
Reading JSON. Documents nest at most 127 levels deep. The fields of an object keep the order in
which their names first appear, and of a repeated name the last value counts. Numbers are checked
and not kept, since nothing asks for one.
-/

namespace StaticReflection

inductive Json where
  | null
  | bool (value : Bool)
  | number
  | string (value : String)
  | array (items : List Json)
  | object (fields : List (String × Json))

namespace Json

def field? (name : String) : Json → Option Json
  | .object fields => fields.lookup name
  | _ => none

def text? : Json → Option String
  | .string s => some s
  | _ => none

/-- Sets a field, in place if its name is there and behind all others if it is not. -/
def setField (name : String) (value : Json) : List (String × Json) → List (String × Json)
  | [] => [(name, value)]
  | (n, v) :: rest => if n = name then (n, value) :: rest else (n, v) :: setField name value rest

/-- Whether a character is white space between the parts of a document. -/
def isGap (c : Char) : Bool := c == ' ' || c == '\t' || c == '\n' || c == '\r'

/-- The text without white space in front. -/
def skipGap (cs : List Char) : List Char := cs.dropWhile isGap

/-- The number that four hexadecimal digits denote, and what follows them. -/
def takeHex4? : List Char → Option (Nat × List Char)
  | a :: b :: c :: d :: rest => (Number.readDigits? 16 [a, b, c, d]).map fun n => (n, rest)
  | _ => none

/-- The character of an escape after its `\u`, which may take a second escape, and what follows
it. Half a pair of escapes is no character. -/
def takeUnicode? (cs : List Char) : Option (Char × List Char) :=
  match takeHex4? cs with
  | none => none
  | some (high, rest) =>
    if 0xD800 ≤ high && high < 0xDC00 then
      match rest with
      | '\\' :: 'u' :: more =>
        match takeHex4? more with
        | some (low, rest) =>
          if 0xDC00 ≤ low && low < 0xE000 then
            some (Char.ofNat (0x10000 + (high - 0xD800) * 0x400 + (low - 0xDC00)), rest)
          else none
        | none => none
      | _ => none
    else if 0xDC00 ≤ high && high < 0xE000 then none
    else some (Char.ofNat high, rest)

def shortEscape? : Char → Option Char
  | '"' => some '"'
  | '\\' => some '\\'
  | '/' => some '/'
  | 'b' => some '\x08'
  | 'f' => some '\x0c'
  | 'n' => some '\n'
  | 'r' => some '\r'
  | 't' => some '\t'
  | _ => none

/-- The text of a string behind its opening quote, and what follows its closing one. -/
def takeString? : Nat → List Char → Option (List Char × List Char)
  | 0, _ | _, [] => none
  | fuel + 1, c :: cs =>
    if c == '"' then some ([], cs)
    else if c == '\\' then
      match cs with
      | 'u' :: more =>
        match takeUnicode? more with
        | some (d, rest) => (takeString? fuel rest).map fun (text, rest) => (d :: text, rest)
        | none => none
      | e :: more =>
        match shortEscape? e with
        | some d => (takeString? fuel more).map fun (text, rest) => (d :: text, rest)
        | none => none
      | [] => none
    else if c.toNat < 0x20 then none
    else (takeString? fuel cs).map fun (text, rest) => (c :: text, rest)

/-- A number as whole digits times a power of ten. -/
structure Magnitude where
  digits : Nat
  exponent : Int
  deriving DecidableEq, Repr

/-- Reads the digits before the point. From the first one on that 64 bits have no room for, digits
count for the exponent only. -/
def Magnitude.readWhole (m : Magnitude) : List Char → Magnitude
  | [] => m
  | c :: cs =>
    let more := 10 * m.digits + (Number.digitValue? 10 c).getD 0
    if more < UInt64.size then readWhole { m with digits := more } cs
    else { m with exponent := m.exponent + (c :: cs).length }

/-- Reads the digits behind the point, up to the first one that 64 bits have no room for. -/
def Magnitude.readFraction (m : Magnitude) : List Char → Magnitude
  | [] => m
  | c :: cs =>
    let more := 10 * m.digits + (Number.digitValue? 10 c).getD 0
    if more < UInt64.size then readFraction ⟨more, m.exponent - 1⟩ cs else m

def Magnitude.ofDecimal (d : Number.DecimalText) : Magnitude :=
  let m := ((⟨0, 0⟩ : Magnitude).readWhole d.whole).readFraction d.fraction
  { m with exponent := m.exponent + d.exponent.getD 0 }

def maxPowerOfTen : Int := 308

/-- Whether a number is finite as a double: the nearest double to the digits is multiplied by the
nearest one to the power of ten. -/
def Magnitude.isFinite (m : Magnitude) : Bool :=
  m.digits == 0 || m.exponent < 0 ||
    (m.exponent ≤ maxPowerOfTen &&
      (Float.ofScientific m.digits false 0 *
        Float.ofScientific 1 false m.exponent.natAbs).isFinite)

/-- What follows a number at the front of the text. A number too large for a double is none. -/
def takeNumber? (cs : List Char) : Option (List Char) :=
  let unsigned := match cs with
    | '-' :: rest => rest
    | _ => cs
  let plain := match unsigned with
    | '0' :: d :: _ => !d.isDigit
    | d :: _ => d.isDigit
    | [] => false
  match Number.takeDecimal? unsigned with
  | some (d, rest) =>
    let brokenExponent := match rest with
      | c :: _ => c == 'e' || c == 'E'
      | [] => false
    if plain && !(d.point && d.fraction.isEmpty) && !brokenExponent &&
        (Magnitude.ofDecimal d).isFinite then some rest
    else none
  | none => none

mutual

/-- A value at the front of the text, and what follows it. -/
def takeValue? : Nat → Nat → List Char → Option (Json × List Char)
  | 0, _, _ => none
  | fuel + 1, depth, cs =>
    match cs with
    | 'n' :: 'u' :: 'l' :: 'l' :: rest => some (.null, rest)
    | 't' :: 'r' :: 'u' :: 'e' :: rest => some (.bool true, rest)
    | 'f' :: 'a' :: 'l' :: 's' :: 'e' :: rest => some (.bool false, rest)
    | '"' :: rest =>
      (takeString? (rest.length + 1) rest).map fun (text, rest) =>
        (.string (String.ofList text), rest)
    | '[' :: rest =>
      match depth with
      | 0 => none
      | depth + 1 =>
        match skipGap rest with
        | ']' :: rest => some (.array [], rest)
        | rest => (takeItems? fuel depth rest).map fun (items, rest) => (.array items, rest)
    | '{' :: rest =>
      match depth with
      | 0 => none
      | depth + 1 =>
        match skipGap rest with
        | '}' :: rest => some (.object [], rest)
        | rest => (takeFields? fuel depth [] rest).map fun (fields, rest) => (.object fields, rest)
    | _ => (takeNumber? cs).map fun rest => (.number, rest)

def takeItems? : Nat → Nat → List Char → Option (List Json × List Char)
  | 0, _, _ => none
  | fuel + 1, depth, cs =>
    match takeValue? fuel depth (skipGap cs) with
    | none => none
    | some (item, rest) =>
      match skipGap rest with
      | ',' :: rest => (takeItems? fuel depth rest).map fun (items, rest) => (item :: items, rest)
      | ']' :: rest => some ([item], rest)
      | _ => none

/-- The fields of an object up to its end, added to those before them. -/
def takeFields? : Nat → Nat → List (String × Json) → List Char →
    Option (List (String × Json) × List Char)
  | 0, _, _, _ => none
  | fuel + 1, depth, fields, cs =>
    match skipGap cs with
    | '"' :: rest =>
      match takeString? (rest.length + 1) rest with
      | none => none
      | some (name, rest) =>
        match skipGap rest with
        | ':' :: rest =>
          match takeValue? fuel depth (skipGap rest) with
          | none => none
          | some (value, rest) =>
            let fields := setField (String.ofList name) value fields
            match skipGap rest with
            | ',' :: rest => takeFields? fuel depth fields rest
            | '}' :: rest => some (fields, rest)
            | _ => none
        | _ => none
    | _ => none

end

/-- How deep a document may nest. -/
def maxDepth : Nat := 127

def read? (text : String) : Option Json :=
  match takeValue? (2 * text.toList.length + 2) maxDepth (skipGap text.toList) with
  | some (value, rest) => if (skipGap rest).isEmpty then some value else none
  | none => none

end Json

end StaticReflection
