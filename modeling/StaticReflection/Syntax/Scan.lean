import StaticReflection.Number.Digits
import StaticReflection.Syntax.Token

/-!
Cutting a single lexeme off the front of a text: names, numbers, quoted strings, comments, casts,
signs, and the text outside tags. Each cut gives the lexeme and what follows it.
-/

namespace StaticReflection.Syntax

open Text

def splitOff (n : Nat) (cs : List Char) : List Char × List Char := (cs.take n, cs.drop n)

/-- Splits off the longest front part with characters in `p`. -/
def splitWhile (p : Char → Bool) (cs : List Char) : List Char × List Char :=
  (cs.takeWhile p, cs.dropWhile p)

/-- Splits off a name that goes on, with the backslashes between its segments. -/
def splitName : List Char → List Char × List Char
  | '\\' :: c :: cs =>
    if isNameStart c then
      let (name, rest) := splitName cs
      ('\\' :: c :: name, rest)
    else ([], '\\' :: c :: cs)
  | c :: cs =>
    if isNameChar c then
      let (name, rest) := splitName cs
      (c :: name, rest)
    else ([], c :: cs)
  | [] => ([], [])

/-- Splits off a text whatever the case of its ASCII letters. The pattern is in small letters. -/
def splitLetters? : List Char → List Char → Option (List Char × List Char)
  | [], cs => some ([], cs)
  | _ :: _, [] => none
  | p :: ps, c :: cs =>
    if c.toLower == p then (splitLetters? ps cs).map fun (text, rest) => (c :: text, rest)
    else none

/-- Splits off the end of a visibility for writing, which stands directly behind the visibility. -/
def splitWriteMark? (visibility cs : List Char) : Option (List Char × List Char) :=
  if ["public", "protected", "private"].contains (Name.lower (String.ofList visibility)) then
    splitLetters? "(set)".toList cs
  else none

/-- Splits off digits of a base; an underscore belongs to them if a digit follows. -/
def splitDigits (p : Char → Bool) : List Char → List Char × List Char
  | '_' :: c :: cs =>
    if p c then
      let (digits, rest) := splitDigits p cs
      ('_' :: c :: digits, rest)
    else ([], '_' :: c :: cs)
  | c :: cs =>
    if p c then
      let (digits, rest) := splitDigits p cs
      (c :: digits, rest)
    else ([], c :: cs)
  | [] => ([], [])

def isHexDigit (c : Char) : Bool := (Number.digitValue? 16 c).isSome

def isOctalDigit (c : Char) : Bool := (Number.digitValue? 8 c).isSome

/-- Splits off an exponent, if there is one with a digit. An underscore may stand before its first
digit where that is allowed. -/
def splitExponent (underscore : Bool) : List Char → List Char × List Char
  | [] => ([], [])
  | e :: cs =>
    let (mark, unsigned) := match cs with
      | '+' :: more => (['+'], more)
      | '-' :: more => (['-'], more)
      | _ => ([], cs)
    let (digits, rest) := splitDigits Char.isDigit unsigned
    let starts := match digits with
      | [] => false
      | d :: _ => underscore || d.isDigit
    if (e == 'e' || e == 'E') && starts then (e :: mark ++ digits, rest) else ([], e :: cs)

/-- Splits off a decimal number with an optional fraction and exponent. -/
def splitDecimal (cs : List Char) : List Char × List Char :=
  let (whole, afterWhole) := splitDigits Char.isDigit cs
  match afterWhole with
  | '.' :: more =>
    let (fraction, afterFraction) := splitDigits Char.isDigit more
    let (exponent, rest) := splitExponent true afterFraction
    (whole ++ '.' :: fraction ++ exponent, rest)
  | _ =>
    let (exponent, rest) := splitExponent false afterWhole
    (whole ++ exponent, rest)

/-- Splits off digits in `p` behind a zero and the mark of their base, if there is one. -/
def splitBased? (marks : List Char) (p : Char → Bool) : List Char →
    Option (List Char × List Char)
  | '0' :: mark :: d :: cs =>
    if marks.contains mark && p d then
      let (digits, rest) := splitDigits p (d :: cs)
      some ('0' :: mark :: digits, rest)
    else none
  | _ => none

def splitNumber (cs : List Char) : List Char × List Char :=
  let binary (c : Char) : Bool := c == '0' || c == '1'
  match splitBased? ['x', 'X'] isHexDigit cs, splitBased? ['b', 'B'] binary cs,
      splitBased? ['o', 'O'] isOctalDigit cs with
  | some split, _, _ | none, some split, _ | none, none, some split => split
  | none, none, none => splitDecimal cs

/-- Whether a number literal is malformed: an integer with a leading zero and a digit that is not
octal. -/
def isBadNumber (cs : List Char) : Bool :=
  let digits := cs.filter (· != '_')
  digits.head? == some '0' && digits.all Char.isDigit && digits.any fun c => !isOctalDigit c

/-- Splits off what stands before a quote and the quote itself; a backslash hides the character
behind it. -/
def splitQuoted (quote : Char) : List Char → Option (List Char × List Char)
  | [] => none
  | '\\' :: [] => none
  | '\\' :: c :: cs => (splitQuoted quote cs).map fun (text, rest) => ('\\' :: c :: text, rest)
  | c :: cs =>
    if c == quote then some ([c], cs)
    else (splitQuoted quote cs).map fun (text, rest) => (c :: text, rest)

/-- Splits off a comment that ends before the line or a closing tag does. -/
def splitLineComment : List Char → List Char × List Char
  | [] => ([], [])
  | c :: cs =>
    if c == '\n' || c == '\r' || (stripHead? ['?', '>'] (c :: cs)).isSome then ([], c :: cs)
    else
      let (text, rest) := splitLineComment cs
      (c :: text, rest)

def castTypes : List String :=
  ["int", "integer", "bool", "boolean", "float", "double", "real", "string", "binary", "array",
    "object", "unset", "void"]

/-- Splits off a text with blanks anywhere before its characters, whatever the case of its ASCII
letters. The pattern is in small letters. -/
def splitSpaced? : List Char → List Char → Option (List Char × List Char)
  | [], cs => some ([], cs)
  | p :: ps, cs =>
    let (blanks, behind) := splitWhile isAsciiBlank cs
    match behind with
    | c :: more =>
      if c.toLower == p then
        (splitSpaced? ps more).map fun (text, rest) => (blanks ++ c :: text, rest)
      else none
    | [] => none

/-- Splits off a cast: a type between parentheses. Blanks may stand inside the parentheses, and even
between the letters of the type. -/
def splitCast? (cs : List Char) : Option (List Char × List Char) :=
  if cs.head? = some '(' then
    castTypes.findSome? fun type => splitSpaced? ('(' :: type.toList ++ [')']) cs
  else none

/-- Signs of several characters, longer ones before their beginnings. -/
def longSigns : List String :=
  ["<=>", "**=", "...", "<<=", ">>=", "===", "!==", "??=", "?->", "&&", "||", "??", "->", "=>",
    "::", "++", "--", "+=", "-=", "*=", "/=", ".=", "%=", "&=", "|=", "^=", "==", "!=", "<>", "<=",
    ">=", "<<", ">>", "**", "|>", "#[", "$\x7b"]

def shortSigns : List Char := "+-*/%=<>!.,;:?()[]\x7b\x7d&|^~@$\\".toList

def splitSign? (cs : List Char) : Option (List Char × List Char) :=
  match longSigns.findSome? fun s => (stripHead? s.toList cs).map fun rest => (s.toList, rest) with
  | some split => some split
  | none =>
    match cs with
    | c :: rest => if shortSigns.contains c then some ([c], rest) else none
    | [] => none

def splitInline : List Char → List Char × List Char
  | [] => ([], [])
  | c :: cs =>
    if (stripHead? ['<', '?'] (c :: cs)).isSome then ([], c :: cs)
    else
      let (text, rest) := splitInline cs
      (c :: text, rest)

def splitLine : List Char → List Char × List Char
  | [] => ([], [])
  | c :: cs =>
    if c == '\n' then ([c], cs)
    else
      let (text, rest) := splitLine cs
      (c :: text, rest)

end StaticReflection.Syntax
