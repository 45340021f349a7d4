import StaticReflection.Number.Digits
import StaticReflection.Text.Cut

/-!
Reading settings: documents with one key and one value a line in the notation of TOML. Values are
truth values, strings and arrays of strings. A document with anything else in it, be it a table, a
number or a date, is refused, and so is one with a repeated key.
-/

namespace StaticReflection.Toml

inductive Setting where
  | bool (value : Bool)
  | text (value : String)
  | list (items : List String)
  deriving DecidableEq, Repr

/-- Whether a character may stand between the parts of a line. -/
def isGap (c : Char) : Bool := c == ' ' || c == '\t'

def skipGap (cs : List Char) : List Char := cs.dropWhile isGap

/-- Whether a character may stand in comments and strings. -/
def isPlain (c : Char) : Bool := c == '\t' || (0x20 ≤ c.toNat && c.toNat != 0x7f)

/-- What follows the line break at the front of the text. -/
def takeBreak? : List Char → Option (List Char)
  | '\n' :: rest => some rest
  | '\r' :: '\n' :: rest => some rest
  | _ => none

/-- What follows gaps and a comment, if there are any. -/
def skipComment (cs : List Char) : List Char :=
  match skipGap cs with
  | '#' :: rest => rest.dropWhile isPlain
  | rest => rest

/-- What follows the end of the line at the front of the text. -/
def takeLineEnd? (cs : List Char) : Option (List Char) :=
  match skipComment cs with
  | [] => some []
  | rest => takeBreak? rest

/-- The text without gaps, comments and as many line breaks in front. -/
def skipLines : Nat → List Char → List Char
  | 0, cs => cs
  | fuel + 1, cs =>
    let rest := skipComment cs
    match takeBreak? rest with
    | some rest => skipLines fuel rest
    | none => rest

/-- The character that so many hexadecimal digits denote, and what follows them. -/
def takeCode? (count : Nat) (cs : List Char) : Option (Char × List Char) :=
  let digits := cs.take count
  match Number.readDigits? 16 digits with
  | some n =>
    if digits.length = count && n.isValidChar then some (Char.ofNat n, cs.drop count) else none
  | none => none

/-- The character of the escape behind a backslash, and what follows it. -/
def takeEscape? : List Char → Option (Char × List Char)
  | 'b' :: rest => some ('\x08', rest)
  | 't' :: rest => some ('\t', rest)
  | 'n' :: rest => some ('\n', rest)
  | 'f' :: rest => some ('\x0c', rest)
  | 'r' :: rest => some ('\r', rest)
  | 'e' :: rest => some ('\x1b', rest)
  | '"' :: rest => some ('"', rest)
  | '\\' :: rest => some ('\\', rest)
  | 'x' :: rest => takeCode? 2 rest
  | 'u' :: rest => takeCode? 4 rest
  | 'U' :: rest => takeCode? 8 rest
  | _ => none

/-- The text of a string of one line behind its quote, and what follows the closing quote. Only
double quotes allow escapes. -/
def takeShort? (quote : Char) : Nat → List Char → Option (List Char × List Char)
  | 0, _ | _, [] => none
  | fuel + 1, c :: cs =>
    if c == quote then some ([], cs)
    else if c == '\\' && quote == '"' then
      match takeEscape? cs with
      | some (d, rest) => (takeShort? quote fuel rest).map fun (text, rest) => (d :: text, rest)
      | none => none
    else if isPlain c then
      (takeShort? quote fuel cs).map fun (text, rest) => (c :: text, rest)
    else none

/-- What follows gaps and line breaks at the front of the text. -/
def skipBreaks : List Char → List Char
  | '\r' :: '\n' :: cs => skipBreaks cs
  | c :: cs => if isGap c || c == '\n' then skipBreaks cs else c :: cs
  | [] => []

/-- What follows a backslash at the end of a line: the next character that is no blank. -/
def takeFold? (cs : List Char) : Option (List Char) :=
  (takeBreak? (skipGap cs)).map skipBreaks

/-- The text of a string of many lines behind its quotes, and what follows the closing quotes. Line
breaks are kept as they are written. One or two more quotes at the end belong to the text. -/
def takeLong? (quote : Char) : Nat → List Char → Option (List Char × List Char)
  | 0, _ | _, [] => none
  | fuel + 1, c :: cs =>
    let keep (d : Char) (rest : List Char) :=
      (takeLong? quote fuel rest).map fun (text, rest) => (d :: text, rest)
    if c == quote then
      match cs with
      | b :: a :: rest =>
        if b == quote && a == quote then
          let more := rest.takeWhile (· == quote)
          if more.length ≤ 2 then some (more, rest.drop more.length) else none
        else keep c cs
      | _ => none
    else if c == '\\' && quote == '"' then
      match takeFold? cs with
      | some rest => takeLong? quote fuel rest
      | none =>
        match takeEscape? cs with
        | some (d, rest) => keep d rest
        | none => none
    else if isPlain c || (takeBreak? (c :: cs)).isSome then keep c cs
    else none

/-- The string at the front of the text, and what follows it. -/
def takeString? (cs : List Char) : Option (String × List Char) :=
  let asText := fun (text, rest) => (String.ofList text, rest)
  let long (quote : Char) (rest : List Char) :=
    (takeLong? quote (rest.length + 1) ((takeBreak? rest).getD rest)).map asText
  let short (quote : Char) (rest : List Char) :=
    (takeShort? quote (rest.length + 1) rest).map asText
  match cs with
  | '"' :: '"' :: '"' :: rest => long '"' rest
  | '\'' :: '\'' :: '\'' :: rest => long '\'' rest
  | '"' :: rest => short '"' rest
  | '\'' :: rest => short '\'' rest
  | _ => none

/-- The strings of an array behind its bracket, and what follows the closing one. A comma may stand
behind the last string. -/
def takeItems? : Nat → List Char → Option (List String × List Char)
  | 0, _ => none
  | fuel + 1, cs =>
    match skipLines cs.length cs with
    | ']' :: rest => some ([], rest)
    | start =>
      match takeString? start with
      | none => none
      | some (item, rest) =>
        match skipLines rest.length rest with
        | ',' :: rest => (takeItems? fuel rest).map fun (items, rest) => (item :: items, rest)
        | ']' :: rest => some ([item], rest)
        | _ => none

/-- The value at the front of the text, and what follows it. -/
def takeSetting? : List Char → Option (Setting × List Char)
  | 't' :: 'r' :: 'u' :: 'e' :: rest => some (.bool true, rest)
  | 'f' :: 'a' :: 'l' :: 's' :: 'e' :: rest => some (.bool false, rest)
  | '[' :: rest =>
    (takeItems? (rest.length + 1) rest).map fun (items, rest) => (.list items, rest)
  | cs => (takeString? cs).map fun (text, rest) => (.text text, rest)

/-- Whether a character may stand in a key without quotes. -/
def isKeyChar (c : Char) : Bool := c.isAlphanum || c == '-' || c == '_'

/-- The key at the front of the text, and what follows it. -/
def takeKey? (cs : List Char) : Option (String × List Char) :=
  match cs with
  | '"' :: rest | '\'' :: rest =>
    (takeShort? (cs.headD '"') (rest.length + 1) rest).map
      fun (text, rest) => (String.ofList text, rest)
  | _ =>
    let key := cs.takeWhile isKeyChar
    if key.isEmpty then none else some (String.ofList key, cs.dropWhile isKeyChar)

/-- The setting at the front of the text, and what follows its line. -/
def takeLine? (cs : List Char) : Option ((String × Setting) × List Char) := do
  let (key, rest) ← takeKey? cs
  match skipGap rest with
  | '=' :: rest =>
    let (value, rest) ← takeSetting? (skipGap rest)
    return ((key, value), ← takeLineEnd? rest)
  | _ => none

/-- The settings of as many lines, behind those that were read before. -/
def readLines? : Nat → List (String × Setting) → List Char → Option (List (String × Setting))
  | 0, _, _ => none
  | fuel + 1, settings, cs =>
    match skipLines cs.length cs with
    | [] => some settings
    | start =>
      match takeLine? start with
      | none => none
      | some ((key, value), rest) =>
        if (settings.lookup key).isSome then none
        else readLines? fuel (settings ++ [(key, value)]) rest

/-- The settings of a document, in the order of its lines. -/
def read? (text : String) : Option (List (String × Setting)) :=
  let cs := match text.toList with
    | '\uFEFF' :: rest => rest
    | cs => cs
  readLines? (cs.length + 1) [] cs

end StaticReflection.Toml
