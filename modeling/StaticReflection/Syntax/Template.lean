import StaticReflection.Syntax.Scan

/-!
Strings with embedded expressions: how they open and close, what starts an expression in them, and
how far it reaches. How far is found by counting brackets or braces alone, whatever strings and
comments stand between them.
-/

namespace StaticReflection.Syntax

open Text

/-- What ends a string with embedded expressions: a quote, or the label of a heredoc. -/
inductive TemplateEnd where
  | quote (c : Char)
  | label (name : List Char)
  deriving DecidableEq, Repr

/-- Characters that start a name where ASCII alone counts: letters and the underscore. -/
def isAsciiNameStart (c : Char) : Bool := c.isAlpha || c == '_'

/-- Whether an embedded expression starts here. A variable counts if its name starts with an ASCII
character. -/
def startsEmbedded : List Char → Bool
  | '$' :: c :: _ => isAsciiNameStart c || c == '{'
  | '{' :: '$' :: _ => true
  | _ => false

/-- Whether text between double quotes holds an embedded expression before the closing quote, so
that it is more than a literal. -/
def hasEmbedded : List Char → Bool
  | [] => false
  | '\\' :: _ :: cs => hasEmbedded cs
  | c :: cs => if startsEmbedded (c :: cs) then true else c != '"' && hasEmbedded cs

/-- The number of characters up to the end of a text, or up to and with the brace that closes one
more than were opened. -/
def braceExtent : Nat → List Char → Nat
  | _, [] => 0
  | depth, '{' :: cs => braceExtent (depth + 1) cs + 1
  | 0, '}' :: _ => 1
  | depth + 1, '}' :: cs => braceExtent depth cs + 1
  | depth, _ :: cs => braceExtent depth cs + 1

/-- The number of characters up to and with the bracket that closes one more than were opened. A
blank ends them before that. -/
def bracketExtent : Nat → List Char → Nat
  | _, [] => 0
  | depth, '[' :: cs => bracketExtent (depth + 1) cs + 1
  | 0, ']' :: _ => 1
  | depth + 1, ']' :: cs => bracketExtent depth cs + 1
  | depth, c :: cs => if isAsciiBlank c then 0 else bracketExtent depth cs + 1

/-- The number of characters of an arrow and the name of a member behind a variable, if they are
there. -/
def memberExtent? (cs : List Char) : Option Nat :=
  [['-', '>'], ['?', '-', '>']].findSome? fun arrow =>
    match stripHead? arrow cs with
    | some (c :: more) =>
      if isAsciiNameStart c then
        some (arrow.length + ((c :: more).takeWhile isNameChar).length)
      else none
    | _ => none

/-- The opening of a heredoc: its label, whether its text is raw, and all of it up to the line
behind. -/
structure HeredocStart where
  opening : List Char
  label : List Char
  raw : Bool
  deriving DecidableEq, Repr

/-- The end of a line at the front of the text and what follows it. -/
def splitLineEnd? : List Char → Option (List Char × List Char)
  | '\r' :: '\n' :: rest => some (['\r', '\n'], rest)
  | '\n' :: rest => some (['\n'], rest)
  | _ => none

/-- Splits off the opening of a heredoc. Blanks and lines may stand between its mark and its label,
a `b` before the mark says nothing, and a label between single quotes makes the text raw. -/
def splitHeredocStart? (cs : List Char) : Option (HeredocStart × List Char) := do
  let (binary, unmarked) := match cs with
    | 'b' :: rest => (['b'], rest)
    | 'B' :: rest => (['B'], rest)
    | _ => ([], cs)
  let afterMark ← stripHead? ['<', '<', '<'] unmarked
  let (gap, afterGap) := splitWhile isAsciiBlank afterMark
  let (quote, afterQuote) := match afterGap with
    | '\'' :: rest => (['\''], rest)
    | '"' :: rest => (['"'], rest)
    | _ => ([], afterGap)
  let (label, afterLabel) := splitWhile isNameChar afterQuote
  let behind ← stripHead? quote afterLabel
  let (newline, body) ← splitLineEnd? behind
  if (label.head?.map isAsciiNameStart).getD false then
    return (⟨binary ++ ['<', '<', '<'] ++ gap ++ quote ++ label ++ quote ++ newline, label,
      quote == ['\'']⟩, body)
  else none

def isLineEnd (c : Char) : Bool := c == '\n' || c == '\r'

/-- Splits off the closing label of a heredoc with the blanks before it. No ASCII letter or digit
may follow it. -/
def splitClosingLabel? (label cs : List Char) : Option (List Char × List Char) :=
  let (indent, after) := splitWhile (fun c => isAsciiBlank c && !isLineEnd c) cs
  match stripHead? label after with
  | some rest =>
    if (rest.head?.map Char.isAlphanum).getD false then none else some (indent ++ label, rest)
  | none => none

/-- Splits off the text of a raw heredoc with its closing label. The label closes it where only
blanks stand before it on the line. -/
def splitRaw (label : List Char) : Bool → List Char → Option (List Char × List Char)
  | _, [] => none
  | lineStart, c :: cs =>
    match if lineStart then splitClosingLabel? label (c :: cs) else none with
    | some closed => some closed
    | none => (splitRaw label (isLineEnd c) cs).map fun (text, rest) => (c :: text, rest)

/-- Splits off text between quotes up to the closing quote or the next embedded expression. A
backslash hides the character behind it. -/
def splitQuoteText (quote : Char) : List Char → List Char × List Char
  | [] => ([], [])
  | '\\' :: d :: cs =>
    let (text, rest) := splitQuoteText quote cs
    ('\\' :: d :: text, rest)
  | c :: cs =>
    if startsEmbedded (c :: cs) || c == quote then ([], c :: cs)
    else
      let (text, rest) := splitQuoteText quote cs
      (c :: text, rest)

/-- Splits off text of a heredoc up to the next embedded expression or the end of the line, which
it takes as well. A backslash hides the next character on the line that is no blank; the first
argument says whether one is waiting to. -/
def splitHeredocText : Bool → List Char → List Char × List Char
  | _, [] => ([], [])
  | hidden, c :: cs =>
    if !hidden && startsEmbedded (c :: cs) then ([], c :: cs)
    else if isLineEnd c then ([c], cs)
    else
      let hides := if isAsciiBlank c then hidden else c == '\\' && !hidden
      let (text, rest) := splitHeredocText hides cs
      (c :: text, rest)

end StaticReflection.Syntax
