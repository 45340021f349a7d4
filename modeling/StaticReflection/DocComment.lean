import StaticReflection.Imports
import StaticReflection.Syntax.Tree
import StaticReflection.Text.Blank

/-!
Doc comments: which one belongs to a declaration, and the types that its return tag names.
-/

namespace StaticReflection

open Syntax Text

namespace DocComment

/-- The bytes between two offsets. Offsets in the wrong order or past the end have nothing between
them. -/
def between (source : String) (start stop : Nat) : List UInt8 :=
  let all := bytes source.toList
  if start ≤ stop ∧ stop ≤ all.length then all.extract start stop else []

/-- Searches trivia backwards from an offset. Only blanks may stand between one trivia and the
next, and comments that are no doc comments are passed over. -/
def searchBack (source : String) : Nat → List Trivia → Option String
  | _, [] => none
  | from_, t :: earlier =>
    if (between source t.span.stop from_).all isBlankByte then
      match t.kind with
      | .docComment => some t.text
      | .blank | .comment => searchBack source t.span.start earlier
    else none

def before? (source : String) (trivia : List Trivia) (offset : Nat) : Option String :=
  searchBack source offset (trivia.takeWhile fun t => t.span.start < offset).reverse

/-- The comment without its opening and its end. Where it has not both, the end is taken off the
whole comment or nothing is. -/
def inner (doc : List Char) : List Char :=
  let opened := (stripHead? ['/', '*', '*'] (trim isBlank doc)).getD doc
  (stripTail? ['*', '/'] opened).getD doc

def returnTags : List String := ["@return", "@phpstan-return", "@psalm-return"]

def depthStep (depth : Int) (c : Char) : Int :=
  if c == '<' || c == '(' || c == '{' then depth + 1
  else if c == '>' || c == ')' || c == '}' then depth - 1
  else depth

/-- The text up to the first blank outside brackets. -/
def typeToken : Int → List Char → List Char
  | _, [] => []
  | depth, c :: cs =>
    if isBlank c && depth ≤ 0 then [] else c :: typeToken (depthStep depth c) cs

/-- What stands behind a return tag at the start of a line: blanks must follow it, and more behind
them. -/
def returnOfLine? (line : List Char) : Option (List Char) :=
  let content := trim isBlank ((trim isBlank line).dropWhile (· == '*'))
  match returnTags.findSome? fun tag => stripHead? tag.toList content with
  | some (c :: rest) =>
    let type := (c :: rest).dropWhile isBlank
    if isBlank c && !type.isEmpty then some (typeToken 0 type) else none
  | _ => none

/-- The type that the first return tag names, as written. -/
def returnType? (doc : String) : Option String :=
  ((lines (inner doc.toList)).findSome? returnOfLine?).map String.ofList

/-- The parts of a union: the pieces between bars outside brackets. -/
def unionParts : Int → List Char → List (List Char)
  | _, [] => [[]]
  | depth, c :: cs =>
    if c == '|' && depth == 0 then [] :: unionParts depth cs
    else
      match unionParts (depthStep depth c) cs with
      | [] => [[c]]
      | part :: rest => (c :: part) :: rest

def builtinTypes : List String :=
  ["int", "integer", "float", "double", "string", "bool", "boolean", "array", "object", "mixed",
    "void", "never", "null", "true", "false", "callable", "iterable", "resource", "self",
    "static", "parent", "$this"]

/-- One part of a union with its class name written in full. A question mark in front and brackets
behind are kept. -/
def resolvePart (imports : Imports) (part : List Char) : String :=
  let (mark, body) := match part with
    | '?' :: rest => (['?'], rest)
    | _ => ([], part)
  let isOpening (c : Char) : Bool := c == '<' || c == '[' || c == '{' || c == '('
  let base := body.takeWhile (!isOpening ·)
  let suffix := body.dropWhile (!isOpening ·)
  if base.isEmpty || builtinTypes.contains (String.ofList (lower base)) then String.ofList part
  else
    String.ofList (mark ++ '\\' :: (imports.resolveClass (String.ofList base)).toList ++ suffix)

/-- The types that the return tag of a doc comment names, class names in full. -/
def returnTypes (doc : String) (imports : Imports) : List String :=
  match returnType? doc with
  | none => []
  | some raw =>
    (((unionParts 0 raw.toList).map (trim isBlank)).filter (!·.isEmpty)).map (resolvePart imports)

end DocComment

end StaticReflection
