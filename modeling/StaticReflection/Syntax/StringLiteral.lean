import StaticReflection.Number.Digits

/-!
What string literals denote. Between single quotes only a backslash and the quote can be escaped.
Between double quotes an escape may denote a byte, so that a literal need not be text; then it has
no value.
-/

namespace StaticReflection.Syntax

open Number

def decodeSingle : List Char → List Char
  | '\\' :: '\\' :: cs => '\\' :: decodeSingle cs
  | '\\' :: '\'' :: cs => '\'' :: decodeSingle cs
  | c :: cs => c :: decodeSingle cs
  | [] => []

def bytesOf (cs : List Char) : List UInt8 := cs.flatMap String.utf8EncodeChar

/-- The bytes that an escape after a backslash denotes, and how many characters it is long. -/
def decodeEscape (cs : List Char) : List UInt8 × Nat :=
  let plain (b : UInt8) : List UInt8 × Nat := ([b], 1)
  match cs with
  | [] => ([92], 0)
  | 'n' :: _ => plain 10
  | 't' :: _ => plain 9
  | 'r' :: _ => plain 13
  | 'v' :: _ => plain 11
  | 'e' :: _ => plain 27
  | 'f' :: _ => plain 12
  | '0' :: _ => plain 0
  | 'x' :: more =>
    match (more.take 2).map (digitValue? 16) with
    | [some a, some b] => ([UInt8.ofNat (16 * a + b)], 3)
    | some a :: _ => ([UInt8.ofNat a], 2)
    | _ => ([92, 120], 1)
  | c :: more =>
    match digitValue? 10 c with
    | none => (String.utf8EncodeChar c, 1)
    | some d =>
      if 8 ≤ d then ([92, 48, UInt8.ofNat (48 + d)], 1)
      else
        match (more.take 2).map (digitValue? 8) with
        | [some a, some b] => ([UInt8.ofNat (64 * d + 8 * a + b)], 3)
        | some a :: _ => ([UInt8.ofNat (8 * d + a)], 2)
        | _ => ([UInt8.ofNat d], 1)

/-- The bytes between double quotes with their escapes resolved. The first argument counts the
characters of an escape that are still to be passed over. -/
def decodeDouble : Nat → List Char → List UInt8
  | _, [] => []
  | n + 1, _ :: cs => decodeDouble n cs
  | 0, c :: cs =>
    if c == '\\' then
      let (bytes, length) := decodeEscape cs
      bytes ++ decodeDouble length cs
    else String.utf8EncodeChar c ++ decodeDouble 0 cs

/-- The value of a string literal with its quotes and an optional `b` before them. -/
def stringValue? (literal : String) : Option String :=
  let quoted := match literal.toList with
    | 'b' :: rest => rest
    | 'B' :: rest => rest
    | cs => cs
  let inner := (quoted.drop 1).dropLast
  if quoted.head? = some '\'' then some (String.ofList (decodeSingle inner))
  else String.fromUTF8? ⟨(decodeDouble 0 inner).toArray⟩

end StaticReflection.Syntax
