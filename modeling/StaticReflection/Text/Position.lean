import StaticReflection.Text.Blank
import StaticReflection.Text.Cut

/-!
Positions in a text. Offsets count bytes of the UTF-8 form. Lines and columns count from one; a
line ends at a line feed only, and a column is a distance in bytes from the start of its line.
Offsets and columns are words of 64 bits.
-/

namespace StaticReflection

/-- A stretch of text between two byte offsets. -/
structure Span where
  start : Nat
  stop : Nat
  deriving DecidableEq, Repr, Inhabited

def Span.upTo (first last : Span) : Span := ⟨first.start, last.stop⟩

namespace Text

def width (c : Char) : Nat := c.utf8Size

/-- The bytes of a text in UTF-8. -/
def bytes (cs : List Char) : List UInt8 := cs.flatMap String.utf8EncodeChar

/-- The text from byte offset `n` on, or nothing when `n` lies inside a character or past the
end. -/
def dropBytes? : List Char → Nat → Option (List Char)
  | cs, 0 => some cs
  | [], _ + 1 => none
  | c :: cs, n + 1 => if width c ≤ n + 1 then dropBytes? cs (n + 1 - width c) else none

/-- The first `n` bytes of a text, or nothing when these are not whole characters of it. -/
def takeBytes? : List Char → Nat → Option (List Char)
  | _, 0 => some []
  | [], _ + 1 => none
  | c :: cs, n + 1 =>
    if width c ≤ n + 1 then (takeBytes? cs (n + 1 - width c)).map (c :: ·) else none

/-- The text under a span, without the blanks around it. A span that does not fit the text covers
nothing. -/
def under (source : String) (span : Span) : String :=
  if span.start ≤ span.stop then
    match dropBytes? source.toList span.start with
    | none => ""
    | some rest =>
      match takeBytes? rest (span.stop - span.start) with
      | none => ""
      | some covered => String.ofList (trim isBlank covered)
  else ""

/-- The offsets at which lines start after the first one. -/
def lineStartsFrom : Nat → List Char → List Nat
  | _, [] => []
  | n, c :: cs =>
    if c = '\n' then (n + width c) :: lineStartsFrom (n + width c) cs
    else lineStartsFrom (n + width c) cs

end Text

/-- Where the lines of a text start, in ascending order; the first line starts at zero. -/
structure LineTable where
  later : List Nat
  deriving Repr

namespace LineTable

open Text

def ofText (source : String) : LineTable := ⟨lineStartsFrom 0 source.toList⟩

/-- The line of a byte offset. Offsets past the end belong to the last line. -/
def lineOf (table : LineTable) (offset : Nat) : Nat :=
  1 + (table.later.takeWhile (· ≤ offset)).length

/-- The column of a byte offset in its line. Counting on from the greatest word comes to zero. -/
def columnOf (table : LineTable) (offset : Nat) : Nat :=
  (offset - ((table.later.takeWhile (· ≤ offset)).getLast?.getD 0) + 1) % UInt64.size

end LineTable

/-- The lines and columns of a declaration's first and last byte. -/
structure LineSpan where
  startLine : Nat
  endLine : Nat
  startColumn : Nat
  endColumn : Nat
  deriving DecidableEq, Repr, Inhabited

def LineSpan.ofSpan (table : LineTable) (span : Span) : LineSpan :=
  let last := max (span.stop - 1) span.start
  ⟨table.lineOf span.start, table.lineOf last, table.columnOf span.start, table.columnOf last⟩

end StaticReflection
