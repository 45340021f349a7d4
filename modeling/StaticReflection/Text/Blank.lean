/-!
Blank characters. `isBlank` is the Unicode property White_Space, which decides where texts are
trimmed. `isSourceBlank` holds of the characters that may stand between the tokens of a source text,
and `isAsciiBlank` of those that may stand in front of the label of a heredoc or between a doc
comment and the declaration it belongs to: the same without the vertical tab.
-/

namespace StaticReflection.Text

/-- The Unicode property White_Space. -/
def isBlank (c : Char) : Bool :=
  let n := c.toNat
  (9 ≤ n && n ≤ 13) || n == 0x20 || n == 0x85 || n == 0xA0 || n == 0x1680 ||
    (0x2000 ≤ n && n ≤ 0x200A) || n == 0x2028 || n == 0x2029 || n == 0x202F || n == 0x205F ||
    n == 0x3000

/-- Space, tab, line feed, form feed and carriage return. -/
def isAsciiBlank (c : Char) : Bool :=
  c == ' ' || c == '\t' || c == '\n' || c == '\x0c' || c == '\r'

/-- Whether a byte is an ASCII blank. -/
def isBlankByte (b : UInt8) : Bool := isAsciiBlank (Char.ofNat b.toNat)

/-- The ASCII blanks and the vertical tab. -/
def isSourceBlank (c : Char) : Bool := isAsciiBlank c || c == '\x0b'

end StaticReflection.Text
