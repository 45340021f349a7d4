import StaticReflection.Syntax.Tree

/-!
Tokens: the smallest pieces of source text with a meaning, and the classes of characters that names
are made of. Blanks and comments are trivia and no tokens. A string with embedded expressions is a
sequence of tokens between `templateStart` and `templateEnd`.
-/

namespace StaticReflection.Syntax

inductive TokenKind where
  | inline
  | openTag
  | echoTag
  | closeTag
  | variable
  | name
  | qualifiedName
  | number
  | string
  | nowdoc
  | cast
  | templateStart
  | templateText
  | templateEnd
  | sign
  deriving DecidableEq, Repr

/-- A token with its text and where it stands. -/
structure Token where
  kind : TokenKind
  text : String
  span : Span
  deriving DecidableEq, Repr

/-- What a piece of source text is: a token or trivia. -/
inductive LexemeKind where
  | token (kind : TokenKind)
  | trivia (kind : TriviaKind)
  deriving DecidableEq, Repr

/-- The word that a name token is, in small letters; other tokens are no words. -/
def Token.word (t : Token) : String :=
  if t.kind = .name then Name.lower t.text else ""

def Token.isSign (t : Token) (text : String) : Bool := t.kind == .sign && t.text == text

/-- Characters that a name may start with; all beyond ASCII are among them. -/
def isNameStart (c : Char) : Bool := c.isAlpha || c == '_' || 0x80 ≤ c.toNat

/-- Characters that a name may go on with. -/
def isNameChar (c : Char) : Bool := isNameStart c || c.isDigit

end StaticReflection.Syntax
