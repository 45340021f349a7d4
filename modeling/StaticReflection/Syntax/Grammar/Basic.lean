import StaticReflection.Syntax.Keyword

/-!
Reading tokens. A reader takes tokens off the front of a list, or fails at a token. The readers for
expressions, statements, types and parameters need one another; `Grammar` is the record of these
four, and every other reader is built over it.
-/

namespace StaticReflection.Syntax

/-- Where reading failed, and what was wanted there. Without an offset it is the end of the text. -/
structure SyntaxError where
  offset : Option Nat
  expected : String
  deriving DecidableEq, Repr

def SyntaxError.message (e : SyntaxError) : String :=
  match e.offset with
  | some offset => "expected " ++ e.expected ++ " at offset " ++ offset.repr
  | none => "expected " ++ e.expected ++ " at the end"

def openBrace : String := "\x7b"

def closeBrace : String := "\x7d"

/-- The sign that opens the name of a variable that is named by an expression. -/
def indirectMark : String := "$\x7b"

abbrev Reader (α : Type) : Type := StateT (List Token) (Except SyntaxError) α

namespace Reader

def fail {α : Type} (expected : String) : Reader α := fun tokens =>
  .error ⟨tokens.head?.map (·.span.start), expected⟩

/-- The next token, which stays. -/
def peek : Reader (Option Token) := do return (← get).head?

def take (expected : String) : Reader Token := fun tokens =>
  match tokens with
  | t :: rest => .ok (t, rest)
  | [] => .error ⟨none, expected⟩

def signAt (place : Nat) (text : String) (tokens : List Token) : Bool :=
  ((tokens[place]?).map (·.isSign text)).getD false

/-- Whether the token at a place of the list is one of these words. -/
def wordAt (place : Nat) (words : List String) (tokens : List Token) : Bool :=
  ((tokens[place]?).map fun t => t.kind == .name && words.contains t.word).getD false

def kindAt (place : Nat) (kind : TokenKind) (tokens : List Token) : Bool :=
  ((tokens[place]?).map (·.kind == kind)).getD false

def ahead (test : List Token → Bool) : Reader Bool := do return test (← get)

def sign (text : String) : Reader Token := do
  if ← ahead (signAt 0 text) then take text else fail text

def word (text : String) : Reader Token := do
  if ← ahead (wordAt 0 [text]) then take text else fail text

def ofKind (kind : TokenKind) (expected : String) : Reader Token := do
  if ← ahead (kindAt 0 kind) then take expected else fail expected

def skipSign (text : String) : Reader Bool := do
  if ← ahead (signAt 0 text) then
    let _ ← take text
    return true
  else return false

def skipWord (text : String) : Reader Bool := do
  if ← ahead (wordAt 0 [text]) then
    let _ ← take text
    return true
  else return false

/-- Reads items as long as the tokens ahead pass a test, at most the given number of them. -/
def manyUpTo {α : Type} (more : List Token → Bool) (item : Reader α) : Nat → Reader (List α)
  | 0 => pure []
  | n + 1 => do
    if ← ahead more then
      let first ← item
      return first :: (← manyUpTo more item n)
    else return []

/-- Reads items as long as the tokens ahead pass a test. Each item takes a token, so the number of
tokens bounds their number. -/
def many {α : Type} (more : List Token → Bool) (item : Reader α) : Reader (List α) := do
  manyUpTo more item ((← get).length + 1)

/-- Reads items with commas between them, at most the given number of them. -/
def listUpTo {α : Type} (close : List Token → Bool) (item : Reader α) : Nat → Reader (List α)
  | 0 => pure []
  | n + 1 => do
    if ← ahead close then return []
    let first ← item
    if ← skipSign "," then return first :: (← listUpTo close item n)
    else return [first]

/-- Reads items with commas between them up to what closes the list. The last may have a comma
behind it. -/
def list {α : Type} (close : List Token → Bool) (item : Reader α) : Reader (List α) := do
  listUpTo close item ((← get).length + 1)

/-- Reads one or more items with commas between them, and none behind the last. -/
def listOf {α : Type} (item : Reader α) : Reader (List α) := do
  let first ← item
  let rest ← many (signAt 0 ",") (do let _ ← sign ","; item)
  return first :: rest

end Reader

/-- The readers that need one another. An expression is read down to a level of precedence. A word
may be read as an expression whatever it means elsewhere, and an expression embedded in a string
without braces is read by rules of its own. -/
structure Grammar where
  expression : Nat → Reader Expr
  word : Reader Expr
  embedded : Reader Expr
  statement : Reader Stmt
  type : Reader Span
  params : Reader (List Param)

def Grammar.empty : Grammar where
  expression _ := Reader.fail "less nesting"
  word := Reader.fail "less nesting"
  embedded := Reader.fail "less nesting"
  statement := Reader.fail "less nesting"
  type := Reader.fail "less nesting"
  params := Reader.fail "less nesting"

open Reader

/-- A name without backslashes, which may be any word. -/
def localName : Reader String := do return (← ofKind .name "a name").text

/-- A name with or without backslashes. -/
def anyName : Reader String := do
  if ← ahead (kindAt 0 .qualifiedName) then return (← take "a name").text else localName

/-- Whether a statement may end here: at a semicolon or a closing tag. -/
def terminatorAhead (tokens : List Token) : Bool :=
  signAt 0 ";" tokens || kindAt 0 .closeTag tokens

/-- The end of a statement: a semicolon, or a closing tag with an opening tag directly behind it. -/
def terminator : Reader Span := do
  if ← ahead (kindAt 0 .closeTag) then
    let close ← take "a terminator"
    match ← peek with
    | some next =>
      if next.kind = .openTag ∧ next.span.start = close.span.stop then
        let _ ← take "an opening tag"
        return close.span.upTo next.span
      else return close.span
    | none => return close.span
  else return (← sign ";").span

def block (g : Grammar) : Reader (List Stmt × Span) := do
  let _ ← sign openBrace
  let body ← many (fun ts => !ts.isEmpty && !signAt 0 closeBrace ts) g.statement
  let close ← sign closeBrace
  return (body, close.span)

end StaticReflection.Syntax
