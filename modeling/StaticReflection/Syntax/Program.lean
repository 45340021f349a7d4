import StaticReflection.Syntax.Grammar.Statement
import StaticReflection.Syntax.Lexer

/-!
Programs from source text. The grammar's readers are tied together level by level, and each level
may nest one deeper. Every level takes a token, so that the number of tokens bounds the depth of
most nesting; expressions inside one another have a bound of their own.
-/

namespace StaticReflection.Syntax

/-- The grammar for a depth of nesting, where expressions may nest so deep. Each level is built only
when a reader of it runs. -/
def Grammar.ofDepth : Nat → Nat → Grammar
  | 0, _ => .empty
  | n + 1, expressions =>
    { expression := fun level tokens =>
        match expressions with
        | 0 => Reader.fail "less nesting" tokens
        | inner + 1 => Syntax.expression (ofDepth n inner) level tokens
      word := fun tokens =>
        match expressions with
        | 0 => Reader.fail "less nesting" tokens
        | _ + 1 => nameLeaf tokens
      embedded := fun tokens =>
        match expressions with
        | 0 => Reader.fail "less nesting" tokens
        | inner + 1 => embeddedExpression (ofDepth n inner) tokens
      statement := fun tokens => Syntax.statement (ofDepth n expressions) tokens
      type := fun tokens => typeHint (ofDepth n expressions) tokens
      params := fun tokens => parameters (ofDepth n expressions) tokens }

/-- The depth of nesting that always suffices for so many tokens: a token opens two levels at
most. -/
def depthFor (tokens : Nat) : Nat := 2 * tokens + 2

/-- The program that tokens make up, where expressions may nest so deep. All tokens have to be
used. -/
def statementsOf? (expressions : Nat) (tokens : List Token) : Except SyntaxError (List Stmt) :=
  (Reader.many (fun ts => !ts.isEmpty)
    (Grammar.ofDepth (depthFor tokens.length) expressions).statement
    |>.run tokens).map (·.1)

/-- The program of a source text, or where and why it is none, for a reader that lets expressions
nest so deep. -/
def Program.readWithin (expressions : Nat) (source : String) : Except SyntaxError Program :=
  match lexemes source with
  | .error left => .error ⟨some (source.utf8ByteSize - left), "a token"⟩
  | .ok found => do return ⟨← statementsOf? expressions (tokensOf found), triviaOf found⟩

/-- How deep expressions may stand in one another. Operands count, unless they are the left ones of
operators. -/
def maxExpressionDepth : Nat := 512

def Program.read (source : String) : Except SyntaxError Program :=
  readWithin maxExpressionDepth source

end StaticReflection.Syntax
