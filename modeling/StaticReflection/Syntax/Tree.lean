import StaticReflection.Imports
import StaticReflection.Text.Position

/-!
Syntax trees. Every node has the span of its source text. A leaf also has the text itself, so that a
constant expression can be evaluated from the tree alone; types are kept as spans, since nothing
looks inside them. Differences that no declaration and no constant expression depends on are
dropped: which assignment operator it is, whether a member is reached through `->` or `?->`, or
whether an argument is named or spread.
-/

namespace StaticReflection.Syntax

/-- Expressions without parts. A name may be a constant, a function, a class or a keyword that
stands for a value. -/
inductive LeafKind where
  | name
  | variable
  | number
  | nowdoc
  deriving DecidableEq, Repr

/-- Prefix operators; those that no constant expression gives a meaning to are `other`. -/
inductive UnaryOp where
  | not
  | minus
  | plus
  | complement
  | other
  deriving DecidableEq, Repr

/-- Operators between two operands. A word operator and its sign are the same operator. -/
inductive BinaryOp where
  | concat
  | coalesce
  | and
  | or
  | xor
  | identical
  | notIdentical
  | equal
  | notEqual
  | less
  | lessEqual
  | greater
  | greaterEqual
  | spaceship
  | add
  | sub
  | mul
  | div
  | mod
  | pow
  | bitOr
  | bitAnd
  | bitXor
  | shiftLeft
  | shiftRight
  | instanceOf
  deriving DecidableEq, Repr

/-- Expressions that are no more than their operands in source order. -/
inductive OperationKind where
  | assign
  | pipe
  | postfixStep
  | matchArms
  | isset
  | empty
  | eval
  | include
  | print
  | exit
  | yield
  | throw
  | clone
  deriving DecidableEq, Repr

/-- Modifiers of declarations. A visibility that holds for writing only is no visibility. -/
inductive Modifier where
  | static
  | final
  | abstract
  | readonly
  | publicAccess
  | protectedAccess
  | privateAccess
  | writeAccess
  deriving DecidableEq, Repr

/-- The four sorts of class-like declarations. -/
inductive ClassKind where
  | classDecl
  | interfaceDecl
  | traitDecl
  | enumDecl
  deriving DecidableEq, Repr

def ClassKind.word : ClassKind → String
  | .classDecl => "class"
  | .interfaceDecl => "interface"
  | .traitDecl => "trait"
  | .enumDecl => "enum"

mutual

inductive Expr where
  | leaf (span : Span) (kind : LeafKind) (text : String)
  | string (span : Span) (text : String) (value : Option String)
  | interpolated (span : Span) (parts : List Expr)
  | parenthesized (span : Span) (inner : Expr)
  | unary (span : Span) (op : UnaryOp) (operand : Expr)
  | binary (span : Span) (op : BinaryOp) (left right : Expr)
  | conditional (span : Span) (condition : Expr) (onTrue : Option Expr) (onFalse : Expr)
  | array (span : Span) (elements : List ArrayElement)
  | list (span : Span) (elements : List ArrayElement)
  | classConstant (span : Span) (scope selector : Expr)
  | property (span : Span) (object selector : Expr)
  | index (span : Span) (base : Expr) (key : Option Expr)
  | dynamicName (span : Span) (inner : Expr)
  | call (span : Span) (callee : Expr) (args : List Expr)
  | methodCall (span : Span) (object selector : Expr) (args : List Expr)
  | partialCall (span : Span) (parts : List Expr)
  | instantiate (span : Span) (target : Expr) (args : List Expr)
  | anonymousClass (span : Span) (attributes args : List Expr) (members : List Member)
  | closure (function : Function)
  | arrow (function : Function)
  | operation (span : Span) (kind : OperationKind) (operands : List Expr)

/-- An element of an array. Places that are left out are no elements. -/
inductive ArrayElement where
  | pair (key value : Expr)
  | value (value : Expr)
  | spread (value : Expr)

/-- A function of any sort: named, method, accessor, closure or arrow function, whose body is a
`return`. Attributes are kept as their arguments, and `uses` are the spans of the variables that a
closure takes over. Functions without a body have an empty one. -/
structure Function where
  span : Span
  attributes : List Expr
  name : String
  params : List Param
  uses : List Span
  returnType : Option Span
  body : List Stmt

/-- A parameter. Its name has the dollar sign; it declares a property as well if it has modifiers
or accessors. -/
structure Param where
  attributes : List Expr
  modifiers : List Modifier
  type : Option Span
  byReference : Bool
  variadic : Bool
  promoted : Bool
  name : String
  default : Option Expr
  hooks : List Function

/-- An item of a `const` statement. -/
structure ConstItem where
  name : String
  value : Expr

/-- A member of a class-like declaration. The names of properties have the dollar sign. -/
inductive Member where
  | method (modifiers : List Modifier) (function : Function)
  | property (span : Span) (attributes : List Expr) (modifiers : List Modifier)
      (type : Option Span) (names : List String) (defaults : List Expr) (hooks : List Function)
  | constant (span : Span) (attributes : List Expr) (modifiers : List Modifier)
      (items : List ConstItem)
  | case (attributes : List Expr) (name : String) (value : Option Expr)
  | traitUse (names : List String)

structure ClassDecl where
  span : Span
  attributes : List Expr
  modifiers : List Modifier
  kind : ClassKind
  name : String
  parents : List String
  interfaces : List String
  backing : Option Span
  members : List Member

/-- Statements under a condition. What holds otherwise, such as `else` or `default`, has none. -/
structure Branch where
  condition : Option Expr
  body : List Stmt

/-- A statement. A body is a list of statements, whether it is a block, a single statement or ends
with a keyword. -/
inductive Stmt where
  | namespaceDecl (name : Option String) (body : List Stmt)
  | use (clause : UseClause)
  | classLike (decl : ClassDecl)
  | function (function : Function)
  | constant (span : Span) (attributes : List Expr) (items : List ConstItem)
  | expression (expr : Expr)
  | block (body : List Stmt)
  | choice (branches : List Branch)
  | whileLoop (condition : Expr) (body : List Stmt)
  | forLoop (header : List Expr) (body : List Stmt)
  | foreachLoop (subject : Expr) (targets : List Expr) (body : List Stmt)
  | doLoop (body : List Stmt) (condition : Expr)
  | switch (subject : Expr) (cases : List Branch)
  | declare (directives : List Expr) (body : List Stmt)
  | tryCatch (blocks : List Branch)
  | echo (values : List Expr)
  | return (value : Option Expr)
  | plain (operands : List Expr)

end

/-- What stands between two tokens. -/
inductive TriviaKind where
  | blank
  | comment
  | docComment
  deriving DecidableEq, Repr

/-- A blank stretch or a comment. -/
structure Trivia where
  kind : TriviaKind
  span : Span
  text : String
  deriving DecidableEq, Repr

/-- A parsed source text: its statements, and its blanks and comments in source order. -/
structure Program where
  statements : List Stmt
  trivia : List Trivia

def Expr.span : Expr → Span
  | .leaf span .. | .string span .. | .interpolated span .. | .parenthesized span .. => span
  | .unary span .. | .binary span .. | .conditional span .. | .array span .. => span
  | .list span .. | .classConstant span .. | .property span .. | .index span .. => span
  | .dynamicName span .. | .call span .. | .methodCall span .. | .partialCall span .. => span
  | .instantiate span .. | .anonymousClass span .. | .operation span .. => span
  | .closure function | .arrow function => function.span

end StaticReflection.Syntax
