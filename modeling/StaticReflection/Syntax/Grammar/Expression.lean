import StaticReflection.Syntax.Grammar.Class
import StaticReflection.Syntax.StringLiteral

/-!
Expressions. Operators are read by precedence: an expression of a level is a prefix expression
followed by the operators of that level or a tighter one, with right operands of their own levels.
-/

namespace StaticReflection.Syntax

open Reader

/-! Levels of precedence, from the loosest to the tightest. -/

namespace Level

def assignment : Nat := 4
def conditional : Nat := 5
def pipe : Nat := 14
def unary : Nat := 19
def instanceOf : Nat := 20
def silence : Nat := 21
def power : Nat := 22
def clone : Nat := 23
def step : Nat := 24
def call : Nat := 26
def new : Nat := 27

end Level

/-- What an operator behind an expression makes of it. -/
inductive OperatorRole where
  | operator (op : BinaryOp) (right : Nat)
  | assignment
  | question
  | pipe
  deriving DecidableEq, Repr

/-- Operators that nest to the left, by sign or word, with their levels. -/
def leftOperators : List (String × BinaryOp × Nat) :=
  [("or", .or, 1), ("xor", .xor, 2), ("and", .and, 3), ("||", .or, 7), ("&&", .and, 8),
    ("|", .bitOr, 9), ("^", .bitXor, 10), ("&", .bitAnd, 11), (".", .concat, 15),
    ("<<", .shiftLeft, 16), (">>", .shiftRight, 16), ("+", .add, 17), ("-", .sub, 17),
    ("*", .mul, 18), ("/", .div, 18), ("%", .mod, 18), ("instanceof", .instanceOf, 20)]

/-- Operators that nest to the right, with their levels. Equalities and comparisons are among
them. -/
def rightOperators : List (String × BinaryOp × Nat) :=
  [("??", .coalesce, 6), ("===", .identical, 12), ("!==", .notIdentical, 12), ("==", .equal, 12),
    ("!=", .notEqual, 12), ("<>", .notEqual, 12), ("<=>", .spaceship, 12), ("<", .less, 13),
    ("<=", .lessEqual, 13), (">", .greater, 13), (">=", .greaterEqual, 13), ("**", .pow, 22)]

def assignmentSigns : List String :=
  ["=", "+=", "-=", "*=", "/=", ".=", "%=", "**=", "&=", "|=", "^=", "<<=", ">>=", "??="]

/-- The operator that a token is, with its level. -/
def operator? (t : Token) : Option (Nat × OperatorRole) :=
  let text := if t.kind = .sign then t.text else t.word
  match leftOperators.lookup text, rightOperators.lookup text with
  | some (op, level), _ => some (level, .operator op (level + 1))
  | none, some (op, level) => some (level, .operator op level)
  | none, none =>
    if assignmentSigns.contains text then some (Level.assignment, .assignment)
    else if text = "?" then some (Level.conditional, .question)
    else if text = "|>" then some (Level.pipe, .pipe)
    else none

/-- An assignment whose target is the last operand of what stands before the sign: an assignment
binds its target tighter than any operator to its left. -/
def assignTo (value : Expr) : Expr → Expr
  | .unary span op operand => .unary (span.upTo value.span) op (assignTo value operand)
  | .binary span op left right => .binary (span.upTo value.span) op left (assignTo value right)
  | .conditional span condition onTrue onFalse =>
    .conditional (span.upTo value.span) condition onTrue (assignTo value onFalse)
  | target => .operation (target.span.upTo value.span) .assign [target, value]

/-- Elements of an array up to what closes it. Places that are left out are passed over. -/
def arrayElements (g : Grammar) (close : List Token → Bool) : Reader (List ArrayElement) := do
  let found ← list close (do
    if ← ahead (signAt 0 ",") then return none
    else if ← skipSign "..." then return some (.spread (← g.expression 0))
    else
      let first ← g.expression 0
      if ← skipSign "=>" then return some (.pair first (← g.expression 0))
      else return some (.value first))
  return found.filterMap id

def nameLeaf : Reader Expr := do
  let t ← ofKind .name "a name"
  return .leaf t.span .name t.text

def nameBefore (close : String) (tokens : List Token) : Bool :=
  kindAt 0 .name tokens && !wordAt 0 formKeywords tokens && signAt 1 close tokens

/-- An expression up to a sign. A word alone is a name, even if it is a keyword. -/
def nameOrExpression (g : Grammar) (close : String) : Reader Expr := do
  if ← ahead (nameBefore close) then g.word else g.expression 0

/-- A variable, or dollar signs before a variable or before an expression in braces. -/
def variableExpr (g : Grammar) : Reader Expr := do
  if ← ahead (kindAt 0 .variable) then
    let t ← take "a variable"
    return .leaf t.span .variable t.text
  else
    let dollars ← many (signAt 0 "$") (take "$")
    if ← ahead (signAt 0 indirectMark) then
      let mark ← take "a variable"
      let inner ← nameOrExpression g closeBrace
      let start := (dollars.head?.map (·.span)).getD mark.span
      return .dynamicName (start.upTo (← sign closeBrace).span) inner
    else
      let t ← ofKind .variable "a variable"
      let start := (dollars.head?.map (·.span)).getD t.span
      return .dynamicName (start.upTo t.span) (.leaf t.span .variable t.text)

def variableAhead (tokens : List Token) : Bool :=
  kindAt 0 .variable tokens || signAt 0 "$" tokens || signAt 0 indirectMark tokens

/-- The name of a member behind an arrow or a double colon. -/
def selector (g : Grammar) : Reader Expr := do
  if ← ahead (signAt 0 openBrace) then
    let start ← take "a member"
    let inner ← g.expression 0
    return .dynamicName (start.span.upTo (← sign closeBrace).span) inner
  else if ← ahead variableAhead then variableExpr g
  else nameLeaf

/-- A call of what stands before the parentheses. -/
def callOf (g : Grammar) (start : Span) (callee : Expr) (member : Option Expr) : Reader Expr := do
  let (args, isPartial, close) ← partialArguments g
  let span := start.upTo close
  match isPartial, member with
  | true, _ => return .partialCall span (callee :: member.toList ++ args)
  | false, some member => return .methodCall span callee member args
  | false, none => return .call span callee args

/-- A member behind an arrow, with its arguments if it is called. Behind the arrow that lets null
pass a call holds no place open. -/
def memberOf (g : Grammar) (base : Expr) (calls : Bool) : Reader Expr := do
  let arrow ← take "->"
  let name ← selector g
  if calls && (← ahead (signAt 0 "(")) then
    if arrow.isSign "?->" then
      let (args, close) ← arguments g
      return .methodCall (base.span.upTo close) base name args
    else callOf g base.span base (some name)
  else return .property (base.span.upTo name.span) base name

/-- One index, member, call, increment or decrement behind an expression, if there is one. The class
behind `new` leaves the calls and steps to looser levels. -/
def postfixOne (g : Grammar) (level : Nat) (base : Expr) : Reader (Option Expr) := do
  let calls := level ≤ Level.call
  match ← peek with
  | none => return none
  | some t =>
    if t.kind != .sign then return none
    else if t.text = "[" then
      let _ ← take "["
      let key ← if ← ahead (signAt 0 "]") then pure none else some <$> g.expression 0
      return some (.index (base.span.upTo (← sign "]").span) base key)
    else if t.text = "(" && calls then return some (← callOf g base.span base none)
    else if t.text = "->" || t.text = "?->" then return some (← memberOf g base calls)
    else if t.text = "::" then
      let _ ← take "::"
      let isVariable ← ahead variableAhead
      let name ← selector g
      if calls && (← ahead (signAt 0 "(")) then return some (← callOf g base.span base (some name))
      else if isVariable then return some (.property (base.span.upTo name.span) base name)
      else return some (.classConstant (base.span.upTo name.span) base name)
    else if (t.text = "++" || t.text = "--") && level ≤ Level.step then
      let step ← take "an operator"
      return some (.operation (base.span.upTo step.span) .postfixStep [base])
    else return none

/-- Indices, members, calls and steps behind an expression, at most the given number of them. -/
def postfixUpTo (g : Grammar) (level : Nat) : Nat → Expr → Reader Expr
  | 0, base => pure base
  | n + 1, base => do
    match ← postfixOne g level base with
    | some longer => postfixUpTo g level n longer
    | none => return base

/-- Indices, members, calls and steps behind an expression. -/
def postfixes (g : Grammar) (level : Nat) (base : Expr) : Reader Expr := do
  postfixUpTo g level ((← get).length + 1) base

/-- Whether an anonymous class follows `new`: attributes, modifiers or its keyword. The modifier
`static` is a class by itself. -/
def anonymousClassAhead (tokens : List Token) : Bool :=
  signAt 0 "#[" tokens || wordAt 0 ("class" :: modifierWords.erase "static") tokens

def instantiation (g : Grammar) : Reader Expr := do
  let start ← word "new"
  if ← ahead anonymousClassAhead then anonymousClass g start.span
  else
    let target ← g.expression Level.new
    if ← ahead (signAt 0 "(") then
      let (args, close) ← arguments g
      return .instantiate (start.span.upTo close) target args
    else return .instantiate (start.span.upTo target.span) target []

/-- The copy of an object: of the operand behind the keyword, or by a call with arguments. -/
def cloning (g : Grammar) : Reader Expr := do
  let start ← word "clone"
  if ← ahead (signAt 0 "(") then
    callOf g start.span (.leaf start.span .name start.text) none
  else
    let operand ← g.expression Level.clone
    return .operation (start.span.upTo operand.span) .clone [operand]

/-- An arm of a `match`: its conditions and its result, in source order. -/
def matchArm (g : Grammar) : Reader (List Expr) := do
  let conditions ←
    if ← skipWord "default" then pure [] else list (signAt 0 "=>") (g.expression 0)
  let _ ← sign "=>"
  return conditions ++ [← g.expression 0]

def matchExpression (g : Grammar) : Reader Expr := do
  let start ← word "match"
  let _ ← sign "("
  let subject ← g.expression 0
  let _ ← sign ")"
  let _ ← sign openBrace
  let arms ← list (signAt 0 closeBrace) (matchArm g)
  let close ← sign closeBrace
  return .operation (start.span.upTo close.span) .matchArms (subject :: arms.flatten)

/-- An expression that is embedded in a string without braces around it: a variable with one index
or one member behind it or nothing, or a variable that is named by an expression. -/
def embeddedExpression (g : Grammar) : Reader Expr := do
  let base ← variableExpr g
  if ← ahead (signAt 0 "[") then
    let _ ← take "["
    let key ← if ← ahead (signAt 0 "]") then pure none else some <$> nameOrExpression g "]"
    return .index (base.span.upTo (← sign "]").span) base key
  else if ← ahead (fun ts => signAt 0 "->" ts || signAt 0 "?->" ts) then memberOf g base false
  else return base

/-- A part of a string: text, a variable, or an expression in braces. -/
def templatePart (g : Grammar) : Reader (Option Expr) := do
  if ← ahead (kindAt 0 .templateText) then
    let _ ← take "text"
    return none
  else if ← skipSign openBrace then
    let inner ← g.expression 0
    let _ ← sign closeBrace
    return some inner
  else return some (← g.embedded)

def template (g : Grammar) : Reader Expr := do
  let start ← ofKind .templateStart "a string"
  let parts ← many (fun ts => !ts.isEmpty && !kindAt 0 .templateEnd ts) (templatePart g)
  let close ← ofKind .templateEnd "the end of a string"
  return .interpolated (start.span.upTo close.span) (parts.filterMap id)

/-- A keyword and the operand behind it, to which all that follows belongs. -/
def keywordOperand (g : Grammar) (kind : OperationKind) : Reader Expr := do
  let start ← take "a keyword"
  let operand ← g.expression 0
  return .operation (start.span.upTo operand.span) kind [operand]

/-- A `yield` with nothing, a value, a key and a value, or what is delegated to. All that follows
belongs to it, and only at the end of a statement nothing does. -/
def yieldExpression (g : Grammar) : Reader Expr := do
  let start ← word "yield"
  if ← skipWord "from" then
    let operand ← g.expression 0
    return .operation (start.span.upTo operand.span) .yield [operand]
  else if ← ahead terminatorAhead then return .operation start.span .yield []
  else
    let first ← g.expression 0
    if ← skipSign "=>" then
      let second ← g.expression 0
      return .operation (start.span.upTo second.span) .yield [first, second]
    else return .operation (start.span.upTo first.span) .yield [first]

def construct (kind : OperationKind) (operands : Reader (List Expr)) : Reader Expr := do
  let start ← take "a keyword"
  let _ ← sign "("
  let operands ← operands
  return .operation (start.span.upTo (← sign ")").span) kind operands

def exitExpression (g : Grammar) : Reader Expr := do
  let start ← take "a keyword"
  if ← ahead (signAt 0 "(") then
    let (args, close) ← arguments g
    return .operation (start.span.upTo close) .exit args
  else return .operation start.span .exit []

/-- A prefix sign and the operand behind it. -/
def prefixOperand (g : Grammar) (op : UnaryOp) (level : Nat) : Reader Expr := do
  let start ← take "an operator"
  let operand ← g.expression level
  return .unary (start.span.upTo operand.span) op operand

/-- An array between square brackets, or between parentheses behind a keyword. -/
def arrayExpression (g : Grammar) (make : Span → List ArrayElement → Expr) : Reader Expr := do
  let start ← take "an array"
  let close ← if start.isSign "[" then pure "]" else do
    let _ ← sign "("
    pure ")"
  let elements ← arrayElements g (signAt 0 close)
  return make (start.span.upTo (← sign close).span) elements

def attributedClosure (g : Grammar) : Reader Expr := do
  let (attrs, start) ← attributes g
  if ← ahead (wordAt 0 ["static"]) then
    let keyword ← take "static"
    closure g attrs (some (start.getD keyword.span))
  else closure g attrs start

def wordExpression (g : Grammar) (t : Token) : Reader Expr := do
  let next := fun (text : String) => ahead (signAt 1 text)
  match t.word with
  | "new" => instantiation g
  | "clone" => cloning g
  | "print" => keywordOperand g .print
  | "include" | "include_once" | "require" | "require_once" => keywordOperand g .include
  | "throw" => keywordOperand g .throw
  | "isset" => construct .isset (list (signAt 0 ")") (g.expression 0))
  | "empty" => construct .empty (do return [← g.expression 0])
  | "eval" => construct .eval (do return [← g.expression 0])
  | "exit" | "die" => exitExpression g
  | "yield" => yieldExpression g
  | "match" => if ← next "(" then matchExpression g else nameLeaf
  | "fn" | "function" => closure g [] none
  | "static" =>
    if ← ahead (wordAt 1 ["function", "fn"]) then attributedClosure g else nameLeaf
  | "array" => arrayExpression g .array
  | "list" => if ← next "(" then arrayExpression g .list else nameLeaf
  | word => if isOperandWord word then nameLeaf else fail "an expression"

def signExpression (g : Grammar) (t : Token) : Reader Expr := do
  match t.text with
  | "(" =>
    let start ← take "("
    let inner ← g.expression 0
    return .parenthesized (start.span.upTo (← sign ")").span) inner
  | "[" => arrayExpression g .array
  | "#[" => attributedClosure g
  | "$" => variableExpr g
  | "!" => prefixOperand g .not Level.unary
  | "-" => prefixOperand g .minus Level.unary
  | "+" => prefixOperand g .plus Level.unary
  | "~" => prefixOperand g .complement Level.unary
  | "&" => prefixOperand g .other Level.unary
  | "@" => prefixOperand g .other Level.silence
  | "++" | "--" => prefixOperand g .other Level.step
  | text => if text = indirectMark then variableExpr g else fail "an expression"

/-- An expression without operators around it, and without what may follow it. -/
def primary (g : Grammar) : Reader Expr := do
  match ← peek with
  | none => fail "an expression"
  | some t =>
    match t.kind with
    | .sign => signExpression g t
    | .name => wordExpression g t
    | .cast => prefixOperand g .other Level.unary
    | .templateStart => template g
    | .variable =>
      let _ ← take "a variable"
      return .leaf t.span .variable t.text
    | .qualifiedName =>
      let _ ← take "a name"
      return .leaf t.span .name t.text
    | .number =>
      let _ ← take "a number"
      return .leaf t.span .number t.text
    | .nowdoc =>
      let _ ← take "a string"
      return .leaf t.span .nowdoc t.text
    | .string =>
      let _ ← take "a string"
      return .string t.span t.text (stringValue? t.text)
    | _ => fail "an expression"

/-- Whether indices, members and calls may follow an expression. They belong to the operand of an
operator and to the body of an arrow function, which have taken theirs already. -/
def takesPostfixes : Expr → Bool
  | .unary .. | .arrow _ => false
  | .operation _ kind _ =>
    kind == .matchArms || kind == .isset || kind == .empty || kind == .eval || kind == .exit
  | _ => true

/-- An expression without operators around it, with what follows it. -/
def operand (g : Grammar) (level : Nat) : Reader Expr := do
  let base ← primary g
  if takesPostfixes base then postfixes g level base else return base

/-- The rest of a conditional behind its question mark. -/
def conditionalRest (g : Grammar) (condition : Expr) : Reader Expr := do
  let _ ← sign "?"
  let onTrue ← if ← ahead (signAt 0 ":") then pure none else some <$> g.expression 0
  let _ ← sign ":"
  let onFalse ← g.expression (Level.conditional + 1)
  return .conditional (condition.span.upTo onFalse.span) condition onTrue onFalse

/-- Operators of a level or tighter ones behind an operand, at most the given number of them. -/
def operatorsUpTo (g : Grammar) (level : Nat) : Nat → Expr → Reader Expr
  | 0, left => pure left
  | n + 1, left => do
    match (← peek).bind operator? with
    | none => return left
    | some (here, op) =>
      if here < level then return left
      else
        match op with
        | .operator op rightLevel =>
          let _ ← take "an operator"
          let right ← g.expression rightLevel
          operatorsUpTo g level n (.binary (left.span.upTo right.span) op left right)
        | .assignment =>
          let _ ← take "an operator"
          let value ← g.expression Level.assignment
          operatorsUpTo g level n (assignTo value left)
        | .question => operatorsUpTo g level n (← conditionalRest g left)
        | .pipe =>
          let _ ← take "an operator"
          let callable ← g.expression (Level.pipe + 1)
          operatorsUpTo g level n
            (.operation (left.span.upTo callable.span) .pipe [left, callable])

/-- An expression of a level of precedence. -/
def expression (g : Grammar) (level : Nat) : Reader Expr := do
  let left ← operand g level
  operatorsUpTo g level ((← get).length + 1) left

end StaticReflection.Syntax
