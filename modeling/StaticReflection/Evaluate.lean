import StaticReflection.Error
import StaticReflection.Text.Alphanumeric
import StaticReflection.Value.Entries
import StaticReflection.Value.Operator

/-!
Evaluating constant expressions from the syntax tree alone. Constants of the class that is being
looked at are followed to their initialisers, up to a fixed depth; constants of other classes and
global constants stay references; an expression that cannot be evaluated is kept as its text.
Evaluation fails only where a class or a file name is needed and the scope has none.
-/

namespace StaticReflection

open Syntax

/-- What an expression is evaluated in: the source text and its lines, the names that the magic
constants stand for, the imports, and the constants of the class itself. -/
structure Scope where
  source : String
  lines : LineTable
  file : Option String
  selfClass : Option String
  parentClass : Option String
  imports : Imports
  function : Option String
  locals : List ConstItem

/-- How many constants of the class itself are followed one after the other. -/
def maxSelfDepth : Nat := 32

def directoryOf (file : String) : String :=
  match Text.cutLast '/' file.toList with
  | some ([], _) => "/"
  | some (directory, _) => String.ofList directory
  | none => "."

/-- Whether a text is the name of a constant: segments of letters, digits and underscores between
backslashes, the first of which starts with no ASCII digit. Leading backslashes do not count. -/
def isConstantName (text : String) : Bool :=
  let name := (Name.stripRoots text).toList
  match name with
  | [] => false
  | c :: _ =>
    !c.isDigit &&
      (Text.pieces '\\' name).all fun piece =>
        !piece.isEmpty && piece.all fun c => Text.isAlphanumeric c || c == '_'

namespace Scope

/-- The text of an expression without the blanks around it. -/
def textOf (s : Scope) : Expr → String
  | .leaf _ _ text | .string _ text _ => String.ofList (Text.trim Text.isBlank text.toList)
  | e => Text.under s.source e.span

/-- The initialiser of a constant of the class itself; of two with one name, the later. -/
def local? (s : Scope) (name : String) : Option Expr :=
  (s.locals.reverse.find? (·.name == name)).map (·.value)

/-- The name of a global constant. A name without a backslash is left as it is, since it may mean
the constant of the namespace or the global one. -/
def constantName (s : Scope) (name : String) : String :=
  if Name.isQualified name then s.imports.resolveConstant name else name

def methodName (s : Scope) : String :=
  match s.selfClass, s.function with
  | some scope, some function => scope ++ "::" ++ function
  | none, some function => function
  | _, none => ""

def selfName (s : Scope) : Except Error String :=
  match s.selfClass with
  | some name => .ok name
  | none => .error .noSelf

def fileName (s : Scope) : Except Error String :=
  match s.file with
  | some name => .ok name
  | none => .error .noFileName

end Scope

/-- The value of an expression that is evaluated from its text: a literal, a magic constant or a
constant's name. -/
def evalText (s : Scope) (offset : Nat) (text : String) : Except Error Value :=
  match Name.lower (Name.stripRoots text) with
  | "true" => .ok (.bool true)
  | "false" => .ok (.bool false)
  | "null" => .ok .null
  | "__line__" => .ok (.int (Int64.ofNat (s.lines.lineOf offset)))
  | "__file__" => s.fileName.map .string
  | "__dir__" => s.fileName.map fun file => .string (directoryOf file)
  | "__class__" => .ok (.string (s.selfClass.getD ""))
  | "__namespace__" => .ok (.string (s.imports.space.getD ""))
  | "__function__" => .ok (.string (s.function.getD ""))
  | "__method__" => .ok (.string s.methodName)
  | _ =>
    match Number.ofLiteral? text with
    | some n => .ok (.ofNumber n)
    | none =>
      if isConstantName text then .ok (.constant (s.constantName text)) else .ok (.unresolved text)

/-- The class that the part before the double colon names, or nothing for the parent of a class
that has none. -/
def scopeClass (s : Scope) (written : String) : Except Error (Option String) :=
  let word := Name.lower written
  if word = "self" ∨ word = "static" then s.selfName.map some
  else if word = "parent" then .ok s.parentClass
  else .ok (some (s.imports.resolveClass written))

/-- Whether a class constant belongs to the class that is being looked at. -/
def isOwnClass (s : Scope) (written resolved : String) : Bool :=
  let word := Name.lower written
  word == "self" || word == "static" ||
    match s.selfClass with
    | some own => Name.sameLetters own resolved
    | none => false

/-- The value of a class constant. `follow` gives the value of a constant of the class itself, as
far as such constants are followed. -/
def evalClassConstant (s : Scope) (follow : String → Option (Except Error Value))
    (written name : String) : Except Error Value := do
  match ← scopeClass s written with
  | none => return .unresolved (written ++ "::" ++ name)
  | some resolved =>
    if Name.sameLetters name "class" then return .string resolved
    else
      match if isOwnClass s written resolved then follow name else none with
      | some result => result
      | none => return .classConstant resolved name

mutual

/-- The value of an expression, where `follow` gives the values of constants of the class
itself. -/
def evalWith (s : Scope) (follow : String → Option (Except Error Value)) :
    Expr → Except Error Value
  | .parenthesized _ inner => evalWith s follow inner
  | .string _ _ (some value) => .ok (.string value)
  | .array span elements => do
    let entries ← evalElements s follow elements
    return (ArrayBuilder.build? entries).getD (.unresolved (Text.under s.source span))
  | .unary span op operand => do
    let value ← evalWith s follow operand
    let unresolved := Value.unresolved (Text.under s.source span)
    if value.isResolved then return (Value.unary? op value).getD unresolved
    else return unresolved
  | .binary span op left right => do
    let a ← evalWith s follow left
    if op = .coalesce ∧ a.same .null = false ∧ a.isResolved = true then return a
    else
      let b ← evalWith s follow right
      let unresolved := Value.unresolved (Text.under s.source span)
      if a.isResolved && b.isResolved then return (Value.binary? op a b).getD unresolved
      else return unresolved
  | .conditional span condition onTrue onFalse => do
    let c ← evalWith s follow condition
    match c.truthy? with
    | some true =>
      match onTrue with
      | some e => evalWith s follow e
      | none => return c
    | some false => evalWith s follow onFalse
    | none => return .unresolved (Text.under s.source span)
  | .classConstant _ scope selector =>
    evalClassConstant s follow (s.textOf scope) (s.textOf selector)
  | .string _ text none => .ok (.unresolved (String.ofList (Text.trim Text.isBlank text.toList)))
  | .leaf span _ text =>
    evalText s span.start (String.ofList (Text.trim Text.isBlank text.toList))
  | e => evalText s e.span.start (Text.under s.source e.span)

def evalElements (s : Scope) (follow : String → Option (Except Error Value)) :
    List ArrayElement → Except Error (List Entry)
  | [] => .ok []
  | .pair key value :: rest => do
    let k ← evalWith s follow key
    let v ← evalWith s follow value
    return .keyed k v :: (← evalElements s follow rest)
  | .value value :: rest => do
    let v ← evalWith s follow value
    return .append v :: (← evalElements s follow rest)
  | .spread value :: rest => do
    let v ← evalWith s follow value
    return Entry.spread v ++ (← evalElements s follow rest)

end

section Evaluation

variable {s : Scope} {follow : String → Option (Except Error Value)} {span : Span}

/-- An operator other than `??` between two operands that are known. -/
theorem evalWith_binary {op : BinaryOp} {left right : Expr} {a b : Value} (hop : op ≠ .coalesce)
    (hleft : evalWith s follow left = .ok a) (hright : evalWith s follow right = .ok b)
    (ha : a.isResolved = true) (hb : b.isResolved = true) :
    evalWith s follow (.binary span op left right) =
      .ok ((Value.binary? op a b).getD (.unresolved (Text.under s.source span))) := by
  rw [evalWith, hleft, hright]
  simp only [bind, Except.bind]
  rw [if_neg fun hshort => hop hshort.1, ha, hb]
  rfl

theorem evalWith_array {elements : List ArrayElement} {entries : List Entry}
    (h : evalElements s follow elements = .ok entries) :
    evalWith s follow (.array span elements) =
      .ok ((ArrayBuilder.build? entries).getD (.unresolved (Text.under s.source span))) := by
  rw [evalWith, h]
  rfl

end Evaluation

/-- The value of an expression when that many constants of the class itself may still be followed
one after the other. -/
def evalDepth (s : Scope) : Nat → Expr → Except Error Value
  | 0, e => evalWith s (fun _ => none) e
  | n + 1, e => evalWith s (fun name => (s.local? name).map (evalDepth s n)) e

def eval (s : Scope) (e : Expr) : Except Error Value := evalDepth s maxSelfDepth e

end StaticReflection
