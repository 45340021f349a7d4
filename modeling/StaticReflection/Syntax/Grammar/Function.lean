import StaticReflection.Syntax.Grammar.Basic

/-!
The parts of functions: types, attributes, modifiers, parameters, accessors of properties, and
closures.
-/

namespace StaticReflection.Syntax

open Reader

def typeAhead (tokens : List Token) : Bool :=
  match tokens with
  | [] => false
  | t :: _ =>
    t.kind == .qualifiedName || t.isSign "?" || t.isSign "(" ||
      (t.kind == .name && isTypeWord t.word)

/-- Whether an ampersand ahead joins types; else it passes a parameter by reference. -/
def intersectionAhead (tokens : List Token) : Bool :=
  signAt 0 "&" tokens &&
    !(kindAt 1 .variable tokens || signAt 1 "..." tokens || signAt 1 "&" tokens)

/-- A type without `|` and `&` outside parentheses. -/
def typeAtom (g : Grammar) : Reader Span := do
  if ← ahead (signAt 0 "?") then
    let mark ← take "a type"
    return mark.span.upTo (← g.type)
  else if ← ahead (signAt 0 "(") then
    let start ← take "a type"
    let _ ← g.type
    return start.span.upTo (← sign ")").span
  else if ← ahead typeAhead then return (← take "a type").span
  else fail "a type"

def typeHint (g : Grammar) : Reader Span := do
  let first ← typeAtom g
  let more ← many (fun ts => signAt 0 "|" ts || intersectionAhead ts) (do
    let _ ← take "a type"
    typeAtom g)
  return first.upTo (more.getLast?.getD first)

/-- A type behind a colon, if there is one. -/
def returnType (g : Grammar) : Reader (Option Span) := do
  if ← skipSign ":" then return some (← g.type) else return none

def namedArgumentAhead (tokens : List Token) : Bool :=
  kindAt 0 .name tokens && signAt 1 ":" tokens

/-- An argument, which has a name in front, is spread, or neither. -/
def argument (g : Grammar) : Reader Expr := do
  if ← ahead namedArgumentAhead then
    let _ ← take "an argument"
    let _ ← take "an argument"
    g.expression 0
  else
    let _ ← skipSign "..."
    g.expression 0

/-- Arguments between parentheses, and the span of the closing parenthesis. -/
def arguments (g : Grammar) : Reader (List Expr × Span) := do
  let _ ← sign "("
  let args ← list (signAt 0 ")") (argument g)
  return (args, (← sign ")").span)

/-- An argument, or nothing where a place is held open for a later one: by a question mark, which
may have a name in front, or for all that are left by three dots. -/
def partialArgument (g : Grammar) : Reader (Option Expr) := do
  if ← ahead (fun ts => signAt 0 "..." ts && (signAt 1 ")" ts || signAt 1 "," ts)) then
    let _ ← take "an argument"
    return none
  else if ← ahead (signAt 0 "?") then
    let _ ← take "an argument"
    return none
  else if ← ahead (fun ts => namedArgumentAhead ts && signAt 2 "?" ts) then
    let _ ← take "an argument"
    let _ ← take "an argument"
    let _ ← take "an argument"
    return none
  else return some (← argument g)

/-- Arguments of a call between parentheses: those given, whether places are held open for later
ones, and the span of the closing parenthesis. -/
def partialArguments (g : Grammar) : Reader (List Expr × Bool × Span) := do
  let _ ← sign "("
  let args ← list (signAt 0 ")") (partialArgument g)
  let close ← sign ")"
  return (args.filterMap id, args.any Option.isNone, close.span)

/-- Groups of attributes: their arguments, and the span of the first group. -/
def attributes (g : Grammar) : Reader (List Expr × Option Span) := do
  let groups ← many (signAt 0 "#[") (do
    let start ← sign "#["
    let args ← list (signAt 0 "]") (do
      let _ ← anyName
      if ← ahead (signAt 0 "(") then return (← arguments g).1 else return [])
    let close ← sign "]"
    return (args.flatten, start.span.upTo close.span))
  return ((groups.map (·.1)).flatten, (groups.head?).map (·.2))

def modifier : String → Modifier
  | "static" => .static
  | "final" => .final
  | "abstract" => .abstract
  | "readonly" => .readonly
  | "public" => .publicAccess
  | "protected" => .protectedAccess
  | "private" => .privateAccess
  | _ => .writeAccess

/-- Modifiers, and the span of the first. -/
def modifiers : Reader (List Modifier × Option Span) := do
  let found ← many (wordAt 0 modifierWords) (take "a modifier")
  return (found.map fun t => modifier t.word, found.head?.map (·.span))

/-- The start of a declaration: of its attributes, else of its modifiers, else of its keyword. -/
def startOf (attributes modifiers : Option Span) (keyword : Span) : Span :=
  (attributes.or modifiers).getD keyword

/-- An accessor of a property. Its ampersand stands in front of its modifiers. -/
def hook (g : Grammar) : Reader Function := do
  let (attrs, attrStart) ← attributes g
  let reference ← if ← ahead (signAt 0 "&") then some <$> take "&" else pure none
  let (_, modStart) ← modifiers
  let name ← ofKind .name "an accessor"
  let params ← if ← ahead (signAt 0 "(") then g.params else pure []
  let start := startOf attrStart ((reference.map (·.span)).or modStart) name.span
  if ← ahead (signAt 0 openBrace) then
    let (body, close) ← block g
    return ⟨start.upTo close, attrs, name.text, params, [], none, body⟩
  else if ← skipSign "=>" then
    let result ← g.expression 0
    let close ← sign ";"
    return ⟨start.upTo close.span, attrs, name.text, params, [], none, [.return (some result)]⟩
  else
    let close ← sign ";"
    return ⟨start.upTo close.span, attrs, name.text, params, [], none, []⟩

/-- The accessors of a property between braces, with the span of the closing brace. -/
def hooks (g : Grammar) : Reader (List Function × Span) := do
  let _ ← sign openBrace
  let found ← many (fun ts => !ts.isEmpty && !signAt 0 closeBrace ts) (hook g)
  let close ← sign closeBrace
  return (found, close.span)

def parameter (g : Grammar) : Reader Param := do
  let (attrs, _) ← attributes g
  let (mods, _) ← modifiers
  let type ← if ← ahead typeAhead then some <$> g.type else pure none
  let byReference ← skipSign "&"
  let variadic ← skipSign "..."
  let name ← ofKind .variable "a parameter"
  let default ← if ← skipSign "=" then some <$> g.expression 0 else pure none
  if ← ahead (signAt 0 openBrace) then
    let (accessors, _) ← hooks g
    return ⟨attrs, mods, type, byReference, variadic, true, name.text, default, accessors⟩
  else
    return ⟨attrs, mods, type, byReference, variadic, !mods.isEmpty, name.text, default, []⟩

def parameters (g : Grammar) : Reader (List Param) := do
  let _ ← sign "("
  let params ← list (signAt 0 ")") (parameter g)
  let _ ← sign ")"
  return params

/-- The variables that a closure takes over, with their ampersands. -/
def closureUses : Reader (List Span) := do
  if ← skipWord "use" then
    let _ ← sign "("
    let uses ← list (signAt 0 ")") (do
      if ← ahead (signAt 0 "&") then
        let mark ← take "&"
        return mark.span.upTo (← ofKind .variable "a variable").span
      else return (← ofKind .variable "a variable").span)
    let _ ← sign ")"
    return uses
  else return []

def closureName : String := "\x7bclosure\x7d"

/-- A closure or an arrow function, from the span on at which its attributes or `static` start. -/
def closure (g : Grammar) (attrs : List Expr) (start : Option Span) : Reader Expr := do
  if ← ahead (wordAt 0 ["fn"]) then
    let keyword ← take "fn"
    let _ ← skipSign "&"
    let params ← g.params
    let type ← returnType g
    let _ ← sign "=>"
    let result ← g.expression 0
    return .arrow ⟨(start.getD keyword.span).upTo result.span, attrs, closureName, params, [], type,
      [.return (some result)]⟩
  else
    let keyword ← word "function"
    let _ ← skipSign "&"
    let params ← g.params
    let uses ← closureUses
    let type ← returnType g
    let (body, close) ← block g
    return .closure ⟨(start.getD keyword.span).upTo close, attrs, closureName, params, uses, type,
      body⟩

end StaticReflection.Syntax
