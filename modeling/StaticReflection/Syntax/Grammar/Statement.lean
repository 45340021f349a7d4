import StaticReflection.Syntax.Grammar.Expression

/-!
Statements. The body of a control structure is one statement or the statements between a colon and
a closing keyword; both become a list.
-/

namespace StaticReflection.Syntax

open Reader

def statementsUntil (g : Grammar) (stops : List String) : Reader (List Stmt) :=
  many (fun ts => !ts.isEmpty && !wordAt 0 stops ts && !signAt 0 closeBrace ts) g.statement

def condition (g : Grammar) : Reader Expr := do
  let _ ← sign "("
  let e ← g.expression 0
  let _ ← sign ")"
  return e

def loopBody (g : Grammar) (stop : String) : Reader (List Stmt) := do
  if ← skipSign ":" then
    let body ← statementsUntil g [stop]
    let _ ← word stop
    let _ ← terminator
    return body
  else return [← g.statement]

/-- An `if` with its other branches, each with one statement or with colons. -/
def choice (g : Grammar) : Reader Stmt := do
  let _ ← word "if"
  let first ← condition g
  if ← ahead (signAt 0 ":") then
    let body : Reader (List Stmt) := do
      let _ ← sign ":"
      statementsUntil g ["elseif", "else", "endif"]
    let firstBody ← body
    let more ← many (wordAt 0 ["elseif"]) (do
      let _ ← word "elseif"
      let c ← condition g
      return Branch.mk (some c) (← body))
    let otherwise ← if ← skipWord "else" then (fun b => [Branch.mk none b]) <$> body else pure []
    let _ ← word "endif"
    let _ ← terminator
    return .choice (⟨some first, firstBody⟩ :: more ++ otherwise)
  else
    let firstBody ← g.statement
    let more ← many (wordAt 0 ["elseif"]) (do
      let _ ← word "elseif"
      let c ← condition g
      return Branch.mk (some c) [← g.statement])
    let otherwise ←
      if ← skipWord "else" then (fun s => [Branch.mk none [s]]) <$> g.statement else pure []
    return .choice (⟨some first, [firstBody]⟩ :: more ++ otherwise)

def whileLoop (g : Grammar) : Reader Stmt := do
  let _ ← word "while"
  let c ← condition g
  return .whileLoop c (← loopBody g "endwhile")

def doLoop (g : Grammar) : Reader Stmt := do
  let _ ← word "do"
  let body ← g.statement
  let _ ← word "while"
  let c ← condition g
  let _ ← terminator
  return .doLoop [body] c

def forLoop (g : Grammar) : Reader Stmt := do
  let _ ← word "for"
  let _ ← sign "("
  let start ← list (signAt 0 ";") (g.expression 0)
  let _ ← sign ";"
  let test ← list (signAt 0 ";") (g.expression 0)
  let _ ← sign ";"
  let step ← list (signAt 0 ")") (g.expression 0)
  let _ ← sign ")"
  return .forLoop (start ++ test ++ step) (← loopBody g "endfor")

def foreachLoop (g : Grammar) : Reader Stmt := do
  let _ ← word "foreach"
  let _ ← sign "("
  let subject ← g.expression 0
  let _ ← word "as"
  let first ← g.expression 0
  let targets ← if ← skipSign "=>" then (fun e => [first, e]) <$> g.expression 0 else pure [first]
  let _ ← sign ")"
  return .foreachLoop subject targets (← loopBody g "endforeach")

/-- A case of a `switch`, which ends with a colon or a semicolon. -/
def switchCase (g : Grammar) : Reader Branch := do
  let value ←
    if ← skipWord "default" then pure none
    else
      let _ ← word "case"
      some <$> g.expression 0
  if !(← skipSign ":") then
    let _ ← sign ";"
  return ⟨value, ← statementsUntil g ["case", "default", "endswitch"]⟩

/-- The cases of a `switch`. The end of a statement may stand in front of the first. -/
def switchCases (g : Grammar) : Reader (List Branch) := do
  if ← ahead terminatorAhead then
    let _ ← terminator
  many (wordAt 0 ["case", "default"]) (switchCase g)

def switchStatement (g : Grammar) : Reader Stmt := do
  let _ ← word "switch"
  let subject ← condition g
  if ← skipSign ":" then
    let cases ← switchCases g
    let _ ← word "endswitch"
    let _ ← terminator
    return .switch subject cases
  else
    let _ ← sign openBrace
    let cases ← switchCases g
    let _ ← sign closeBrace
    return .switch subject cases

def tryStatement (g : Grammar) : Reader Stmt := do
  let _ ← word "try"
  let (body, _) ← block g
  let catches ← many (wordAt 0 ["catch"]) (do
    let _ ← word "catch"
    let _ ← sign "("
    let _ ← g.type
    if ← ahead (kindAt 0 .variable) then
      let _ ← take "a variable"
    let _ ← sign ")"
    return Branch.mk none (← block g).1)
  let final ←
    if ← skipWord "finally" then (fun b => [Branch.mk none b.1]) <$> block g else pure []
  return .tryCatch (⟨none, body⟩ :: catches ++ final)

def declareStatement (g : Grammar) : Reader Stmt := do
  let _ ← word "declare"
  let _ ← sign "("
  let directives ← list (signAt 0 ")") (do
    let _ ← localName
    let _ ← sign "="
    g.expression 0)
  let _ ← sign ")"
  return .declare directives (← loopBody g "enddeclare")

/-- A namespace. Without braces it goes on to the next namespace or the end of the text. -/
def namespaceStatement (g : Grammar) : Reader Stmt := do
  let _ ← word "namespace"
  let name ←
    if ← ahead (fun ts => terminatorAhead ts || signAt 0 openBrace ts) then pure none
    else some <$> anyName
  if ← ahead (signAt 0 openBrace) then return .namespaceDecl name (← block g).1
  else
    let _ ← terminator
    return .namespaceDecl name
      (← many (fun ts => !ts.isEmpty && !wordAt 0 ["namespace"] ts) g.statement)

/-- The kind of imports that a word announces. -/
def importKind : Reader (Option ImportKind) := do
  if ← skipWord "function" then return some .function
  else if ← skipWord "const" then return some .constant
  else return none

def useItem : Reader UseItem := do
  let name ← anyName
  if ← skipWord "as" then return ⟨name, some (← localName)⟩ else return ⟨name, none⟩

/-- The items of a group behind the name that all of them start with. -/
def useGroup {α : Type} (item : Reader α) : Reader (String × List α) := do
  let common ← anyName
  let _ ← sign "\\"
  let _ ← sign openBrace
  let items ← list (signAt 0 closeBrace) item
  let _ ← sign closeBrace
  let _ ← terminator
  return (common, items)

def useStatement : Reader Stmt := do
  let _ ← word "use"
  let kind ← importKind
  if ← ahead (signAt 1 "\\") then
    match kind with
    | some kind =>
      let (common, items) ← useGroup useItem
      return .use (.group kind common items)
    | none =>
      let (common, items) ← useGroup (do return (← importKind, ← useItem))
      return .use (.mixedGroup common items)
  else
    let items ← listOf useItem
    let _ ← terminator
    match kind with
    | some kind => return .use (.typed kind items)
    | none => return .use (.plain items)

/-- Global constants. Their span starts at the keyword. -/
def constStatement (g : Grammar) (attrs : List Expr) : Reader Stmt := do
  let keyword ← word "const"
  let items ← list terminatorAhead (constItem g)
  return .constant (keyword.span.upTo (← terminator)) attrs items

def functionDecl (g : Grammar) (attrs : List Expr) (start : Option Span) : Reader Stmt := do
  let keyword ← word "function"
  let _ ← skipSign "&"
  let name ← localName
  let params ← g.params
  let type ← returnType g
  let (body, close) ← block g
  return .function
    ⟨(start.getD keyword.span).upTo close, attrs, name, params, [], type, body⟩

def expressionStatement (e : Reader Expr) : Reader Stmt := do
  let e ← e
  let _ ← terminator
  return .expression e

def functionStatement (g : Grammar) (attrs : List Expr) (start : Option Span) : Reader Stmt := do
  if ← ahead (fun ts => signAt 1 "(" ts || (signAt 1 "&" ts && signAt 2 "(" ts)) then
    expressionStatement (closure g attrs start)
  else functionDecl g attrs start

def attributedStatement (g : Grammar) : Reader Stmt := do
  let (attrs, start) ← attributes g
  if ← ahead (wordAt 0 ["function"]) then functionStatement g attrs start
  else if ← ahead (wordAt 0 ["class", "interface", "trait", "enum"]) then
    return .classLike (← classLike g attrs [] start)
  else if ← ahead (wordAt 0 ["const"]) then constStatement g attrs
  else if ← ahead (wordAt 0 ["fn"]) then expressionStatement (closure g attrs start)
  else if ← ahead (fun ts => wordAt 0 ["static"] ts && wordAt 1 ["function", "fn"] ts) then
    let _ ← take "static"
    expressionStatement (closure g attrs start)
  else return .classLike (← modifiedClass g attrs start)

/-- Items behind a keyword, up to the terminator. There may be none. -/
def keywordItems (item : Reader Expr) : Reader (List Expr) := do
  let _ ← take "a keyword"
  let items ← list terminatorAhead item
  let _ ← terminator
  return items

def keywordValue (g : Grammar) : Reader (Option Expr) := do
  let _ ← take "a keyword"
  let value ← if ← ahead terminatorAhead then pure none else some <$> g.expression 0
  let _ ← terminator
  return value

/-- Static variables of a function with their first values. -/
def staticVariables (g : Grammar) : Reader Stmt := do
  let _ ← word "static"
  let values ← list terminatorAhead (do
    let _ ← ofKind .variable "a variable"
    if ← skipSign "=" then some <$> g.expression 0 else pure none)
  let _ ← terminator
  return .plain (values.filterMap id)

/-- Whether a class with modifiers in front is ahead. Also expressions may start with `static` and
`readonly`: a class or a function of that name with something behind it, or a closure. -/
def modifiedClassAhead (tokens : List Token) : Bool :=
  wordAt 0 modifierWords tokens &&
    !(wordAt 0 ["static"] tokens && wordAt 1 ["function", "fn"] tokens) &&
    !(wordAt 0 ["static", "readonly"] tokens &&
      ["::", "(", "[", "->", "?->"].any fun text => signAt 1 text tokens)

def haltStatement : Reader Stmt := do
  let _ ← word "__halt_compiler"
  let _ ← sign "("
  let _ ← sign ")"
  let _ ← terminator
  return .plain []

/-- A statement that starts with a word. A word with a colon behind it is a label, unless it starts
a statement of its own. -/
def wordStatement (g : Grammar) (t : Token) : Reader Stmt := do
  match t.word with
  | "function" => functionStatement g [] none
  | "class" | "interface" | "trait" | "enum" => return .classLike (← classLike g [] [] none)
  | "namespace" => namespaceStatement g
  | "use" => useStatement
  | "const" => constStatement g []
  | "if" => choice g
  | "while" => whileLoop g
  | "do" => doLoop g
  | "for" => forLoop g
  | "foreach" => foreachLoop g
  | "switch" => switchStatement g
  | "try" => tryStatement g
  | "declare" => declareStatement g
  | "echo" => return .echo (← keywordItems (g.expression 0))
  | "return" => return .return (← keywordValue g)
  | "break" | "continue" => return .plain (← keywordValue g).toList
  | "global" => return .plain (← keywordItems (variableExpr g))
  | "unset" =>
    let _ ← take "unset"
    let _ ← sign "("
    let values ← list (signAt 0 ")") (g.expression 0)
    let _ ← sign ")"
    let _ ← terminator
    return .plain values
  | "goto" =>
    let _ ← take "goto"
    let _ ← localName
    let _ ← terminator
    return .plain []
  | "__halt_compiler" => haltStatement
  | _ =>
    if ← ahead (fun ts => wordAt 0 ["static"] ts && kindAt 1 .variable ts) then staticVariables g
    else if ← ahead modifiedClassAhead then return .classLike (← modifiedClass g [] none)
    else if ← ahead (signAt 1 ":") then
      let _ ← take "a label"
      let _ ← take "a label"
      return .plain []
    else expressionStatement (g.expression 0)

def statement (g : Grammar) : Reader Stmt := do
  match ← peek with
  | none => fail "a statement"
  | some t =>
    match t.kind with
    | .inline | .openTag | .closeTag =>
      let _ ← take "a tag"
      return .plain []
    | .echoTag => return .plain (← keywordItems (g.expression 0))
    | .name => wordStatement g t
    | .sign =>
      if t.text = openBrace then return .block (← block g).1
      else if t.text = ";" then
        let _ ← take ";"
        return .plain []
      else if t.text = "#[" then attributedStatement g
      else expressionStatement (g.expression 0)
    | _ => expressionStatement (g.expression 0)

end StaticReflection.Syntax
