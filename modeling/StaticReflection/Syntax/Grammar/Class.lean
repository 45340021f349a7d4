import StaticReflection.Syntax.Grammar.Function

/-!
Classes, interfaces, traits and enums, and their members. Lists of traits and of constants may have
a comma behind the last item, and lists of traits may be empty; other lists may not.
-/

namespace StaticReflection.Syntax

open Reader

def constItem (g : Grammar) : Reader ConstItem := do
  let name ← localName
  let _ ← sign "="
  return ⟨name, ← g.expression 0⟩

/-- Constants of a class. Their span starts at the first modifier. A type may stand in front of the
names; what an equals sign follows is no type. -/
def classConstants (g : Grammar) (attrs : List Expr) (mods : List Modifier)
    (modStart : Option Span) : Reader Member := do
  let keyword ← word "const"
  if ← ahead (fun ts => typeAhead ts && !signAt 1 "=" ts) then
    let _ ← g.type
  let first ← constItem g
  let more ← if ← skipSign "," then list terminatorAhead (constItem g) else pure []
  let items := first :: more
  return .constant ((modStart.getD keyword.span).upTo (← terminator)) attrs mods items

def method (g : Grammar) (attrs : List Expr) (attrStart : Option Span) (mods : List Modifier)
    (modStart : Option Span) : Reader Member := do
  let keyword ← word "function"
  let _ ← skipSign "&"
  let name ← localName
  let params ← g.params
  let type ← returnType g
  let start := startOf attrStart modStart keyword.span
  if ← ahead (signAt 0 openBrace) then
    let (body, close) ← block g
    return .method mods ⟨start.upTo close, attrs, name, params, [], type, body⟩
  else
    let close ← sign ";"
    return .method mods ⟨start.upTo close.span, attrs, name, params, [], type, []⟩

/-- Properties of one statement. If the first has accessors, these take the terminator's place. -/
def properties (g : Grammar) (attrs : List Expr) (attrStart : Option Span) (mods : List Modifier)
    (modStart : Option Span) : Reader Member := do
  let varStart ← if ← ahead (wordAt 0 ["var"]) then some <$> take "var" else pure none
  let type ← if ← ahead typeAhead then some <$> g.type else pure none
  let item : Reader (Token × Option Expr) := do
    let name ← ofKind .variable "a property"
    return (name, ← if ← skipSign "=" then some <$> g.expression 0 else pure none)
  let first ← item
  let start := startOf attrStart ((modStart.or (varStart.map (·.span))).or type) first.1.span
  if ← ahead (signAt 0 openBrace) then
    let (accessors, close) ← hooks g
    return .property (start.upTo close) attrs mods type [first.1.text] first.2.toList accessors
  else
    let more ← many (signAt 0 ",") (do let _ ← sign ","; item)
    let items := first :: more
    return .property (start.upTo (← terminator)) attrs mods type (items.map (·.1.text))
      (items.filterMap (·.2)) []

def enumCase (g : Grammar) (attrs : List Expr) : Reader Member := do
  let _ ← word "case"
  let name ← localName
  let value ← if ← skipSign "=" then some <$> g.expression 0 else pure none
  let _ ← terminator
  return .case attrs name value

/-- A rule about the methods of used traits, which reflection passes over. A method gets another
name or visibility, or is taken from one trait instead of others; for the latter its own trait has
to be named. -/
def traitAdaptation : Reader Unit := do
  let named ← ahead (signAt 1 "::")
  if named then
    let _ ← anyName
    let _ ← take "::"
  let _ ← localName
  if named && (← ahead (wordAt 0 ["insteadof"])) then
    let _ ← take "insteadof"
    let _ ← list terminatorAhead anyName
  else
    let _ ← word "as"
    if ← ahead (wordAt 0 ["public", "protected", "private"]) then
      let _ ← take "a visibility"
    if !(← ahead terminatorAhead) then
      let _ ← localName
  let _ ← terminator

def traitUse : Reader Member := do
  let _ ← word "use"
  let names ← list (fun ts => terminatorAhead ts || signAt 0 openBrace ts) anyName
  if ← skipSign openBrace then
    let _ ← many (fun ts => !ts.isEmpty && !signAt 0 closeBrace ts) traitAdaptation
    let _ ← sign closeBrace
  else
    let _ ← terminator
  return .traitUse names

/-- A member of a class-like declaration. Cases of enums have no modifiers, and the use of traits
has neither these nor attributes. -/
def member (g : Grammar) : Reader Member := do
  if ← ahead (wordAt 0 ["use"]) then traitUse
  else
    let (attrs, attrStart) ← attributes g
    if ← ahead (wordAt 0 ["case"]) then enumCase g attrs
    else
      let (mods, modStart) ← modifiers
      if ← ahead (wordAt 0 ["function"]) then method g attrs attrStart mods modStart
      else if ← ahead (wordAt 0 ["const"]) then classConstants g attrs mods modStart
      else properties g attrs attrStart mods modStart

def members (g : Grammar) : Reader (List Member × Span) := do
  let _ ← sign openBrace
  let found ← many (fun ts => !ts.isEmpty && !signAt 0 closeBrace ts) (member g)
  let close ← sign closeBrace
  return (found, close.span)

/-- The names behind a word, if it is there. -/
def namesAfter (keyword : String) : Reader (List String) := do
  if ← skipWord keyword then listOf anyName else return []

def classKind? : String → Option ClassKind
  | "class" => some .classDecl
  | "interface" => some .interfaceDecl
  | "trait" => some .traitDecl
  | "enum" => some .enumDecl
  | _ => none

/-- The type that a colon announces, if there is one, with the colon. -/
def backingType (g : Grammar) : Reader (Option Span) := do
  if ← ahead (signAt 0 ":") then
    let colon ← take ":"
    return some (colon.span.upTo (← g.type))
  else return none

def classLike (g : Grammar) (attrs : List Expr) (mods : List Modifier) (start : Option Span) :
    Reader ClassDecl := do
  let keyword ← take "a class"
  match classKind? keyword.word with
  | none => fail "a class"
  | some kind =>
    let name ← localName
    let backing ← if kind = .enumDecl then backingType g else pure none
    let parents ←
      if kind = .classDecl ∨ kind = .interfaceDecl then namesAfter "extends" else pure []
    let interfaces ←
      if kind = .classDecl ∨ kind = .enumDecl then namesAfter "implements" else pure []
    let (found, close) ← members g
    return ⟨(start.getD keyword.span).upTo close, attrs, mods, kind, name, parents, interfaces,
      backing, found⟩

/-- A class from its modifiers on. Other declarations have none. -/
def modifiedClass (g : Grammar) (attrs : List Expr) (start : Option Span) : Reader ClassDecl := do
  let (mods, modStart) ← modifiers
  if ← ahead (wordAt 0 ["class"]) then classLike g attrs mods (start.or modStart)
  else fail "a class"

/-- An anonymous class behind `new`, from its attributes on. -/
def anonymousClass (g : Grammar) (start : Span) : Reader Expr := do
  let (attrs, _) ← attributes g
  let _ ← modifiers
  let _ ← word "class"
  let args ← if ← ahead (signAt 0 "(") then (·.1) <$> arguments g else pure []
  let _ ← namesAfter "extends"
  let _ ← namesAfter "implements"
  let (found, close) ← members g
  return .anonymousClass (start.upTo close) attrs args found

end StaticReflection.Syntax
