import StaticReflection.Declaration
import StaticReflection.DocComment
import StaticReflection.Evaluate
import StaticReflection.Reflection.Basic

/-!
Building reflections from declarations. Each kind has its builder, which refuses the nodes of other
kinds. A default of a parameter that cannot be evaluated is kept as text; a constant that cannot be
evaluated is an error.
-/

namespace StaticReflection

open Syntax

/-- The file that a declaration stands in. -/
structure FileScope where
  source : Source
  lines : LineTable
  trivia : List Trivia

namespace FileScope

/-- The text under a span, without the blanks around it. -/
def textOf (f : FileScope) (span : Span) : String := Text.under f.source.text span

def doc? (f : FileScope) (span : Span) : Option String :=
  DocComment.before? f.source.text f.trivia span.start

def place (f : FileScope) (span : Span) : LineSpan := LineSpan.ofSpan f.lines span

/-- What expressions outside classes and functions are evaluated in. -/
def scope (f : FileScope) (imports : Imports) : Scope where
  source := f.source.text
  lines := f.lines
  file := f.source.file
  selfClass := none
  parentClass := none
  imports := imports
  function := none
  locals := []

end FileScope

/-- The parameters of a function, their defaults evaluated in a scope. -/
def buildParameters (f : FileScope) (s : Scope) (params : List Param) : List ParameterInfo :=
  params.mapIdx fun position p =>
    let value := p.default.map fun e =>
      match eval s e with
      | .ok v => v
      | .error _ => .unresolved (s.textOf e)
    { name := withoutDollar p.name
      position := position
      type := p.type.map f.textOf
      default := value
      defaultText := p.default.map s.textOf
      variadic := p.variadic
      byReference := p.byReference
      promoted := p.promoted }

def docTypes (doc : Option String) (imports : Imports) : List String :=
  match doc with
  | some doc => DocComment.returnTypes doc imports
  | none => []

/-- The reflection of a method. All methods of an interface are abstract. -/
def buildMethod (f : FileScope) (s : Scope) (kind : ClassKind) (modifiers : List Modifier)
    (m : Function) : MethodInfo :=
  let doc := f.doc? m.span
  { name := m.name
    visibility := Visibility.ofModifiers modifiers
    isStatic := modifiers.contains .static
    isAbstract := kind == .interfaceDecl || modifiers.contains .abstract
    isFinal := modifiers.contains .final
    params := buildParameters f { s with function := some m.name } m.params
    returnType := m.returnType.map f.textOf
    doc := doc
    docReturnTypes := docTypes doc s.imports
    lines := f.place m.span }

def promotedProperties (f : FileScope) (m : Function) : List PropertyInfo :=
  if isConstructorName m.name then
    (m.params.filter (·.promoted)).map fun p =>
      { name := withoutDollar p.name
        visibility := Visibility.ofModifiers p.modifiers
        isStatic := false
        isReadonly := p.modifiers.contains .readonly
        type := p.type.map f.textOf
        promoted := true
        doc := none }
  else []

def buildProperties (f : FileScope) : Member → List PropertyInfo
  | .method _ m => promotedProperties f m
  | .property span _ modifiers type names _ _ =>
    names.map fun name =>
      { name := withoutDollar name
        visibility := Visibility.ofModifiers modifiers
        isStatic := modifiers.contains .static
        isReadonly := modifiers.contains .readonly
        type := type.map f.textOf
        promoted := false
        doc := f.doc? span }
  | _ => []

def buildConstants (f : FileScope) (s : Scope) : Member → Except Error (List ClassConstantInfo)
  | .constant span _ modifiers items =>
    items.mapM fun item => do
      return { name := item.name
               value := ← eval s item.value
               visibility := Visibility.ofModifiers modifiers
               isFinal := modifiers.contains .final
               doc := f.doc? span }
  | _ => .ok []

def localConstants (members : List Member) : List ConstItem :=
  members.flatMap fun
    | .constant _ _ _ items => items
    | _ => []

/-- What the head of a class-like declaration says. What an interface extends are interfaces, and an
enum is always final. -/
def classHead (f : FileScope) (imports : Imports) (decl : ClassDecl) (mode : BuildMode) :
    ClassReflection where
  name := Name.qualify imports.space decl.name
  imports := imports
  kind := decl.kind
  parent := match decl.kind with
    | .classDecl => decl.parents.head?.map imports.resolveClass
    | _ => none
  interfaces := match decl.kind with
    | .classDecl | .enumDecl => decl.interfaces.map imports.resolveClass
    | .interfaceDecl => decl.parents.map imports.resolveClass
    | .traitDecl => []
  traits := []
  isFinal := match decl.kind with
    | .classDecl => decl.modifiers.contains .final
    | .enumDecl => true
    | _ => false
  isAbstract := decl.kind == .classDecl && decl.modifiers.contains .abstract
  backing := match decl.kind with
    | .enumDecl => decl.backing.map fun span =>
      String.ofList (Text.trim Text.isBlank ((f.textOf span).toList.dropWhile (· == ':')))
    | _ => none
  methods := []
  properties := []
  constants := []
  cases := []
  doc := none
  lines := f.place decl.span
  source := f.source
  compiled := mode == .compiled

def classScope (f : FileScope) (head : ClassReflection) (members : List Member) : Scope :=
  { f.scope head.imports with
    selfClass := some head.name
    parentClass := head.parent
    locals := localConstants members }

def buildClass (f : FileScope) (imports : Imports) (node : DeclNode) (mode : BuildMode) :
    Except Error ClassReflection :=
  match node with
  | .classLike decl =>
    let head := classHead f imports decl mode
    match mode with
    | .identifierOnly => .ok head
    | .compiled => do
      let s := classScope f head decl.members
      let constants ← decl.members.mapM (buildConstants f s)
      return { head with
        doc := f.doc? decl.span
        methods := decl.members.filterMap fun
          | .method modifiers m => some (buildMethod f s decl.kind modifiers m)
          | _ => none
        properties := decl.members.flatMap (buildProperties f)
        constants := constants.flatten
        traits := decl.members.flatMap fun
          | .traitUse names => names.map imports.resolveClass
          | _ => []
        cases := decl.members.filterMap fun
          | .case _ name _ => some name
          | _ => none }
  | other => .error (.wrongNode .classLike other.describe)

/-- The name of a variable that a closure takes over, without its signs. -/
def usedVariable (text : String) : String :=
  let unmarked := Text.trim Text.isBlank (text.toList.dropWhile (· == '&'))
  String.ofList (unmarked.dropWhile (· == '$'))

/-- Whether the text from a span's start on begins with the word `static` in small letters. -/
def startsStatic (f : FileScope) (span : Span) : Bool :=
  match Text.dropBytes? f.source.text.toList span.start with
  | some rest => (Text.stripHead? "static".toList (rest.dropWhile Text.isBlank)).isSome
  | none => false

/-- The reflection of a function, closure or arrow function that is named as given. -/
def buildFunctionNamed (f : FileScope) (imports : Imports) (decl : Function) (name : String)
    (isClosure : Bool) (mode : BuildMode) : FunctionReflection :=
  let head : FunctionReflection :=
    { name := name
      imports := imports
      params := []
      returnType := none
      doc := none
      docReturnTypes := []
      uses := []
      isClosure := isClosure
      isStatic := isClosure && startsStatic f decl.span
      lines := f.place decl.span
      source := f.source
      compiled := mode == .compiled }
  match mode with
  | .identifierOnly => head
  | .compiled =>
    let doc := f.doc? decl.span
    { head with
      params := buildParameters f { f.scope imports with function := some name } decl.params
      returnType := decl.returnType.map f.textOf
      doc := doc
      docReturnTypes := docTypes doc imports
      uses := decl.uses.map fun span => usedVariable (f.textOf span) }

def buildFunction (f : FileScope) (imports : Imports) (node : DeclNode) (mode : BuildMode) :
    Except Error FunctionReflection :=
  match node with
  | .function decl =>
    .ok (buildFunctionNamed f imports decl (Name.qualify imports.space decl.name) false mode)
  | .closure decl | .arrow decl =>
    .ok (buildFunctionNamed f imports decl decl.name true mode)
  | other => .error (.wrongNode .functionLike other.describe)

/-- The value of a constant. One that is defined without a value is null. -/
def buildValue (f : FileScope) (imports : Imports) (value : Option Expr) (mode : BuildMode) :
    Except Error (Option Value) :=
  match mode, value with
  | .compiled, some e => (eval (f.scope imports) e).map some
  | .compiled, none => .ok (some .null)
  | .identifierOnly, _ => .ok none

def buildConstant (f : FileScope) (imports : Imports) (node : DeclNode) (mode : BuildMode) :
    Except Error ConstantReflection := do
  let (name, value, span, isDefine) ← match node with
    | .constant span item =>
      pure (Name.qualify imports.space item.name, some item.value, span, false)
    | .define span _ name value =>
      match name with
      | some name => pure (Name.stripRoots name, value, span, true)
      | none => throw (.wrongNode .namedDefine node.describe)
    | other => throw (.wrongNode .constant other.describe)
  let result ← buildValue f imports value mode
  return { name := name
           value := result
           valueText := (value.map (f.scope imports).textOf).getD ""
           isDefine := isDefine
           lines := f.place span
           source := f.source }

def buildReflection (f : FileScope) (d : Declaration) (mode : BuildMode) :
    Except Error Reflection :=
  match d.kind with
  | .classLike => (buildClass f d.imports d.node mode).map .classLike
  | .function => (buildFunction f d.imports d.node mode).map .function
  | .constant => (buildConstant f d.imports d.node mode).map .constant

end StaticReflection
