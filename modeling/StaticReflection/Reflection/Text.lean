import StaticReflection.Reflection.Basic

/-!
Reflections as text, for people to read.
-/

namespace StaticReflection

open Syntax

def newline : String := "\n"

def sourceTag (source : Source) : String :=
  match source.extension? with
  | some extension => "internal:" ++ extension
  | none => "user"

/-- The line that says where a user's declaration stands, if it has a file. -/
def placeLine (source : Source) (lines : LineSpan) : Option String :=
  if source.isInternal then none
  else
    source.file.map fun file =>
      "  @@ " ++ file ++ " " ++ lines.startLine.repr ++ " - " ++ lines.endLine.repr ++ newline

/-- A text in front of another one if there is one. -/
def spaced : Option String → String
  | some text => text ++ " "
  | none => ""

/-- A word with a blank behind it if it applies. -/
def wordIf (applies : Bool) (word : String) : String := if applies then word ++ " " else ""

def ParameterInfo.describe (p : ParameterInfo) : String :=
  "Parameter #" ++ p.position.repr ++ " [ <" ++ (if p.isOptional then "optional" else "required") ++
    "> " ++ spaced p.type ++ (if p.byReference then "&" else "") ++
    (if p.variadic then "..." else "") ++ "$" ++ p.name ++
    (match p.defaultText with
      | some text => " = " ++ text
      | none => "") ++
    " ]"

/-- Parameters between braces, if there are any. -/
def describeParameters (indent : String) (params : List ParameterInfo) : String :=
  if params.isEmpty then ""
  else
    newline ++ indent ++ "- Parameters [" ++ params.length.repr ++ "] \x7b" ++ newline ++
      String.join (params.map fun p => indent ++ "  " ++ p.describe ++ newline) ++
      indent ++ "\x7d" ++ newline

/-- The line of a return type, if there is one. -/
def describeReturn (indent : String) : Option String → String
  | some type => indent ++ "- Return [ " ++ type ++ " ]" ++ newline
  | none => ""

def FunctionReflection.describe (f : FunctionReflection) : String :=
  (if f.isClosure then "Closure" else "Function") ++ " [ <" ++ sourceTag f.source ++
    "> function " ++ f.name ++ " ] \x7b" ++ newline ++
    (placeLine f.source f.lines).getD "" ++
    describeParameters "  " f.params ++
    describeReturn "  " f.returnType ++ "\x7d"

def ConstantReflection.describe (c : ConstantReflection) : String :=
  let (type, value) := match c.value with
    | some value => (Name.lower value.typeName, value.text)
    | none => ("unknown type", c.valueText)
  "Constant [ <" ++ sourceTag c.source ++ "> " ++ type ++ " " ++ c.name ++ " ] \x7b" ++
    (match placeLine c.source c.lines with
      | some line => newline ++ line
      | none => "") ++
    " " ++ value ++ " \x7d"

def ClassConstantInfo.describe (c : ClassConstantInfo) : String :=
  "    Constant [ " ++ c.visibility.word ++ " " ++ Name.lower c.value.typeName ++ " " ++ c.name ++
    " ] \x7b " ++ c.value.text ++ " \x7d" ++ newline

def PropertyInfo.describe (p : PropertyInfo) : String :=
  "    Property [ " ++ p.visibility.word ++ " " ++ wordIf p.isStatic "static" ++
    wordIf p.isReadonly "readonly" ++ spaced p.type ++ "$" ++ p.name ++ " ]" ++ newline

def MethodInfo.describe (source : Source) (m : MethodInfo) : String :=
  "    Method [ <" ++ sourceTag source ++ "> " ++ wordIf m.isAbstract "abstract" ++
    wordIf m.isFinal "final" ++ wordIf m.isStatic "static" ++ m.visibility.word ++ " method " ++
    m.name ++ " ] \x7b" ++ newline ++
    (match placeLine source m.lines with
      | some line => "  " ++ line
      | none => "") ++
    describeParameters "      " m.params ++ describeReturn "      " m.returnType ++
    "    \x7d" ++ newline

def describeSection (title : String) (members : List String) : String :=
  newline ++ "  - " ++ title ++ " [" ++ members.length.repr ++ "] \x7b" ++ newline ++
    String.join members ++ "  \x7d" ++ newline

/-- What the first line says about a class: its modifiers, its name, and what it builds on. -/
def ClassReflection.header (c : ClassReflection) : String :=
  wordIf c.isAbstract "abstract" ++ wordIf (c.isFinal && c.kind == .classDecl) "final" ++
    c.kind.word ++ " " ++ c.name ++
    (match c.parent with
      | some parent => " extends " ++ parent
      | none => "") ++
    (if c.interfaces.isEmpty then ""
    else
      " " ++ (if c.kind == .interfaceDecl then "extends" else "implements") ++ " " ++
        String.intercalate ", " c.interfaces)

def kindTitle : ClassKind → String
  | .classDecl => "Class"
  | .interfaceDecl => "Interface"
  | .traitDecl => "Trait"
  | .enumDecl => "Enum"

def ClassReflection.describe (c : ClassReflection) : String :=
  kindTitle c.kind ++ " [ <" ++ sourceTag c.source ++ "> " ++ c.header ++ " ] \x7b" ++ newline ++
    (placeLine c.source c.lines).getD "" ++
    describeSection "Constants" (c.constants.map (·.describe)) ++
    describeSection "Properties" (c.properties.map (·.describe)) ++
    describeSection "Methods" (c.methods.map (·.describe c.source)) ++ "\x7d"

def Reflection.describe : Reflection → String
  | .classLike c => c.describe
  | .function f => f.describe
  | .constant c => c.describe

end StaticReflection
