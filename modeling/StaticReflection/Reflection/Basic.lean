import StaticReflection.Error
import StaticReflection.Imports
import StaticReflection.Source
import StaticReflection.Syntax.Tree
import StaticReflection.Value.Basic

/-!
Reflections: descriptions of classes, functions and constants. A reflection owns all it says, and
the source text that it came from. In the mode `identifierOnly` it has a name, a place and what its
head says, and nothing of what is inside.
-/

namespace StaticReflection

open Syntax

/-- How much of a declaration a reflection describes. -/
inductive BuildMode where
  | compiled
  | identifierOnly
  deriving DecidableEq, Repr

/-- From where a member can be reached. -/
inductive Visibility where
  | publicAccess
  | protectedAccess
  | privateAccess
  deriving DecidableEq, Repr

def Visibility.word : Visibility → String
  | .publicAccess => "public"
  | .protectedAccess => "protected"
  | .privateAccess => "private"

/-- The visibility that modifiers give: the first that is one, else public. -/
def Visibility.ofModifiers (modifiers : List Modifier) : Visibility :=
  (modifiers.findSome? fun
    | .privateAccess => some Visibility.privateAccess
    | .protectedAccess => some .protectedAccess
    | .publicAccess => some .publicAccess
    | _ => none).getD .publicAccess

/-- A parameter of a function or method, its name without the dollar sign. -/
structure ParameterInfo where
  name : String
  position : Nat
  type : Option String
  default : Option Value
  defaultText : Option String
  variadic : Bool
  byReference : Bool
  promoted : Bool
  deriving Repr

/-- Whether a call may leave the parameter out. -/
def ParameterInfo.isOptional (p : ParameterInfo) : Bool := p.defaultText.isSome || p.variadic

structure ClassConstantInfo where
  name : String
  value : Value
  visibility : Visibility
  isFinal : Bool
  doc : Option String
  deriving Repr

structure MethodInfo where
  name : String
  visibility : Visibility
  isStatic : Bool
  isAbstract : Bool
  isFinal : Bool
  params : List ParameterInfo
  returnType : Option String
  doc : Option String
  docReturnTypes : List String
  lines : LineSpan
  deriving Repr

def isConstructorName (name : String) : Bool := Name.sameLetters name "__construct"

/-- A property, its name without the dollar sign. -/
structure PropertyInfo where
  name : String
  visibility : Visibility
  isStatic : Bool
  isReadonly : Bool
  type : Option String
  promoted : Bool
  doc : Option String
  deriving Repr

structure ClassReflection where
  name : String
  imports : Imports
  kind : ClassKind
  parent : Option String
  interfaces : List String
  traits : List String
  isFinal : Bool
  isAbstract : Bool
  backing : Option String
  methods : List MethodInfo
  properties : List PropertyInfo
  constants : List ClassConstantInfo
  cases : List String
  doc : Option String
  lines : LineSpan
  source : Source
  compiled : Bool
  deriving Repr

/-- A named function, a closure or an arrow function. -/
structure FunctionReflection where
  name : String
  imports : Imports
  params : List ParameterInfo
  returnType : Option String
  doc : Option String
  docReturnTypes : List String
  uses : List String
  isClosure : Bool
  isStatic : Bool
  lines : LineSpan
  source : Source
  compiled : Bool
  deriving Repr

/-- A global constant. Its value is missing in the mode `identifierOnly`. -/
structure ConstantReflection where
  name : String
  value : Option Value
  valueText : String
  isDefine : Bool
  lines : LineSpan
  source : Source
  deriving Repr

inductive Reflection where
  | classLike (c : ClassReflection)
  | function (f : FunctionReflection)
  | constant (c : ConstantReflection)
  deriving Repr

/-- A variable's name without its dollar sign. -/
def withoutDollar (name : String) : String :=
  match name.toList with
  | '$' :: rest => String.ofList rest
  | _ => name

namespace ClassReflection

/-- The method of this name, which does not depend on case. -/
def method? (c : ClassReflection) (name : String) : Option MethodInfo :=
  c.methods.find? fun m => Name.sameLetters m.name name

/-- The property of this name, with or without the dollar sign. -/
def property? (c : ClassReflection) (name : String) : Option PropertyInfo :=
  c.properties.find? (·.name == withoutDollar name)

def constant? (c : ClassReflection) (name : String) : Option ClassConstantInfo :=
  c.constants.find? (·.name == name)

end ClassReflection

namespace FunctionReflection

/-- The namespace of the function; a closure has that of the place where it stands. -/
def space (f : FunctionReflection) : Option String :=
  if f.isClosure then f.imports.space else (Name.split f.name).1

/-- The parameter of this name, with or without the dollar sign. -/
def parameter? (f : FunctionReflection) (name : String) : Option ParameterInfo :=
  f.params.find? (·.name == withoutDollar name)

/-- How many parameters a call must give. -/
def requiredCount (f : FunctionReflection) : Nat := (f.params.filter (!·.isOptional)).length

end FunctionReflection

namespace ConstantReflection

def compiled (c : ConstantReflection) : Bool := c.value.isSome

end ConstantReflection

namespace Reflection

def name : Reflection → String
  | .classLike c => c.name
  | .function f => f.name
  | .constant c => c.name

def kind : Reflection → Kind
  | .classLike _ => .classLike
  | .function _ => .function
  | .constant _ => .constant

def source : Reflection → Source
  | .classLike c => c.source
  | .function f => f.source
  | .constant c => c.source

def lines : Reflection → LineSpan
  | .classLike c => c.lines
  | .function f => f.lines
  | .constant c => c.lines

def toClass (r : Reflection) : Except Error ClassReflection :=
  match r with
  | .classLike c => .ok c
  | other => .error (.unexpectedKind .classLike other.kind)

def toFunction (r : Reflection) : Except Error FunctionReflection :=
  match r with
  | .function f => .ok f
  | other => .error (.unexpectedKind .function other.kind)

def toConstant (r : Reflection) : Except Error ConstantReflection :=
  match r with
  | .constant c => .ok c
  | other => .error (.unexpectedKind .constant other.kind)

end Reflection

end StaticReflection
