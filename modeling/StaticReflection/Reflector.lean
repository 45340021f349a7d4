import StaticReflection.Locator.Locate

/-!
Reflecting by name. Reflectors put the questions to a locator, each under a number of its own, and
turn "nothing found" into a failure that names what was asked for. They follow the references in
the value of a constant, and the class that a parameter's type names.
-/

namespace StaticReflection

def Kind.asker : Kind → Nat
  | .classLike => 1
  | .function => 2
  | .constant => 3

/-- A reflector that is made for one purpose, as a host program makes it, asks under a number
behind those of the three. -/
def hostAsker (n : Nat) : Nat := 4 + n

/-- Reflectors for classes, functions and constants over one locator. -/
structure Reflectors where
  locator : Locator
  mode : BuildMode
  rules : NameRules
  vetsDefines : Bool

namespace Reflectors

/-- How deep lookups may nest that ask whether a function exists. -/
def maxNesting : Nat := 64

/-- Whether a function exists, answered by lookups that nest so deep. -/
def hasFunctionAt (r : Reflectors) : Nat → FunctionQuestion
  | 0, _ => pure false
  | depth + 1, name => do
    let id := Identifier.make r.rules .function name
    match ← r.locator.locate (r.hasFunctionAt depth) ⟨r.mode, Kind.function.asker⟩ id with
    | some found =>
      let _ ← Lookup.ofExcept found.reflection.toFunction
      return true
    | none => return false

/-- Whether a function exists. Reflectors that do not vet calls of `define` say no. -/
def hasFunction (r : Reflectors) : FunctionQuestion :=
  if r.vetsDefines then r.hasFunctionAt maxNesting else fun _ => pure false

def locate (r : Reflectors) (asker : Nat) (id : Identifier) : Lookup (Option Found) :=
  r.locator.locate r.hasFunction ⟨r.mode, asker⟩ id

def list (r : Reflectors) (asker : Nat) (kind : Kind) : Lookup (List Found) :=
  r.locator.list r.hasFunction ⟨r.mode, asker⟩ kind

def ofKind (kind : Kind) (found : Found) : Lookup Found :=
  if found.reflection.kind = kind then pure found
  else throw (.unexpectedKind kind found.reflection.kind)

def reflect (r : Reflectors) (kind : Kind) (name : String) : Lookup Found := do
  let id := Identifier.make r.rules kind name
  match ← r.locate kind.asker id with
  | some found => ofKind kind found
  | none => throw (.identifierNotFound id)

def reflectClass (r : Reflectors) (name : String) : Lookup ClassReflection := do
  Lookup.ofExcept (← r.reflect .classLike name).reflection.toClass

def reflectFunction (r : Reflectors) (name : String) : Lookup FunctionReflection := do
  Lookup.ofExcept (← r.reflect .function name).reflection.toFunction

def reflectConstant (r : Reflectors) (name : String) : Lookup ConstantReflection := do
  Lookup.ofExcept (← r.reflect .constant name).reflection.toConstant

def reflectAll (r : Reflectors) (kind : Kind) : Lookup (List Found) := do
  (← r.list kind.asker kind).mapM (ofKind kind)

/-- How many references of a constant's value are followed one after the other. -/
def maxReferences : Nat := 32

/-- The value of a global constant. One that was not evaluated counts as null. -/
def constantValue (r : Reflectors) (name : String) : Lookup Value := do
  return (← r.reflectConstant name).value.getD .null

def classConstantValue (r : Reflectors) (scope name : String) : Lookup Value := do
  let c ← r.reflectClass scope
  match c.constant? name with
  | some info => return info.value
  | none =>
    throw (.identifierNotFound (Identifier.make .standard .constant (scope ++ "::" ++ name)))

/-- Follows references from a value on, as far as so many steps. The last step has to find the
value itself. -/
def follow (r : Reflectors) : Nat → Value → Lookup (Option Value)
  | 0, _ => pure none
  | steps + 1, v =>
    match v with
    | .constant name => do r.follow steps (← r.constantValue name)
    | .classConstant scope name => do r.follow steps (← r.classConstantValue scope name)
    | v => pure (some v)

/-- The value of a constant after following references. A chain of too many references leaves the
text of the value. -/
def resolveValue (r : Reflectors) (c : ConstantReflection) : Lookup Value := do
  let first ← match c.value with
    | some v => pure v
    | none => r.constantValue c.name
  return (← r.follow maxReferences first).getD (.unresolved c.valueText)

def nonClassTypes : List String :=
  ["int", "float", "string", "bool", "array", "object", "mixed", "void", "never", "null", "true",
    "false", "callable", "iterable", "self", "static", "parent"]

/-- The single class that a type names, which may be marked as nullable. -/
def className? (imports : Imports) (type : String) : Option String :=
  let name := match type.toList with
    | '?' :: rest => rest
    | cs => cs
  if name.any (fun c => c == '|' || c == '&' || c == '(') ||
      nonClassTypes.contains (String.ofList (Text.lower name)) then none
  else some (imports.resolveClass (String.ofList name))

def parameterClass (r : Reflectors) (f : FunctionReflection) (parameter : String) :
    Lookup (Option Found) := do
  match (f.parameter? parameter).bind (·.type) with
  | none => return none
  | some type =>
    match className? f.imports type with
    | none => return none
    | some name => some <$> r.reflect .classLike name

end Reflectors

end StaticReflection
