import StaticReflection.Name

/-!
Namespaces and their imports, and what a name written in one stands for. Aliases of classes and
functions do not depend on case; aliases of constants do. A later import of an alias replaces an
earlier one, and the three kinds of imports never meet.
-/

namespace StaticReflection

open Text

/-- What a `use` statement imports. -/
inductive ImportKind where
  | classLike
  | function
  | constant
  deriving DecidableEq, Repr

/-- One item of a `use` statement. -/
structure UseItem where
  name : String
  localName : Option String
  deriving DecidableEq, Repr

/-- The four forms of a `use` statement. -/
inductive UseClause where
  | plain (items : List UseItem)
  | typed (kind : ImportKind) (items : List UseItem)
  | group (kind : ImportKind) (base : String) (items : List UseItem)
  | mixedGroup (base : String) (items : List (Option ImportKind × UseItem))
  deriving DecidableEq, Repr

/-- An imported name: the alias it goes by and the full name it stands for. -/
structure Import where
  localName : String
  target : String
  deriving DecidableEq, Repr

/-- A namespace with its imports, the latest first. -/
structure Imports where
  space : Option String
  classes : List Import
  functions : List Import
  constants : List Import
  deriving DecidableEq, Repr

namespace Imports

/-- A namespace without imports. The empty name is the global namespace. -/
def empty (space : Option String) : Imports :=
  ⟨space.filter (fun name => !name.isEmpty), [], [], []⟩

def add (imports : Imports) (kind : ImportKind) (localName target : String) : Imports :=
  match kind with
  | .classLike => { imports with classes := ⟨Name.lower localName, target⟩ :: imports.classes }
  | .function =>
    { imports with functions := ⟨Name.lower localName, target⟩ :: imports.functions }
  | .constant => { imports with constants := ⟨localName, target⟩ :: imports.constants }

def addClass (imports : Imports) (localName target : String) : Imports :=
  imports.add .classLike localName (Name.stripRoots target)

/-- Adds an item of a `use` statement. An item without an alias goes by its short name. -/
def addItem (imports : Imports) (base : Option String) (kind : ImportKind) (item : UseItem) :
    Imports :=
  let full := match base with
    | some base =>
      String.ofList (dropEndWhile (· == '\\') base.toList) ++ "\\" ++ item.name
    | none => item.name
  let target := Name.stripRoots full
  imports.add kind (item.localName.getD (Name.short target)) target

def addClause (imports : Imports) : UseClause → Imports
  | .plain items => items.foldl (fun i item => i.addItem none .classLike item) imports
  | .typed kind items => items.foldl (fun i item => i.addItem none kind item) imports
  | .group kind base items => items.foldl (fun i item => i.addItem (some base) kind item) imports
  | .mixedGroup base items =>
    items.foldl (fun i item => i.addItem (some base) (item.1.getD .classLike) item.2) imports

/-- The target of the latest import that goes by an alias. -/
def target? (list : List Import) (localName : String) : Option String :=
  (list.find? (·.localName == localName)).map (·.target)

def relative? (name : String) : Option String :=
  match cutFirst '\\' name.toList with
  | some (head, rest) =>
    if Text.lower head = "namespace".toList then some (String.ofList rest) else none
  | none => none

/-- The full name of a class. Only the first segment of the name can be an alias. -/
def resolveClass (imports : Imports) (name : String) : String :=
  match name.toList with
  | '\\' :: absolute => String.ofList absolute
  | cs =>
    match relative? name with
    | some rest => Name.qualify imports.space rest
    | none =>
      let (first, rest) := match cutFirst '\\' cs with
        | some (first, rest) => (String.ofList first, some (String.ofList rest))
        | none => (name, none)
      match target? imports.classes (Name.lower first), rest with
      | some target, some rest => target ++ "\\" ++ rest
      | some target, none => target
      | none, _ => Name.qualify imports.space name

/-- The full name of a function. A name with backslashes resolves like a class name, and one
without them that is not imported belongs to the namespace. -/
def resolveFunction (imports : Imports) (name : String) : String :=
  match name.toList with
  | '\\' :: absolute => String.ofList absolute
  | _ =>
    if Name.isQualified name then imports.resolveClass name
    else (target? imports.functions (Name.lower name)).getD (Name.qualify imports.space name)

/-- The full name of a constant. A name with backslashes resolves like a class name, and one
without them that is not imported belongs to the namespace. -/
def resolveConstant (imports : Imports) (name : String) : String :=
  match name.toList with
  | '\\' :: absolute => String.ofList absolute
  | _ =>
    if Name.isQualified name then imports.resolveClass name
    else (target? imports.constants name).getD (Name.qualify imports.space name)

end Imports

end StaticReflection
