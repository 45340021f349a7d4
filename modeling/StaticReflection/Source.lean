import StaticReflection.Text.Cut

/-!
Source texts together with where they came from.
-/

namespace StaticReflection

/-- Where a source text came from. -/
inductive Origin where
  | user
  | evaled
  | internal (extension : String)
  deriving DecidableEq, Repr

/-- A source text, the file it was read from if there is one, and its origin. -/
structure Source where
  text : String
  file : Option String
  origin : Origin
  deriving DecidableEq, Repr

/-- A path with forward slashes only. -/
def forwardSlashes (path : String) : String :=
  String.ofList (path.toList.map fun c => if c == '\\' then '/' else c)

namespace Source

def user (text : String) (path : Option String) : Source :=
  ⟨text, path.map forwardSlashes, .user⟩

def evaled (text : String) : Source := ⟨text, none, .evaled⟩

def internal (text : String) (extension : String) (path : Option String) : Source :=
  ⟨text, path.map forwardSlashes, .internal extension⟩

def isEvaled (source : Source) : Bool := source.origin == .evaled

def extension? (source : Source) : Option String :=
  match source.origin with
  | .internal extension => some extension
  | _ => none

def isInternal (source : Source) : Bool := source.extension?.isSome

end Source

end StaticReflection
