import StaticReflection.Text.Cut

/-!
File paths with forward slashes: joining them, taking them apart, and their order.
-/

namespace StaticReflection.Path

open Text

def isAbsolute (path : String) : Bool := path.toList.head? == some '/'

/-- One path below another. An absolute path stands for itself. -/
def join (base path : String) : String :=
  if isAbsolute path then path
  else if base.isEmpty then path
  else if base.toList.getLast? = some '/' then base ++ path
  else base ++ "/" ++ path

/-- The segments between slashes. Empty segments and dots lead nowhere and are left out. -/
def segments (path : String) : List String :=
  ((pieces '/' path.toList).filter fun piece => !piece.isEmpty && piece != ['.']).map String.ofList

/-- The names that lead along a path, one after the other. A dot leads from a directory to itself,
and so does a slash at the end. -/
def steps (path : String) : List String :=
  let named := ((pieces '/' path.toList).filter (!·.isEmpty)).map String.ofList
  if path.toList.getLast? = some '/' then named ++ ["."] else named

def maxBytes : Nat := 4095

/-- How many bytes a name on the way along a path may have. -/
def maxNameBytes : Nat := 255

/-- The text behind the last dot of a file name, if the dot is not its first character. -/
def extension? (name : String) : Option String :=
  match cutLast '.' name.toList with
  | some ([], _) | none => none
  | some (_, after) => some (String.ofList after)

/-- Whether one list of segments comes before another: segment by segment, a shorter list before
its continuations. -/
def before : List String → List String → Bool
  | [], [] => false
  | [], _ :: _ => true
  | _ :: _, [] => false
  | a :: as, b :: bs => a < b || (a == b && before as bs)

end StaticReflection.Path
