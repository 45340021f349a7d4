import StaticReflection.Composer.Psr4
import StaticReflection.Files.Tree
import StaticReflection.Formats.Json

/-!
The manifest of a Composer project, `composer.json`. A manifest that is missing or broken counts as
one that says nothing.
-/

namespace StaticReflection.Composer

open Text

def manifest? (files : FileTree) (root : String) : Option Json :=
  match files.read (Path.join root "composer.json") with
  | .ok text => Json.read? text
  | .error _ => none

def vendorDirectory (files : FileTree) (root : String) : String :=
  let written := do
    let json ← manifest? files root
    let config ← json.field? "config"
    let directory ← config.field? "vendor-dir"
    directory.text?
  match written with
  | some directory => String.ofList (dropEndWhile (· == '/') directory.toList)
  | none => "vendor"

/-- A prefix with a backslash at its end, unless it is empty. -/
def normalPrefix (name : String) : String :=
  if name.isEmpty || name.toList.getLast? = some '\\' then name else name ++ "\\"

/-- A directory with forward slashes, and one at its end unless it is empty. -/
def normalDirectory (path : String) : String :=
  let slashed := path.toList.map fun c => if c == '\\' then '/' else c
  if slashed.isEmpty || slashed.getLast? = some '/' then String.ofList slashed
  else String.ofList (slashed ++ ['/'])

/-- The entries of a prefix, whose value is a directory or a list of them. -/
def entriesOf (name : String) (value : Json) : List Psr4Entry :=
  let directories := match value with
    | .string path => [path]
    | .array items => items.filterMap Json.text?
    | _ => []
  directories.map fun path => ⟨normalPrefix name, normalDirectory path⟩

def sectionEntries (json : Json) (name : String) : List Psr4Entry :=
  match (json.field? name).bind (·.field? "psr-4") with
  | some (.object fields) => fields.flatMap fun (name, value) => entriesOf name value
  | _ => []

/-- The entries of the project itself, in the order of the manifest. -/
def ownEntries (files : FileTree) (root : String) : List Psr4Entry :=
  match manifest? files root with
  | some json => sectionEntries json "autoload" ++ sectionEntries json "autoload-dev"
  | none => []

end StaticReflection.Composer
