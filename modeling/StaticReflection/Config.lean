import StaticReflection.Files.Tree
import StaticReflection.Formats.Toml
import StaticReflection.Version

/-!
The configuration of a project. Every setting may be left out, and a setting that is not known is
an error.
-/

namespace StaticReflection

/-- What a project is configured to do. -/
structure Config where
  phpVersion : Option PhpVersion
  stubs : Bool
  composer : Bool
  /-- The directory of packages, if not the one that the manifest says. -/
  vendorDirectory : Option String
  memoize : Bool
  paths : List String
  /-- The constants that are compared without case. -/
  caselessConstants : List String
  deriving DecidableEq, Repr

namespace Config

/-- The configuration of a project that says nothing. -/
def standard : Config where
  phpVersion := none
  stubs := true
  composer := true
  vendorDirectory := none
  memoize := true
  paths := []
  caselessConstants := defaultCaselessConstants

def rules (c : Config) : NameRules := .ofList c.caselessConstants

def set? (c : Config) : String × Toml.Setting → Option Config
  | ("php-version", .text text) =>
    (PhpVersion.read? text).map fun v => { c with phpVersion := some v }
  | ("stubs", .bool value) => some { c with stubs := value }
  | ("composer", .bool value) => some { c with composer := value }
  | ("vendor-dir", .text directory) => some { c with vendorDirectory := some directory }
  | ("memoize", .bool value) => some { c with memoize := value }
  | ("paths", .list paths) => some { c with paths := paths }
  | ("case-insensitive-constants", .list names) => some { c with caselessConstants := names }
  | _ => none

def read? (text : String) : Option Config :=
  (Toml.read? text).bind fun settings => settings.foldlM set? standard

def invalidDetail : String := "not a list of known settings"

def loadFrom (files : FileTree) (path : String) : Except Error Config := do
  let text ← files.readSource path
  match read? text with
  | some c => return c
  | none => throw (.invalidConfig path invalidDetail)

def fileName : String := "better-reflection.toml"

def load (files : FileTree) (root : String) : Except Error Config :=
  let path := Path.join root fileName
  if files.isFile path then loadFrom files path else .ok standard

end Config

end StaticReflection
