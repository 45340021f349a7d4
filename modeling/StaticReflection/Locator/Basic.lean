import StaticReflection.Composer.ClassMap
import StaticReflection.Composer.Psr4
import StaticReflection.Stub.Stubber

/-!
Locators: trees that say where declarations are looked for. Their leaves look in one text, in files
or in stubs; their inner nodes ask several others, remember answers, or watch what is asked.
-/

namespace StaticReflection

/-- Where declarations are looked for. -/
inductive Locator where
  /-- A text that stands in no file. -/
  | text (source : String)
  /-- A file, which is read anew for every lookup. -/
  | file (path : String)
  /-- The files where a mapping expects a class. -/
  | psr4 (mapping : Psr4Mapping)
  /-- The file that a map lists for a class. -/
  | classMap (map : ClassMap)
  /-- The file that the host names for a class. -/
  | autoload (file? : String → Option String)
  /-- The text that the host once handed to `eval` and that declares what an identifier asks for. -/
  | evaled (text? : Identifier → Option String)
  /-- The closure that starts on a line of a file. -/
  | closure (path : String) (line : Nat)
  /-- Stubs of what is built in. -/
  | builtIn (stubs : Stubber)
  /-- Remembers the answers of another locator. -/
  | memo (slot : Nat) (inner : Locator)
  /-- Counts how often another locator is asked. -/
  | counting (counter : Nat) (inner : Locator)
  /-- Asks another locator for one fixed identifier or its kind, whatever is asked for. -/
  | pinned (fixed : Identifier) (inner : Locator)
  /-- Asks locators in turn. -/
  | firstOf (parts : List Locator)

instance : Inhabited Locator := ⟨.firstOf []⟩

namespace Locator

/-- The locator of one file, which has to exist. -/
def ofFile (files : FileTree) (path : String) : Except Error Locator := do
  files.requireFile path
  return .file path

/-- The locator of the source files below directories, in ascending order below each. -/
def ofDirectories (files : FileTree) (directories : List String) : Except Error Locator := do
  let found ← directories.mapM files.sourceFiles
  let parts ← found.flatten.mapM (ofFile files)
  return .firstOf parts

def ofPath (files : FileTree) (path : String) : Except Error Locator :=
  if files.isDirectory path then ofDirectories files [path] else ofFile files path

theorem eq_file_of_ofFile {files : FileTree} {path : String} {l : Locator}
    (h : ofFile files path = .ok l) : l = .file path := by
  obtain ⟨_, -, h⟩ := Error.ok_of_bind h
  cases h
  rfl

theorem mapM_ofFile {files : FileTree} {paths : List String}
    (h : ∀ path ∈ paths, files.requireFile path = .ok ()) :
    paths.mapM (ofFile files) = .ok (paths.map .file) := by
  induction paths with
  | nil => rfl
  | cons path rest ih =>
    have hpath : ofFile files path = .ok (.file path) := by
      rw [ofFile, h path List.mem_cons_self]
      rfl
    rw [List.mapM_cons, hpath, ih fun p hp => h p (List.mem_cons_of_mem path hp)]
    rfl

/-- The locator of a path to a directory asks locators of the files below it. -/
theorem ofPath_of_isDirectory {files : FileTree} {path : String} {found : List String}
    (hdirectory : files.isDirectory path = true) (hfound : files.sourceFiles path = .ok found)
    (hfiles : ∀ path ∈ found, files.requireFile path = .ok ()) :
    ofPath files path = .ok (.firstOf (found.map .file)) := by
  have hall : [path].mapM files.sourceFiles = .ok [found] := by
    rw [List.mapM_cons, hfound]
    rfl
  rw [ofPath, if_pos hdirectory, ofDirectories, hall]
  show ([found].flatten.mapM (ofFile files) >>= fun parts => pure (Locator.firstOf parts)) = _
  rw [List.flatten_singleton, mapM_ofFile hfiles]
  rfl

/-- The locator of directories asks locators of files. -/
theorem ofDirectories_eq_firstOf {files : FileTree} {directories : List String} {l : Locator}
    (h : ofDirectories files directories = .ok l) :
    ∃ parts, l = .firstOf parts ∧ ∀ part ∈ parts, ∃ path, part = .file path := by
  obtain ⟨found, -, h⟩ := Error.ok_of_bind h
  obtain ⟨parts, hparts, h⟩ := Error.ok_of_bind h
  cases h
  refine ⟨parts, rfl, fun part hpart => ?_⟩
  obtain ⟨path, -, hpath⟩ := Error.exists_of_mem_mapM hparts hpart
  exact ⟨path, eq_file_of_ofFile hpath⟩

end Locator

end StaticReflection
