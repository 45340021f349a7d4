import StaticReflection.Identifier

/-!
Mapping class names to files: each prefix of names has directories below which the rest of a name
is a path. Prefixes and directories keep the order of their first appearance and appear once.
-/

namespace StaticReflection

open Text

/-- A prefix and a directory, as a project or a package declares them. -/
structure Psr4Entry where
  namePrefix : String
  directory : String
  deriving DecidableEq, Repr

/-- Prefixes without backslashes at their ends, each with its directories. -/
structure Psr4Mapping where
  groups : List (String × List String)
  deriving DecidableEq, Repr

namespace Psr4Mapping

/-- A prefix without backslashes at its ends. -/
def trimPrefix (name : String) : String :=
  String.ofList (trim (· == '\\') name.toList)

/-- A directory without slashes at its end. Of the root one is left. -/
def trimDirectory (directory : String) : String :=
  let trimmed := dropEndWhile (fun c => c == '/' || c == '\\') directory.toList
  if trimmed.isEmpty && !directory.isEmpty then "/" else String.ofList trimmed

/-- Adds a text behind a list unless it is there. -/
def addNew (list : List String) (x : String) : List String :=
  if list.contains x then list else list ++ [x]

/-- Adds directories to the group of a prefix, which is made behind all others if it is missing. -/
def addGroup (name : String) (directories : List String) :
    List (String × List String) → List (String × List String)
  | [] => [(name, directories.foldl addNew [])]
  | (n, ds) :: rest =>
    if n = name then (n, directories.foldl addNew ds) :: rest
    else (n, ds) :: addGroup name directories rest

def ofPairs (pairs : List (String × List String)) : Psr4Mapping :=
  ⟨pairs.foldl (fun groups (name, directories) =>
    addGroup (trimPrefix name) (directories.map trimDirectory) groups) []⟩

def isEmpty (m : Psr4Mapping) : Bool := m.groups.isEmpty

/-- All directories, each once. -/
def directories (m : Psr4Mapping) : List String :=
  m.groups.foldl (fun list (_, ds) => ds.foldl addNew list) []

/-- What is left of a class name behind a prefix. The prefix ends at a backslash, and something has
to be left. -/
def relative? (name className : String) : Option String :=
  if name.isEmpty then some className
  else
    match stripHead? name.toList className.toList with
    | some ('\\' :: c :: rest) => some (String.ofList (c :: rest))
    | _ => none

/-- The path below a directory where a class is expected. -/
def classPath (directory relative : String) : String :=
  directory ++ "/" ++
    String.ofList (relative.toList.map fun c => if c == '\\' then '/' else c) ++ ".php"

/-- The files that may declare what an identifier asks for, in the order of the prefixes. Only
classes are looked for. -/
def candidates (m : Psr4Mapping) (id : Identifier) : List String :=
  match id.kind with
  | .classLike =>
    m.groups.flatMap fun (name, directories) =>
      match relative? name id.name with
      | some relative => directories.map fun directory => classPath directory relative
      | none => []
  | _ => []

end Psr4Mapping

end StaticReflection
