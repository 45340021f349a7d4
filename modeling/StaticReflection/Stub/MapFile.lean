import StaticReflection.Files.Tree
import StaticReflection.Text.Blank

/-!
The map file of a collection of stubs, and the tables that a program embeds of it. The map has a
section for each kind of names, with a line for each name and the path of its file; the tables hold
the files that exist, their paths, and for each kind the names with the number of their file.
-/

namespace StaticReflection.StubMap

open Text

/-- Where the stubs are, below the directory of the package. -/
def stubsPath : String := "stubs/jetbrains/phpstorm-stubs"

/-- The name of the map file, which lies beside the stubs. -/
def mapName : String := "PhpStormStubsMap.php"

/-- A section of the map, the table that it becomes, and what the table holds in words. -/
structure MapSection where
  name : String
  table : String
  description : String
  deriving DecidableEq, Repr

def sections : List MapSection :=
  [⟨"CLASSES", "STUB_CLASS_MAP", "class, interface, trait and enum names"⟩,
    ⟨"FUNCTIONS", "STUB_FUNCTION_MAP", "function names, namespaced ones included"⟩,
    ⟨"CONSTANTS", "STUB_CONSTANT_MAP", "constant names, namespaced ones included"⟩]

/-- The text between two single quotes, with blanks around them. Escapes stay as they are. -/
def unquote? (cs : List Char) : Option (List Char) :=
  (stripHead? ['\''] (trim isBlank cs)).bind (stripTail? ['\''])

def readLine? (line : List Char) : Option (String × String) := do
  let (key, value) ← cutAt " => ".toList (dropEndWhile (· == ',') line)
  return (String.ofList (← unquote? key), String.ofList (← unquote? value))

/-- Sets an entry of a list in ascending order of names. -/
def setEntry (name path : String) : List (String × String) → List (String × String)
  | [] => [(name, path)]
  | (n, p) :: rest =>
    if name < n then (name, path) :: (n, p) :: rest
    else if name = n then (n, path) :: rest
    else (n, p) :: setEntry name path rest

/-- The entries of a section in ascending order of names. Of lines with one name the last counts. -/
def readSection (content : String) (name : String) : List (String × String) :=
  match cutAt ("const " ++ name ++ " = array (").toList content.toList with
  | none => []
  | some (_, body) =>
    let body := ((lines body).map (trim isBlank)).takeWhile (· != [')', ';'])
    (body.filterMap readLine?).foldl (fun entries (name, path) => setEntry name path entries) []

/-- The paths that sections mention, each once and in ascending order, as far as there is a file. -/
def embeddedFiles (files : FileTree) (base : String) (tables : List (List (String × String))) :
    List String :=
  (tables.flatten.foldr (fun (_, path) list => insertAscending path list) []).filter
    fun path => files.isFile (Path.join base path)

def numbered (embedded : List String) (entries : List (String × String)) : List (String × Nat) :=
  entries.filterMap fun (name, path) => (embedded.idxOf? path).map fun number => (name, number)

/-- A text between double quotes, with backslashes and double quotes escaped. -/
def quoted (text : String) : String :=
  let escaped := text.toList.flatMap fun c => if c == '\\' || c == '"' then ['\\', c] else [c]
  "\"" ++ String.ofList escaped ++ "\""

/-- The declaration of a table of so many rows of a type, up to its opening bracket. -/
def tableHead (name type : String) (size : Nat) : String :=
  "pub(crate) static " ++ name ++ ": [" ++ type ++ "; " ++ size.repr ++ "] = ["

/-- A table, with each row on a line of its own. -/
def table (comment name type : String) (rows : List String) : String :=
  "/// " ++ comment ++ "\n" ++ tableHead name type rows.length ++ "\n" ++
    String.join (rows.map fun row => "    " ++ row ++ ",\n") ++ "];\n"

def textType : String := "&str"

def pairType : String := "(&str, usize)"

/-- The directory of a path's files with forward slashes only. -/
def slashed (path : String) : String :=
  String.ofList (path.toList.map fun c => if c == '\\' then '/' else c)

def sectionTable (s : MapSection) (entries : List (String × Nat)) : String :=
  table ("Maps " ++ s.description ++ " to an index into [`STUB_FILES`].") s.table pairType
    (entries.map fun (name, number) => "(" ++ quoted name ++ ", " ++ number.repr ++ ")")

def tablesOf (files : FileTree) (base content : String) : String :=
  let entries := sections.map fun s => readSection content s.name
  let embedded := embeddedFiles files base entries
  let texts := embedded.map fun path => "include_str!(\"" ++ slashed (Path.join base path) ++ "\")"
  table "Embedded phpstorm-stubs PHP files." "STUB_FILES" textType texts ++ "\n" ++
    table "Path of each [`STUB_FILES`] entry relative to the stubs root." "STUB_FILE_PATHS"
      textType (embedded.map quoted) ++
    String.join ((sections.zip entries).map fun (s, list) =>
      "\n" ++ sectionTable s (numbered embedded list))

/-- The tables of a program without stubs. -/
def emptyTables : String :=
  let line (name type : String) := tableHead name type 0 ++ "];\n"
  line "STUB_FILES" textType ++ line "STUB_FILE_PATHS" textType ++
    String.join (sections.map fun s => line s.table pairType)

/-- What a build step reports and writes. -/
structure Generated where
  report : String
  tables : String
  deriving DecidableEq, Repr

def watched : String :=
  "cargo:rerun-if-changed=composer.lock\ncargo:rerun-if-changed=build.rs\n"

/-- The build step for a package in a directory. Without a map file there are no stubs, and a
warning says so. -/
def generate (files : FileTree) (package : String) : Generated :=
  let base := Path.join package stubsPath
  match files.read (Path.join base mapName) with
  | .ok content => ⟨watched, tablesOf files base content⟩
  | .error fault =>
    ⟨watched ++ "cargo:warning=Could not read " ++ mapName ++ " (" ++ fault.message ++
      "); generating empty stub index\n", emptyTables⟩

end StaticReflection.StubMap
