import StaticReflection.Composer.ClassMap
import StaticReflection.Composer.Manifest
import StaticReflection.Text.Blank

/-!
The files that Composer generates for installed packages. They are arrays with one entry a line,
and are read as text: a quoted key, an arrow, and paths below the directory of packages or below
the root. A file that is missing counts as empty.
-/

namespace StaticReflection.Composer

open Text

def generatedFile (files : FileTree) (root vendor name : String) : List Char :=
  match files.read (Path.join (Path.join (Path.join root vendor) "composer") name) with
  | .ok text => text.toList
  | .error _ => []

/-- The lines of the array that a generated file returns, without the blanks around them. -/
def arrayLines (content : List Char) : List (List Char) :=
  match cutAt "return array(".toList content with
  | some (_, body) => ((lines body).map (trim isBlank)).takeWhile (· != [')', ';'])
  | none => []

/-- The text between quotes with its escapes resolved, and what follows the closing quote. Only
quotes and backslashes are escaped; before other characters a backslash stands for itself. -/
def takeKey : List Char → Option (List Char × List Char)
  | [] => none
  | ['\\'] => none
  | '\\' :: c :: cs =>
    (takeKey cs).map fun (key, rest) =>
      (if c == '\\' || c == '\'' then (c :: key, rest) else ('\\' :: c :: key, rest))
  | c :: cs =>
    if c == '\'' then some ([], cs) else (takeKey cs).map fun (key, rest) => (c :: key, rest)

/-- The key of a line and what follows its arrow. -/
def takeEntry? (line : List Char) : Option (String × List Char) :=
  match line with
  | '\'' :: quoted =>
    match takeKey quoted with
    | some (key, rest) =>
      (stripHead? ['=', '>'] (rest.dropWhile isBlank)).map fun after => (String.ofList key, after)
    | none => none
  | _ => none

def vendorMark : List Char := "$vendorDir".toList

def rootMark : List Char := "$baseDir".toList

/-- The text from the first of the two variables on, and whether it is that for packages. -/
def nextMark : List Char → Option (Bool × List Char)
  | [] => none
  | c :: cs =>
    if (stripHead? vendorMark (c :: cs)).isSome then some (true, c :: cs)
    else if (stripHead? rootMark (c :: cs)).isSome then some (false, c :: cs)
    else nextMark cs

/-- The paths among at most so many expressions, relative to the root. -/
def takePaths (vendor : String) : Nat → List Char → List String
  | 0, _ => []
  | fuel + 1, cs =>
    match nextMark cs with
    | none => []
    | some (isVendor, marked) =>
      match cutFirst '\'' marked with
      | none => []
      | some (_, quoted) =>
        match cutFirst '\'' quoted with
        | none => []
        | some (path, rest) =>
          let path := String.ofList (path.dropWhile (· == '/'))
          (if isVendor then vendor ++ "/" ++ path else path) :: takePaths vendor fuel rest

/-- The paths of all expressions behind an arrow, relative to the root. -/
def pathsOf (vendor : String) (cs : List Char) : List String := takePaths vendor cs.length cs

def generatedEntries (files : FileTree) (root vendor name : String) :
    List (String × List String) :=
  ((arrayLines (generatedFile files root vendor name)).filterMap takeEntry?).map
    fun (key, rest) => (key, pathsOf vendor rest)

def packageEntries (files : FileTree) (root vendor : String) : List Psr4Entry :=
  (generatedEntries files root vendor "autoload_psr4.php").flatMap fun (key, paths) =>
    paths.map fun path => ⟨normalPrefix key, normalDirectory path⟩

/-- The classes that packages list, each with its first path below the root. -/
def packageClasses (files : FileTree) (root vendor : String) : ClassMap :=
  .ofList ((generatedEntries files root vendor "autoload_classmap.php").filterMap
    fun (key, paths) => paths.head?.map fun path => (key, Path.join root path))

/-- The files that packages always load, as far as they exist. -/
def packageFiles (files : FileTree) (root vendor : String) : List String :=
  (generatedEntries files root vendor "autoload_files.php").flatMap fun (_, paths) =>
    (paths.map (Path.join root)).filter files.isFile

/-- Adds an entry behind a list unless it is there. -/
def addEntry (list : List Psr4Entry) (e : Psr4Entry) : List Psr4Entry :=
  if list.contains e then list else list ++ [e]

/-- The entries of a project and those of its packages that are not among them, longer prefixes
before shorter ones. -/
def rankedEntries (own packages : List Psr4Entry) : List Psr4Entry :=
  (packages.foldl addEntry own).mergeSort
    fun a b => b.namePrefix.utf8ByteSize ≤ a.namePrefix.utf8ByteSize

def allEntries (files : FileTree) (root vendor : String) : List Psr4Entry :=
  rankedEntries (ownEntries files root) (packageEntries files root vendor)

def groupEntry (root : String) (e : Psr4Entry) :
    List (String × List String) → List (String × List String)
  | [] => [(e.namePrefix, [directory])]
  | (name, directories) :: rest =>
    if name = e.namePrefix then (name, directories ++ [directory]) :: rest
    else (name, directories) :: groupEntry root e rest
where
  directory : String := Path.join root (String.ofList (dropEndWhile (· == '/') e.directory.toList))

/-- The mapping of entries, with directories below the root. -/
def mappingOf (root : String) (entries : List Psr4Entry) : Psr4Mapping :=
  .ofPairs (entries.foldl (fun groups e => groupEntry root e groups) [])

end StaticReflection.Composer
