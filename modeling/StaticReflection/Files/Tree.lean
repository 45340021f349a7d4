import StaticReflection.Error
import StaticReflection.Files.Path

/-!
A file tree: the files, symbolic links and directories of a system, as a value, together with the
working directory. Paths are followed the way an operating system follows them: an absolute path
starts at the root of the system, any other path at the working directory.
-/

namespace StaticReflection

/-- What a path names. A file whose bytes are no text has none. -/
inductive FileEntry where
  | file (text : Option String)
  | link (target : String)
  | directory
  deriving DecidableEq, Repr

/-- Entries by their segments below the root of the system, and the segments of the working
directory, the home of paths that are not absolute. -/
structure FileTree where
  entries : List (List String × FileEntry)
  home : List String
  deriving Repr

namespace FileTree

def empty : FileTree := ⟨[], []⟩

/-- A working directory with the directories above it, and nothing else. -/
def ofHome (home : List String) : FileTree :=
  ⟨(List.range home.length).map fun n => (home.take (n + 1), .directory), home⟩

/-- The entry at a place, itself and not what it links to. -/
def entry? (t : FileTree) (place : List String) : Option FileEntry :=
  if place.isEmpty then some .directory
  else (t.entries.find? (·.1 == place)).map (·.2)

/-- How many links are followed on the way to a file. -/
def maxLinks : Nat := 40

/-- The directory that a path starts from, for a path that is read in a directory. -/
def base (place : List String) (path : String) : List String :=
  if Path.isAbsolute path then [] else place

/-- Follows steps from a directory on. At a link, `jump` goes on from the directory of the link,
with its target and the steps behind it. Where a file may be created, the way may end at a place
with nothing in it. Above the root of the system is the root itself. -/
def followSteps (t : FileTree) (creates : Bool)
    (jump : List String → String → List String → Except FileFault (List String)) :
    List String → List String → Except FileFault (List String)
  | place, [] => .ok place
  | place, s :: rest =>
    if s = "." then followSteps t creates jump place rest
    else if s = ".." then followSteps t creates jump place.dropLast rest
    else if Path.maxNameBytes < s.utf8ByteSize then .error .nameTooLong
    else
      match t.entry? (place ++ [s]) with
      | none => if creates && rest.isEmpty then .ok (place ++ [s]) else .error .notFound
      | some .directory => followSteps t creates jump (place ++ [s]) rest
      | some (.file _) => if rest.isEmpty then .ok (place ++ [s]) else .error .notDirectory
      | some (.link target) => jump place target rest

/-- Follows the steps of a path from a directory on, as far as so many links. The last link is
followed as well. -/
def followFrom (t : FileTree) (creates : Bool) :
    Nat → List String → List String → Except FileFault (List String)
  | 0 => t.followSteps creates fun _ _ _ => .error .tooManyLinks
  | links + 1 => t.followSteps creates fun place target rest =>
    if target.isEmpty then .error .notFound
    else t.followFrom creates links (base place target) (Path.steps target ++ rest)

def follow (t : FileTree) (creates : Bool) (path : String) : Except FileFault (List String) :=
  if path.toList.contains '\x00' then .error .zeroByte
  else if Path.maxBytes < path.utf8ByteSize then .error .nameTooLong
  else if path.isEmpty then .error .notFound
  else t.followFrom creates maxLinks (base t.home path) (Path.steps path)

/-- The entry that a path leads to, which is a file or a directory. -/
def resolve (t : FileTree) (path : String) : Except FileFault FileEntry := do
  match t.entry? (← t.follow false path) with
  | some entry => return entry
  | none => throw .notFound

def isFile (t : FileTree) (path : String) : Bool :=
  match t.resolve path with
  | .ok (.file _) => true
  | _ => false

def isDirectory (t : FileTree) (path : String) : Bool :=
  match t.resolve path with
  | .ok .directory => true
  | _ => false

def read (t : FileTree) (path : String) : Except FileFault String :=
  match t.resolve path with
  | .ok (.file (some text)) => .ok text
  | .ok (.file none) => .error .notText
  | .ok _ => .error .isDirectory
  | .error fault => .error fault

def readSource (t : FileTree) (path : String) : Except Error String :=
  match t.read path with
  | .ok text => .ok text
  | .error fault => .error (.unreadable path fault)

/-- Fails unless a path leads to a file. -/
def requireFile (t : FileTree) (path : String) : Except Error Unit :=
  match t.resolve path with
  | .ok (.file _) => .ok ()
  | .ok _ => .error (.invalidFileLocation path .notAFile)
  | .error fault => .error (.invalidFileLocation path (.system fault))

/-- The files below a directory, by their segments below it, in no particular order. Links are not
followed. -/
def filesBelow (t : FileTree) (place : List String) : List (List String) :=
  t.entries.filterMap fun (segments, entry) =>
    match entry with
    | .file _ =>
      if place.isPrefixOf segments then some (segments.drop place.length) else none
    | _ => none

/-- Inserts into a list of segments in ascending order. -/
def insertPath (x : List String) : List (List String) → List (List String)
  | [] => [x]
  | y :: ys => if Path.before y x then y :: insertPath x ys else x :: y :: ys

def isSourceName (segments : List String) : Bool :=
  match segments.getLast? with
  | some name => Path.extension? name == some "php"
  | none => false

/-- The source files below a directory in ascending order, as paths that start with the path given
for the directory. -/
def sourceFiles (t : FileTree) (path : String) : Except Error (List String) :=
  if t.isDirectory path then
    match t.follow false path with
    | .ok place =>
      let found := (t.filesBelow place).filter isSourceName
      .ok ((found.foldr insertPath []).map fun segments => segments.foldl Path.join path)
    | .error fault => .error (.invalidDirectory path (.system fault))
  else .error (.invalidDirectory path .notADirectory)

def set (t : FileTree) (place : List String) (entry : FileEntry) : FileTree :=
  { t with entries := t.entries.filter (·.1 != place) ++ [(place, entry)] }

/-- Creates the missing directories along segments from a directory on, and gives the directory at
the end of the way. The way is blocked by what is there and is no directory. -/
def makeDirectories (t : FileTree) : List String → List String → FileTree × Option (List String)
  | place, [] => (t, some place)
  | place, s :: rest =>
    match t.followFrom false maxLinks place [s], t.entry? (place ++ [s]) with
    | .ok next, _ =>
      if t.entry? next = some .directory then makeDirectories t next rest else (t, none)
    | .error .notFound, none =>
      if s = ".." then (t, none)
      else makeDirectories (t.set (place ++ [s]) .directory) (place ++ [s]) rest
    | .error _, _ => (t, none)

/-- The directory that the last step of a path starts from, and the name that this step goes to. A
path that has to lead to a directory ends with no name. -/
def lastName? (t : FileTree) (path : String) : Option (List String × String) :=
  match (Path.steps path).reverse with
  | [] => none
  | name :: above =>
    match t.followFrom false maxLinks (base t.home path) above.reverse with
    | .ok place => if name = "." ∨ name = ".." then none else some (place, name)
    | .error _ => none

/-- Sets an entry at a path whose directories are there. A file is written through links, even to
where nothing is yet; anything else comes only where nothing is. What cannot be written leaves the
tree as it is. -/
def put (t : FileTree) (path : String) (entry : FileEntry) : FileTree :=
  match entry with
  | .file text =>
    match t.follow true path with
    | .ok place => if t.entry? place = some .directory then t else t.set place (.file text)
    | .error _ => t
  | entry =>
    match t.lastName? path with
    | some (place, name) =>
      if (t.entry? (place ++ [name])).isSome then t else t.set (place ++ [name]) entry
    | none => t

def write (t : FileTree) (path : String) (entry : FileEntry) : FileTree :=
  let start := base t.home path
  if entry = .directory then (t.makeDirectories start (Path.segments path)).1
  else
    match t.makeDirectories start (Path.segments path).dropLast with
    | (t, some _) => t.put path entry
    | (t, none) => t

def delete (t : FileTree) (path : String) : FileTree :=
  match t.lastName? path with
  | none => t
  | some (place, name) =>
    match t.entry? (place ++ [name]) with
    | some .directory | none => t
    | some _ => { t with entries := t.entries.filter (·.1 != place ++ [name]) }

end FileTree

end StaticReflection
