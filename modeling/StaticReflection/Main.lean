import StaticReflection.CommandLine

/-!
The program. It takes a picture of the files below the working directory and below the root that its
arguments name, and runs the command line over it. No stubs come with the program.
-/

open StaticReflection

/-- How deep directories are looked into. -/
def maxDirectoryDepth : Nat := 64

/-- A link says the absolute path that it leads to. One that leads nowhere has no text. -/
def readLink (e : IO.FS.DirEntry) : IO FileEntry := do
  try return .link (← IO.FS.realPath e.path).toString
  catch _ => return .link ""

/-- An entry of a directory with what lies below it. What cannot be read is left out. -/
def readEntry : Nat → List String → IO.FS.DirEntry → IO (List (List String × FileEntry))
  | 0, _, _ => return []
  | depth + 1, above, e => do
    let place := above ++ [e.fileName]
    try
      match (← e.path.symlinkMetadata).type with
      | .dir =>
        let below ← (← e.path.readDir).toList.mapM (readEntry depth place)
        return (place, .directory) :: below.flatten
      | .symlink => return [(place, ← readLink e)]
      | .file => return [(place, .file (String.fromUTF8? (← IO.FS.readBinFile e.path)))]
      | .other => return []
    catch _ => return []

/-- A directory, the directories above it, and what lies below it. -/
def readDirectory (path : String) : IO FileTree := do
  try
    let root ← IO.FS.realPath path
    let tree := FileTree.ofHome (Path.segments root.toString)
    let below ← (← root.readDir).toList.mapM (readEntry maxDirectoryDepth tree.home)
    return { tree with entries := tree.entries ++ below.flatten }
  catch _ => return .empty

/-- The way to a directory by a path. If links are on the way, its end counts as one. -/
def wayTo (home : List String) (path : String) (place : List String) :
    List (List String × FileEntry) :=
  let named := (Path.segments path).foldl
    (fun place s => if s = ".." then place.dropLast else place ++ [s]) (FileTree.base home path)
  (FileTree.ofHome named.dropLast).entries ++ [(named, .link ("/" ++ "/".intercalate place))]

/-- The files below the working directory, and those below a root elsewhere. -/
def readTree (root : String) : IO FileTree := do
  let tree ← readDirectory "."
  let other ← readDirectory root
  if other.entries.isEmpty then return tree
  let way := wayTo tree.home root other.home
  if tree.home.isPrefixOf other.home then return { tree with entries := tree.entries ++ way }
  let outside := tree.entries.filter fun (place, _) => !other.home.isPrefixOf place
  return { tree with entries := outside ++ other.entries ++ way }

def main (args : List String) : IO UInt32 := do
  let root := match CommandLine.read? .none args with
    | some (o, _) => o.root.getD "."
    | none => "."
  let outcome := CommandLine.run .empty (← readTree root) args
  (← IO.getStdout).putStr outcome.output
  (← IO.getStderr).putStr outcome.complaint
  return UInt32.ofNat outcome.code
