import StaticReflection.Locator.Basic

/-!
Asking a locator. `locate` looks for what one identifier asks for, `list` for all declarations of a
kind. That nothing is found is an answer and no failure. Both take the question whether a function
exists, which decides about calls of `define` in namespaces.
-/

namespace StaticReflection

/-- How a lookup is made: how much of a declaration is described, and who asks. -/
structure Inquiry where
  mode : BuildMode
  asker : Nat
  deriving DecidableEq, Repr

abbrev FunctionQuestion := String → Lookup Bool

def readUser (path : String) : Lookup Source := do
  let text ← Lookup.ofFiles (·.readSource path)
  return .user text (some path)

theorem start_readUser (path : String) (s : Session) :
    (readUser path).start s =
      ((s.files.readSource path).map fun text => .user text (some path), s) := by
  rw [readUser, Lookup.start_bind, Lookup.start_ofFiles]
  cases s.files.readSource path <;> rfl

def findInFile (isFunction : FunctionQuestion) (mode : BuildMode) (path : String)
    (id : Identifier) : Lookup (Option Found) := do
  (← readUser path).find isFunction mode id

/-- What an identifier asks for in the first of several files that declares it. Files that do not
exist are passed over. -/
def findInFiles (isFunction : FunctionQuestion) (mode : BuildMode) (id : Identifier) :
    List String → Lookup (Option Found)
  | [] => pure none
  | path :: rest => do
    if (← get).files.isFile path then
      match ← findInFile isFunction mode path id with
      | some found => return some found
      | none => findInFiles isFunction mode id rest
    else findInFiles isFunction mode id rest

def listInFiles (isFunction : FunctionQuestion) (mode : BuildMode) (kind : Kind) :
    List String → Lookup (List Found)
  | [] => pure []
  | path :: rest => do
    let found ← (← readUser path).list isFunction mode kind
    return found ++ (← listInFiles isFunction mode kind rest)

/-- The closure on a line of a file. Code that was handed to `eval` has no file to look in. -/
def closureInFile (mode : BuildMode) (file : String) (line : Nat) : Lookup (Option Found) := do
  if (Text.cutAt "eval()'d code".toList file.toList).isSome then
    throw .evaledClosureCannotBeLocated
  Lookup.ofFiles (·.requireFile file)
  (← readUser file).findClosure mode line

/-- What an identifier asks for in the file that an autoloader names. -/
def findAutoloaded (isFunction : FunctionQuestion) (mode : BuildMode)
    (file? : String → Option String) (id : Identifier) : Lookup (Option Found) := do
  match file? id.name with
  | none => return none
  | some path =>
    if (← get).files.isFile path then findInFile isFunction mode path id
    else throw (.invalidFileLocation path .autoloadedNotAFile)

/-- What an identifier asks for in a stub. A stub without an extension describes nothing that is
built in. -/
def findInStub (isFunction : FunctionQuestion) (mode : BuildMode) (id : Identifier) :
    Option Stub → Lookup (Option Found)
  | some ⟨text, some extension, file⟩ =>
    (Source.internal text extension file).find isFunction mode id
  | _ => pure none

namespace Locator

mutual

def locate (isFunction : FunctionQuestion) (q : Inquiry) :
    Locator → Identifier → Lookup (Option Found)
  | .text source, id => (Source.user source none).find isFunction q.mode id
  | .file path, id => findInFile isFunction q.mode path id
  | .psr4 mapping, id => findInFiles isFunction q.mode id (mapping.candidates id)
  | .classMap map, id =>
    match id.kind with
    | .classLike =>
      match map.file? id.name with
      | some path => findInFile isFunction q.mode path id
      | none => pure none
    | _ => pure none
  | .autoload file?, id =>
    match id.kind with
    | .classLike => findAutoloaded isFunction q.mode file? id
    | _ => pure none
  | .evaled text?, id =>
    match text? id with
    | some source => (Source.evaled source).find isFunction q.mode id
    | none => pure none
  | .closure path line, id =>
    match id.kind with
    | .function => closureInFile q.mode path line
    | _ => pure none
  | .builtIn stubs, id => findInStub isFunction q.mode id (stubs.stub? id.kind id.name)
  | .memo slot inner, id =>
    Lookup.rememberLocated ⟨slot, q.mode, q.asker⟩ id.kind id.key
      (locate isFunction q inner id)
  | .counting counter inner, id => do
    Lookup.countCall counter
    locate isFunction q inner id
  | .pinned fixed inner, _ => locate isFunction q inner fixed
  | .firstOf parts, id => locateFirst isFunction q parts id

/-- What an identifier asks for, from the first locator that finds it. -/
def locateFirst (isFunction : FunctionQuestion) (q : Inquiry) :
    List Locator → Identifier → Lookup (Option Found)
  | [], _ => pure none
  | part :: rest, id => do
    match ← locate isFunction q part id with
    | some found => return some found
    | none => locateFirst isFunction q rest id

end

mutual

def list (isFunction : FunctionQuestion) (q : Inquiry) :
    Locator → Kind → Lookup (List Found)
  | .text source, kind => (Source.user source none).list isFunction q.mode kind
  | .file path, kind => listInFiles isFunction q.mode kind [path]
  | .psr4 mapping, kind => do
    let files := (← get).files
    let directories := mapping.directories.filter files.isDirectory
    let found ← Lookup.ofExcept (directories.mapM files.sourceFiles)
    listInFiles isFunction q.mode kind found.flatten
  | .classMap _, _ | .autoload _, _ | .evaled _, _ | .builtIn _, _ => pure []
  | .closure path line, kind =>
    match kind with
    | .function => Option.toList <$> closureInFile q.mode path line
    | _ => pure []
  | .memo slot inner, kind =>
    Lookup.rememberListed ⟨slot, q.mode, q.asker⟩ kind (list isFunction q inner kind)
  | .counting counter inner, kind => do
    Lookup.countCall counter
    list isFunction q inner kind
  | .pinned fixed inner, _ => list isFunction q inner fixed.kind
  | .firstOf parts, kind => listEach isFunction q parts kind

def listEach (isFunction : FunctionQuestion) (q : Inquiry) :
    List Locator → Kind → Lookup (List Found)
  | [], _ => pure []
  | part :: rest, kind => do
    let found ← list isFunction q part kind
    return found ++ (← listEach isFunction q rest kind)

end

end Locator

end StaticReflection
