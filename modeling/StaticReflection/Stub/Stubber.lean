import StaticReflection.Search
import StaticReflection.Stub.Availability

/-!
Stubs: source texts that describe what is built in. A stubber gives the stub for a name and says
whether the name is known to exist. Names are looked up without case and without leading
backslashes, whatever their kind.
-/

namespace StaticReflection

open Syntax

/-- A source text that describes a built-in declaration, and the extension it belongs to. -/
structure Stub where
  text : String
  extension : Option String
  file : Option String
  deriving DecidableEq, Repr

inductive Presence where
  | present
  | absent
  | unknown
  deriving DecidableEq, Repr

/-- Whether anything is known. -/
def Presence.isKnown (p : Presence) : Bool := p != .unknown

def stubKey (name : String) : String := Name.lower (Name.stripRoots name)

/-- What names of each kind stand for. Of entries whose names have one key the last one counts. -/
structure StubTable (α : Type) where
  entries : List (Kind × String × α)

def StubTable.get? {α : Type} (t : StubTable α) (kind : Kind) (name : String) : Option α :=
  (t.entries.reverse.find? fun (k, n, _) => k == kind && stubKey n == stubKey name).map (·.2.2)

/-- Stub files by path, and which file declares each name. -/
structure StubCollection where
  files : List (String × String)
  names : StubTable Nat

def StubCollection.empty : StubCollection := ⟨[], ⟨[]⟩⟩

/-- A collection of stubs, and the version that stubs are for. -/
structure StubIndex extends StubCollection where
  version : Option PhpVersion

namespace StubIndex

/-- Whether any declaration of a name in a file exists in a version. A file that cannot be read as
a program, or that does not declare the name, says nothing against it. -/
def existsIn (path text : String) (kind : Kind) (name : String) (version : PhpVersion) : Bool :=
  match (Source.user text (some path)).program with
  | .error _ => true
  | .ok p =>
    let declared := (p.declarationsOfKind kind).filter
      (·.answers (Identifier.make .standard kind name))
    declared.isEmpty ||
      declared.any fun d => (Availability.ofDeclaration text p.trivia d).includes version

/-- What is known about a name. Without a version every name of the index exists. -/
def presence (i : StubIndex) (kind : Kind) (name : String) : Presence :=
  match i.names.get? kind name, i.version with
  | none, _ => .unknown
  | some _, none => .present
  | some number, some version =>
    match i.files[number]? with
    | none => .absent
    | some (path, text) =>
      if existsIn path text kind name version then .present else .absent

/-- The extension that a stub file belongs to: the first directory of its path. -/
def extensionOf (path : String) : Option String :=
  let first := path.toList.takeWhile (· != '/')
  if first.isEmpty then none else some (String.ofList first)

def stub? (i : StubIndex) (kind : Kind) (name : String) : Option Stub :=
  match i.names.get? kind name with
  | none => none
  | some number =>
    if i.presence kind name = .absent then none
    else i.files[number]?.map fun (path, text) => ⟨text, extensionOf path, none⟩

end StubIndex

/-- Where stubs come from. -/
inductive Stubber where
  | table (stubs : StubTable Stub)
  | index (i : StubIndex)
  | firstOf (stubbers : List Stubber)

instance : Inhabited Stubber := ⟨.firstOf []⟩

namespace Stubber

mutual

def stub? (kind : Kind) (name : String) : Stubber → Option Stub
  | .table stubs => stubs.get? kind name
  | .index i => i.stub? kind name
  | .firstOf stubbers => firstStub? kind name stubbers

/-- The stub of the first stubber that has one. -/
def firstStub? (kind : Kind) (name : String) : List Stubber → Option Stub
  | [] => none
  | s :: rest => (s.stub? kind name).or (firstStub? kind name rest)

end

mutual

def presence (kind : Kind) (name : String) : Stubber → Presence
  | .table stubs => if (stubs.get? kind name).isSome then .present else .unknown
  | .index i => i.presence kind name
  | .firstOf stubbers => firstPresence kind name stubbers

/-- What the first stubber knows that knows something. -/
def firstPresence (kind : Kind) (name : String) : List Stubber → Presence
  | [] => .unknown
  | s :: rest =>
    let p := s.presence kind name
    if p.isKnown then p else firstPresence kind name rest

end

end Stubber

end StaticReflection
