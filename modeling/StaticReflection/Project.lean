import StaticReflection.Composer.VendorFiles
import StaticReflection.Config
import StaticReflection.Reflector

/-!
A project: its configuration and the chain of locators that follows from it. The chain asks the
locators of the host, then the configured paths, what Composer says, and the stubs, in this order.
-/

namespace StaticReflection

/-- A root with its configuration and its chain of locators. -/
structure Project where
  root : String
  config : Config
  chain : Locator

namespace Project

def composerLocators (files : FileTree) (root : String) (config : Config) :
    Except Error (List Locator) := do
  let vendor := config.vendorDirectory.getD (Composer.vendorDirectory files root)
  let mapping := Composer.mappingOf root (Composer.allEntries files root vendor)
  let classes := Composer.packageClasses files root vendor
  let loaded ← (Composer.packageFiles files root vendor).mapM (Locator.ofFile files)
  return (if mapping.isEmpty then [] else [.psr4 mapping]) ++
    (if classes.isEmpty then [] else [.classMap classes]) ++ loaded

/-- The stubs of what is built in, from the collection that the program embeds. -/
def stubs (embedded : StubCollection) (config : Config) : Stubber :=
  .index { embedded with version := config.phpVersion }

def chainParts (embedded : StubCollection) (files : FileTree) (root : String) (config : Config)
    (host : List Locator) : Except Error (List Locator) := do
  let paths ← config.paths.mapM fun path => Locator.ofPath files (Path.join root path)
  let composer ← if config.composer then composerLocators files root config else pure []
  let builtIn := if config.stubs then [.builtIn (stubs embedded config)] else []
  return host ++ paths ++ composer ++ builtIn

/-- The slot in which the chain remembers its answers. Memos of the host have other slots. -/
def chainSlot : Nat := 0

/-- The project at a root with a configuration, and locators of the host, in a program that embeds a
collection of stubs. -/
def build (embedded : StubCollection) (files : FileTree) (root : String) (config : Config)
    (host : List Locator) : Except Error Project := do
  let parts ← chainParts embedded files root config host
  let chain := Locator.firstOf parts
  return ⟨root, config, if config.memoize then .memo chainSlot chain else chain⟩

def reflectors (p : Project) : Reflectors := ⟨p.chain, .compiled, p.config.rules, true⟩

/-- Whether a declaration of a name is found, without describing what is inside. -/
def has (p : Project) (kind : Kind) (name : String) : Lookup Bool := do
  let id := Identifier.make p.config.rules kind name
  let found ← p.chain.locate p.reflectors.hasFunction ⟨.identifierOnly, kind.asker⟩ id
  return found.isSome

/-- How the project looks into a single file. -/
def inquiry : Inquiry := ⟨.compiled, hostAsker 2⟩

/-- The declarations of a file: its classes, its functions and its constants. -/
def reflectFile (p : Project) (path : String) : Lookup (List Found) := do
  let l ← Lookup.ofFiles fun files => Locator.ofFile files path
  let classes ← l.list p.reflectors.hasFunction inquiry .classLike
  let functions ← l.list p.reflectors.hasFunction inquiry .function
  let constants ← l.list p.reflectors.hasFunction inquiry .constant
  return classes ++ functions ++ constants

def closureName : String := "\x7bclosure\x7d"

def reflectClosure (p : Project) (file : String) (line : Nat) : Lookup Found := do
  let id := Identifier.make p.config.rules .function closureName
  let l := Locator.closure file line
  match ← l.locate p.reflectors.hasFunction inquiry id with
  | some found => Reflectors.ofKind .function found
  | none => throw (.identifierNotFound id)

end Project

end StaticReflection
