import StaticReflection.Project
import StaticReflection.Reflection.Text

/-!
The command line. Options stand before the command; behind it stand its arguments. What is found is
printed as text, and a failure is reported with the exit code 1. Arguments that make no sense end
with the exit code 2.
-/

namespace StaticReflection.CommandLine

inductive Command where
  | show (kind : Kind) (name : String)
  | list (file : String)
  | closure (file : String) (line : Nat)
  deriving DecidableEq, Repr

/-- The options of a command, each of which may be given once. -/
structure Options where
  root : Option String
  config : Option String
  noStubs : Bool
  deriving DecidableEq, Repr

def Options.none : Options := ⟨.none, .none, false⟩

/-- Whether an argument reads as an option. A single dash does not. -/
def isOption (arg : String) : Bool :=
  match arg.toList with
  | '-' :: _ :: _ => true
  | _ => false

/-- The arguments of a command. Behind two dashes every argument stands for itself. -/
def plainArguments? : List String → Option (List String)
  | [] => some []
  | arg :: rest =>
    if arg = "--" then some rest
    else if isOption arg then none
    else (plainArguments? rest).map (arg :: ·)

/-- The number of a line: digits that fit into 64 bits, with a plus sign if one likes. -/
def readLine? (text : String) : Option Nat :=
  let digits := match text.toList with
    | '+' :: rest => rest
    | cs => cs
  match Number.readDigits? 10 digits with
  | some n => if n < UInt64.size then some n else none
  | none => none

/-- The command of a word and its arguments. A path must not be empty. -/
def readCommand? (word : String) (args : List String) : Option Command := do
  match word, ← plainArguments? args with
  | "class", [name] => return .show .classLike name
  | "function", [name] => return .show .function name
  | "constant", [name] => return .show .constant name
  | "list", [file] => if file.isEmpty then failure else return .list file
  | "closure", [file, line] =>
    if file.isEmpty then failure else return .closure file (← readLine? line)
  | _, _ => failure

def setPath? (o : Options) (name path : String) : Option Options :=
  if path.isEmpty then .none
  else
    match name, o.root, o.config with
    | "--root", .none, _ => some { o with root := some path }
    | "--config", _, .none => some { o with config := some path }
    | _, _, _ => .none

def read? (o : Options) : List String → Option (Options × Command)
  | [] => .none
  | arg :: rest =>
    if !isOption arg then (readCommand? arg rest).map fun command => (o, command)
    else if arg = "--no-stubs" then
      if o.noStubs then .none else read? { o with noStubs := true } rest
    else
      match Text.cutFirst '=' arg.toList with
      | some (name, path) =>
        (setPath? o (String.ofList name) (String.ofList path)).bind fun o => read? o rest
      | .none =>
        match rest with
        | path :: rest =>
          if isOption path then .none else (setPath? o arg path).bind fun o => read? o rest
        | [] => .none

/-- What a run of the program leaves behind. -/
structure Outcome where
  code : Nat
  output : String
  complaint : String
  deriving DecidableEq, Repr

def print (p : Project) : Command → Lookup String
  | .show kind name => do
    return (← p.reflectors.reflect kind name).reflection.describe ++ "\n"
  | .list file => do
    let found ← p.reflectFile file
    return String.join (found.map fun f => f.reflection.describe ++ "\n\n")
  | .closure file line => do
    return (← p.reflectClosure file line).reflection.describe ++ "\n"

def execute (embedded : StubCollection) (o : Options) (command : Command) : Lookup String := do
  let files := (← get).files
  let root := o.root.getD "."
  let config ← Lookup.ofExcept (match o.config with
    | some path => Config.loadFrom files path
    | .none => Config.load files root)
  let config := if o.noStubs then { config with stubs := false } else config
  let p ← Lookup.ofExcept (Project.build embedded files root config [])
  print p command

def usage : String :=
  "usage: [--root DIR] [--config FILE] [--no-stubs] COMMAND\n" ++
    "commands: class NAME, function NAME, constant NAME, list FILE, closure FILE LINE\n"

/-- A run of a program that embeds a collection of stubs. -/
def run (embedded : StubCollection) (files : FileTree) (args : List String) : Outcome :=
  match read? .none args with
  | .none => ⟨2, "", usage⟩
  | some (o, command) =>
    match ((execute embedded o command).start (.start files)).1 with
    | .ok text => ⟨0, text, ""⟩
    | .error e => ⟨1, "", "error: " ++ e.message ++ "\n"⟩

end StaticReflection.CommandLine
