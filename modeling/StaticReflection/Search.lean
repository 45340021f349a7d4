import StaticReflection.ClosureSearch
import StaticReflection.Lookup
import StaticReflection.Reflection.Build
import StaticReflection.Syntax.Program

/-!
Searching one source text. The first declaration that an identifier accepts is the one it finds.
A call of `define` without a backslash in a named namespace declares no constant where that
namespace has a function `define` of its own; whether it has is asked for when such a call is met.
-/

namespace StaticReflection

open Syntax

/-- The program of a source, for a reader that lets expressions nest so deep. -/
def Source.programWithin (expressions : Nat) (source : Source) : Except Error Program :=
  match Program.readWithin expressions source.text with
  | .ok p => .ok p
  | .error e => .error (.parseFailure source.file source.text e.message)

def Source.program (source : Source) : Except Error Program :=
  source.programWithin maxExpressionDepth

theorem Source.program_eq_ok_iff {source : Source} {p : Program} :
    source.program = .ok p ↔ Program.read source.text = .ok p := by
  unfold program programWithin Program.read
  cases Program.readWithin maxExpressionDepth source.text <;> simp

def Source.fileScope (source : Source) (p : Program) : FileScope :=
  ⟨source, .ofText source.text, p.trivia⟩

namespace Declaration

/-- The function that would be called in place of the built-in `define`. -/
def rivalDefine? (d : Declaration) : Option String :=
  match d.node, d.imports.space with
  | .define _ callee _ _, some space =>
    if Name.isQualified callee then none else some (space ++ "\\define")
  | _, _ => none

/-- Whether the declaration has the name that an identifier asks for. -/
def answers (d : Declaration) (id : Identifier) : Bool :=
  match d.qualifiedName? with
  | some name => id.accepts name
  | none => false

/-- Whether another function is called in place of the built-in `define`. -/
def isShadowed (isFunction : String → Lookup Bool) (d : Declaration) : Lookup Bool :=
  match d.rivalDefine? with
  | some name => isFunction name
  | none => pure false

def reflect (f : FileScope) (mode : BuildMode) (d : Declaration) : Lookup Found := do
  Lookup.handOut (← Lookup.ofExcept (buildReflection f d mode))

theorem start_reflect (f : FileScope) (mode : BuildMode) (d : Declaration) (s : Session) :
    (d.reflect f mode).start s = match buildReflection f d mode with
      | .ok r => (.ok ⟨s.nextInstance, r⟩, { s with nextInstance := s.nextInstance + 1 })
      | .error e => (.error e, s) := by
  rw [reflect, Lookup.start_bind, Lookup.start_ofExcept]
  cases buildReflection f d mode <;> rfl

end Declaration

/-- The reflection of the first of the declarations that is not shadowed. -/
def findDeclared (isFunction : String → Lookup Bool) (f : FileScope) (mode : BuildMode) :
    List Declaration → Lookup (Option Found)
  | [] => pure none
  | d :: rest => do
    if ← d.isShadowed isFunction then findDeclared isFunction f mode rest
    else some <$> d.reflect f mode

def listDeclared (isFunction : String → Lookup Bool) (f : FileScope) (mode : BuildMode) :
    List Declaration → Lookup (List Found)
  | [] => pure []
  | d :: rest => do
    if ← d.isShadowed isFunction then listDeclared isFunction f mode rest
    else do
      let found ← d.reflect f mode
      return found :: (← listDeclared isFunction f mode rest)

namespace Source

def find (isFunction : String → Lookup Bool) (mode : BuildMode) (source : Source)
    (id : Identifier) : Lookup (Option Found) := do
  let p ← Lookup.ofExcept source.program
  findDeclared isFunction (source.fileScope p) mode
    ((p.declarationsOfKind id.kind).filter (·.answers id))

def list (isFunction : String → Lookup Bool) (mode : BuildMode) (source : Source)
    (kind : Kind) : Lookup (List Found) := do
  let p ← Lookup.ofExcept source.program
  listDeclared isFunction (source.fileScope p) mode
    ((p.declarationsOfKind kind).filter (·.qualifiedName?.isSome))

def closuresOnLine (table : LineTable) (line : Nat) (closures : List Declaration) :
    List Declaration :=
  closures.filter fun d => table.lineOf d.node.span.start == line

/-- The closure that starts on a line, which has to be the only one there. -/
def findClosure (mode : BuildMode) (source : Source) (line : Nat) : Lookup (Option Found) := do
  let p ← Lookup.ofExcept source.program
  match closuresOnLine (.ofText source.text) line p.closures with
  | [] => return none
  | [d] => some <$> d.reflect (source.fileScope p) mode
  | _ => throw (.twoClosuresOnSameLine (source.file.getD "") line)

end Source

end StaticReflection
