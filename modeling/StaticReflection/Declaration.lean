import StaticReflection.Error
import StaticReflection.Syntax.Tree

/-!
The declarations of a program. Classes, functions and constants are declared at the top level, in
namespaces, in blocks and in the branches of an `if`. A call of `define` that is a statement of its
own declares a constant if its first argument is a string literal that is not empty. What is asked
for are the declarations of one kind; they are those of that kind among all of them.
-/

namespace StaticReflection

open Syntax

/-- A node that declares something: an item of a `const` statement comes with the span of the
statement, and a call of `define` with its callee, its name and its value. -/
inductive DeclNode where
  | classLike (decl : ClassDecl)
  | function (decl : Function)
  | closure (decl : Function)
  | arrow (decl : Function)
  | constant (span : Span) (item : ConstItem)
  | define (span : Span) (callee : String) (name : Option String) (value : Option Expr)

namespace DeclNode

def describe : DeclNode → String
  | .classLike decl => decl.kind.word
  | .function _ => "function"
  | .closure _ => "closure"
  | .arrow _ => "arrow function"
  | .constant .. => "const statement"
  | .define .. => "define() call"

def kind : DeclNode → Kind
  | .classLike _ => .classLike
  | .function _ | .closure _ | .arrow _ => .function
  | .constant .. | .define .. => .constant

/-- The name as written. A call of `define` may have none. -/
def declaredName? : DeclNode → Option String
  | .classLike decl => some decl.name
  | .function decl | .closure decl | .arrow decl => some decl.name
  | .constant _ item => some item.name
  | .define _ _ name _ => name

def span : DeclNode → Span
  | .classLike decl => decl.span
  | .function decl | .closure decl | .arrow decl => decl.span
  | .constant span _ | .define span .. => span

end DeclNode

/-- A declaration with the namespace it stands in. -/
structure Declaration where
  node : DeclNode
  imports : Imports

namespace Declaration

/-- The full name. A constant that is defined by a call is named in full already. -/
def qualifiedName? (d : Declaration) : Option String :=
  match d.node with
  | .define _ _ name _ => name.map Name.stripRoots
  | node => node.declaredName?.map (Name.qualify d.imports.space)

def kind (d : Declaration) : Kind := d.node.kind

end Declaration

/-- The imports of a namespace: those of the `use` statements directly in its body. -/
def Imports.ofBody (space : Option String) (body : List Stmt) : Imports :=
  body.foldl (fun imports s => match s with
    | .use clause => imports.addClause clause
    | _ => imports) (.empty space)

/-- The name that a call of `define` gives: the value of its first argument. -/
def defineName? (args : List Expr) : Option String :=
  match args.head? with
  | some (.string _ _ (some name)) => if name.isEmpty then none else some name
  | _ => none

/-- A call of `define`, in any case and with any number of leading backslashes. -/
def defineCall? : Expr → Option DeclNode
  | .call span (.leaf _ .name callee) args =>
    if Name.sameLetters (Name.stripRoots callee) "define" then
      some (.define span callee (defineName? args) args[1]?)
    else none
  | _ => none

theorem defineName?_eq_some {args : List Expr} {name : String} :
    defineName? args = some name ↔
      ∃ span text rest, args = .string span text (some name) :: rest ∧ name.isEmpty = false := by
  constructor
  · intro h
    unfold defineName? at h
    split at h
    · rename_i span text value hfirst
      split at h
      · cases h
      · rename_i hempty
        cases h
        obtain ⟨rest, rfl⟩ := List.head?_eq_some_iff.mp hfirst
        exact ⟨span, text, rest, rfl, by simpa using hempty⟩
    · cases h
  · rintro ⟨span, text, rest, rfl, hempty⟩
    simp [defineName?, hempty]

theorem defineCall?_eq_some {e : Expr} {node : DeclNode} :
    defineCall? e = some node ↔ ∃ span position callee args,
      e = .call span (.leaf position .name callee) args ∧
      Name.sameLetters (Name.stripRoots callee) "define" = true ∧
      node = .define span callee (defineName? args) args[1]? := by
  constructor
  · intro h
    unfold defineCall? at h
    split at h
    · split at h
      · rename_i span position callee args hcallee
        exact ⟨span, position, callee, args, rfl, hcallee, (Option.some.inj h).symm⟩
      · cases h
    · cases h
  · rintro ⟨span, position, callee, args, rfl, hcallee, rfl⟩
    simp [defineCall?, hcallee]

mutual

def declarationsOf (imports : Imports) : Stmt → List Declaration
  | .namespaceDecl name body => declarationsIn (.ofBody name body) body
  | .classLike decl => [⟨.classLike decl, imports⟩]
  | .function decl => [⟨.function decl, imports⟩]
  | .constant span _ items => items.map fun item => ⟨.constant span item, imports⟩
  | .expression e =>
    match defineCall? e with
    | some node => if node.declaredName?.isSome then [⟨node, imports⟩] else []
    | none => []
  | .block body => declarationsIn imports body
  | .choice branches => declarationsInBranches imports branches
  | _ => []

def declarationsIn (imports : Imports) : List Stmt → List Declaration
  | [] => []
  | s :: rest => declarationsOf imports s ++ declarationsIn imports rest

def declarationsInBranches (imports : Imports) : List Branch → List Declaration
  | [] => []
  | ⟨_, body⟩ :: rest => declarationsIn imports body ++ declarationsInBranches imports rest

end

mutual

/-- The declarations of one kind in a statement. Statements that declare another kind are passed
over. -/
def collectFrom (kind : Kind) (imports : Imports) : Stmt → List Declaration
  | .namespaceDecl name body => collectIn kind (.ofBody name body) body
  | .classLike decl => if kind = .classLike then [⟨.classLike decl, imports⟩] else []
  | .function decl => if kind = .function then [⟨.function decl, imports⟩] else []
  | .constant span _ items =>
    if kind = .constant then items.map fun item => ⟨.constant span item, imports⟩ else []
  | .expression e =>
    if kind = .constant then
      match defineCall? e with
      | some node => if node.declaredName?.isSome then [⟨node, imports⟩] else []
      | none => []
    else []
  | .block body => collectIn kind imports body
  | .choice branches => collectInBranches kind imports branches
  | _ => []

def collectIn (kind : Kind) (imports : Imports) : List Stmt → List Declaration
  | [] => []
  | s :: rest => collectFrom kind imports s ++ collectIn kind imports rest

def collectInBranches (kind : Kind) (imports : Imports) : List Branch → List Declaration
  | [] => []
  | ⟨_, body⟩ :: rest => collectIn kind imports body ++ collectInBranches kind imports rest

end

theorem kind_of_defineCall {e : Expr} {node : DeclNode} (h : defineCall? e = some node) :
    node.kind = .constant := by
  obtain ⟨_, _, _, _, -, -, rfl⟩ := defineCall?_eq_some.mp h
  rfl

mutual

theorem collectFrom_eq_filter (kind : Kind) (imports : Imports) (s : Stmt) :
    collectFrom kind imports s = (declarationsOf imports s).filter (·.kind == kind) := by
  cases s with
  | namespaceDecl name body =>
    rw [collectFrom, declarationsOf, collectIn_eq_filter kind (.ofBody name body) body]
  | block body => rw [collectFrom, declarationsOf, collectIn_eq_filter kind imports body]
  | choice branches =>
    rw [collectFrom, declarationsOf, collectInBranches_eq_filter kind imports branches]
  | classLike decl | function decl =>
    cases kind <;> rfl
  | constant span attributes items =>
    rw [collectFrom, declarationsOf]
    have hkind : ∀ d ∈ items.map fun item => (⟨.constant span item, imports⟩ : Declaration),
        d.kind = .constant := by
      simp [Declaration.kind, DeclNode.kind]
    split
    · rename_i h
      exact (List.filter_eq_self.mpr fun d hd => beq_of_eq ((hkind d hd).trans h.symm)).symm
    · rename_i h
      refine (List.filter_eq_nil_iff.mpr fun d hd heq => h ?_).symm
      exact (eq_of_beq heq).symm.trans (hkind d hd)
  | expression e =>
    rw [collectFrom, declarationsOf]
    cases hcall : defineCall? e with
    | none => simp
    | some node =>
      have hkind : (⟨node, imports⟩ : Declaration).kind = .constant := kind_of_defineCall hcall
      by_cases hname : node.declaredName?.isSome <;> cases kind <;> simp [hname, hkind]
  | use | whileLoop | forLoop | foreachLoop | doLoop | switch | declare | tryCatch | echo
  | «return» | plain =>
    simp [collectFrom, declarationsOf]

theorem collectIn_eq_filter (kind : Kind) (imports : Imports) (body : List Stmt) :
    collectIn kind imports body = (declarationsIn imports body).filter (·.kind == kind) := by
  cases body with
  | nil => rfl
  | cons s rest =>
    rw [collectIn, declarationsIn, List.filter_append, collectFrom_eq_filter kind imports s,
      collectIn_eq_filter kind imports rest]

theorem collectInBranches_eq_filter (kind : Kind) (imports : Imports) (branches : List Branch) :
    collectInBranches kind imports branches =
      (declarationsInBranches imports branches).filter (·.kind == kind) := by
  match branches with
  | [] => rfl
  | ⟨_, body⟩ :: rest =>
    rw [collectInBranches, declarationsInBranches, List.filter_append,
      collectIn_eq_filter kind imports body, collectInBranches_eq_filter kind imports rest]

end

namespace Syntax.Program

/-- The declarations of all kinds in source order. -/
def declarations (p : Program) : List Declaration :=
  declarationsIn (.ofBody none p.statements) p.statements

def declarationsOfKind (p : Program) (kind : Kind) : List Declaration :=
  collectIn kind (.ofBody none p.statements) p.statements

theorem mem_declarationsOfKind {p : Program} {kind : Kind} {d : Declaration} :
    d ∈ p.declarationsOfKind kind ↔ d ∈ p.declarations ∧ d.kind = kind := by
  rw [declarationsOfKind, collectIn_eq_filter, List.mem_filter, beq_iff_eq]
  rfl

end Syntax.Program

end StaticReflection
