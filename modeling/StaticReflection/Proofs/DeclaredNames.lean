import StaticReflection.Reflection.Build

/-!
The name under which a declaration is searched and the name that its reflection has. Search and
listing go by the qualified name of a declaration; the builder of each kind of node puts the name of
the reflection together on its own. For everything that is declared in a program the two agree.
-/

namespace StaticReflection

open Syntax

/-- Whether a node declares something under a name, as closures do not. -/
def DeclNode.isNamed : DeclNode → Bool
  | .closure _ | .arrow _ => false
  | _ => true

theorem isNamed_of_defineCall {e : Expr} {node : DeclNode} (h : defineCall? e = some node) :
    node.isNamed = true := by
  obtain ⟨_, _, _, _, -, -, rfl⟩ := defineCall?_eq_some.mp h
  rfl

mutual

theorem isNamed_of_mem_declarationsOf {imports : Imports} {s : Stmt} {d : Declaration}
    (h : d ∈ declarationsOf imports s) : d.node.isNamed = true := by
  cases s with
  | namespaceDecl name body =>
    rw [declarationsOf] at h
    exact isNamed_of_mem_declarationsIn h
  | block body =>
    rw [declarationsOf] at h
    exact isNamed_of_mem_declarationsIn h
  | choice branches =>
    rw [declarationsOf] at h
    exact isNamed_of_mem_declarationsInBranches h
  | classLike decl | function decl =>
    rw [declarationsOf, List.mem_singleton] at h
    subst h
    rfl
  | constant span attributes items =>
    rw [declarationsOf] at h
    obtain ⟨item, -, rfl⟩ := List.mem_map.mp h
    rfl
  | expression e =>
    rw [declarationsOf] at h
    split at h
    · rename_i node hnode
      split at h
      · rw [List.mem_singleton] at h
        subst h
        exact isNamed_of_defineCall hnode
      · cases h
    · cases h
  | use | whileLoop | forLoop | foreachLoop | doLoop | switch | declare | tryCatch | echo
  | «return» | plain =>
    simp [declarationsOf] at h

theorem isNamed_of_mem_declarationsIn {imports : Imports} {body : List Stmt} {d : Declaration}
    (h : d ∈ declarationsIn imports body) : d.node.isNamed = true := by
  cases body with
  | nil => simp [declarationsIn] at h
  | cons s rest =>
    rw [declarationsIn] at h
    rcases List.mem_append.mp h with h | h
    · exact isNamed_of_mem_declarationsOf h
    · exact isNamed_of_mem_declarationsIn h

theorem isNamed_of_mem_declarationsInBranches {imports : Imports} {branches : List Branch}
    {d : Declaration} (h : d ∈ declarationsInBranches imports branches) :
    d.node.isNamed = true := by
  match branches with
  | [] => simp [declarationsInBranches] at h
  | ⟨_, body⟩ :: rest =>
    rw [declarationsInBranches] at h
    rcases List.mem_append.mp h with h | h
    · exact isNamed_of_mem_declarationsIn h
    · exact isNamed_of_mem_declarationsInBranches h

end

theorem Syntax.Program.isNamed_of_mem {p : Program} {kind : Kind} {d : Declaration}
    (h : d ∈ p.declarationsOfKind kind) : d.node.isNamed = true :=
  isNamed_of_mem_declarationsIn (mem_declarationsOfKind.mp h).1

private theorem name_of_buildClass {f : FileScope} {imports : Imports} {decl : ClassDecl}
    {mode : BuildMode} {c : ClassReflection}
    (h : buildClass f imports (.classLike decl) mode = .ok c) :
    c.name = Name.qualify imports.space decl.name := by
  cases mode with
  | identifierOnly =>
    cases h
    rfl
  | compiled =>
    obtain ⟨constants, -, h⟩ := Error.ok_of_bind h
    cases h
    rfl

private theorem name_of_buildFunctionNamed (f : FileScope) (imports : Imports) (decl : Function)
    (name : String) (isClosure : Bool) (mode : BuildMode) :
    (buildFunctionNamed f imports decl name isClosure mode).name = name := by
  cases mode <;> rfl

private theorem name_of_buildConstant {f : FileScope} {d : Declaration} {mode : BuildMode}
    {c : ConstantReflection} (h : buildConstant f d.imports d.node mode = .ok c) :
    d.qualifiedName? = some c.name := by
  obtain ⟨node, imports⟩ := d
  cases node with
  | constant span item =>
    obtain ⟨value, -, h⟩ := Error.ok_of_bind (r := buildValue f imports (some item.value) mode) h
    cases h
    rfl
  | define span callee name? value =>
    cases name? with
    | none => cases h
    | some name =>
      obtain ⟨result, -, h⟩ := Error.ok_of_bind (r := buildValue f imports value mode) h
      cases h
      rfl
  | classLike | function | closure | arrow => cases h

/-- The reflection of a declaration has the name under which the declaration is searched. -/
theorem name_of_buildReflection {f : FileScope} {d : Declaration} {mode : BuildMode}
    {r : Reflection} (hd : d.node.isNamed = true) (h : buildReflection f d mode = .ok r) :
    d.qualifiedName? = some r.name := by
  obtain ⟨node, imports⟩ := d
  cases node with
  | classLike decl =>
    obtain ⟨c, hc, hr⟩ := Error.ok_of_bind h
    cases hr
    rw [Reflection.name, name_of_buildClass hc]
    rfl
  | function decl =>
    cases h
    rw [Reflection.name, name_of_buildFunctionNamed]
    rfl
  | constant span item | define span callee name value =>
    obtain ⟨c, hc, hr⟩ := Error.ok_of_bind h
    cases hr
    exact name_of_buildConstant (d := ⟨_, imports⟩) hc
  | closure | arrow => cases hd

end StaticReflection
