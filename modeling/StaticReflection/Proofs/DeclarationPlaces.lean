import Mathlib.Data.List.Basic
import StaticReflection.Declaration

/-!
Where the declarations of a program stand. `placesIn` walks a body in pre-order through namespaces,
blocks and branches, and gives each statement with the innermost namespace around it; what a
statement declares by itself is a second, flat definition. The collector for each kind is shown to
give the declarations of that kind among them, and what a change of one namespace leaves as it was
is read off the same list.
-/

namespace StaticReflection

open Syntax

/-- A namespace as far as the meaning of names in it depends on it: its own name and its `use`
statements. -/
structure NamespaceBlock where
  name : Option String
  uses : List UseClause
  deriving DecidableEq, Repr

def NamespaceBlock.imports (b : NamespaceBlock) : Imports :=
  b.uses.foldl Imports.addClause (.empty b.name)

/-- A statement at its place in a body. Without a block it stands in the namespace that the body
belongs to. -/
structure Place where
  block : Option NamespaceBlock
  stmt : Stmt

/-- The `use` statement that a statement is. -/
def Syntax.Stmt.clause? : Stmt → Option UseClause
  | .use clause => some clause
  | _ => none

/-- The `use` statements directly in a body. -/
def usesIn (body : List Stmt) : List UseClause := body.filterMap (·.clause?)

/-- A body without the `use` statements directly in it. -/
def withoutUses (body : List Stmt) : List Stmt := body.filter (·.clause?.isNone)

/-- The constant that an expression declares as a statement: a call of `define` does, if its first
argument is a literal that is not empty. -/
def definedBy : Expr → List DeclNode
  | .call span (.leaf _ .name callee) (.string _ _ (some name) :: rest) =>
    if Name.sameLetters (Name.stripRoots callee) "define" && !name.isEmpty then
      [.define span callee (some name) rest[0]?]
    else []
  | _ => []

namespace Syntax.Stmt

/-- The statements directly inside that can declare something for the file. -/
def inner : Stmt → List Stmt
  | .namespaceDecl _ body | .block body => body
  | .choice branches => branches.flatMap (·.body)
  | _ => []

/-- The namespace around what is inside a statement. -/
def blockInside (block : Option NamespaceBlock) : Stmt → Option NamespaceBlock
  | .namespaceDecl name body => some ⟨name, usesIn body⟩
  | _ => block

/-- What a statement declares by itself. -/
def declares : Stmt → List DeclNode
  | .classLike decl => [.classLike decl]
  | .function decl => [.function decl]
  | .constant span _ items => items.map (.constant span)
  | .expression e => definedBy e
  | _ => []

theorem sizeOf_inner_lt {s t : Stmt} (h : t ∈ s.inner) : sizeOf t < sizeOf s := by
  cases s with
  | namespaceDecl name body | block body =>
    have hlt : sizeOf t < sizeOf body := List.sizeOf_lt_of_mem h
    simp only [namespaceDecl.sizeOf_spec, block.sizeOf_spec]
    omega
  | choice branches =>
    obtain ⟨⟨condition, body⟩, hbranch, ht⟩ := List.mem_flatMap.mp h
    have hbody : sizeOf t < sizeOf body := List.sizeOf_lt_of_mem ht
    have hbranch := List.sizeOf_lt_of_mem hbranch
    simp only [Branch.mk.sizeOf_spec] at hbranch
    simp only [choice.sizeOf_spec]
    omega
  | _ => cases h

/-- What holds of a statement once it holds of all statements inside holds of every statement. -/
@[elab_as_elim]
theorem inner_induction {motive : Stmt → Prop}
    (step : ∀ s, (∀ t ∈ s.inner, motive t) → motive s) (s : Stmt) : motive s :=
  step s fun t _ => inner_induction step t
termination_by sizeOf s
decreasing_by exact sizeOf_inner_lt ‹_›

/-- A statement and all statements below it, in source order. -/
def places (block : Option NamespaceBlock) (s : Stmt) : List Place :=
  ⟨block, s⟩ :: s.inner.attach.flatMap fun t => t.1.places (s.blockInside block)
termination_by sizeOf s
decreasing_by exact sizeOf_inner_lt t.2

theorem places_eq (block : Option NamespaceBlock) (s : Stmt) :
    s.places block = ⟨block, s⟩ :: s.inner.flatMap (·.places (s.blockInside block)) := by
  rw [places]
  simp

end Syntax.Stmt

/-- The places in a body that stands in a block. -/
def placesUnder (block : Option NamespaceBlock) (body : List Stmt) : List Place :=
  body.flatMap (·.places block)

/-- The places in the body of a namespace. Those outside the namespaces in it have no block. -/
def placesIn (body : List Stmt) : List Place := placesUnder none body

/-- What is declared at places in a namespace. -/
def declaredAt (own : NamespaceBlock) (places : List Place) : List Declaration :=
  places.flatMap fun place => place.stmt.declares.map (⟨·, (place.block.getD own).imports⟩)

/-- Everything that a program declares, in source order. -/
def Syntax.Program.listing (p : Program) : List Declaration :=
  declaredAt ⟨none, usesIn p.statements⟩ (placesIn p.statements)

theorem placesUnder_cons (block : Option NamespaceBlock) (s : Stmt) (rest : List Stmt) :
    placesUnder block (s :: rest) = s.places block ++ placesUnder block rest :=
  List.flatMap_cons

theorem placesUnder_append (block : Option NamespaceBlock) (left right : List Stmt) :
    placesUnder block (left ++ right) = placesUnder block left ++ placesUnder block right :=
  List.flatMap_append

theorem declaredAt_append (own : NamespaceBlock) (left right : List Place) :
    declaredAt own (left ++ right) = declaredAt own left ++ declaredAt own right :=
  List.flatMap_append

theorem declaredAt_places (own : NamespaceBlock) (block : Option NamespaceBlock) (s : Stmt) :
    declaredAt own (s.places block) = s.declares.map (⟨·, (block.getD own).imports⟩) ++
      declaredAt own (placesUnder (s.blockInside block) s.inner) := by
  rw [Stmt.places_eq]
  rfl

/-- The place of a statement once the namespace around the body is known. -/
def Place.within (own : NamespaceBlock) (place : Place) : Place :=
  ⟨some (place.block.getD own), place.stmt⟩

theorem Syntax.Stmt.map_within_places (own : NamespaceBlock) (s : Stmt) :
    ∀ block, (s.places block).map (·.within own) = s.places (some (block.getD own)) := by
  induction s using Stmt.inner_induction with
  | step s ih =>
    intro block
    have hinside : some ((s.blockInside block).getD own) =
        s.blockInside (some (block.getD own)) := by
      cases s <;> rfl
    rw [Stmt.places_eq, Stmt.places_eq, List.map_cons, List.map_flatMap, ← hinside]
    congr 1
    exact List.flatMap_congr fun t ht => ih t ht (s.blockInside block)

/-- In a namespace of its own a body declares what it declares as the body of that namespace. -/
theorem declaredAt_placesUnder (own block : NamespaceBlock) (body : List Stmt) :
    declaredAt own (placesUnder (some block) body) = declaredAt block (placesIn body) := by
  have hplaces : placesUnder (some block) body = (placesIn body).map (·.within block) := by
    rw [placesIn, placesUnder, placesUnder, List.map_flatMap]
    exact List.flatMap_congr fun s _ => (s.map_within_places block none).symm
  rw [hplaces, declaredAt, List.flatMap_map]
  rfl

/-! ### The listing is what the collectors give -/

theorem ofBody_eq_imports (name : Option String) (body : List Stmt) :
    Imports.ofBody name body = (NamespaceBlock.mk name (usesIn body)).imports := by
  suffices hfold : ∀ imports : Imports,
      body.foldl (fun imports s => match s with
        | .use clause => imports.addClause clause
        | _ => imports) imports = (usesIn body).foldl Imports.addClause imports from hfold _
  intro imports
  induction body generalizing imports with
  | nil => rfl
  | cons s rest ih => cases s <;> exact ih _

theorem declarationsIn_eq_flatMap (imports : Imports) (body : List Stmt) :
    declarationsIn imports body = body.flatMap (declarationsOf imports) := by
  induction body with
  | nil => rfl
  | cons s rest ih => rw [declarationsIn, List.flatMap_cons, ih]

theorem declarationsInBranches_eq_flatMap (imports : Imports) (branches : List Branch) :
    declarationsInBranches imports branches =
      (branches.flatMap (·.body)).flatMap (declarationsOf imports) := by
  induction branches with
  | nil => rfl
  | cons branch rest ih =>
    obtain ⟨condition, body⟩ := branch
    rw [declarationsInBranches, List.flatMap_cons, List.flatMap_append, ih,
      declarationsIn_eq_flatMap]

theorem definedBy_eq_filter (e : Expr) :
    definedBy e = (defineCall? e).toList.filter (·.declaredName?.isSome) := by
  unfold definedBy
  split
  · rename_i span position callee _ _ name rest
    by_cases hcallee : Name.sameLetters (Name.stripRoots callee) "define" <;>
      by_cases hempty : name = "" <;>
      simp [defineCall?, defineName?, DeclNode.declaredName?, hcallee, hempty]
  · rename_i hother
    symm
    rw [List.filter_eq_nil_iff]
    intro node hnode hname
    obtain ⟨span, position, callee, args, rfl, -, rfl⟩ :=
      defineCall?_eq_some.mp (Option.mem_toList.mp hnode)
    have hname : (defineName? args).isSome = true := hname
    obtain ⟨name, hname⟩ := Option.isSome_iff_exists.mp hname
    obtain ⟨_, _, rest, rfl, -⟩ := defineName?_eq_some.mp hname
    exact hother _ _ _ _ _ _ _ rfl

theorem declarationsOf_eq (b : NamespaceBlock) (s : Stmt) :
    declarationsOf b.imports s = s.declares.map (⟨·, b.imports⟩) ++
      s.inner.flatMap (declarationsOf ((s.blockInside (some b)).getD b).imports) := by
  cases s with
  | namespaceDecl name body =>
    rw [declarationsOf, declarationsIn_eq_flatMap, ofBody_eq_imports]
    rfl
  | block body =>
    rw [declarationsOf, declarationsIn_eq_flatMap]
    rfl
  | choice branches =>
    rw [declarationsOf, declarationsInBranches_eq_flatMap]
    rfl
  | constant span attributes items =>
    simp [declarationsOf, Stmt.declares, Stmt.inner, Function.comp_def]
  | expression e =>
    rw [declarationsOf, Stmt.declares, definedBy_eq_filter]
    cases defineCall? e with
    | none => rfl
    | some node => by_cases hname : node.declaredName?.isSome <;> simp [hname, Stmt.inner]
  | _ => rfl

theorem declarationsOf_eq_declaredAt (own b : NamespaceBlock) (s : Stmt) :
    declarationsOf b.imports s = declaredAt own (s.places (some b)) := by
  induction s using Stmt.inner_induction generalizing b with
  | step s ih =>
    have hblock : some ((s.blockInside (some b)).getD b) = s.blockInside (some b) := by
      cases s <;> rfl
    rw [declarationsOf_eq, declaredAt_places, ← hblock]
    congr 1
    rw [placesUnder, declaredAt, List.flatMap_assoc]
    exact List.flatMap_congr fun t ht => ih t ht _

theorem declarations_eq_listing (p : Program) : p.declarations = p.listing := by
  have hbody : ∀ b : NamespaceBlock, declarationsIn b.imports p.statements =
      declaredAt b (placesIn p.statements) := by
    intro b
    rw [← declaredAt_placesUnder b b, declarationsIn_eq_flatMap, declaredAt, placesUnder,
      List.flatMap_assoc]
    exact List.flatMap_congr fun s _ => declarationsOf_eq_declaredAt b b s
  rw [Program.declarations, ofBody_eq_imports]
  exact hbody _

/-! ### What does not depend on a namespace -/

/-- What is around a statement in a program: the statements beside it and those it is inside of. -/
inductive Surroundings where
  | here (before after : List Stmt)
  | inNamespace (before after : List Stmt) (name : Option String) (around : Surroundings)
  | inBlock (before after : List Stmt) (around : Surroundings)
  | inBranch (before after : List Stmt) (earlier later : List Branch) (condition : Option Expr)
      (around : Surroundings)

/-- The statements of a program in which a statement has been put into its surroundings. -/
def Surroundings.fill : Surroundings → Stmt → List Stmt
  | .here before after, s => before ++ s :: after
  | .inNamespace before after name around, s =>
    before ++ .namespaceDecl name (around.fill s) :: after
  | .inBlock before after around, s => before ++ .block (around.fill s) :: after
  | .inBranch before after earlier later condition around, s =>
    before ++ .choice (earlier ++ ⟨condition, around.fill s⟩ :: later) :: after

theorem usesIn_append_cons {s : Stmt} (hs : s.clause? = none) (before after : List Stmt) :
    usesIn (before ++ s :: after) = usesIn (before ++ after) := by
  simp [usesIn, hs]

/-- A namespace is no import of the body that it stands in. -/
theorem Surroundings.usesIn_fill (around : Surroundings) (name : Option String)
    (body body' : List Stmt) :
    usesIn (around.fill (.namespaceDecl name body)) =
      usesIn (around.fill (.namespaceDecl name body')) := by
  cases around <;> exact (usesIn_append_cons rfl ..).trans (usesIn_append_cons rfl ..).symm

/-- A statement that declares nothing by itself gives way to what is inside it. -/
theorem declaredAt_around {s : Stmt} (hs : s.declares = []) (own : NamespaceBlock)
    (block : Option NamespaceBlock) (before after : List Stmt) :
    declaredAt own (placesUnder block (before ++ s :: after)) =
      declaredAt own (placesUnder block before) ++
        declaredAt own (placesUnder (s.blockInside block) s.inner) ++
        declaredAt own (placesUnder block after) := by
  rw [placesUnder_append, placesUnder_cons, declaredAt_append, declaredAt_append,
    declaredAt_places, hs, List.map_nil, List.nil_append, List.append_assoc]

/-- What stands outside a namespace declares the same whatever the namespace has in it. -/
theorem Surroundings.declaredAt_fill (around : Surroundings) (own : NamespaceBlock)
    (name : Option String) :
    ∀ block, ∃ left right, ∀ body,
      declaredAt own (placesUnder block (around.fill (.namespaceDecl name body))) =
        left ++ declaredAt ⟨name, usesIn body⟩ (placesIn body) ++ right := by
  induction around with
  | here before after =>
    intro block
    refine ⟨declaredAt own (placesUnder block before),
      declaredAt own (placesUnder block after), fun body => ?_⟩
    rw [fill, declaredAt_around rfl, ← declaredAt_placesUnder own]
    rfl
  | inNamespace before after outer around ih =>
    intro block
    obtain ⟨left, right, hinside⟩ :=
      ih (some ⟨outer, usesIn (around.fill (.namespaceDecl name []))⟩)
    refine ⟨declaredAt own (placesUnder block before) ++ left,
      right ++ declaredAt own (placesUnder block after), fun body => ?_⟩
    have hbody := hinside body
    rw [← around.usesIn_fill name body []] at hbody
    rw [fill, declaredAt_around rfl, Stmt.blockInside, Stmt.inner, hbody]
    simp only [List.append_assoc]
  | inBlock before after around ih =>
    intro block
    obtain ⟨left, right, hinside⟩ := ih block
    refine ⟨declaredAt own (placesUnder block before) ++ left,
      right ++ declaredAt own (placesUnder block after), fun body => ?_⟩
    rw [fill, declaredAt_around rfl]
    change _ ++ declaredAt own (placesUnder block (around.fill (.namespaceDecl name body))) ++ _ = _
    rw [hinside body]
    simp only [List.append_assoc]
  | inBranch before after earlier later condition around ih =>
    intro block
    obtain ⟨left, right, hinside⟩ := ih block
    refine ⟨declaredAt own (placesUnder block before) ++
        declaredAt own (placesUnder block (earlier.flatMap (·.body))) ++ left,
      right ++ declaredAt own (placesUnder block (later.flatMap (·.body))) ++
        declaredAt own (placesUnder block after), fun body => ?_⟩
    rw [fill, declaredAt_around rfl]
    change _ ++ declaredAt own (placesUnder block
      ((earlier ++ ⟨condition, around.fill (.namespaceDecl name body)⟩ :: later).flatMap
        (·.body))) ++ _ = _
    rw [List.flatMap_append, List.flatMap_cons, placesUnder_append, placesUnder_append,
      declaredAt_append, declaredAt_append, hinside body]
    simp only [List.append_assoc]

/-- A `use` statement declares nothing. -/
theorem declaredAt_withoutUses (own : NamespaceBlock) (block : Option NamespaceBlock)
    (body : List Stmt) :
    declaredAt own (placesUnder block (withoutUses body)) =
      declaredAt own (placesUnder block body) := by
  induction body with
  | nil => rfl
  | cons s rest ih =>
    rw [placesUnder_cons, declaredAt_append, ← ih]
    cases hs : s.clause? with
    | none => rw [withoutUses, List.filter_cons_of_pos (by simp [hs]), placesUnder_cons,
        declaredAt_append, withoutUses]
    | some clause =>
      cases s with
      | use =>
        rw [withoutUses, List.filter_cons_of_neg (by simp [hs]), declaredAt_places]
        rfl
      | _ => cases hs

/-- The declarations of a kind are those of the kind in one listing, in which each declaration has
the imports of the innermost namespace around it. Of what a namespace imports, only the declarations
of that namespace depend: those outside it are the same in front of and behind what it declares, and
those in namespaces inside it stand at places that have blocks of their own. -/
theorem declarationsOfKind_listed :
    (∀ (p : Program) (kind : Kind),
      p.declarationsOfKind kind = p.listing.filter (·.kind == kind)) ∧
    (∀ (statements : List Stmt) (trivia : List Trivia),
      (Program.mk statements trivia).listing =
        declaredAt ⟨none, usesIn statements⟩ (placesIn (withoutUses statements))) ∧
    ∀ (around : Surroundings) (name : Option String), ∃ left right, ∀ (trivia : List Trivia)
      (body : List Stmt), (Program.mk (around.fill (.namespaceDecl name body)) trivia).listing =
        left ++ declaredAt ⟨name, usesIn body⟩ (placesIn (withoutUses body)) ++ right := by
  refine ⟨fun p kind => ?_, fun statements trivia => ?_, fun around name => ?_⟩
  · rw [Program.declarationsOfKind, collectIn_eq_filter, ← declarations_eq_listing]
    rfl
  · exact (declaredAt_withoutUses _ none statements).symm
  · obtain ⟨left, right, hfill⟩ := around.declaredAt_fill
      ⟨none, usesIn (around.fill (.namespaceDecl name []))⟩ name none
    refine ⟨left, right, fun trivia body => ?_⟩
    have hbody := hfill body
    rw [← around.usesIn_fill name body []] at hbody
    rw [placesIn, declaredAt_withoutUses]
    exact hbody

end StaticReflection
