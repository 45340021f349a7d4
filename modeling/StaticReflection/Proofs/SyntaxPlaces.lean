import StaticReflection.Declaration

/-!
All places of a syntax tree. `Node.parts` lists what stands directly inside a node, in source order,
and marks the places that a search for closures enters. `Node.occurrences` walks the whole tree in
pre-order, whatever the marks say; each occurrence keeps the imports of the namespace it stands in
and whether every step that leads to it enters a marked place.
-/

namespace StaticReflection.Syntax

/-- A piece of a tree that has pieces of its own. -/
inductive Node where
  | expr (e : Expr)
  | param (p : Param)
  | function (f : Function)
  | member (m : Member)
  | stmt (s : Stmt)

/-- What stands directly inside a node, and whether closures are looked for there. -/
structure Part where
  entered : Bool
  node : Node

/-- Nodes at places that a search enters. -/
def enter (nodes : List Node) : List Part := nodes.map (⟨true, ·⟩)

/-- Nodes at places that are passed over. -/
def passOver (nodes : List Node) : List Part := nodes.map (⟨false, ·⟩)

/-- The expressions of an element of an array. -/
def ArrayElement.nodes : ArrayElement → List Node
  | .pair k v => [.expr k, .expr v]
  | .value v | .spread v => [.expr v]

/-- Attributes, parameters and body of a function. Only the body is entered. -/
def Function.parts (f : Function) : List Part :=
  passOver (f.attributes.map .expr ++ f.params.map .param) ++ enter (f.body.map .stmt)

/-- Condition and body of a branch. Whether the condition is entered depends on the statement. -/
def Branch.parts (conditions : Bool) (b : Branch) : List Part :=
  (if conditions then enter else passOver) (b.condition.toList.map .expr) ++
    enter (b.body.map .stmt)

def Expr.parts : Expr → List Part
  | .leaf .. | .string .. => []
  | .interpolated _ parts => passOver (parts.map .expr)
  | .parenthesized _ inner => enter [.expr inner]
  | .unary _ _ operand => enter [.expr operand]
  | .binary _ _ left right => enter [.expr left, .expr right]
  | .conditional _ condition onTrue onFalse =>
    enter (.expr condition :: onTrue.toList.map .expr ++ [.expr onFalse])
  | .array _ elements => enter (elements.flatMap (·.nodes))
  | .list _ elements => passOver (elements.flatMap (·.nodes))
  | .classConstant _ scope selector => enter [.expr scope] ++ passOver [.expr selector]
  | .property _ object selector => enter [.expr object] ++ passOver [.expr selector]
  | .index _ base key => passOver (.expr base :: key.toList.map .expr)
  | .dynamicName _ inner => passOver [.expr inner]
  | .call _ callee args => enter (.expr callee :: args.map .expr)
  | .methodCall _ object selector args =>
    enter [.expr object] ++ passOver [.expr selector] ++ enter (args.map .expr)
  | .partialCall _ parts => passOver (parts.map .expr)
  | .instantiate _ target args => passOver [.expr target] ++ enter (args.map .expr)
  | .anonymousClass _ attributes args members =>
    passOver (attributes.map .expr) ++ enter (args.map .expr ++ members.map .member)
  | .closure f | .arrow f => f.parts
  | .operation _ _ operands => enter (operands.map .expr)

def Member.parts : Member → List Part
  | .method _ f => f.parts
  | .property _ attributes _ _ _ defaults hooks =>
    passOver (attributes.map .expr ++ defaults.map .expr ++ hooks.map .function)
  | .constant _ attributes _ items =>
    passOver (attributes.map .expr ++ items.map fun item => .expr item.value)
  | .case attributes _ value => passOver (attributes.map .expr ++ value.toList.map .expr)
  | .traitUse _ => []

def Stmt.parts : Stmt → List Part
  | .namespaceDecl _ body | .block body => enter (body.map .stmt)
  | .use _ => []
  | .classLike decl =>
    passOver (decl.attributes.map .expr) ++ enter (decl.members.map .member)
  | .function f => f.parts
  | .constant _ attributes items =>
    passOver (attributes.map .expr ++ items.map fun item => .expr item.value)
  | .expression e => enter [.expr e]
  | .choice branches => branches.flatMap (Branch.parts true)
  | .whileLoop condition body => enter (.expr condition :: body.map .stmt)
  | .forLoop header body => enter (header.map .expr ++ body.map .stmt)
  | .foreachLoop subject targets body =>
    enter [.expr subject] ++ passOver (targets.map .expr) ++ enter (body.map .stmt)
  | .doLoop body condition => enter (body.map .stmt ++ [.expr condition])
  | .switch subject cases => enter [.expr subject] ++ cases.flatMap (Branch.parts false)
  | .declare directives body => passOver (directives.map .expr) ++ enter (body.map .stmt)
  | .tryCatch blocks => blocks.flatMap (Branch.parts false)
  | .echo values => enter (values.map .expr)
  | .return value => enter (value.toList.map .expr)
  | .plain operands => passOver (operands.map .expr)

/-- Everything directly inside a node, in source order. -/
def Node.parts : Node → List Part
  | .expr e => e.parts
  | .param p =>
    passOver (p.attributes.map .expr ++ p.default.toList.map .expr ++ p.hooks.map .function)
  | .function f => f.parts
  | .member m => m.parts
  | .stmt s => s.parts

theorem ArrayElement.sizeOf_node_lt {a : ArrayElement} {node : Node} (h : node ∈ a.nodes) :
    sizeOf node < sizeOf a + 1 := by
  cases a <;> simp [ArrayElement.nodes] at h <;> grind

theorem Function.sizeOf_part_lt {f : Function} {part : Part} (h : part ∈ f.parts) :
    sizeOf part.node < sizeOf f + 1 := by
  cases f
  simp [Function.parts, enter, passOver] at h
  grind [→ List.sizeOf_lt_of_mem]

theorem Branch.sizeOf_part_lt {b : Branch} {conditions : Bool} {part : Part}
    (h : part ∈ b.parts conditions) : sizeOf part.node < sizeOf b + 1 := by
  cases b
  cases conditions <;> simp [Branch.parts, enter, passOver] at h <;>
    grind [→ List.sizeOf_lt_of_mem]

theorem Expr.sizeOf_part_lt {e : Expr} {part : Part} (h : part ∈ e.parts) :
    sizeOf part.node < sizeOf e + 1 := by
  cases e <;> simp [Expr.parts, enter, passOver] at h <;>
    grind [→ List.sizeOf_lt_of_mem, → ArrayElement.sizeOf_node_lt, → Function.sizeOf_part_lt]

theorem Member.sizeOf_part_lt {m : Member} {part : Part} (h : part ∈ m.parts) :
    sizeOf part.node < sizeOf m + 1 := by
  cases m <;> simp [Member.parts, passOver] at h <;>
    grind [→ List.sizeOf_lt_of_mem, → Function.sizeOf_part_lt, ConstItem]

theorem Stmt.sizeOf_part_lt {s : Stmt} {part : Part} (h : part ∈ s.parts) :
    sizeOf part.node < sizeOf s + 1 := by
  cases s <;> simp [Stmt.parts, enter, passOver] at h <;>
    grind [→ List.sizeOf_lt_of_mem, → Function.sizeOf_part_lt, → Branch.sizeOf_part_lt, ConstItem,
      ClassDecl]

theorem Node.sizeOf_part_lt {n : Node} {part : Part} (h : part ∈ n.parts) :
    sizeOf part.node < sizeOf n := by
  cases n with
  | expr e =>
    have := Expr.sizeOf_part_lt h
    simp
    omega
  | param p =>
    cases p
    simp [Node.parts, passOver] at h
    grind [→ List.sizeOf_lt_of_mem]
  | function f =>
    have := Function.sizeOf_part_lt h
    simp
    omega
  | member m =>
    have := Member.sizeOf_part_lt h
    simp
    omega
  | stmt s =>
    have := Stmt.sizeOf_part_lt h
    simp
    omega

/-- The imports that hold inside a node which stands under other imports. -/
def Node.importsInside (imports : Imports) : Node → Imports
  | .stmt (.namespaceDecl name body) => .ofBody name body
  | _ => imports

/-- A node at its place in a tree: whether each step from the root to it is an entered one, and the
imports of the innermost namespace around it. -/
structure Occurrence where
  entered : Bool
  imports : Imports
  node : Node

/-- A node and everything below it in pre-order. Parts that are passed over are walked as well. -/
def Node.occurrences (imports : Imports) (entered : Bool) (n : Node) : List Occurrence :=
  ⟨entered, imports, n⟩ :: n.parts.attach.flatMap fun part =>
    part.1.node.occurrences (n.importsInside imports) (entered && part.1.entered)
termination_by sizeOf n
decreasing_by exact n.sizeOf_part_lt part.2

theorem Node.occurrences_eq (imports : Imports) (entered : Bool) (n : Node) :
    n.occurrences imports entered = ⟨entered, imports, n⟩ :: n.parts.flatMap fun part =>
      part.node.occurrences (n.importsInside imports) (entered && part.entered) := by
  rw [Node.occurrences]
  simp

theorem Node.mem_occurrences_self (imports : Imports) (entered : Bool) (n : Node) :
    ⟨entered, imports, n⟩ ∈ n.occurrences imports entered := by
  rw [Node.occurrences_eq]
  exact List.mem_cons_self

theorem Node.mem_occurrences_of_part {imports : Imports} {entered : Bool} {n : Node}
    {o : Occurrence} (part : Part) (hpart : part ∈ n.parts)
    (ho : o ∈ part.node.occurrences (n.importsInside imports) (entered && part.entered)) :
    o ∈ n.occurrences imports entered := by
  rw [Node.occurrences_eq]
  exact List.mem_cons_of_mem _ (List.mem_flatMap.mpr ⟨part, hpart, ho⟩)

/-- Below a place that is passed over nothing counts as entered. -/
theorem Node.not_entered_of_mem {imports : Imports} {n : Node} {o : Occurrence}
    (h : o ∈ n.occurrences imports false) : o.entered = false := by
  rw [Node.occurrences_eq] at h
  simp only [Bool.false_and, List.mem_cons, List.mem_flatMap] at h
  rcases h with rfl | ⟨part, hpart, ho⟩
  · rfl
  · exact part.node.not_entered_of_mem ho
termination_by sizeOf n
decreasing_by exact n.sizeOf_part_lt hpart

/-- All nodes of a program in pre-order. -/
def Program.occurrences (p : Program) : List Occurrence :=
  p.statements.flatMap fun s => (Node.stmt s).occurrences (.ofBody none p.statements) true

end StaticReflection.Syntax
