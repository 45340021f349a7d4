import StaticReflection.Declaration

/-!
The closures and arrow functions of a program. They are searched for in statements and expressions,
in the bodies of methods, and in one another. Some places are not entered: attributes, defaults of
parameters and members, accessors of properties, strings with embedded expressions, indices,
members that are named by an expression, the target of `new`, calls with places held open, lists of
targets, cases of a `switch`, and the statements that are `plain`.
-/

namespace StaticReflection

open Syntax

mutual

def closuresInExpr (imports : Imports) : Expr → List Declaration
  | .leaf .. | .string .. | .interpolated .. | .list .. | .index .. | .dynamicName ..
  | .partialCall .. => []
  | .parenthesized _ inner => closuresInExpr imports inner
  | .unary _ _ operand => closuresInExpr imports operand
  | .binary _ _ left right => closuresInExpr imports left ++ closuresInExpr imports right
  | .conditional _ condition onTrue onFalse =>
    closuresInExpr imports condition ++ closuresInOption imports onTrue ++
      closuresInExpr imports onFalse
  | .array _ elements => closuresInElements imports elements
  | .classConstant _ scope _ => closuresInExpr imports scope
  | .property _ object _ => closuresInExpr imports object
  | .call _ callee args => closuresInExpr imports callee ++ closuresInExprs imports args
  | .methodCall _ object _ args => closuresInExpr imports object ++ closuresInExprs imports args
  | .instantiate _ _ args => closuresInExprs imports args
  | .anonymousClass _ _ args members =>
    closuresInExprs imports args ++ closuresInMembers imports members
  | .closure function =>
    ⟨.closure function, imports⟩ :: closuresInFunction imports function
  | .arrow function => ⟨.arrow function, imports⟩ :: closuresInFunction imports function
  | .operation _ _ operands => closuresInExprs imports operands

def closuresInExprs (imports : Imports) : List Expr → List Declaration
  | [] => []
  | e :: rest => closuresInExpr imports e ++ closuresInExprs imports rest

/-- The closures in an expression that may be missing. -/
def closuresInOption (imports : Imports) : Option Expr → List Declaration
  | none => []
  | some e => closuresInExpr imports e

def closuresInElements (imports : Imports) : List ArrayElement → List Declaration
  | [] => []
  | .pair key value :: rest =>
    closuresInExpr imports key ++ closuresInExpr imports value ++ closuresInElements imports rest
  | .value value :: rest | .spread value :: rest =>
    closuresInExpr imports value ++ closuresInElements imports rest

def closuresInFunction (imports : Imports) : Function → List Declaration
  | ⟨_, _, _, _, _, _, body⟩ => closuresInStmts imports body

/-- The closures in members: only those in the bodies of methods. -/
def closuresInMembers (imports : Imports) : List Member → List Declaration
  | [] => []
  | .method _ function :: rest =>
    closuresInFunction imports function ++ closuresInMembers imports rest
  | .property .. :: rest | .constant .. :: rest | .case .. :: rest | .traitUse .. :: rest =>
    closuresInMembers imports rest

def closuresInStmt (imports : Imports) : Stmt → List Declaration
  | .namespaceDecl name body => closuresInStmts (.ofBody name body) body
  | .use _ | .constant .. | .plain _ => []
  | .classLike ⟨_, _, _, _, _, _, _, _, members⟩ => closuresInMembers imports members
  | .function function => closuresInFunction imports function
  | .expression e => closuresInExpr imports e
  | .block body => closuresInStmts imports body
  | .choice branches => closuresInBranches imports branches
  | .whileLoop condition body => closuresInExpr imports condition ++ closuresInStmts imports body
  | .forLoop header body => closuresInExprs imports header ++ closuresInStmts imports body
  | .foreachLoop subject _ body => closuresInExpr imports subject ++ closuresInStmts imports body
  | .doLoop body condition => closuresInStmts imports body ++ closuresInExpr imports condition
  | .switch subject cases => closuresInExpr imports subject ++ closuresInBodies imports cases
  | .declare _ body => closuresInStmts imports body
  | .tryCatch blocks => closuresInBodies imports blocks
  | .echo values => closuresInExprs imports values
  | .return value => closuresInOption imports value

def closuresInStmts (imports : Imports) : List Stmt → List Declaration
  | [] => []
  | s :: rest => closuresInStmt imports s ++ closuresInStmts imports rest

/-- The closures in branches with their conditions, in source order. -/
def closuresInBranches (imports : Imports) : List Branch → List Declaration
  | [] => []
  | ⟨condition, body⟩ :: rest =>
    closuresInOption imports condition ++ closuresInStmts imports body ++
      closuresInBranches imports rest

/-- The closures in branches without their conditions, in source order. -/
def closuresInBodies (imports : Imports) : List Branch → List Declaration
  | [] => []
  | ⟨_, body⟩ :: rest => closuresInStmts imports body ++ closuresInBodies imports rest

end

/-- The closures and arrow functions of a program, in source order. -/
def Syntax.Program.closures (p : Program) : List Declaration :=
  closuresInStmts (.ofBody none p.statements) p.statements

end StaticReflection
