import StaticReflection.Proofs.SyntaxPlaces
import StaticReflection.Search

/-!
Which closures a search for closures finds. The collector follows the syntax form by form; here it
is shown to list the closures of the entered places of the tree, in pre-order. What remains of the
general claim about all closures of a file is then a condition on the places that are passed over.
-/

namespace StaticReflection

open Syntax

/-- The closure or arrow function that an occurrence is, with the imports that hold there. -/
def Syntax.Occurrence.closure? (o : Occurrence) : Option Declaration :=
  match o.node with
  | .expr (.closure f) => some ⟨.closure f, o.imports⟩
  | .expr (.arrow f) => some ⟨.arrow f, o.imports⟩
  | _ => none

/-- The closures at the entered places of a node. -/
def Syntax.Node.enteredClosures (imports : Imports) (n : Node) : List Declaration :=
  ((n.occurrences imports true).filter (·.entered)).filterMap (·.closure?)

/-- The closures at the entered places of parts. -/
def enteredClosuresOf (imports : Imports) (parts : List Part) : List Declaration :=
  (parts.filter (·.entered)).flatMap fun part => part.node.enteredClosures imports

@[simp] theorem enteredClosuresOf_nil (imports : Imports) : enteredClosuresOf imports [] = [] := rfl

@[simp] theorem enteredClosuresOf_append (imports : Imports) (left right : List Part) :
    enteredClosuresOf imports (left ++ right) =
      enteredClosuresOf imports left ++ enteredClosuresOf imports right := by
  simp [enteredClosuresOf]

@[simp] theorem enteredClosuresOf_enter (imports : Imports) (nodes : List Node) :
    enteredClosuresOf imports (enter nodes) = nodes.flatMap (·.enteredClosures imports) := by
  have hall : (enter nodes).filter (·.entered) = enter nodes := by simp [enter]
  rw [enteredClosuresOf, hall]
  simp [enter, List.flatMap_map]

@[simp] theorem enteredClosuresOf_passOver (imports : Imports) (nodes : List Node) :
    enteredClosuresOf imports (passOver nodes) = [] := by
  have hnone : (passOver nodes).filter (·.entered) = [] := by simp [passOver]
  rw [enteredClosuresOf, hnone]
  rfl

theorem Syntax.Node.enteredClosures_eq (imports : Imports) (n : Node) :
    n.enteredClosures imports = (Occurrence.mk true imports n).closure?.toList ++
      enteredClosuresOf (n.importsInside imports) n.parts := by
  have hparts : ((n.parts.flatMap fun part => part.node.occurrences (n.importsInside imports)
      (true && part.entered)).filter (·.entered)).filterMap (·.closure?) =
      enteredClosuresOf (n.importsInside imports) n.parts := by
    induction n.parts with
    | nil => rfl
    | cons part rest ih =>
      cases hpart : part.entered with
      | true => simp_all [enteredClosuresOf, Node.enteredClosures]
      | false =>
        have hnone : (part.node.occurrences (n.importsInside imports) false).filter (·.entered) =
            [] := by
          simpa using fun o ho => Node.not_entered_of_mem ho
        simp_all [enteredClosuresOf]
  rw [Node.enteredClosures, Node.occurrences_eq]
  cases hc : (Occurrence.mk true imports n).closure? with
  | none => simpa [hc] using hparts
  | some d => simpa [hc] using hparts

theorem enteredClosures_expr (imports : Imports) (e : Expr) :
    (Node.expr e).enteredClosures imports =
      (Occurrence.mk true imports (.expr e)).closure?.toList ++
        enteredClosuresOf imports e.parts := by
  rw [Node.enteredClosures_eq]
  rfl

theorem enteredClosures_member (imports : Imports) (m : Member) :
    (Node.member m).enteredClosures imports = enteredClosuresOf imports m.parts := by
  rw [Node.enteredClosures_eq]
  rfl

theorem enteredClosures_stmt (imports : Imports) (s : Stmt) :
    (Node.stmt s).enteredClosures imports =
      enteredClosuresOf ((Node.stmt s).importsInside imports) s.parts := by
  rw [Node.enteredClosures_eq]
  rfl

mutual

theorem closuresInExpr_eq (imports : Imports) (e : Expr) :
    closuresInExpr imports e = (Node.expr e).enteredClosures imports := by
  rw [enteredClosures_expr]
  cases e with
  | leaf | string | interpolated | list | index | dynamicName | partialCall =>
    simp [closuresInExpr, Occurrence.closure?, Expr.parts]
  | parenthesized _ inner | unary _ _ inner | classConstant _ inner | property _ inner =>
    simp [closuresInExpr, Occurrence.closure?, Expr.parts, closuresInExpr_eq imports inner]
  | binary _ _ left right =>
    simp [closuresInExpr, Occurrence.closure?, Expr.parts, closuresInExpr_eq imports left,
      closuresInExpr_eq imports right]
  | conditional _ condition onTrue onFalse =>
    simp [closuresInExpr, Occurrence.closure?, Expr.parts, closuresInExpr_eq imports condition,
      closuresInOption_eq imports onTrue, closuresInExpr_eq imports onFalse, List.flatMap_map]
  | array _ elements =>
    simp [closuresInExpr, Occurrence.closure?, Expr.parts, closuresInElements_eq imports elements]
  | call _ callee args =>
    simp [closuresInExpr, Occurrence.closure?, Expr.parts, closuresInExpr_eq imports callee,
      closuresInExprs_eq imports args, List.flatMap_map]
  | methodCall _ object _ args =>
    simp [closuresInExpr, Occurrence.closure?, Expr.parts, closuresInExpr_eq imports object,
      closuresInExprs_eq imports args, List.flatMap_map]
  | instantiate _ _ args | operation _ _ args =>
    simp [closuresInExpr, Occurrence.closure?, Expr.parts, closuresInExprs_eq imports args,
      List.flatMap_map]
  | anonymousClass _ _ args members =>
    simp [closuresInExpr, Occurrence.closure?, Expr.parts, closuresInExprs_eq imports args,
      closuresInMembers_eq imports members, List.flatMap_map]
  | closure f | arrow f =>
    simp [closuresInExpr, Occurrence.closure?, Expr.parts, closuresInFunction_eq imports f]

theorem closuresInExprs_eq (imports : Imports) (es : List Expr) :
    closuresInExprs imports es = es.flatMap fun e => (Node.expr e).enteredClosures imports := by
  cases es with
  | nil => rfl
  | cons e rest =>
    simp [closuresInExprs, closuresInExpr_eq imports e, closuresInExprs_eq imports rest]

theorem closuresInOption_eq (imports : Imports) (e : Option Expr) :
    closuresInOption imports e =
      e.toList.flatMap fun e => (Node.expr e).enteredClosures imports := by
  cases e with
  | none => rfl
  | some e => simp [closuresInOption, closuresInExpr_eq imports e]

theorem closuresInElements_eq (imports : Imports) (elements : List ArrayElement) :
    closuresInElements imports elements =
      (elements.flatMap (·.nodes)).flatMap (·.enteredClosures imports) := by
  match elements with
  | [] => rfl
  | .pair key value :: rest =>
    simp [closuresInElements, ArrayElement.nodes, closuresInExpr_eq imports key,
      closuresInExpr_eq imports value, closuresInElements_eq imports rest]
  | .value value :: rest | .spread value :: rest =>
    simp [closuresInElements, ArrayElement.nodes, closuresInExpr_eq imports value,
      closuresInElements_eq imports rest]

theorem closuresInFunction_eq (imports : Imports) (f : Function) :
    closuresInFunction imports f = enteredClosuresOf imports f.parts := by
  cases f with
  | mk _ _ _ _ _ _ body =>
    simp [closuresInFunction, Function.parts, closuresInStmts_eq imports body, List.flatMap_map]

theorem closuresInMembers_eq (imports : Imports) (members : List Member) :
    closuresInMembers imports members =
      members.flatMap fun m => (Node.member m).enteredClosures imports := by
  match members with
  | [] => rfl
  | .method _ f :: rest =>
    simp [closuresInMembers, enteredClosures_member, Member.parts,
      closuresInFunction_eq imports f, closuresInMembers_eq imports rest]
  | .property .. :: rest | .constant .. :: rest | .case .. :: rest | .traitUse .. :: rest =>
    simp [closuresInMembers, enteredClosures_member, Member.parts,
      closuresInMembers_eq imports rest]

theorem closuresInStmt_eq (imports : Imports) (s : Stmt) :
    closuresInStmt imports s = (Node.stmt s).enteredClosures imports := by
  rw [enteredClosures_stmt]
  cases s with
  | namespaceDecl name body =>
    simp [closuresInStmt, Node.importsInside, Stmt.parts,
      closuresInStmts_eq (.ofBody name body) body, List.flatMap_map]
  | use | constant | plain => simp [closuresInStmt, Node.importsInside, Stmt.parts]
  | classLike decl =>
    cases decl with
    | mk _ _ _ _ _ _ _ _ members =>
      simp [closuresInStmt, Node.importsInside, Stmt.parts, closuresInMembers_eq imports members,
        List.flatMap_map]
  | function f =>
    simp [closuresInStmt, Node.importsInside, Stmt.parts, closuresInFunction_eq imports f]
  | expression e =>
    simp [closuresInStmt, Node.importsInside, Stmt.parts, closuresInExpr_eq imports e]
  | block body =>
    simp [closuresInStmt, Node.importsInside, Stmt.parts, closuresInStmts_eq imports body,
      List.flatMap_map]
  | choice branches =>
    simp [closuresInStmt, Node.importsInside, Stmt.parts, closuresInBranches_eq imports branches]
  | whileLoop condition body | doLoop body condition =>
    simp [closuresInStmt, Node.importsInside, Stmt.parts, closuresInExpr_eq imports condition,
      closuresInStmts_eq imports body, List.flatMap_map]
  | forLoop header body =>
    simp [closuresInStmt, Node.importsInside, Stmt.parts, closuresInExprs_eq imports header,
      closuresInStmts_eq imports body, List.flatMap_map]
  | foreachLoop subject _ body =>
    simp [closuresInStmt, Node.importsInside, Stmt.parts, closuresInExpr_eq imports subject,
      closuresInStmts_eq imports body, List.flatMap_map]
  | switch subject cases =>
    simp [closuresInStmt, Node.importsInside, Stmt.parts, closuresInExpr_eq imports subject,
      closuresInBodies_eq imports cases]
  | declare _ body =>
    simp [closuresInStmt, Node.importsInside, Stmt.parts, closuresInStmts_eq imports body,
      List.flatMap_map]
  | tryCatch blocks =>
    simp [closuresInStmt, Node.importsInside, Stmt.parts, closuresInBodies_eq imports blocks]
  | echo values =>
    simp [closuresInStmt, Node.importsInside, Stmt.parts, closuresInExprs_eq imports values,
      List.flatMap_map]
  | «return» value =>
    simp [closuresInStmt, Node.importsInside, Stmt.parts, closuresInOption_eq imports value,
      List.flatMap_map]

theorem closuresInStmts_eq (imports : Imports) (body : List Stmt) :
    closuresInStmts imports body =
      body.flatMap fun s => (Node.stmt s).enteredClosures imports := by
  cases body with
  | nil => rfl
  | cons s rest =>
    simp [closuresInStmts, closuresInStmt_eq imports s, closuresInStmts_eq imports rest]

theorem closuresInBranches_eq (imports : Imports) (branches : List Branch) :
    closuresInBranches imports branches =
      enteredClosuresOf imports (branches.flatMap (Branch.parts true)) := by
  match branches with
  | [] => rfl
  | ⟨condition, body⟩ :: rest =>
    simp [closuresInBranches, Branch.parts, closuresInOption_eq imports condition,
      closuresInStmts_eq imports body, closuresInBranches_eq imports rest, List.flatMap_map]

theorem closuresInBodies_eq (imports : Imports) (branches : List Branch) :
    closuresInBodies imports branches =
      enteredClosuresOf imports (branches.flatMap (Branch.parts false)) := by
  match branches with
  | [] => rfl
  | ⟨condition, body⟩ :: rest =>
    simp [closuresInBodies, Branch.parts, closuresInStmts_eq imports body,
      closuresInBodies_eq imports rest, List.flatMap_map]

end

namespace Syntax.Program

/-- The closures of a program, wherever they stand, in pre-order. -/
def closuresAnywhere (p : Program) : List Declaration := p.occurrences.filterMap (·.closure?)

/-- The closures at entered places. -/
def enteredClosures (p : Program) : List Declaration :=
  (p.occurrences.filter (·.entered)).filterMap (·.closure?)

/-- The closures at places that are passed over, and below them. -/
def skippedClosures (p : Program) : List Declaration :=
  (p.occurrences.filter (!·.entered)).filterMap (·.closure?)

theorem closures_eq_enteredClosures (p : Program) : p.closures = p.enteredClosures := by
  rw [closures, closuresInStmts_eq, enteredClosures, occurrences]
  simp [Node.enteredClosures, List.filter_flatMap, List.filterMap_flatMap]

theorem enteredClosures_sublist (p : Program) :
    p.enteredClosures.Sublist p.closuresAnywhere :=
  List.Sublist.filterMap _ List.filter_sublist

theorem length_closuresAnywhere (p : Program) :
    p.closuresAnywhere.length = p.enteredClosures.length + p.skippedClosures.length := by
  unfold closuresAnywhere enteredClosures skippedClosures
  induction p.occurrences with
  | nil => rfl
  | cons o rest ih =>
    cases hc : o.closure? <;> cases he : o.entered <;> simp_all <;> omega

end Syntax.Program

/-- The closures among others that start on a line of a source. -/
def Source.closuresOn (source : Source) (line : Nat) (closures : List Declaration) :
    List Declaration :=
  closuresOnLine (.ofText source.text) line closures

/-- What a search for the closure on a line has to answer when just these closures start there. -/
structure AnswersLine (f : FileScope) (mode : BuildMode) (line : Nat) (onLine : List Declaration)
    (answer : Except Error (Option Reflection)) : Prop where
  none_iff : answer = .ok none ↔ onLine = []
  found_iff : ∀ r, answer = .ok (some r) ↔ ∃ d, onLine = [d] ∧ buildReflection f d mode = .ok r
  ambiguous_iff : answer = .error (.twoClosuresOnSameLine (f.source.file.getD "") line) ↔
    2 ≤ onLine.length

/-- The answer that a list of closures on a line leads to. -/
def closureAnswer (f : FileScope) (mode : BuildMode) (line : Nat) :
    List Declaration → Except Error (Option Reflection)
  | [] => .ok none
  | [d] => (buildReflection f d mode).map some
  | _ => .error (.twoClosuresOnSameLine (f.source.file.getD "") line)

theorem findClosure_eq_closureAnswer {source : Source} {p : Program}
    (hp : source.program = .ok p) (mode : BuildMode) (line : Nat) (s : Session) :
    ((source.findClosure mode line).start s).1.map (Option.map (·.reflection)) =
      closureAnswer (source.fileScope p) mode line
        (source.closuresOn line p.closures) := by
  rw [Source.findClosure, Lookup.start_bind, Lookup.start_ofExcept, hp]
  change ((match source.closuresOn line p.closures with
    | [] => pure none
    | [d] => some <$> d.reflect (source.fileScope p) mode
    | _ => throw (.twoClosuresOnSameLine (source.file.getD "") line) :
      Lookup (Option Found)).start s).1.map _ = _
  rcases source.closuresOn line p.closures with _ | ⟨d, _ | ⟨e, rest⟩⟩
  · rfl
  · rw [Lookup.start_map, Declaration.start_reflect, closureAnswer]
    cases buildReflection (source.fileScope p) d mode <;> rfl
  · rfl

theorem buildReflection_of_closure {o : Occurrence} {d : Declaration} (h : o.closure? = some d)
    (f : FileScope) (mode : BuildMode) : ∃ r, buildReflection f d mode = .ok r := by
  unfold Occurrence.closure? at h
  split at h
  · cases h
    exact ⟨_, rfl⟩
  · cases h
    exact ⟨_, rfl⟩
  · cases h

/-- The answer for some closures is right for others if these are the same, as far as one, none and
more than one are told apart. -/
theorem answersLine_closureAnswer_iff {f : FileScope} {mode : BuildMode} {line : Nat}
    {seen all : List Declaration} (hsub : seen.Sublist all)
    (hbuild : ∀ d ∈ seen, ∃ r, buildReflection f d mode = .ok r) :
    AnswersLine f mode line all (closureAnswer f mode line seen) ↔
      min all.length 2 = min seen.length 2 := by
  rcases seen with _ | ⟨d, _ | ⟨e, rest⟩⟩
  · constructor
    · intro h
      have hall : all = [] := h.none_iff.mp rfl
      simp [hall]
    · intro h
      have hall : all = [] := by simpa using h
      subst hall
      exact ⟨by simp [closureAnswer], by simp [closureAnswer], by simp [closureAnswer]⟩
  · obtain ⟨r, hr⟩ := hbuild d (by simp)
    have hanswer : closureAnswer f mode line [d] = .ok (some r) := by
      simp [closureAnswer, hr, Except.map]
    rw [hanswer]
    constructor
    · intro h
      obtain ⟨d', hall, -⟩ := (h.found_iff r).mp rfl
      simp [hall]
    · intro h
      have hlength : [d].length = all.length := by
        have := hsub.length_le
        simp at h this ⊢
        omega
      have hall : all = [d] := (hsub.eq_of_length hlength).symm
      subst hall
      exact ⟨by simp, by simp [hr], by simp⟩
  · constructor
    · intro h
      have hall : 2 ≤ all.length := h.ambiguous_iff.mp rfl
      simp
      omega
    · intro h
      have hall : 2 ≤ all.length := by
        simp at h
        omega
      refine ⟨?_, ?_, ?_⟩
      · simp only [closureAnswer, reduceCtorEq, false_iff]
        rintro rfl
        simp at hall
      · intro r
        simp only [closureAnswer, reduceCtorEq, false_iff]
        rintro ⟨d', rfl, -⟩
        simp at hall
      · simpa [closureAnswer] using hall

/-- A search for closures finds those at entered places, each once, in pre-order and with the
imports of its innermost namespace. These are all closures of the program exactly when none stands
at a place that is passed over. The closure on a line is searched for among them, and the answer is
the one that all closures of the program call for exactly when those which are passed over do not
change whether none, one or more start on that line. -/
theorem closures_iff_none_skipped (p : Program) (source : Source) (mode : BuildMode) (line : Nat)
    (s : Session) :
    (p.closures = p.enteredClosures ∧ p.enteredClosures.Sublist p.closuresAnywhere ∧
      (p.closures = p.closuresAnywhere ↔ p.skippedClosures = [])) ∧
    match source.program with
    | .error e => ((source.findClosure mode line).start s).1.map (Option.map (·.reflection)) =
        .error e
    | .ok parsed =>
      let answer := ((source.findClosure mode line).start s).1.map (Option.map (·.reflection))
      let found := source.closuresOn line parsed.enteredClosures
      let all := source.closuresOn line parsed.closuresAnywhere
      AnswersLine (source.fileScope parsed) mode line found answer ∧
        (AnswersLine (source.fileScope parsed) mode line all answer ↔
          min all.length 2 = min found.length 2) := by
  constructor
  · refine ⟨p.closures_eq_enteredClosures, p.enteredClosures_sublist, ?_⟩
    rw [p.closures_eq_enteredClosures]
    constructor
    · intro h
      have hlength := p.length_closuresAnywhere
      rw [h] at hlength
      exact List.eq_nil_of_length_eq_zero (by omega)
    · intro h
      have hlength := p.length_closuresAnywhere
      rw [h] at hlength
      exact p.enteredClosures_sublist.eq_of_length hlength.symm
  · cases hp : source.program with
    | error e => simp [Source.findClosure, Lookup.start_bind, hp, Except.map]
    | ok parsed =>
      simp only
      rw [findClosure_eq_closureAnswer hp, parsed.closures_eq_enteredClosures]
      have hbuild : ∀ d ∈ source.closuresOn line parsed.enteredClosures,
          ∃ r, buildReflection (source.fileScope parsed) d mode = .ok r := by
        intro d hd
        have hmem : d ∈ parsed.enteredClosures := (List.mem_filter.mp hd).1
        obtain ⟨o, -, ho⟩ := List.mem_filterMap.mp hmem
        exact buildReflection_of_closure ho _ _
      constructor
      · exact (answersLine_closureAnswer_iff (List.Sublist.refl _) hbuild).mpr rfl
      · exact answersLine_closureAnswer_iff (parsed.enteredClosures_sublist.filter _) hbuild

/-- The arrow function of `$b[fn() => 2];`. -/
def arrowInIndex : Syntax.Function :=
  ⟨⟨9, 17⟩, [], "\x7bclosure\x7d", [], [], none, [.return (some (.leaf ⟨16, 17⟩ .number "2"))]⟩

/-- The program `$b[fn() => 2];`, whose only closure stands in an index. -/
def closureInIndex : Program where
  statements := [.expression (.index ⟨6, 18⟩ (.leaf ⟨6, 8⟩ .variable "$b")
    (some (.arrow arrowInIndex)))]
  trivia := []

theorem closures_of_index_skipped : ¬ ∀ p : Program, p.closures = p.closuresAnywhere := by
  intro h
  have hnone : closureInIndex.closures = [] := rfl
  have hmem : ⟨.arrow arrowInIndex, .ofBody none closureInIndex.statements⟩ ∈
      closureInIndex.closuresAnywhere := by
    refine List.mem_filterMap.mpr ⟨⟨false, .ofBody none closureInIndex.statements,
      .expr (.arrow arrowInIndex)⟩, ?_, rfl⟩
    refine List.mem_flatMap.mpr ⟨_, List.mem_cons_self, ?_⟩
    -- From the statement into its expression, and from there past the mark into the index.
    refine Node.mem_occurrences_of_part ⟨true, _⟩ List.mem_cons_self ?_
    refine Node.mem_occurrences_of_part ⟨false, _⟩
      (List.mem_cons_of_mem _ List.mem_cons_self) ?_
    exact Node.mem_occurrences_self _ _ _
  rw [← h closureInIndex, hnone] at hmem
  exact List.not_mem_nil hmem

end StaticReflection
