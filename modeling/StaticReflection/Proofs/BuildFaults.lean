import StaticReflection.Reflection.Build

/-!
Where evaluation and the building of reflections fail. Both need the class that an expression stands
in, where it says `self` or `static`, and the name of the file, where it asks for it. Nothing else
can go wrong, and it can only go wrong in a scope that lacks what is asked for.
-/

namespace StaticReflection

open Syntax

/-- What a scope that evaluation fails in does not have. -/
inductive Scope.Lacks (s : Scope) : Error → Prop where
  | selfClass (h : s.selfClass = none) : s.Lacks .noSelf
  | file (h : s.file = none) : s.Lacks .noFileName

theorem Scope.lacks_of_selfName {s : Scope} {e : Error} (h : s.selfName = .error e) :
    s.Lacks e := by
  unfold selfName at h
  split at h
  · cases h
  · cases h
    exact .selfClass ‹_›

theorem Scope.lacks_of_fileName {s : Scope} {e : Error} (h : s.fileName = .error e) :
    s.Lacks e := by
  unfold fileName at h
  split at h
  · cases h
  · cases h
    exact .file ‹_›

theorem lacks_of_evalText {s : Scope} {offset : Nat} {text : String} {e : Error}
    (h : evalText s offset text = .error e) : s.Lacks e := by
  unfold evalText at h
  split at h
  case h_5 | h_6 => exact Scope.lacks_of_fileName (Error.error_of_map h)
  case h_11 =>
    split at h
    · cases h
    · split at h <;> cases h
  all_goals cases h

theorem lacks_of_evalClassConstant {s : Scope} {follow : String → Option (Except Error Value)}
    (hfollow : ∀ name e, follow name = some (.error e) → s.Lacks e) {written name : String}
    {e : Error} (h : evalClassConstant s follow written name = .error e) : s.Lacks e := by
  unfold evalClassConstant at h
  rcases Error.error_of_bind h with h | ⟨scope, -, h⟩
  · unfold scopeClass at h
    simp only at h
    split at h
    · exact Scope.lacks_of_selfName (Error.error_of_map h)
    · split at h <;> cases h
  · cases scope with
    | none => cases h
    | some resolved =>
      simp only at h
      split at h
      · cases h
      · split at h
        · rename_i result hresult
          split at hresult
          · exact hfollow name e (h ▸ hresult)
          · cases hresult
        · cases h

mutual

theorem lacks_of_evalWith {s : Scope} {follow : String → Option (Except Error Value)}
    (hfollow : ∀ name e, follow name = some (.error e) → s.Lacks e) {expr : Expr} {e : Error}
    (h : evalWith s follow expr = .error e) : s.Lacks e := by
  cases expr with
  | parenthesized span inner =>
    rw [evalWith] at h
    exact lacks_of_evalWith hfollow h
  | array span elements =>
    rw [evalWith] at h
    rcases Error.error_of_bind h with h | ⟨entries, -, h⟩
    · exact lacks_of_evalElements hfollow h
    · cases h
  | unary span op operand =>
    rw [evalWith] at h
    rcases Error.error_of_bind h with h | ⟨value, -, h⟩
    · exact lacks_of_evalWith hfollow h
    · simp only at h
      split at h <;> cases h
  | binary span op left right =>
    rw [evalWith] at h
    rcases Error.error_of_bind h with h | ⟨a, -, h⟩
    · exact lacks_of_evalWith hfollow h
    · split at h
      · cases h
      · rcases Error.error_of_bind h with h | ⟨b, -, h⟩
        · exact lacks_of_evalWith hfollow h
        · simp only at h
          split at h <;> cases h
  | conditional span condition onTrue onFalse =>
    rw [evalWith] at h
    rcases Error.error_of_bind h with h | ⟨c, -, h⟩
    · exact lacks_of_evalWith hfollow h
    · split at h
      · cases onTrue with
        | none => cases h
        | some chosen => exact lacks_of_evalWith hfollow h
      · exact lacks_of_evalWith hfollow h
      · cases h
  | classConstant span scope selector =>
    rw [evalWith] at h
    exact lacks_of_evalClassConstant hfollow h
  | string span text value =>
    cases value <;> rw [evalWith] at h <;> cases h
  | leaf span kind text =>
    rw [evalWith] at h
    exact lacks_of_evalText h
  | _ =>
    simp only [evalWith] at h
    exact lacks_of_evalText h

theorem lacks_of_evalElements {s : Scope} {follow : String → Option (Except Error Value)}
    (hfollow : ∀ name e, follow name = some (.error e) → s.Lacks e) {elements : List ArrayElement}
    {e : Error} (h : evalElements s follow elements = .error e) : s.Lacks e := by
  match elements with
  | [] =>
    rw [evalElements] at h
    cases h
  | .pair key value :: rest =>
    rw [evalElements] at h
    rcases Error.error_of_bind h with h | ⟨k, -, h⟩
    · exact lacks_of_evalWith hfollow h
    rcases Error.error_of_bind h with h | ⟨v, -, h⟩
    · exact lacks_of_evalWith hfollow h
    rcases Error.error_of_bind h with h | ⟨entries, -, h⟩
    · exact lacks_of_evalElements hfollow h
    · cases h
  | .value value :: rest | .spread value :: rest =>
    rw [evalElements] at h
    rcases Error.error_of_bind h with h | ⟨v, -, h⟩
    · exact lacks_of_evalWith hfollow h
    rcases Error.error_of_bind h with h | ⟨entries, -, h⟩
    · exact lacks_of_evalElements hfollow h
    · cases h

end

theorem lacks_of_evalDepth {s : Scope} {depth : Nat} {expr : Expr} {e : Error}
    (h : evalDepth s depth expr = .error e) : s.Lacks e := by
  induction depth generalizing expr e with
  | zero =>
    rw [evalDepth] at h
    refine lacks_of_evalWith (fun name e hname => ?_) h
    cases hname
  | succ depth ih =>
    rw [evalDepth] at h
    refine lacks_of_evalWith (fun name e hname => ?_) h
    obtain ⟨initialiser, -, hname⟩ := Option.map_eq_some_iff.mp hname
    exact ih hname

theorem missing_of_buildClass {f : FileScope} {imports : Imports} {decl : ClassDecl}
    {mode : BuildMode} {e : Error} (h : buildClass f imports (.classLike decl) mode = .error e) :
    mode = .compiled ∧ f.source.file = none ∧ e = .noFileName := by
  cases mode with
  | identifierOnly => cases h
  | compiled =>
    refine ⟨rfl, ?_⟩
    rcases Error.error_of_bind h with h | ⟨constants, -, h⟩
    · obtain ⟨member, -, h⟩ := Error.exists_error_of_mapM h
      cases member with
      | constant span attributes modifiers items =>
        obtain ⟨item, -, h⟩ := Error.exists_error_of_mapM h
        rcases Error.error_of_bind h with h | ⟨value, -, h⟩
        · cases lacks_of_evalDepth h with
          | selfClass hself => cases hself
          | file hfile => exact ⟨hfile, rfl⟩
        · cases h
      | method | property | case | traitUse => cases h
    · cases h

theorem lacks_of_buildConstant {f : FileScope} {d : Declaration} {mode : BuildMode} {e : Error}
    (hname : d.qualifiedName?.isSome) (hkind : d.kind = .constant)
    (h : buildConstant f d.imports d.node mode = .error e) :
    mode = .compiled ∧ (f.scope d.imports).Lacks e := by
  have hvalue : ∀ {value : Option Expr}, buildValue f d.imports value mode = .error e →
      mode = .compiled ∧ (f.scope d.imports).Lacks e := by
    intro value h
    cases mode with
    | identifierOnly => cases h
    | compiled =>
      cases value with
      | none => cases h
      | some expr => exact ⟨rfl, lacks_of_evalDepth (Error.error_of_map h)⟩
  obtain ⟨node, imports⟩ := d
  cases node with
  | constant span item =>
    rcases Error.error_of_bind (r := buildValue f imports (some item.value) mode) h with
      h | ⟨result, -, h⟩
    · exact hvalue h
    · cases h
  | define span callee name value =>
    cases name with
    | none => cases hname
    | some name =>
      rcases Error.error_of_bind (r := buildValue f imports value mode) h with h | ⟨result, -, h⟩
      · exact hvalue h
      · cases h
  | classLike | function | closure | arrow => cases hkind

/-- A declaration with a name cannot be described only where a class or file name is needed for
its values. Functions have none, and neither have descriptions of heads. -/
theorem lacks_of_buildReflection {f : FileScope} {d : Declaration} {mode : BuildMode} {e : Error}
    (hname : d.qualifiedName?.isSome) (h : buildReflection f d mode = .error e) :
    mode = .compiled ∧ d.kind ≠ .function ∧ (f.scope d.imports).Lacks e := by
  obtain ⟨node, imports⟩ := d
  cases node with
  | classLike decl =>
    obtain ⟨hmode, hfile, rfl⟩ := missing_of_buildClass (Error.error_of_map h)
    exact ⟨hmode, by simp [Declaration.kind, DeclNode.kind], .file hfile⟩
  | constant span item | define span callee name value =>
    obtain ⟨hmode, hlacks⟩ := lacks_of_buildConstant (d := ⟨_, imports⟩) hname rfl
      (Error.error_of_map h)
    exact ⟨hmode, by simp [Declaration.kind, DeclNode.kind], hlacks⟩
  | function | closure | arrow => cases h

end StaticReflection
