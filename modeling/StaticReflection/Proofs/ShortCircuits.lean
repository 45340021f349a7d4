import StaticReflection.Proofs.PlainValues

/-!
Operands that are left out. Where the first operand decides alone what an expression comes to, the
others should not be evaluated. A conditional expression and `??` keep to this: what they leave out
may be anything, also an expression that cannot be evaluated. The logical operators evaluate their
right operand all the same, and have the decided value only if it has a value that is known.
-/

namespace StaticReflection

open Syntax

namespace Value

/-- What an operator comes to if its left operand alone decides that. -/
def decides? (op : BinaryOp) (left : Value) : Option Value :=
  match op with
  | .and => if left.truthy? = some false then some (.bool false) else none
  | .or => if left.truthy? = some true then some (.bool true) else none
  | .coalesce => if left.same .null then none else some left
  | _ => none

theorem exists_truthy_of_isResolved {v : Value} (h : v.isResolved = true) :
    ∃ b, v.truthy? = some b := by
  cases v with
  | classConstant | constant | unresolved => cases h
  | _ => exact ⟨_, rfl⟩

/-- Between values that are known, an operator comes to what its left operand decides. -/
theorem binary?_of_decides {op : BinaryOp} {v w result : Value} (h : decides? op v = some result)
    (hw : w.isResolved = true) : binary? op v w = some result := by
  obtain ⟨b, hb⟩ := exists_truthy_of_isResolved hw
  cases op with
  | and =>
    obtain ⟨hfalse, hresult⟩ := Option.ite_none_right_eq_some.mp h
    rw [binary?, logical?, hfalse, hb]
    exact hresult
  | or =>
    obtain ⟨htrue, hresult⟩ := Option.ite_none_right_eq_some.mp h
    rw [binary?, logical?, htrue, hb]
    exact hresult
  | coalesce =>
    obtain ⟨hnull, hresult⟩ := Option.ite_none_left_eq_some.mp h
    rw [binary?, if_neg hnull]
    exact hresult
  | _ => cases h

/-- What a known value decides is known. -/
theorem isResolved_of_decides {op : BinaryOp} {v result : Value} (hv : v.isResolved = true)
    (h : decides? op v = some result) : result.isResolved = true := by
  cases op with
  | and | or =>
    obtain ⟨-, hresult⟩ := Option.ite_none_right_eq_some.mp h
    rw [← Option.some.inj hresult]
    rfl
  | coalesce =>
    obtain ⟨-, hresult⟩ := Option.ite_none_left_eq_some.mp h
    rw [← Option.some.inj hresult]
    exact hv
  | _ => cases h

end Value

section ShortCircuits

variable {s : Scope} {follow : String → Option (Except Error Value)} {span : Span} {left : Expr}
  {v : Value}

theorem evalWith_coalesce_of_decides {result : Value} (hleft : evalWith s follow left = .ok v)
    (hv : v.isResolved = true) (h : v.decides? .coalesce = some result) (right : Expr) :
    evalWith s follow (.binary span .coalesce left right) = .ok result := by
  obtain ⟨hnull, hresult⟩ := Option.ite_none_left_eq_some.mp h
  have hsame : v.same .null = false := Bool.not_eq_true _ ▸ hnull
  rw [evalWith, hleft]
  simp only [bind, Except.bind]
  rw [if_pos ⟨trivial, hsame, hv⟩, Option.some.inj hresult]
  rfl

/-- Operators other than `??` evaluate their right operand whatever the left one decides. -/
theorem evalWith_logical_of_decides {op : BinaryOp} {result : Value} (hop : op ≠ .coalesce)
    (hleft : evalWith s follow left = .ok v) (hv : v.isResolved = true)
    (h : v.decides? op = some result) (right : Expr) :
    evalWith s follow (.binary span op left right) =
      (evalWith s follow right).map fun w =>
        if w.isResolved then result else .unresolved (Text.under s.source span) := by
  cases hright : evalWith s follow right with
  | error e =>
    rw [evalWith, hleft, hright]
    simp only [bind, Except.bind]
    rw [if_neg fun hshort => hop hshort.1]
    rfl
  | ok w =>
    cases hw : w.isResolved with
    | true =>
      rw [evalWith_binary hop hleft hright hv hw, Value.binary?_of_decides h hw]
      simp only [Except.map, hw]
      rfl
    | false =>
      rw [evalWith, hleft, hright]
      simp only [bind, Except.bind, Except.map, hv, hw]
      rw [if_neg fun hshort => hop hshort.1]
      rfl

theorem evalWith_conditional_of_truthy {b : Bool} (hleft : evalWith s follow left = .ok v)
    (hb : v.truthy? = some b) (onTrue : Option Expr) (onFalse : Expr) :
    evalWith s follow (.conditional span left onTrue onFalse) =
      match if b then onTrue else some onFalse with
      | some branch => evalWith s follow branch
      | none => .ok v := by
  rw [evalWith, hleft]
  simp only [bind, Except.bind, hb]
  cases b with
  | false => rfl
  | true => cases onTrue <;> rfl

/-- Where a known left operand decides alone, `??` comes to the decided value whatever stands on its
right. A logical operator fails where its right operand does and is not known where that is not
known; so it comes to the decided value just if its right operand has a value that is known. A
conditional expression comes to what the chosen branch comes to, whatever the other one is, or to
the condition itself if that is true and there is no branch for it. -/
theorem left_operand_decides (hleft : evalWith s follow left = .ok v) (hv : v.isResolved = true)
    (span : Span) :
    (∀ op result right, v.decides? op = some result →
      (evalWith s follow (.binary span op left right) =
        if op = .coalesce then .ok result
        else (evalWith s follow right).map fun w =>
          if w.isResolved then result else .unresolved (Text.under s.source span)) ∧
      (evalWith s follow (.binary span op left right) = .ok result ↔
        op = .coalesce ∨ ∃ w, evalWith s follow right = .ok w ∧ w.isResolved = true)) ∧
    ∃ b, v.truthy? = some b ∧ ∀ onTrue onFalse,
      evalWith s follow (.conditional span left onTrue onFalse) =
        match if b then onTrue else some onFalse with
        | some branch => evalWith s follow branch
        | none => .ok v := by
  constructor
  · intro op result right h
    by_cases hop : op = .coalesce
    · subst hop
      have heval : evalWith s follow (.binary span .coalesce left right) = .ok result :=
        evalWith_coalesce_of_decides hleft hv h right
      exact ⟨by rw [heval, if_pos rfl], iff_of_true heval (.inl rfl)⟩
    · have heval : evalWith s follow (.binary span op left right) = _ :=
        evalWith_logical_of_decides hop hleft hv h right
      refine ⟨by rw [heval, if_neg hop], ?_⟩
      rw [heval, or_iff_right hop]
      have hresult := Value.isResolved_of_decides hv h
      cases hright : evalWith s follow right with
      | error e => simp [Except.map]
      | ok w =>
        cases hw : w.isResolved with
        | true => simp [Except.map, hw]
        | false =>
          -- A result that is not known is not the decided one.
          have hne : Value.unresolved (Text.under s.source span) ≠ result := by
            rintro rfl
            cases hresult
          simp [Except.map, hw, hne]
  · obtain ⟨b, hb⟩ := Value.exists_truthy_of_isResolved hv
    exact ⟨b, hb, evalWith_conditional_of_truthy hleft hb⟩

end ShortCircuits

/-- The literal `false`. -/
def falseLiteral : Expr := .leaf ⟨0, 5⟩ .name "false"

/-- The constant `X`, which is not known. -/
def unknownX : Expr := .leaf ⟨9, 10⟩ .name "X"

/-- The magic constant for the path of the file, which fails where there is none. -/
def filePath : Expr := .leaf ⟨9, 17⟩ .name "__FILE__"

theorem denotes_falseLiteral : falseLiteral.Denotes (.bool false) := denotes_bool false _ _

theorem left_operand_decides_falseLiteral :
    evalWith .outermost (fun _ => none) falseLiteral = .ok (.bool false) ∧
      (Value.bool false).isResolved = true ∧
      evalWith .outermost (fun _ => none) (.binary ⟨0, 17⟩ .coalesce falseLiteral filePath) =
        .ok (.bool false) ∧
      evalWith .outermost (fun _ => none) (.binary ⟨0, 17⟩ .and falseLiteral filePath) =
        .error .noFileName ∧
      evalWith .outermost (fun _ => none)
          (.conditional ⟨0, 17⟩ falseLiteral (some filePath) falseLiteral) =
        .ok (.bool false) := by
  have hleft := denotes_falseLiteral .outermost fun _ => none
  have hknown : (Value.bool false).isResolved = true := rfl
  have hpath : evalWith .outermost (fun _ => none) filePath = .error .noFileName := by
    rw [filePath, evalWith]
    rfl
  obtain ⟨hdecided, b, hb, hconditional⟩ := left_operand_decides hleft hknown ⟨0, 17⟩
  have hand := (hdecided .and (.bool false) filePath rfl).1
  rw [hpath] at hand
  cases hb
  refine ⟨hleft, hknown, (hdecided .coalesce (.bool false) filePath rfl).1, hand, ?_⟩
  rw [hconditional]
  exact hleft

/-- A logical operator whose left operand decides is not known if its right operand is not. -/
theorem decided_operator_asks_right :
    ¬ ∀ (s : Scope) (follow : String → Option (Except Error Value)) (span : Span) (op : BinaryOp)
      (left right : Expr) (v result : Value), evalWith s follow left = .ok v →
      v.isResolved = true → v.decides? op = some result →
      evalWith s follow (.binary span op left right) = .ok result := by
  intro h
  have hleft := denotes_falseLiteral .outermost fun _ => none
  have hright : evalWith .outermost (fun _ => none) unknownX = .ok (.constant "X") := by
    rw [unknownX, evalWith]
    rfl
  have hdecided := h _ _ ⟨0, 10⟩ .and _ unknownX _ _ hleft rfl rfl
  rw [evalWith_logical_of_decides (by decide) hleft rfl rfl, hright] at hdecided
  cases hdecided

end StaticReflection
