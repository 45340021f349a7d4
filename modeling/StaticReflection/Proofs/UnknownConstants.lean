import StaticReflection.Evaluate
import StaticReflection.Proofs.PartlyKnownArrays

/-!
Constants that are not known. Global constants and constants of other classes stay references when
an expression is evaluated. If an expression has a value that is known in full all the same, it
should keep that value when other expressions are put in place of such references. Evaluation passes
the unknown on, but for two things: a condition that is a partly known array counts as true if it
has elements, and a spread value that is not known counts as one element. Where evaluation comes
upon neither, the value stays.
-/

namespace StaticReflection

open Syntax

/-- Expressions for constants that are not known. Those for which there is none stay references. -/
structure Assignment where
  constant : String → Option Expr
  classConstant : String → String → Option Expr

/-- The expression for what a value refers to. -/
def Assignment.expr? (a : Assignment) : Value → Option Expr
  | .constant name => a.constant name
  | .classConstant scope name => a.classConstant scope name
  | _ => none

/-- Something known for every constant of the class itself. -/
def Scope.knownLocal (s : Scope) (name : String) : Option (Except Error Value) :=
  (s.local? name).map fun _ => .ok .null

/-- The value of an expression that may be a reference. Constants of the class itself are none. -/
def Scope.reference (s : Scope) (e : Expr) : Except Error Value := evalWith s s.knownLocal e

/-- What is put in place of an expression that may be a reference. -/
def Assignment.inPlaceOf (a : Assignment) (s : Scope) (e : Expr) : Expr :=
  match s.reference e with
  | .ok value => (a.expr? value).getD e
  | .error _ => e

mutual

/-- The expression with others in place of the references in it. -/
def Syntax.Expr.fill (s : Scope) (a : Assignment) : Expr → Expr
  | .parenthesized span inner => .parenthesized span (inner.fill s a)
  | .array span elements => .array span (fillElements s a elements)
  | .unary span op operand => .unary span op (operand.fill s a)
  | .binary span op left right => .binary span op (left.fill s a) (right.fill s a)
  | .conditional span condition onTrue onFalse =>
    match onTrue with
    | some e => .conditional span (condition.fill s a) (some (e.fill s a)) (onFalse.fill s a)
    | none => .conditional span (condition.fill s a) none (onFalse.fill s a)
  | e => a.inPlaceOf s e

def fillElements (s : Scope) (a : Assignment) : List ArrayElement → List ArrayElement
  | [] => []
  | .pair key value :: rest => .pair (key.fill s a) (value.fill s a) :: fillElements s a rest
  | .value value :: rest => .value (value.fill s a) :: fillElements s a rest
  | .spread value :: rest => .spread (value.fill s a) :: fillElements s a rest

end

/-- The scope in which the initialisers of the class itself have other expressions in place of
references as well. -/
def Scope.fill (s : Scope) (a : Assignment) : Scope :=
  { s with locals := s.locals.map fun item => ⟨item.name, item.value.fill s a⟩ }

theorem Scope.local?_fill (s : Scope) (a : Assignment) (name : String) :
    (s.fill a).local? name = (s.local? name).map (·.fill s a) := by
  unfold local? fill
  simp only [← List.map_reverse, List.find?_map, Option.map_map]
  rfl

/-- The constants of the class itself, as far as they are followed. -/
def Scope.follow (s : Scope) : Nat → String → Option (Except Error Value)
  | 0, _ => none
  | depth + 1, name => (s.local? name).map (evalDepth s depth)

theorem evalDepth_eq (s : Scope) (depth : Nat) (e : Expr) :
    evalDepth s depth e = evalWith s (s.follow depth) e := by
  cases depth <;> rw [evalDepth] <;> rfl

/-- What an element of an array literal evaluates. -/
def Syntax.ArrayElement.operands : ArrayElement → List Expr
  | .pair key x => [key, x]
  | .value x | .spread x => [x]

/-- What an array literal may hide, so that its value is known although not all its elements are. -/
inductive Hides (s : Scope) (a : Assignment) (depth : Nat) (elements : List ArrayElement) : Prop
  where
  /-- A spread value that is not known counts as one element, whatever it is. -/
  | spread {x : Expr} {v : Value} (h : .spread x ∈ elements) (hx : evalDepth s depth x = .ok v)
    (hunknown : v.isResolved = false) : Hides s a depth elements
  /-- A value that is not known, and that a later element replaces, is evaluated all the same, and
  that may fail. -/
  | replaced {element : ArrayElement} {x : Expr} {v : Value} {e : Error} (h : element ∈ elements)
    (hmem : x ∈ element.operands) (hx : evalDepth s depth x = .ok v)
    (hunknown : v.isResolved = false)
    (hfails : evalDepth (s.fill a) depth (x.fill s a) = .error e) : Hides s a depth elements

/-- Evaluation comes upon a place where it decides on what is not known, and decides otherwise once
other expressions are put in place of references. -/
inductive Misjudges (s : Scope) (a : Assignment) : Nat → Expr → Prop where
  /-- A partly known array as a condition. It has elements, so it counts as true. -/
  | condition {depth : Nat} {span : Span} {c : Expr} {onTrue : Option Expr} {onFalse : Expr}
    {items : List (Value × Value)} (hc : evalDepth s depth c = .ok (.array items))
    (hunknown : Value.allResolved items = false)
    (hdiffers : ∀ v, evalDepth (s.fill a) depth (c.fill s a) = .ok v → v.truthy? ≠ some true) :
    Misjudges s a depth (.conditional span c onTrue onFalse)
  /-- An array literal that hides something. -/
  | array {depth : Nat} {span : Span} {elements : List ArrayElement} {v : Value}
    (hv : evalDepth s depth (.array span elements) = .ok v) (hknown : v.isResolved = true)
    (hhides : Hides s a depth elements)
    (hdiffers : evalDepth (s.fill a) depth (.array span (fillElements s a elements)) ≠ .ok v) :
    Misjudges s a depth (.array span elements)
  | inParentheses {depth : Nat} {span : Span} {inner : Expr} (h : Misjudges s a depth inner) :
    Misjudges s a depth (.parenthesized span inner)
  | inElement {depth : Nat} {span : Span} {elements : List ArrayElement} {element : ArrayElement}
    {x : Expr} (helement : element ∈ elements) (hx : x ∈ element.operands)
    (h : Misjudges s a depth x) : Misjudges s a depth (.array span elements)
  | inOperand {depth : Nat} {span : Span} {op : UnaryOp} {operand : Expr}
    (h : Misjudges s a depth operand) : Misjudges s a depth (.unary span op operand)
  | inLeft {depth : Nat} {span : Span} {op : BinaryOp} {left right : Expr}
    (h : Misjudges s a depth left) : Misjudges s a depth (.binary span op left right)
  | inRight {depth : Nat} {span : Span} {op : BinaryOp} {left right : Expr} {v : Value}
    (hleft : evalDepth s depth left = .ok v)
    (hasked : ¬ (op = .coalesce ∧ v.same .null = false ∧ v.isResolved = true))
    (h : Misjudges s a depth right) : Misjudges s a depth (.binary span op left right)
  | inCondition {depth : Nat} {span : Span} {c : Expr} {onTrue : Option Expr} {onFalse : Expr}
    (h : Misjudges s a depth c) : Misjudges s a depth (.conditional span c onTrue onFalse)
  | onTrue {depth : Nat} {span : Span} {c onTrue onFalse : Expr} {v : Value}
    (hc : evalDepth s depth c = .ok v) (hb : v.truthy? = some true)
    (h : Misjudges s a depth onTrue) :
    Misjudges s a depth (.conditional span c (some onTrue) onFalse)
  | onFalse {depth : Nat} {span : Span} {c : Expr} {onTrue : Option Expr} {onFalse : Expr}
    {v : Value} (hc : evalDepth s depth c = .ok v) (hb : v.truthy? = some false)
    (h : Misjudges s a depth onFalse) : Misjudges s a depth (.conditional span c onTrue onFalse)
  /-- The initialiser of a constant of the class itself. -/
  | inInitialiser {depth : Nat} {span : Span} {scope selector value : Expr} {resolved : String}
    (hscope : scopeClass s (s.textOf scope) = .ok (some resolved))
    (hown : isOwnClass s (s.textOf scope) resolved = true)
    (hlocal : s.local? (s.textOf selector) = some value) (h : Misjudges s a depth value) :
    Misjudges s a (depth + 1) (.classConstant span scope selector)

section Known

variable {s : Scope} {depth : Nat} {span : Span} {v : Value}

theorem evalDepth_parenthesized (s : Scope) (depth : Nat) (span : Span) (inner : Expr) :
    evalDepth s depth (.parenthesized span inner) = evalDepth s depth inner := by
  rw [evalDepth_eq, evalDepth_eq, evalWith]

theorem evalDepth_classConstant (s : Scope) (depth : Nat) (span : Span) (scope selector : Expr) :
    evalDepth s depth (.classConstant span scope selector) =
      evalClassConstant s (s.follow depth) (s.textOf scope) (s.textOf selector) := by
  rw [evalDepth_eq, evalWith]

/-- When an array literal has a value that is known. -/
theorem known_array_iff (hv : v.isResolved = true) {elements : List ArrayElement} :
    evalDepth s depth (.array span elements) = .ok v ↔
      ∃ entries, evalElements s (s.follow depth) elements = .ok entries ∧
        ArrayBuilder.build? entries = some v := by
  rw [evalDepth_eq, evalWith]
  constructor
  · intro h
    obtain ⟨entries, hentries, h⟩ := Error.ok_of_bind h
    refine ⟨entries, hentries, ?_⟩
    cases hbuild : ArrayBuilder.build? entries with
    | none =>
      rw [hbuild] at h
      cases h
      cases hv
    | some array =>
      rw [hbuild] at h
      exact congrArg some (Except.ok.inj h)
  · rintro ⟨entries, hentries, hbuild⟩
    rw [hentries]
    simp only [bind, Except.bind, hbuild]
    rfl

/-- When a prefix operator has a value that is known. -/
theorem known_unary_iff (hv : v.isResolved = true) {op : UnaryOp} {operand : Expr} :
    evalDepth s depth (.unary span op operand) = .ok v ↔
      ∃ x, evalDepth s depth operand = .ok x ∧ x.isResolved = true ∧
        Value.unary? op x = some v := by
  rw [evalDepth_eq, evalDepth_eq, evalWith]
  constructor
  · intro h
    obtain ⟨x, hx, h⟩ := Error.ok_of_bind h
    refine ⟨x, hx, ?_⟩
    simp only at h
    split at h
    · rename_i hknown
      refine ⟨hknown, ?_⟩
      cases hop : Value.unary? op x with
      | none =>
        rw [hop] at h
        cases h
        cases hv
      | some result =>
        rw [hop] at h
        exact congrArg some (Except.ok.inj h)
    · cases h
      cases hv
  · rintro ⟨x, hx, hknown, hop⟩
    rw [hx]
    simp only [bind, Except.bind, hknown, hop]
    rfl

/-- When an operator between two operands has a value that is known. -/
theorem known_binary_iff (hv : v.isResolved = true) {op : BinaryOp} {left right : Expr} :
    evalDepth s depth (.binary span op left right) = .ok v ↔
      ∃ x, evalDepth s depth left = .ok x ∧ x.isResolved = true ∧
        ((op = .coalesce ∧ x.same .null = false ∧ v = x) ∨
          (¬ (op = .coalesce ∧ x.same .null = false) ∧ ∃ y, evalDepth s depth right = .ok y ∧
            y.isResolved = true ∧ Value.binary? op x y = some v)) := by
  rw [evalDepth_eq, evalDepth_eq, evalDepth_eq, evalWith]
  constructor
  · intro h
    obtain ⟨x, hx, h⟩ := Error.ok_of_bind h
    refine ⟨x, hx, ?_⟩
    split at h
    · rename_i hleft
      cases h
      exact ⟨hleft.2.2, .inl ⟨hleft.1, hleft.2.1, rfl⟩⟩
    · rename_i hasked
      obtain ⟨y, hy, h⟩ := Error.ok_of_bind h
      simp only at h
      split at h
      · rename_i hknown
        obtain ⟨hxknown, hyknown⟩ := Bool.and_eq_true_iff.mp hknown
        refine ⟨hxknown, .inr ⟨fun hleft => hasked ⟨hleft.1, hleft.2, hxknown⟩, y, hy, hyknown, ?_⟩⟩
        cases hop : Value.binary? op x y with
        | none =>
          rw [hop] at h
          cases h
          cases hv
        | some result =>
          rw [hop] at h
          exact congrArg some (Except.ok.inj h)
      · cases h
        cases hv
  · rintro ⟨x, hx, hxknown, ⟨hop, hnull, rfl⟩ | ⟨hasked, y, hy, hyknown, hop⟩⟩
    · rw [hx]
      simp only [bind, Except.bind]
      rw [if_pos ⟨hop, hnull, hxknown⟩]
      rfl
    · rw [hx, hy]
      simp only [bind, Except.bind]
      rw [if_neg fun hleft => hasked ⟨hleft.1, hleft.2.1⟩, hxknown, hyknown, hop]
      rfl

/-- When a conditional expression has a value that is known: its condition has to say whether it is
true, and need not be known itself. -/
theorem known_conditional_iff (hv : v.isResolved = true) {c : Expr} {onTrue : Option Expr}
    {onFalse : Expr} :
    evalDepth s depth (.conditional span c onTrue onFalse) = .ok v ↔
      ∃ x, evalDepth s depth c = .ok x ∧
        ((x.truthy? = some true ∧ onTrue = none ∧ v = x) ∨
          (x.truthy? = some true ∧ ∃ e, onTrue = some e ∧ evalDepth s depth e = .ok v) ∨
          (x.truthy? = some false ∧ evalDepth s depth onFalse = .ok v)) := by
  rw [evalDepth_eq, evalDepth_eq, evalDepth_eq, evalWith]
  constructor
  · intro h
    obtain ⟨x, hx, h⟩ := Error.ok_of_bind h
    refine ⟨x, hx, ?_⟩
    split at h
    · rename_i htrue
      cases onTrue with
      | none =>
        cases h
        exact .inl ⟨htrue, rfl, rfl⟩
      | some e =>
        refine .inr (.inl ⟨htrue, e, rfl, ?_⟩)
        rw [evalDepth_eq]
        exact h
    · rename_i hfalse
      exact .inr (.inr ⟨hfalse, h⟩)
    · cases h
      cases hv
  · rintro ⟨x, hx, ⟨htrue, rfl, rfl⟩ | ⟨htrue, e, rfl, he⟩ | ⟨hfalse, hother⟩⟩
    · rw [hx]
      simp only [bind, Except.bind, htrue]
      rfl
    · rw [evalDepth_eq] at he
      rw [hx]
      simp only [bind, Except.bind, htrue]
      exact he
    · rw [hx]
      simp only [bind, Except.bind, hfalse]
      exact hother

end Known

/-- A value that is known, and what is found for it with other expressions in place of references,
unless evaluation misjudged something on the way. -/
def KeepsValue (s : Scope) (a : Assignment) (depth : Nat) (e : Expr) : Prop :=
  ∀ v, evalDepth s depth e = .ok v → v.isResolved = true →
    evalDepth (s.fill a) depth (e.fill s a) = .ok v ∨ Misjudges s a depth e

section Filled

variable {s : Scope} {a : Assignment} {depth : Nat}

theorem Assignment.expr?_of_isResolved {v : Value} (h : v.isResolved = true) :
    a.expr? v = none := by
  cases v with
  | constant | classConstant => cases h
  | _ => rfl

theorem evalText_fill (s : Scope) (a : Assignment) (offset : Nat) (text : String) :
    evalText (s.fill a) offset text = evalText s offset text := by
  simp only [evalText, Scope.fileName, Scope.methodName, Scope.constantName, Scope.fill]

/-- Expressions that are evaluated from their texts keep their values. -/
theorem keepsValue_of_text {e : Expr} (hfill : e.fill s a = a.inPlaceOf s e)
    {result : Except Error Value} (heval : ∀ follow, evalWith s follow e = result)
    (heval' : ∀ follow, evalWith (s.fill a) follow e = result) : KeepsValue s a depth e := by
  intro v hv hknown
  rw [evalDepth_eq, heval] at hv
  have hsame : a.inPlaceOf s e = e := by
    unfold Assignment.inPlaceOf Scope.reference
    rw [heval, hv]
    simp only
    rw [Assignment.expr?_of_isResolved hknown]
    rfl
  left
  rw [hfill, hsame, evalDepth_eq, heval', hv]

theorem keepsValue_of_source {e : Expr} (hfill : e.fill s a = a.inPlaceOf s e)
    (heval : ∀ s follow, evalWith s follow e =
      evalText s e.span.start (Text.under s.source e.span)) : KeepsValue s a depth e := by
  refine keepsValue_of_text hfill (heval s) fun follow => ?_
  rw [heval, evalText_fill]
  rfl

/-- A class constant whose value is known is the name of a class, or one of the class itself. -/
theorem known_classConstant {follow : String → Option (Except Error Value)} {written name : String}
    {v : Value} (h : evalClassConstant s follow written name = .ok v) (hv : v.isResolved = true) :
    ∃ resolved, scopeClass s written = .ok (some resolved) ∧
      ((Name.sameLetters name "class" = true ∧ v = .string resolved) ∨
        (Name.sameLetters name "class" = false ∧ isOwnClass s written resolved = true ∧
          follow name = some (.ok v))) := by
  obtain ⟨scope, hscope, h⟩ := Error.ok_of_bind h
  cases scope with
  | none =>
    cases h
    cases hv
  | some resolved =>
    refine ⟨resolved, hscope, ?_⟩
    simp only at h
    cases hclass : Name.sameLetters name "class" with
    | true =>
      rw [if_pos hclass] at h
      cases h
      exact .inl ⟨rfl, rfl⟩
    | false =>
      rw [if_neg (by simp [hclass])] at h
      cases hown : isOwnClass s written resolved with
      | false =>
        rw [hown] at h
        cases h
        cases hv
      | true =>
        rw [hown, if_pos rfl] at h
        cases hfollow : follow name with
        | none =>
          rw [hfollow] at h
          cases h
          cases hv
        | some result =>
          rw [hfollow] at h
          exact .inr ⟨rfl, rfl, congrArg some h⟩

theorem evalClassConstant_name {follow : String → Option (Except Error Value)}
    {written name resolved : String} (hscope : scopeClass s written = .ok (some resolved))
    (hname : Name.sameLetters name "class" = true) :
    evalClassConstant s follow written name = .ok (.string resolved) := by
  unfold evalClassConstant
  rw [hscope]
  simp only [bind, Except.bind, hname]
  rfl

theorem evalClassConstant_own {follow : String → Option (Except Error Value)}
    {written name resolved : String} (hscope : scopeClass s written = .ok (some resolved))
    (hname : Name.sameLetters name "class" = false) (hown : isOwnClass s written resolved = true)
    {result : Except Error Value} (hfollow : follow name = some result) :
    evalClassConstant s follow written name = result := by
  unfold evalClassConstant
  rw [hscope]
  simp only [bind, Except.bind, hname, hown, hfollow]
  rfl

theorem keepsValue_classConstant
    (hbelow : ∀ below, depth = below + 1 → ∀ e, KeepsValue s a below e) (span : Span)
    (scope selector : Expr) : KeepsValue s a depth (.classConstant span scope selector) := by
  intro v hv hknown
  rw [evalDepth_classConstant] at hv
  have hfill : ∀ result, s.reference (.classConstant span scope selector) = .ok result →
      result.isResolved = true → (Expr.classConstant span scope selector).fill s a =
        .classConstant span scope selector := by
    intro result hresult hresolved
    simp only [Expr.fill, Assignment.inPlaceOf, hresult, Assignment.expr?_of_isResolved hresolved,
      Option.getD_none]
  have hreference : s.reference (.classConstant span scope selector) =
      evalClassConstant s s.knownLocal (s.textOf scope) (s.textOf selector) := by
    rw [Scope.reference, evalWith]
  obtain ⟨resolved, hscope, ⟨hname, rfl⟩ | ⟨hname, hown, hfollow⟩⟩ := known_classConstant hv hknown
  · left
    rw [hfill _ (hreference.trans (evalClassConstant_name hscope hname)) rfl,
      evalDepth_classConstant]
    exact evalClassConstant_name (s := s.fill a) hscope hname
  · cases depth with
    | zero => cases hfollow
    | succ below =>
      obtain ⟨value, hlocal, hvalue⟩ := Option.map_eq_some_iff.mp hfollow
      have hnull : s.knownLocal (s.textOf selector) = some (.ok .null) := by
        rw [Scope.knownLocal, hlocal]
        rfl
      rw [hfill _ (hreference.trans (evalClassConstant_own hscope hname hown hnull)) rfl]
      rcases hbelow below rfl value v hvalue hknown with hsame | hmisjudges
      · left
        rw [evalDepth_classConstant]
        apply evalClassConstant_own (s := s.fill a) hscope hname hown
        change ((s.fill a).local? (s.textOf selector)).map _ = _
        rw [Scope.local?_fill, hlocal]
        exact congrArg some hsame
      · exact .inr (.inInitialiser hscope hown hlocal hmisjudges)

/-- An operand keeps its value, or evaluation misjudged something in it; one that is not known may
fail. -/
theorem KeepsValue.cases {x : Expr} (h : KeepsValue s a depth x) {v : Value}
    (hx : evalDepth s depth x = .ok v) :
    (∃ v', evalDepth (s.fill a) depth (x.fill s a) = .ok v' ∧ v.Stays v') ∨
      (v.isResolved = false ∧ ∃ e, evalDepth (s.fill a) depth (x.fill s a) = .error e) ∨
      Misjudges s a depth x := by
  cases hknown : v.isResolved with
  | true =>
    rcases h v hx hknown with hsame | hmisjudges
    · exact .inl ⟨v, hsame, fun _ => rfl⟩
    · exact .inr (.inr hmisjudges)
  | false =>
    cases hfilled : evalDepth (s.fill a) depth (x.fill s a) with
    | error e => exact .inr (.inl ⟨rfl, e, rfl⟩)
    | ok v' =>
      refine .inl ⟨v', rfl, fun h => ?_⟩
      rw [hknown] at h
      cases h

theorem Hides.mono {elements others : List ArrayElement} (h : Hides s a depth elements)
    (hsub : elements ⊆ others) : Hides s a depth others := by
  cases h with
  | spread h hx hunknown => exact .spread (hsub h) hx hunknown
  | replaced h hmem hx hunknown hfails => exact .replaced (hsub h) hmem hx hunknown hfails

/-- Evaluation misjudges something in an operand of an element. -/
def MisjudgesElement (s : Scope) (a : Assignment) (depth : Nat) (elements : List ArrayElement) :
    Prop :=
  ∃ element ∈ elements, ∃ x ∈ element.operands, Misjudges s a depth x

theorem MisjudgesElement.mono {elements others : List ArrayElement}
    (h : MisjudgesElement s a depth elements) (hsub : elements ⊆ others) :
    MisjudgesElement s a depth others := by
  obtain ⟨found, hfound, hx⟩ := h
  exact ⟨found, hsub hfound, hx⟩

/-- What one element of an array literal adds to it. -/
def evalElement (s : Scope) (follow : String → Option (Except Error Value)) :
    ArrayElement → Except Error (List Entry)
  | .pair key value => do return [.keyed (← evalWith s follow key) (← evalWith s follow value)]
  | .value value => do return [.append (← evalWith s follow value)]
  | .spread value => do return Entry.spread (← evalWith s follow value)

theorem evalElements_cons (s : Scope) (follow : String → Option (Except Error Value))
    (element : ArrayElement) (rest : List ArrayElement) :
    evalElements s follow (element :: rest) = do
      return (← evalElement s follow element) ++ (← evalElements s follow rest) := by
  cases element <;> simp [evalElements, evalElement]

/-- The element with others in place of the references in it. -/
def Syntax.ArrayElement.fill (s : Scope) (a : Assignment) : ArrayElement → ArrayElement
  | .pair key x => .pair (key.fill s a) (x.fill s a)
  | .value x => .value (x.fill s a)
  | .spread x => .spread (x.fill s a)

theorem fillElements_cons (s : Scope) (a : Assignment) (element : ArrayElement)
    (rest : List ArrayElement) :
    fillElements s a (element :: rest) = element.fill s a :: fillElements s a rest := by
  cases element <;> rw [fillElements] <;> rfl

/-- What an element adds stays as far as it is known, if its key is known and nothing is hidden in
it. -/
theorem element_stays {element : ArrayElement}
    (hoperands : ∀ x ∈ element.operands, KeepsValue s a depth x) {entries : List Entry}
    (h : evalElement s (s.follow depth) element = .ok entries)
    (hkeys : ∀ key v, Entry.keyed key v ∈ entries → key.isResolved = true) :
    (∃ entries', evalElement (s.fill a) ((s.fill a).follow depth) (element.fill s a) =
        .ok entries' ∧ List.Forall₂ Entry.Stays entries entries') ∨
      Hides s a depth [element] ∨ MisjudgesElement s a depth [element] := by
  have hself : element ∈ [element] := List.mem_cons_self
  cases element with
  | pair key x =>
    rw [evalElement, ← evalDepth_eq, ← evalDepth_eq] at h
    obtain ⟨k, hk, h⟩ := Error.ok_of_bind h
    obtain ⟨v, hv, h⟩ := Error.ok_of_bind h
    cases h
    have hkey : key ∈ (ArrayElement.pair key x).operands := List.mem_cons_self
    have hvalue : x ∈ (ArrayElement.pair key x).operands :=
      List.mem_cons_of_mem _ List.mem_cons_self
    rcases hoperands key hkey k hk (hkeys k v List.mem_cons_self) with hk' | hmisjudges
    · rcases (hoperands x hvalue).cases hv with
        ⟨v', hv', hstays⟩ | ⟨hunknown, e, hfails⟩ | hmisjudges
      · refine .inl ⟨[.keyed k v'], ?_, .cons (.keyed k hstays) .nil⟩
        rw [ArrayElement.fill, evalElement, ← evalDepth_eq, ← evalDepth_eq, hk', hv']
        rfl
      · exact .inr (.inl (.replaced hself hvalue hv hunknown hfails))
      · exact .inr (.inr ⟨_, hself, x, hvalue, hmisjudges⟩)
    · exact .inr (.inr ⟨_, hself, key, hkey, hmisjudges⟩)
  | value x =>
    rw [evalElement, ← evalDepth_eq] at h
    obtain ⟨v, hv, h⟩ := Error.ok_of_bind h
    cases h
    have hvalue : x ∈ (ArrayElement.value x).operands := List.mem_cons_self
    rcases (hoperands x hvalue).cases hv with
      ⟨v', hv', hstays⟩ | ⟨hunknown, e, hfails⟩ | hmisjudges
    · refine .inl ⟨[.append v'], ?_, .cons (.append hstays) .nil⟩
      rw [ArrayElement.fill, evalElement, ← evalDepth_eq, hv']
      rfl
    · exact .inr (.inl (.replaced hself hvalue hv hunknown hfails))
    · exact .inr (.inr ⟨_, hself, x, hvalue, hmisjudges⟩)
  | spread x =>
    rw [evalElement, ← evalDepth_eq] at h
    obtain ⟨v, hv, h⟩ := Error.ok_of_bind h
    cases h
    have hvalue : x ∈ (ArrayElement.spread x).operands := List.mem_cons_self
    cases hknown : v.isResolved with
    | false => exact .inr (.inl (.spread hself hv hknown))
    | true =>
      rcases hoperands x hvalue v hv hknown with hv' | hmisjudges
      · refine .inl ⟨Entry.spread v, ?_, List.forall₂_same.mpr fun entry _ => .refl entry⟩
        rw [ArrayElement.fill, evalElement, ← evalDepth_eq, hv']
        rfl
      · exact .inr (.inr ⟨_, hself, x, hvalue, hmisjudges⟩)

/-- The elements of an array literal stay as far as they are known, if their keys are known and
nothing is hidden in them. -/
theorem elements_stay {elements : List ArrayElement}
    (hoperands : ∀ element ∈ elements, ∀ x ∈ element.operands, KeepsValue s a depth x)
    {entries : List Entry} (h : evalElements s (s.follow depth) elements = .ok entries)
    (hkeys : ∀ key v, Entry.keyed key v ∈ entries → key.isResolved = true) :
    (∃ entries', evalElements (s.fill a) ((s.fill a).follow depth) (fillElements s a elements) =
        .ok entries' ∧ List.Forall₂ Entry.Stays entries entries') ∨
      Hides s a depth elements ∨ MisjudgesElement s a depth elements := by
  induction elements generalizing entries with
  | nil =>
    rw [evalElements] at h
    cases h
    exact .inl ⟨[], rfl, .nil⟩
  | cons element rest ih =>
    rw [evalElements_cons] at h
    obtain ⟨own, hown, h⟩ := Error.ok_of_bind h
    obtain ⟨others, hothers, h⟩ := Error.ok_of_bind h
    cases h
    have hfirst : [element] ⊆ element :: rest :=
      List.cons_subset_cons element (List.nil_subset rest)
    have hrest : rest ⊆ element :: rest := List.subset_cons_self element rest
    rcases element_stays (hoperands element List.mem_cons_self) hown
        (fun key v h => hkeys key v (List.mem_append_left _ h)) with
      ⟨own', hown', hstays⟩ | hhides | hmisjudges
    · rcases ih (fun e he => hoperands e (hrest he)) hothers
          (fun key v h => hkeys key v (List.mem_append_right _ h)) with
        ⟨others', hothers', hstay⟩ | hhides | hmisjudges
      · refine .inl ⟨own' ++ others', ?_, List.rel_append hstays hstay⟩
        rw [fillElements_cons, evalElements_cons, hown', hothers']
        rfl
      · exact .inr (.inl (hhides.mono hrest))
      · exact .inr (.inr (hmisjudges.mono hrest))
    · exact .inr (.inl (hhides.mono hfirst))
    · exact .inr (.inr (hmisjudges.mono hfirst))

theorem keepsValue_array {elements : List ArrayElement}
    (hoperands : ∀ element ∈ elements, ∀ x ∈ element.operands, KeepsValue s a depth x)
    (span : Span) : KeepsValue s a depth (.array span elements) := by
  intro v hv hknown
  obtain ⟨entries, hentries, hbuild⟩ := (known_array_iff hknown).mp hv
  have hkeys : ∀ key x, Entry.keyed key x ∈ entries → key.isResolved = true :=
    fun key x h => ArrayBuilder.isResolved_key_of_build hbuild hknown h
  rw [Expr.fill]
  rcases elements_stay hoperands hentries hkeys with ⟨entries', hentries', hstay⟩ | hhides |
    ⟨element, helement, x, hx, hmisjudges⟩
  · have hbuild' := ArrayBuilder.build_of_stays hstay hbuild hknown
    exact .inl ((known_array_iff hknown).mpr ⟨entries', hentries', hbuild'⟩)
  · by_cases hsame : evalDepth (s.fill a) depth (.array span (fillElements s a elements)) = .ok v
    · exact .inl hsame
    · exact .inr (.array hv hknown hhides hsame)
  · exact .inr (.inElement helement hx hmisjudges)

theorem keepsValue_unary {operand : Expr} (h : KeepsValue s a depth operand) (span : Span)
    (op : UnaryOp) : KeepsValue s a depth (.unary span op operand) := by
  intro v hv hknown
  obtain ⟨x, hx, hxknown, hop⟩ := (known_unary_iff hknown).mp hv
  rw [Expr.fill]
  rcases h x hx hxknown with hx' | hmisjudges
  · exact .inl ((known_unary_iff hknown).mpr ⟨x, hx', hxknown, hop⟩)
  · exact .inr (.inOperand hmisjudges)

theorem keepsValue_binary {left right : Expr} (hleft : KeepsValue s a depth left)
    (hright : KeepsValue s a depth right) (span : Span) (op : BinaryOp) :
    KeepsValue s a depth (.binary span op left right) := by
  intro v hv hknown
  obtain ⟨x, hx, hxknown, hresult⟩ := (known_binary_iff hknown).mp hv
  rw [Expr.fill]
  rcases hleft x hx hxknown with hx' | hmisjudges
  · rcases hresult with hleftOnly | ⟨hasked, y, hy, hyknown, hop⟩
    · exact .inl ((known_binary_iff hknown).mpr ⟨x, hx', hxknown, .inl hleftOnly⟩)
    · rcases hright y hy hyknown with hy' | hmisjudges
      · left
        exact (known_binary_iff hknown).mpr ⟨x, hx', hxknown, .inr ⟨hasked, y, hy', hyknown, hop⟩⟩
      · refine .inr (.inRight hx (fun hshort => ?_) hmisjudges)
        exact hasked ⟨hshort.1, hshort.2.1⟩
  · exact .inr (.inLeft hmisjudges)

/-- Of what is not known, only arrays that have elements say whether they are true. -/
theorem array_of_truthy {x : Value} (hunknown : x.isResolved = false) {b : Bool}
    (hb : x.truthy? = some b) : b = true ∧ ∃ items, x = .array items := by
  cases x with
  | array items =>
    cases items with
    | nil => cases hunknown
    | cons item rest => exact ⟨(Option.some.inj hb).symm, _, rfl⟩
  | classConstant | constant | unresolved => cases hb
  | null | bool | int | float | string => cases hunknown

/-- A condition decides the same way, or evaluation misjudges it or something in it. -/
theorem condition_cases {c : Expr} (h : KeepsValue s a depth c) {x : Value}
    (hx : evalDepth s depth c = .ok x) {b : Bool} (hb : x.truthy? = some b) (span : Span)
    (onTrue : Option Expr) (onFalse : Expr) :
    (∃ x', evalDepth (s.fill a) depth (c.fill s a) = .ok x' ∧ x'.truthy? = some b ∧ x.Stays x') ∨
      Misjudges s a depth (.conditional span c onTrue onFalse) := by
  cases hknown : x.isResolved with
  | true =>
    rcases h x hx hknown with hx' | hmisjudges
    · exact .inl ⟨x, hx', hb, fun _ => rfl⟩
    · exact .inr (.inCondition hmisjudges)
  | false =>
    obtain ⟨rfl, items, rfl⟩ := array_of_truthy hknown hb
    by_cases hsame : ∃ x', evalDepth (s.fill a) depth (c.fill s a) = .ok x' ∧
        x'.truthy? = some true
    · obtain ⟨x', hx', hb'⟩ := hsame
      refine .inl ⟨x', hx', hb', fun h => ?_⟩
      rw [hknown] at h
      cases h
    · exact .inr (.condition hx hknown fun x' hx' hb' => hsame ⟨x', hx', hb'⟩)

theorem keepsValue_conditional {c onFalse : Expr} {onTrue : Option Expr}
    (hc : KeepsValue s a depth c) (htrue : ∀ e, onTrue = some e → KeepsValue s a depth e)
    (hfalse : KeepsValue s a depth onFalse) (span : Span) :
    KeepsValue s a depth (.conditional span c onTrue onFalse) := by
  intro v hv hknown
  have hfill : (Expr.conditional span c onTrue onFalse).fill s a =
      .conditional span (c.fill s a) (onTrue.map (·.fill s a)) (onFalse.fill s a) := by
    cases onTrue <;> rw [Expr.fill] <;> rfl
  rw [hfill]
  obtain ⟨x, hx, ⟨hb, rfl, rfl⟩ | ⟨hb, e, rfl, he⟩ | ⟨hb, he⟩⟩ :=
    (known_conditional_iff hknown).mp hv
  · rcases condition_cases hc hx hb span none onFalse with ⟨x', hx', hb', hstays⟩ | hmisjudges
    · have hvalue : v = x' := (hstays hknown).symm
      exact .inl ((known_conditional_iff hknown).mpr ⟨x', hx', .inl ⟨hb', rfl, hvalue⟩⟩)
    · exact .inr hmisjudges
  · rcases condition_cases hc hx hb span (some e) onFalse with ⟨x', hx', hb', -⟩ | hmisjudges
    · rcases htrue e rfl v he hknown with he' | hmisjudges
      · left
        exact (known_conditional_iff hknown).mpr ⟨x', hx', .inr (.inl ⟨hb', _, rfl, he'⟩)⟩
      · exact .inr (.onTrue hx hb hmisjudges)
    · exact .inr hmisjudges
  · rcases condition_cases hc hx hb span onTrue onFalse with ⟨x', hx', hb', -⟩ | hmisjudges
    · rcases hfalse v he hknown with he' | hmisjudges
      · exact .inl ((known_conditional_iff hknown).mpr ⟨x', hx', .inr (.inr ⟨hb', he'⟩)⟩)
      · exact .inr (.onFalse hx hb hmisjudges)
    · exact .inr hmisjudges

mutual

theorem keepsValue_expr (hbelow : ∀ below, depth = below + 1 → ∀ e, KeepsValue s a below e)
    (e : Expr) : KeepsValue s a depth e := by
  cases e with
  | parenthesized span inner =>
    intro v hv hknown
    rw [evalDepth_parenthesized] at hv
    rw [Expr.fill, evalDepth_parenthesized]
    exact (keepsValue_expr hbelow inner v hv hknown).imp_right .inParentheses
  | array span elements => exact keepsValue_array (keepsValue_operands hbelow elements) span
  | unary span op operand => exact keepsValue_unary (keepsValue_expr hbelow operand) span op
  | binary span op left right =>
    exact keepsValue_binary (keepsValue_expr hbelow left) (keepsValue_expr hbelow right) span op
  | conditional span c onTrue onFalse =>
    refine keepsValue_conditional (keepsValue_expr hbelow c) ?_ (keepsValue_expr hbelow onFalse)
      span
    intro e he
    cases onTrue with
    | none => cases he
    | some chosen => exact Option.some.inj he ▸ keepsValue_expr hbelow chosen
  | classConstant span scope selector => exact keepsValue_classConstant hbelow span scope selector
  | string span text value =>
    cases value with
    | none =>
      exact keepsValue_of_text (by simp only [Expr.fill]) (fun _ => by rw [evalWith])
        fun _ => by rw [evalWith]
    | some value =>
      exact keepsValue_of_text (by simp only [Expr.fill]) (fun _ => by rw [evalWith])
        fun _ => by rw [evalWith]
  | leaf span kind text =>
    refine keepsValue_of_text (by simp only [Expr.fill]) (fun _ => by rw [evalWith]) fun _ => ?_
    rw [evalWith, evalText_fill]
  | _ => exact keepsValue_of_source (by simp only [Expr.fill]) fun _ _ => by simp only [evalWith]

theorem keepsValue_operands (hbelow : ∀ below, depth = below + 1 → ∀ e, KeepsValue s a below e)
    (elements : List ArrayElement) :
    ∀ element ∈ elements, ∀ x ∈ element.operands, KeepsValue s a depth x := by
  match elements with
  | [] =>
    intro element helement
    cases helement
  | .pair key value :: rest =>
    intro element helement x hx
    rcases List.mem_cons.mp helement with hfirst | hrest
    · rw [hfirst] at hx
      rcases List.mem_cons.mp hx with hkey | hvalue
      · rw [hkey]
        exact keepsValue_expr hbelow key
      · rw [List.mem_singleton.mp hvalue]
        exact keepsValue_expr hbelow value
    · exact keepsValue_operands hbelow rest element hrest x hx
  | .value inner :: rest | .spread inner :: rest =>
    intro element helement x hx
    rcases List.mem_cons.mp helement with hfirst | hrest
    · rw [hfirst] at hx
      rw [List.mem_singleton.mp hx]
      exact keepsValue_expr hbelow inner
    · exact keepsValue_operands hbelow rest element hrest x hx

end

end Filled

theorem keepsValue (s : Scope) (a : Assignment) (depth : Nat) (e : Expr) :
    KeepsValue s a depth e := by
  induction depth generalizing e with
  | zero => exact keepsValue_expr (fun _ h => by cases h) e
  | succ depth ih =>
    refine keepsValue_expr (fun below h e => ?_) e
    obtain rfl := Nat.succ.inj h
    exact ih e

/-- A value that is known in full stays the same when other expressions are put in place of the
constants that are not known, in the expression itself and in the initialisers of its class, unless
evaluation has misjudged one of these: a condition that is a partly known array, or an array literal
with a spread value that is not known or a replaced value that cannot be evaluated any more. -/
theorem known_value_stays_or_misjudged (s : Scope) (a : Assignment) (e : Expr) (v : Value)
    (h : eval s e = .ok v) (hv : v.isResolved = true) :
    eval (s.fill a) (e.fill s a) = .ok v ∨ Misjudges s a maxSelfDepth e :=
  keepsValue s a maxSelfDepth e v h hv

/-- A class with two constants, the first of which refers to the second and to a constant that is
not known. -/
def twoConstants : Scope where
  source := ""
  lines := .ofText ""
  file := none
  selfClass := some "C"
  parentClass := none
  imports := .empty none
  function := none
  locals :=
    [⟨"A", .binary ⟨0, 0⟩ .coalesce
        (.classConstant ⟨0, 0⟩ (.leaf ⟨0, 0⟩ .name "self") (.leaf ⟨0, 0⟩ .name "B"))
        (.leaf ⟨0, 0⟩ .name "X")⟩,
      ⟨"B", .array ⟨0, 0⟩
        [.pair (.leaf ⟨0, 0⟩ .number "5") (.leaf ⟨0, 0⟩ .name "X"),
          .pair (.leaf ⟨0, 0⟩ .number "5") (.leaf ⟨0, 0⟩ .number "7")]⟩]

/-- An empty array in place of the constant `X`. -/
def emptyForX : Assignment :=
  ⟨fun name => if name = "X" then some (.array ⟨0, 0⟩ []) else none, fun _ _ => none⟩

/-- The class constant `self::A`. -/
def selfA : Expr := .classConstant ⟨0, 0⟩ (.leaf ⟨0, 0⟩ .name "self") (.leaf ⟨0, 0⟩ .name "A")

theorem known_value_stays_or_misjudged_selfA :
    eval twoConstants selfA = .ok (.array [(.int 5, .int 7)]) ∧
      (Value.array [(.int 5, .int 7)]).isResolved = true ∧
      (eval (twoConstants.fill emptyForX) (selfA.fill twoConstants emptyForX) =
          .ok (.array [(.int 5, .int 7)]) ∨
        Misjudges twoConstants emptyForX maxSelfDepth selfA) := by
  have heval : eval twoConstants selfA = .ok (.array [(.int 5, .int 7)]) := by rfl
  have hknown : (Value.array [(.int 5, .int 7)]).isResolved = true := by decide
  exact ⟨heval, hknown, known_value_stays_or_misjudged _ emptyForX selfA _ heval hknown⟩

/-- Every expression that is put in place of a reference has a value that is known, however many
constants of the class itself are followed. -/
def Assignment.Settles (a : Assignment) (s : Scope) : Prop :=
  ∀ value e, a.expr? value = some e →
    ∃ v, v.isResolved = true ∧ ∀ depth, evalDepth (s.fill a) depth e = .ok v

/-- The expression `[...X] ? 1 : 2`. -/
def spreadCondition : Expr :=
  .conditional ⟨0, 14⟩ (.array ⟨0, 6⟩ [.spread (.leaf ⟨4, 5⟩ .name "X")])
    (some (.leaf ⟨9, 10⟩ .number "1")) (.leaf ⟨13, 14⟩ .number "2")

/-- A condition with an unknown spread value counts as true, although there may be nothing in it. -/
theorem known_value_lost_in_spreadCondition :
    ¬ ∀ (s : Scope) (a : Assignment) (e : Expr) (v : Value), a.Settles s → eval s e = .ok v →
      v.isResolved = true → eval (s.fill a) (e.fill s a) = .ok v := by
  intro h
  have hsettles : emptyForX.Settles twoConstants := by
    intro value e he
    cases value with
    | constant name =>
      have hif : (if name = "X" then some (Expr.array ⟨0, 0⟩ []) else none) = some e := he
      split at hif
      · cases hif
        refine ⟨.array [], rfl, fun depth => ?_⟩
        cases depth <;> rfl
      · cases hif
    | _ => cases he
  have hone : eval twoConstants spreadCondition = .ok (.int 1) := by
    have hcondition : evalDepth twoConstants maxSelfDepth
        (.array ⟨0, 6⟩ [.spread (.leaf ⟨4, 5⟩ .name "X")]) =
          .ok (.array [(.int 0, .constant "X")]) := by rfl
    exact (known_conditional_iff rfl).mpr ⟨_, hcondition, .inr (.inl ⟨rfl, _, rfl, by rfl⟩)⟩
  have htwo : eval (twoConstants.fill emptyForX) (spreadCondition.fill twoConstants emptyForX) =
      .ok (.int 2) := by
    have hcondition : evalDepth (twoConstants.fill emptyForX) maxSelfDepth
        ((Expr.array ⟨0, 6⟩ [.spread (.leaf ⟨4, 5⟩ .name "X")]).fill twoConstants emptyForX) =
          .ok (.array []) := by rfl
    exact (known_conditional_iff rfl).mpr ⟨_, hcondition, .inr (.inr ⟨rfl, by rfl⟩)⟩
  have hkept := h twoConstants emptyForX spreadCondition (.int 1) hsettles hone rfl
  rw [htwo] at hkept
  have hint : (2 : Int64) = 1 := Value.int.inj (Except.ok.inj hkept)
  exact absurd hint (by decide)

end StaticReflection
