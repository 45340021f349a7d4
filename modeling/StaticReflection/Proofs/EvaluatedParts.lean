import Mathlib.Logic.Relation
import StaticReflection.Proofs.UnknownConstants

/-!
Which parts of an expression are evaluated. Evaluation goes through parentheses, elements and
operands, passes over what a short cut or a condition leaves out, and stops at the first failure. It
ends in tips: literals, names and class constants. What an expression comes to depends on the tips
that evaluation reaches, and on nothing else.
-/

namespace StaticReflection

open Syntax

/-- Whether an expression is evaluated by itself and not through parts of it. -/
def Syntax.Expr.isTip : Expr → Bool
  | .parenthesized .. | .array .. | .unary .. | .binary .. | .conditional .. => false
  | _ => true

/-- `EvaluatesNext s follow e x`: evaluation of `e` evaluates `x`, which is directly below it. -/
inductive EvaluatesNext (s : Scope) (follow : String → Option (Except Error Value)) :
    Expr → Expr → Prop
  | inner {span : Span} {x : Expr} : EvaluatesNext s follow (.parenthesized span x) x
  /-- Elements are evaluated in order, as long as none fails. -/
  | element {span : Span} {elements : List ArrayElement} {before after : List Expr} {x : Expr}
      (hsplit : elements.flatMap (·.operands) = before ++ x :: after)
      (hbefore : ∀ y ∈ before, ∃ v, evalWith s follow y = .ok v) :
      EvaluatesNext s follow (.array span elements) x
  | operand {span : Span} {op : UnaryOp} {x : Expr} : EvaluatesNext s follow (.unary span op x) x
  | left {span : Span} {op : BinaryOp} {x right : Expr} :
      EvaluatesNext s follow (.binary span op x right) x
  | right {span : Span} {op : BinaryOp} {left x : Expr} {v : Value}
      (hleft : evalWith s follow left = .ok v)
      (hasked : ¬ (op = .coalesce ∧ v.same .null = false ∧ v.isResolved = true)) :
      EvaluatesNext s follow (.binary span op left x) x
  | condition {span : Span} {x : Expr} {onTrue : Option Expr} {onFalse : Expr} :
      EvaluatesNext s follow (.conditional span x onTrue onFalse) x
  | onTrue {span : Span} {c x onFalse : Expr} {v : Value} (hc : evalWith s follow c = .ok v)
      (hb : v.truthy? = some true) :
      EvaluatesNext s follow (.conditional span c (some x) onFalse) x
  | onFalse {span : Span} {c : Expr} {onTrue : Option Expr} {x : Expr} {v : Value}
      (hc : evalWith s follow c = .ok v) (hb : v.truthy? = some false) :
      EvaluatesNext s follow (.conditional span c onTrue x) x

/-- Evaluation of the first expression evaluates the second, which is the first itself or somewhere
below it. -/
def Evaluates (s : Scope) (follow : String → Option (Except Error Value)) : Expr → Expr → Prop :=
  Relation.ReflTransGen (EvaluatesNext s follow)

/-! ### Values depend on the tips that are evaluated -/

section Agreement

variable {s s' : Scope} {follow follow' : String → Option (Except Error Value)}

/-- Two evaluations agree on an expression if they agree on the tips that the first one evaluates
in it. -/
def AgreesByTips (s s' : Scope) (follow follow' : String → Option (Except Error Value))
    (e : Expr) : Prop :=
  (∀ x, Evaluates s follow e x → x.isTip = true → evalWith s' follow' x = evalWith s follow x) →
    evalWith s' follow' e = evalWith s follow e

theorem AgreesByTips.next {e x : Expr} (h : AgreesByTips s s' follow follow' x)
    (hnext : EvaluatesNext s follow e x)
    (htips : ∀ y, Evaluates s follow e y → y.isTip = true →
      evalWith s' follow' y = evalWith s follow y) :
    evalWith s' follow' x = evalWith s follow x :=
  h fun y hy => htips y (Relation.ReflTransGen.head hnext hy)

theorem evalElement_congr {element : ArrayElement}
    (h : ∀ before x after, element.operands = before ++ x :: after →
      (∀ y ∈ before, ∃ v, evalWith s follow y = .ok v) →
        evalWith s' follow' x = evalWith s follow x) :
    evalElement s' follow' element = evalElement s follow element := by
  cases element with
  | pair key value =>
    rw [evalElement, evalElement, h [] key [value] rfl (by simp)]
    cases hkey : evalWith s follow key with
    | error e => rfl
    | ok k =>
      have hbefore : ∀ y ∈ [key], ∃ v, evalWith s follow y = .ok v := by
        intro y hy
        rw [List.mem_singleton.mp hy]
        exact ⟨k, hkey⟩
      rw [h [key] value [] rfl hbefore]
  | value x => rw [evalElement, evalElement, h [] x [] rfl (by simp)]
  | spread x => rw [evalElement, evalElement, h [] x [] rfl (by simp)]

/-- Where an element has a value, all it evaluates has one. -/
theorem ok_of_evalElement {element : ArrayElement} {entries : List Entry}
    (h : evalElement s follow element = .ok entries) :
    ∀ x ∈ element.operands, ∃ v, evalWith s follow x = .ok v := by
  cases element with
  | pair key value =>
    obtain ⟨k, hk, h⟩ := Error.ok_of_bind h
    obtain ⟨v, hv, -⟩ := Error.ok_of_bind h
    simp [ArrayElement.operands, hk, hv]
  | value x =>
    obtain ⟨v, hv, -⟩ := Error.ok_of_bind h
    simp [ArrayElement.operands, hv]
  | spread x =>
    obtain ⟨v, hv, -⟩ := Error.ok_of_bind h
    simp [ArrayElement.operands, hv]

theorem evalElements_congr {elements : List ArrayElement}
    (h : ∀ before x after, elements.flatMap (·.operands) = before ++ x :: after →
      (∀ y ∈ before, ∃ v, evalWith s follow y = .ok v) →
        evalWith s' follow' x = evalWith s follow x) :
    evalElements s' follow' elements = evalElements s follow elements := by
  induction elements with
  | nil => rfl
  | cons element rest ih =>
    have hfirst : evalElement s' follow' element = evalElement s follow element := by
      refine evalElement_congr fun before x after hsplit hbefore => ?_
      refine h before x (after ++ rest.flatMap (·.operands)) ?_ hbefore
      rw [List.flatMap_cons, hsplit, List.append_assoc, List.cons_append]
    rw [evalElements_cons, evalElements_cons, hfirst]
    cases helement : evalElement s follow element with
    | error e => rfl
    | ok entries =>
      have hrest := ih fun before x after hsplit hbefore => by
        refine h (element.operands ++ before) x after ?_ ?_
        · rw [List.flatMap_cons, hsplit, List.append_assoc]
        · intro y hy
          rcases List.mem_append.mp hy with hy | hy
          · exact ok_of_evalElement helement y hy
          · exact hbefore y hy
      rw [hrest]

theorem AgreesByTips.parenthesized {inner : Expr} (h : AgreesByTips s s' follow follow' inner)
    (span : Span) : AgreesByTips s s' follow follow' (.parenthesized span inner) := by
  intro htips
  rw [evalWith, evalWith]
  exact h.next .inner htips

theorem AgreesByTips.array (hsource : s'.source = s.source) {elements : List ArrayElement}
    (h : ∀ x ∈ elements.flatMap (·.operands), AgreesByTips s s' follow follow' x) (span : Span) :
    AgreesByTips s s' follow follow' (.array span elements) := by
  intro htips
  have helements : evalElements s' follow' elements = evalElements s follow elements :=
    evalElements_congr fun before x after hsplit hbefore =>
      (h x (by rw [hsplit]; simp)).next (.element hsplit hbefore) htips
  rw [evalWith, evalWith, helements, hsource]

theorem AgreesByTips.unary (hsource : s'.source = s.source) {operand : Expr}
    (h : AgreesByTips s s' follow follow' operand) (span : Span) (op : UnaryOp) :
    AgreesByTips s s' follow follow' (.unary span op operand) := by
  intro htips
  rw [evalWith, evalWith, h.next .operand htips, hsource]

theorem AgreesByTips.binary (hsource : s'.source = s.source) {left right : Expr}
    (hl : AgreesByTips s s' follow follow' left) (hr : AgreesByTips s s' follow follow' right)
    (span : Span) (op : BinaryOp) :
    AgreesByTips s s' follow follow' (.binary span op left right) := by
  intro htips
  rw [evalWith, evalWith, hl.next .left htips, hsource]
  cases hleft : evalWith s follow left with
  | error e => rfl
  | ok v =>
    simp only [bind, Except.bind]
    split
    · rfl
    · rename_i hasked
      rw [hr.next (.right hleft hasked) htips]

theorem AgreesByTips.conditional (hsource : s'.source = s.source) {c onFalse : Expr}
    {onTrue : Option Expr} (hcondition : AgreesByTips s s' follow follow' c)
    (htrue : ∀ e, onTrue = some e → AgreesByTips s s' follow follow' e)
    (hfalse : AgreesByTips s s' follow follow' onFalse) (span : Span) :
    AgreesByTips s s' follow follow' (.conditional span c onTrue onFalse) := by
  intro htips
  rw [evalWith, evalWith, hcondition.next .condition htips, hsource]
  cases hc : evalWith s follow c with
  | error e => rfl
  | ok v =>
    simp only [bind, Except.bind]
    split
    · rename_i hb
      cases onTrue with
      | none => rfl
      | some chosen => exact (htrue chosen rfl).next (.onTrue hc hb) htips
    · rename_i hb
      exact hfalse.next (.onFalse hc hb) htips
    · rfl

mutual

/-- In one source text, what an expression comes to depends on the tips alone that are evaluated. -/
theorem agreesByTips (hsource : s'.source = s.source) (e : Expr) :
    AgreesByTips s s' follow follow' e := by
  cases e with
  | parenthesized span inner => exact (agreesByTips hsource inner).parenthesized span
  | array span elements => exact .array hsource (agreesByTips_operands hsource elements) span
  | unary span op operand => exact .unary hsource (agreesByTips hsource operand) span op
  | binary span op left right =>
    exact .binary hsource (agreesByTips hsource left) (agreesByTips hsource right) span op
  | conditional span c onTrue onFalse =>
    refine .conditional hsource (agreesByTips hsource c) ?_ (agreesByTips hsource onFalse) span
    intro e he
    cases onTrue with
    | none => cases he
    | some chosen => exact Option.some.inj he ▸ agreesByTips hsource chosen
  | _ => exact fun htips => htips _ .refl rfl

theorem agreesByTips_operands (hsource : s'.source = s.source) (elements : List ArrayElement) :
    ∀ x ∈ elements.flatMap (·.operands), AgreesByTips s s' follow follow' x := by
  match elements with
  | [] =>
    intro x hx
    cases hx
  | .pair key value :: rest =>
    intro x hx
    rcases List.mem_append.mp hx with hx | hx
    · rcases List.mem_cons.mp hx with hkey | hvalue
      · rw [hkey]
        exact agreesByTips hsource key
      · rw [List.mem_singleton.mp hvalue]
        exact agreesByTips hsource value
    · exact agreesByTips_operands hsource rest x hx
  | .value inner :: rest | .spread inner :: rest =>
    intro x hx
    rcases List.mem_append.mp hx with hx | hx
    · rw [List.mem_singleton.mp hx]
      exact agreesByTips hsource inner
    · exact agreesByTips_operands hsource rest x hx

end

end Agreement

/-! ### Tips on paper

What evaluation reaches stands in the expression. -/

mutual

/-- The tips that stand in an expression where they may be evaluated, in source order. -/
def Syntax.Expr.tips : Expr → List Expr
  | .parenthesized _ x | .unary _ _ x => x.tips
  | .array _ elements => tipsOf elements
  | .binary _ _ left right => left.tips ++ right.tips
  | .conditional _ c onTrue onFalse =>
    match onTrue with
    | some e => c.tips ++ e.tips ++ onFalse.tips
    | none => c.tips ++ onFalse.tips
  | e => [e]

def tipsOf : List ArrayElement → List Expr
  | [] => []
  | .pair key value :: rest => key.tips ++ value.tips ++ tipsOf rest
  | .value value :: rest | .spread value :: rest => value.tips ++ tipsOf rest

end

theorem tips_of_isTip {e : Expr} (h : e.isTip = true) : e.tips = [e] := by
  cases e with
  | parenthesized | array | unary | binary | conditional => cases h
  | _ => simp only [Expr.tips]

theorem tips_subset_of_mem {elements : List ArrayElement} {x : Expr}
    (hx : x ∈ elements.flatMap (·.operands)) : x.tips ⊆ tipsOf elements := by
  induction elements with
  | nil => cases hx
  | cons element rest ih =>
    rw [List.flatMap_cons, List.mem_append] at hx
    cases element with
    | pair key value =>
      rw [tipsOf]
      rcases hx with hx | hx
      · rcases List.mem_cons.mp hx with rfl | hx
        · simp
        · rw [List.mem_singleton.mp hx]
          simp
      · exact List.subset_append_of_subset_right _ (ih hx)
    | value inner | spread inner =>
      rw [tipsOf]
      rcases hx with hx | hx
      · rw [List.mem_singleton.mp hx]
        simp
      · exact List.subset_append_of_subset_right _ (ih hx)

theorem tips_subset_of_evaluates {s : Scope} {follow : String → Option (Except Error Value)}
    {e x : Expr} (h : Evaluates s follow e x) : x.tips ⊆ e.tips := by
  induction h with
  | refl => exact List.Subset.refl _
  | tail _ hnext ih =>
    refine List.Subset.trans ?_ ih
    cases hnext with
    | element hsplit _ =>
      rw [Expr.tips]
      exact tips_subset_of_mem (by rw [hsplit]; simp)
    | @condition _ _ onTrue _ | @onFalse _ _ onTrue _ _ _ _ =>
      cases onTrue <;> simp [Expr.tips]
    | _ => simp [Expr.tips]

end StaticReflection
