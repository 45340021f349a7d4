import StaticReflection.Proofs.SoundAnswers

/-!
Constants that are named without a backslash. Such a name in the value of another constant stays as
it is, whatever the namespace declares and whatever is imported, and following it leads to the
global constant of that name. So the value of the one constant is that of the other, as far as
references are followed, and there is none if there is no such global constant.
-/

namespace StaticReflection

open Syntax

/-- Words that stand for values themselves, in any case. -/
def valueWords : List String :=
  ["true", "false", "null", "__line__", "__file__", "__dir__", "__class__", "__namespace__",
    "__function__", "__method__"]

/-- Whether a text is the name of a constant without a backslash, and is read as nothing else. -/
def isBareConstant (text : String) : Bool :=
  isConstantName text && !Name.isQualified text && (Number.ofLiteral? text).isNone &&
    !valueWords.contains (Name.lower text)

/-- A text that is no such word is a number, or else the name of a constant, or else not known. -/
theorem evalText_of_not_valueWord (s : Scope) (offset : Nat) {text : String}
    (h : Name.lower (Name.stripRoots text) ∉ valueWords) :
    evalText s offset text =
      match Number.ofLiteral? text with
      | some n => .ok (.ofNumber n)
      | none =>
        if isConstantName text then .ok (.constant (s.constantName text))
        else .ok (.unresolved text) := by
  unfold evalText
  split
  case h_11 => rfl
  all_goals
    rename_i hlower
    exact absurd (by simp [hlower, valueWords]) h

theorem evalText_bare (s : Scope) (offset : Nat) {text : String} (h : isBareConstant text = true) :
    evalText s offset text = .ok (.constant text) := by
  unfold isBareConstant at h
  simp only [Bool.and_eq_true, Bool.not_eq_true', Option.isNone_iff_eq_none] at h
  obtain ⟨⟨⟨hname, hbare⟩, hnumber⟩, hword⟩ := h
  have hnone : Name.lower (Name.stripRoots text) ∉ valueWords := by
    rwa [Name.stripRoots_of_not_isQualified hbare, ← List.contains_iff_mem, Bool.not_eq_true]
  rw [evalText_of_not_valueWord s offset hnone, hnumber]
  simp only [hname, if_true, Scope.constantName, hbare]
  rfl

theorem eval_bare (s : Scope) {e : Expr} {span : Span} {kind : LeafKind} {text target : String}
    (he : e = .leaf span kind text)
    (htext : String.ofList (Text.trim Text.isBlank text.toList) = target)
    (hbare : isBareConstant target = true) : eval s e = .ok (.constant target) := by
  rw [he, eval, maxSelfDepth, evalDepth, evalWith, htext]
  exact evalText_bare s _ hbare

/-- What a `const` statement declares has the value of its expression. -/
theorem value_of_buildConstant {f : FileScope} {d : Declaration} {span : Span} {item : ConstItem}
    (hnode : d.node = .constant span item) {c : ConstantReflection}
    (hc : buildReflection f d .compiled = .ok (.constant c)) :
    ∃ v, eval (f.scope d.imports) item.value = .ok v ∧ c.value = some v ∧
      c.valueText = (f.scope d.imports).textOf item.value := by
  obtain ⟨node, imports⟩ := d
  obtain rfl : node = .constant span item := hnode
  obtain ⟨built, hbuilt, hsame⟩ := Error.ok_of_bind hc
  cases hsame
  obtain ⟨value, hvalue, hbuilt⟩ := Error.ok_of_bind
    (r := buildValue f imports (some item.value) .compiled) hbuilt
  cases hbuilt
  obtain ⟨v, hv, hsome⟩ := Error.ok_of_bind (r := eval (f.scope imports) item.value) hvalue
  cases hsome
  exact ⟨v, hv, rfl, rfl⟩

/-- A `const` statement can be described where its expression can be evaluated. -/
theorem exists_constant_of_eval {f : FileScope} {d : Declaration} {span : Span} {item : ConstItem}
    (hnode : d.node = .constant span item) {v : Value}
    (h : eval (f.scope d.imports) item.value = .ok v) :
    ∃ c, buildReflection f d .compiled = .ok (.constant c) ∧
      c.name = Name.qualify d.imports.space item.name := by
  obtain ⟨node, imports⟩ := d
  obtain rfl : node = .constant span item := hnode
  have hvalue : buildValue f imports (some item.value) .compiled = .ok (some v) := by
    rw [buildValue, h]
    rfl
  have hconstant : buildConstant f imports (.constant span item) .compiled =
      (buildValue f imports (some item.value) .compiled).map fun value =>
        ⟨Name.qualify imports.space item.name, value, (f.scope imports).textOf item.value, false,
          f.place span, f.source⟩ := by
    unfold buildConstant
    simp only [bind, Except.bind, pure, Except.pure]
    cases buildValue f imports (some item.value) .compiled <;> rfl
  refine ⟨⟨Name.qualify imports.space item.name, some v, (f.scope imports).textOf item.value,
    false, f.place span, f.source⟩, ?_, rfl⟩
  change (buildConstant f imports (.constant span item) .compiled).map _ = _
  rw [hconstant, hvalue]
  rfl

/-- In compiled mode every constant has a value. -/
theorem isSome_value_of_build {f : FileScope} {d : Declaration} {c : ConstantReflection}
    (hc : buildReflection f d .compiled = .ok (.constant c)) : c.value.isSome := by
  obtain ⟨node, imports⟩ := d
  cases node with
  | constant span item =>
    obtain ⟨v, -, hv, -⟩ := value_of_buildConstant rfl hc
    rw [hv]
    rfl
  | define span callee name value =>
    obtain ⟨built, hbuilt, hsame⟩ := Error.ok_of_bind hc
    cases hsame
    cases name with
    | none => cases hbuilt
    | some name =>
      obtain ⟨result, hresult, hbuilt⟩ := Error.ok_of_bind
        (r := buildValue f imports value .compiled) hbuilt
      cases hbuilt
      cases value with
      | none =>
        cases hresult
        rfl
      | some e =>
        obtain ⟨v, -, hsome⟩ := Error.ok_of_bind (r := eval (f.scope imports) e) hresult
        cases hsome
        rfl
  | classLike | function | closure | arrow => cases Reflection.kind_of_build hc

/-- A constant whose value is the bare name of another refers to that, wherever it stands. -/
theorem value_of_bare {f : FileScope} {d : Declaration} {span inner : Span} {item : ConstItem}
    {kind : LeafKind} {text target : String} (hnode : d.node = .constant span item)
    (hvalue : item.value = .leaf inner kind text)
    (htext : String.ofList (Text.trim Text.isBlank text.toList) = target)
    (hbare : isBareConstant target = true) {c : ConstantReflection}
    (hc : buildReflection f d .compiled = .ok (.constant c)) :
    c.value = some (.constant target) ∧ c.valueText = target := by
  obtain ⟨v, hv, hsome, htextOf⟩ := value_of_buildConstant hnode hc
  rw [eval_bare (f.scope d.imports) hvalue htext hbare] at hv
  cases hv
  refine ⟨hsome, ?_⟩
  rw [htextOf, hvalue]
  exact htext

namespace Reflectors

variable {r : Reflectors}

/-- More references may be followed than there are. -/
theorem follow_succ {steps : Nat} {v : Value} {s : Session}
    (h : ((r.follow steps v).start s).1 ≠ .ok none) :
    (r.follow (steps + 1) v).start s = (r.follow steps v).start s := by
  induction steps generalizing v s with
  | zero => exact absurd rfl h
  | succ steps ih =>
    have hnext (m : Lookup Value) (hm : ((m >>= r.follow steps).start s).1 ≠ .ok none) :
        (m >>= r.follow (steps + 1)).start s = (m >>= r.follow steps).start s := by
      rw [Lookup.start_bind] at hm ⊢
      rw [Lookup.start_bind]
      rcases hvalue : m.start s with ⟨e | value, t⟩
      · rfl
      · rw [hvalue] at hm
        exact ih hm
    cases v with
    | constant name => exact hnext (r.constantValue name) h
    | classConstant scope name => exact hnext (r.classConstantValue scope name) h
    | _ => rfl

/-- The value of a constant that was evaluated, after following references. -/
theorem start_resolveValue {c : ConstantReflection} {v : Value} (hv : c.value = some v)
    (s : Session) :
    (r.resolveValue c).start s =
      (((r.follow maxReferences v).start s).1.map (·.getD (.unresolved c.valueText)),
        ((r.follow maxReferences v).start s).2) := by
  unfold resolveValue
  rw [hv]
  simp only [Lookup.start_bind, Lookup.start_pure]
  rcases (r.follow maxReferences v).start s with ⟨e | w, t⟩ <;> rfl

theorem start_constantValue (name : String) (s : Session) :
    (r.constantValue name).start s =
      (((r.reflectConstant name).start s).1.map (·.value.getD .null),
        ((r.reflectConstant name).start s).2) := by
  unfold constantValue
  simp only [Lookup.start_bind]
  rcases (r.reflectConstant name).start s with ⟨e | c, t⟩ <;> rfl

/-- What is reflected has the letters of the name that was asked for, and in compiled mode it has a
value. -/
theorem ensures_reflectConstant (hl : r.locator.SearchesByName) (hmode : r.mode = .compiled)
    (name : String) :
    (r.reflectConstant name).Ensures (Session.Sound r.rules)
      (fun e => SearchFails .compiled .constant e ∨
        e = .identifierNotFound (.make r.rules .constant name))
      fun c => Name.lower (Name.stripRoots c.name) = Name.lower (Name.stripRoots name) ∧
        c.value.isSome := by
  have hlocate : (r.locate Kind.constant.asker (.make r.rules .constant name)).Ensures
      (Session.Sound r.rules) (fun e => SearchFails .compiled .constant e ∨
        e = .identifierNotFound (.make r.rules .constant name))
      fun found => ∀ f ∈ found, f.FitsKey r.rules .compiled .constant
        (Identifier.make r.rules .constant name).key :=
    (ensures_locate hl r.mode .constant .constant name).mono (fun e he => .inl (hmode ▸ he))
      fun found h f hf => hmode ▸ h f hf
  have hreflect : (r.reflect .constant name).Ensures (Session.Sound r.rules)
      (fun e => SearchFails .compiled .constant e ∨
        e = .identifierNotFound (.make r.rules .constant name))
      fun found => found.FitsKey r.rules .compiled .constant
        (Identifier.make r.rules .constant name).key := by
    apply hlocate.bind
    intro answer hanswer
    cases answer with
    | none => exact Lookup.ensures_throw (.inr rfl)
    | some found =>
      have hfits : found.FitsKey r.rules .compiled .constant
          (Identifier.make r.rules .constant name).key := hanswer found rfl
      have hkind : found.reflection.kind = .constant := by
        obtain ⟨other, -, hfits⟩ := hfits
        exact hfits.kind_eq
      unfold ofKind
      simp only [if_pos hkind]
      exact Lookup.ensures_pure hfits
  apply hreflect.bind
  rintro ⟨number, reflection⟩ ⟨other, hkey, hfits⟩
  cases reflection with
  | classLike | function => cases hfits.kind_eq
  | constant c =>
    refine Lookup.ensures_pure ⟨?_, ?_⟩
    · have hfolded := congrArg Name.lower ((eq_of_beq hfits.accepts).trans hkey)
      rw [Folding.lower_apply, Identifier.key, Folding.lower_apply] at hfolded
      rw [← Name.stripRoots_stripRoot name]
      exact hfolded
    · obtain ⟨f, d, hbuilt⟩ := hfits.built
      exact isSome_value_of_build hbuilt

/-- An outcome is that of resolving the global constant of a name. -/
structure FollowsGlobal (r : Reflectors) (name : String) (s : Session)
    (outcome : Except Error Value × Session) : Prop where
  /-- Where that constant cannot be reflected, the failure is passed on. It names the constant, or
  it has other reasons than that there is none. -/
  fails : ∀ e t, (r.reflectConstant name).start s = (.error e, t) → outcome = (.error e, t) ∧
    (e = .identifierNotFound (.make r.rules .constant name) ∨ e.isNotFound = false)
  /-- What is reflected is in the global namespace, and has the value that is found, unless too many
  references follow: then the name itself is all that is left. -/
  follows : ∀ c t, (r.reflectConstant name).start s = (.ok c, t) →
    Name.sameLetters (Name.stripRoots c.name) name = true ∧
      Name.isQualified (Name.stripRoots c.name) = false ∧
      (outcome = (r.resolveValue c).start t ∨
        outcome.1 = .ok (.unresolved name) ∧
          ((r.follow (maxReferences - 1) (c.value.getD .null)).start t).1 = .ok none)

/-- One reference is followed to the global constant, and the others from there. -/
theorem followsGlobal_of_value (hl : r.locator.SearchesByName) (hmode : r.mode = .compiled)
    {s : Session} (hs : s.Sound r.rules) {name : String} (hname : Name.isQualified name = false)
    {c : ConstantReflection} (hvalue : c.value = some (.constant name))
    (htext : c.valueText = name) : r.FollowsGlobal name s ((r.resolveValue c).start s) := by
  obtain ⟨-, hfault, hgood⟩ := ensures_reflectConstant hl hmode name s hs
  have hstart := start_resolveValue (r := r) hvalue s
  rw [maxReferences, follow, Lookup.start_bind, start_constantValue, htext] at hstart
  constructor
  · intro e t hreflect
    rw [hreflect] at hstart hfault
    refine ⟨hstart, (hfault e rfl).symm.imp_right fun hsearch => ?_⟩
    rcases hsearch with hsearch | ⟨-, -, hbuild⟩
    · exact (Error.other_of_isSearchFault hsearch).1
    · rcases Error.eq_of_isBuildFault hbuild with rfl | rfl <;> rfl
  · intro g t hreflect
    rw [hreflect] at hstart hgood
    obtain ⟨hletters, hsome⟩ := hgood g rfl
    rw [Name.stripRoots_of_not_isQualified hname] at hletters
    refine ⟨beq_of_eq hletters, ?_, ?_⟩
    · rw [← Name.isQualified_lower, hletters, Name.isQualified_lower, hname]
    · obtain ⟨v, hv⟩ := Option.isSome_iff_exists.mp hsome
      have hresolve := start_resolveValue (r := r) hv t
      rw [hv, Option.getD_some]
      change _ = (((r.follow 31 (g.value.getD .null)).start t).1.map
        (·.getD (.unresolved name)), ((r.follow 31 (g.value.getD .null)).start t).2) at hstart
      rw [hv, Option.getD_some] at hstart
      by_cases hended : ((r.follow 31 v).start t).1 = .ok none
      · right
        rw [hstart, hended]
        exact ⟨rfl, hended⟩
      · left
        rw [hstart, hresolve, maxReferences, follow_succ hended]
        rcases hfollow : (r.follow 31 v).start t with ⟨e | w, u⟩
        · rfl
        · cases w with
          | none =>
            rw [hfollow] at hended
            exact absurd rfl hended
          | some w => rfl

/-- The value of a constant that is declared by the bare name of another is that of the global
constant of this name, or there is none if there is no such constant. Neither the namespace of the
declaration nor its imports matter. -/
theorem resolveValue_of_bare (r : Reflectors) (hl : r.locator.SearchesByName)
    (hmode : r.mode = .compiled) (files : FileTree) (requests : List Request) {f : FileScope}
    {d : Declaration} {span inner : Span} {item : ConstItem} {kind : LeafKind} {text name : String}
    (hnode : d.node = .constant span item) (hvalue : item.value = .leaf inner kind text)
    (htext : String.ofList (Text.trim Text.isBlank text.toList) = name)
    (hbare : isBareConstant name = true) {c : ConstantReflection}
    (hc : buildReflection f d .compiled = .ok (.constant c)) :
    r.FollowsGlobal name (r.sessionAfter requests (.start files))
      ((r.resolveValue c).start (r.sessionAfter requests (.start files))) := by
  have hsound := sound_sessionAfter hl (Session.sound_start r.rules files) requests
  obtain ⟨hsome, htextOf⟩ := value_of_bare hnode hvalue htext hbare hc
  have hname : Name.isQualified name = false := by
    unfold isBareConstant at hbare
    simp only [Bool.and_eq_true, Bool.not_eq_true'] at hbare
    exact hbare.1.1.2
  exact followsGlobal_of_value hl hmode hsound hname hsome htextOf

/-- The value of the constant of a name, after following references. -/
def resolve (r : Reflectors) (name : String) : Lookup Value := do
  r.resolveValue (← r.reflectConstant name)

/-- Reflectors over a text in which a constant refers to another one of its namespace, by its bare
name. -/
def sameNamespace : Reflectors :=
  ⟨.text "<?php namespace N; const A = 1; const B = A;", .compiled, .standard, true⟩

/-- Reflectors over a text in which a constant refers to an imported one, by its alias. -/
def imported : Reflectors :=
  ⟨.text ("<?php namespace M \x7b const C = 7; \x7d " ++
      "namespace N \x7b use const M\\C as A; const B = A; \x7d " ++
      "namespace \x7b const A = 3; \x7d"), .compiled, .standard, true⟩

/-- The declaration of `N\B` in either text. -/
def bareDeclaration : Declaration :=
  ⟨.constant ⟨0, 0⟩ ⟨"B", .leaf ⟨0, 0⟩ .name "A"⟩, .empty (some "N")⟩

def bareScope : FileScope := ⟨.user "" none, .ofText "", []⟩

/-- The failure of an outcome. -/
def failure? {α : Type} : Except Error α → Option Error
  | .ok _ => none
  | .error e => some e

theorem resolveValue_of_bare_bareDeclaration :
    ∃ c, buildReflection bareScope bareDeclaration .compiled = .ok (.constant c) ∧
      c.name = "N\\B" ∧ isBareConstant "A" = true ∧
      sameNamespace.FollowsGlobal "A" (.start .empty)
        ((sameNamespace.resolveValue c).start (.start .empty)) ∧
      imported.FollowsGlobal "A" (.start .empty)
        ((imported.resolveValue c).start (.start .empty)) := by
  have hbare : isBareConstant "A" = true := by decide +kernel
  have htext : String.ofList (Text.trim Text.isBlank "A".toList) = "A" := by decide +kernel
  have heval : eval (bareScope.scope bareDeclaration.imports) (.leaf ⟨0, 0⟩ .name "A") =
      .ok (.constant "A") := eval_bare _ rfl htext hbare
  have hnode : bareDeclaration.node = .constant ⟨0, 0⟩ ⟨"B", .leaf ⟨0, 0⟩ .name "A"⟩ := rfl
  obtain ⟨c, hc, hname⟩ := exists_constant_of_eval hnode heval
  have hqualified : Name.qualify bareDeclaration.imports.space "B" = "N\\B" := by decide +kernel
  refine ⟨c, hc, hname.trans hqualified, hbare, ?_, ?_⟩
  · exact resolveValue_of_bare sameNamespace (.text _) rfl .empty [] hnode rfl htext hbare hc
  · exact resolveValue_of_bare imported (.text _) rfl .empty [] hnode rfl htext hbare hc

/-- The constant of the same namespace is passed over, and so is the imported one. -/
theorem resolve_passes_over_namespace :
    ((sameNamespace.resolve "N\\A").start (.start .empty)).1.toOption.map (·.exported) =
        some "1" ∧
      failure? ((sameNamespace.resolve "N\\B").start (.start .empty)).1 =
        some (.identifierNotFound (.make .standard .constant "A")) ∧
      ((imported.resolve "M\\C").start (.start .empty)).1.toOption.map (·.exported) =
        some "7" ∧
      ((imported.resolve "N\\B").start (.start .empty)).1.toOption.map (·.exported) =
        some "3" := by
  decide +kernel

end Reflectors

end StaticReflection
