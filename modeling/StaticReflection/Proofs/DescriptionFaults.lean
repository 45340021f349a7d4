import StaticReflection.Proofs.BuildFaults
import StaticReflection.Proofs.ClosurePlaces
import StaticReflection.Proofs.DeclarationPlaces

/-!
Which declarations of a source cannot be described, and why. An expression has no value only where
the scope lacks the class or the file that it asks for. A class has no description then, unless the
file has a name, since its constants always have a class around them; a constant outside of classes
may miss both; a default of a parameter is kept as text, so functions and closures always have a
description.
-/

namespace StaticReflection

open Syntax

/-- What describing a declaration of a kind can come to, in a source. -/
def Kind.CanGive (source : Source) (r : Except Error Reflection) : Kind → Prop
  | .function => ∃ described, r = .ok described
  | .classLike => (∃ described, r = .ok described) ∨ source.file = none ∧ r = .error .noFileName
  | .constant => (∃ described, r = .ok described) ∨ r = .error .noSelf ∨
      source.file = none ∧ r = .error .noFileName

/-- All that a statement declares has a name. -/
theorem Syntax.Stmt.isSome_declaredName?_of_declares {s : Stmt} {node : DeclNode}
    (h : node ∈ s.declares) : node.declaredName?.isSome := by
  cases s with
  | classLike decl | function decl =>
    rw [Stmt.declares, List.mem_singleton] at h
    subst h
    rfl
  | constant span attributes items =>
    obtain ⟨item, -, rfl⟩ := List.mem_map.mp h
    rfl
  | expression e =>
    rw [Stmt.declares, definedBy_eq_filter] at h
    exact (List.mem_filter.mp h).2
  | _ => cases h

theorem Syntax.Program.isSome_qualifiedName?_of_mem {p : Program} {d : Declaration}
    (h : d ∈ p.declarations) : d.qualifiedName?.isSome := by
  rw [declarations_eq_listing] at h
  obtain ⟨place, -, hplace⟩ := List.mem_flatMap.mp h
  obtain ⟨node, hnode, rfl⟩ := List.mem_map.mp hplace
  have hname := place.stmt.isSome_declaredName?_of_declares hnode
  cases node <;> simp_all [Declaration.qualifiedName?, DeclNode.declaredName?]

theorem canGive_of_function {d : Declaration} (hkind : d.kind = .function) (source : Source)
    (f : FileScope) (mode : BuildMode) : d.kind.CanGive source (buildReflection f d mode) := by
  obtain ⟨node, imports⟩ := d
  cases node with
  | function | closure | arrow => exact ⟨_, rfl⟩
  | classLike | constant | define => cases hkind

theorem canGive_of_mem {source : Source} {p : Program} {d : Declaration} (hd : d ∈ p.declarations)
    (mode : BuildMode) :
    d.kind.CanGive source (buildReflection (source.fileScope p) d mode) := by
  cases hkind : d.kind with
  | function =>
    rw [← hkind]
    exact canGive_of_function hkind source _ mode
  | classLike =>
    obtain ⟨node, imports⟩ := d
    cases node with
    | classLike decl =>
      cases hbuild : buildReflection (source.fileScope p) ⟨.classLike decl, imports⟩ mode with
      | ok r => exact .inl ⟨r, rfl⟩
      | error e =>
        obtain ⟨-, hfile, rfl⟩ := missing_of_buildClass (Error.error_of_map hbuild)
        exact .inr ⟨hfile, rfl⟩
    | function | closure | arrow | constant | define => cases hkind
  | constant =>
    cases hbuild : buildReflection (source.fileScope p) d mode with
    | ok r => exact .inl ⟨r, rfl⟩
    | error e =>
      obtain ⟨-, -, hlacks⟩ := lacks_of_buildReflection (p.isSome_qualifiedName?_of_mem hd) hbuild
      cases hlacks with
      | selfClass => exact .inr (.inl rfl)
      | file hfile => exact .inr (.inr ⟨hfile, rfl⟩)

theorem canGive_of_closure {source : Source} {p : Program} {d : Declaration}
    (hd : d ∈ p.closuresAnywhere) (f : FileScope) (mode : BuildMode) :
    d.kind.CanGive source (buildReflection f d mode) := by
  obtain ⟨o, -, ho⟩ := List.mem_filterMap.mp hd
  refine canGive_of_function ?_ source f mode
  unfold Occurrence.closure? at ho
  split at ho <;> cases ho <;> rfl

/-- Evaluation fails only for a class or a file name that the scope does not have. What is declared
in a source, and each closure anywhere in it, has a description, unless it is a class or a constant
that asks for the name of a file without one, or a constant that asks for a class. -/
theorem faults_of_declarations :
    (∀ (s : Scope) (depth : Nat) (expr : Expr) (e : Error), evalDepth s depth expr = .error e →
      s.Lacks e) ∧
    ∀ (source : Source) (p : Program), source.program = .ok p →
      ∀ d, d ∈ p.declarations ∨ d ∈ p.closuresAnywhere → ∀ mode,
        d.kind.CanGive source (buildReflection (source.fileScope p) d mode) := by
  refine ⟨fun s depth expr e h => lacks_of_evalDepth h, fun source p _ d hd mode => ?_⟩
  rcases hd with hd | hd
  · exact canGive_of_mem hd mode
  · exact canGive_of_closure hd _ mode

/-- A text in which a constant asks for a class where there is none, a default does so too, and a
constant of a class asks for the name of the file. -/
def askingText : String :=
  "<?php\nconst A = self::B;\nfunction f($p = self::B) \x7b\x7d\n" ++
    "class C \x7b const D = [self::E, __DIR__]; \x7d\n"

/-- Without a name of the file, the constant misses a class and the class misses the file; the
function misses nothing. -/
theorem faults_of_declarations_asking :
    ∃ p, (Source.user askingText none).program = .ok p ∧
      ∃ constant ∈ p.declarations, ∃ function ∈ p.declarations, ∃ classLike ∈ p.declarations,
        let f := (Source.user askingText none).fileScope p
        buildReflection f constant .compiled = .error .noSelf ∧
          (∃ r, buildReflection f function .compiled = .ok r) ∧
          buildReflection f classLike .compiled = .error .noFileName := by
  have hrun : ((Source.user askingText none).program.toOption.any fun p =>
      let f := (Source.user askingText none).fileScope p
      p.declarations.any (fun d => d.kind == .constant &&
          match buildReflection f d .compiled with
          | .ok _ | .error .noFileName => false
          | .error _ => true) &&
        p.declarations.any (·.kind == .function) &&
        p.declarations.any fun d =>
          d.kind == .classLike && !(buildReflection f d .compiled).isOk) = true := by
    decide +kernel
  cases hp : (Source.user askingText none).program with
  | error e =>
    rw [hp] at hrun
    cases hrun
  | ok p =>
    rw [hp] at hrun
    simp only [Except.toOption, Option.any_some, Bool.and_eq_true, List.any_eq_true,
      beq_iff_eq] at hrun
    obtain ⟨⟨⟨a, ha, hconstant, hfails⟩, f, hf, hfunction⟩, c, hc, hclass, hclassFails⟩ := hrun
    have hall := faults_of_declarations.2 _ p hp
    have houtcome := hall a (.inl ha) .compiled
    have hok := hall f (.inl hf) .compiled
    have hclassOutcome := hall c (.inl hc) .compiled
    rw [hconstant] at houtcome
    rw [hfunction] at hok
    rw [hclass] at hclassOutcome
    refine ⟨p, rfl, a, ha, f, hf, c, hc, ?_, hok, ?_⟩
    · rcases houtcome with ⟨r, h⟩ | h | ⟨-, h⟩
      · simp [h] at hfails
      · exact h
      · simp [h] at hfails
    · rcases hclassOutcome with ⟨r, h⟩ | ⟨-, h⟩
      · simp [h, Except.isOk, Except.toBool] at hclassFails
      · exact h

end StaticReflection
