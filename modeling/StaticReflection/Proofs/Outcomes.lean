import StaticReflection.Proofs.AlikeLookups
import StaticReflection.Proofs.BuildFaults
import StaticReflection.Proofs.DeclaredNames

/-!
What a lookup can come to. A lookup is described by a condition on sessions that it keeps, by the
failures it can have, and by what it gives where it succeeds. A search of a source text gives a
declaration of the kind and the name that were asked for. It fails where files and texts cannot be
read, or where a description needs a class or file name that is missing; it never fails because
nothing is found.
-/

namespace StaticReflection

open Syntax

/-- Whether files or texts could not be read. -/
def Error.isSearchFault : Error → Bool
  | .parseFailure .. | .invalidFileLocation .. | .invalidDirectory .. | .unreadable .. => true
  | _ => false

/-- Whether a value could not be evaluated where it stands. -/
def Error.isBuildFault : Error → Bool
  | .noSelf | .noFileName => true
  | _ => false

theorem Error.eq_of_isBuildFault {e : Error} (h : e.isBuildFault = true) :
    e = .noSelf ∨ e = .noFileName := by
  cases e with
  | noSelf => exact .inl rfl
  | noFileName => exact .inr rfl
  | _ => cases h

theorem Error.other_of_isSearchFault {e : Error} (h : e.isSearchFault = true) :
    e.isNotFound = false ∧ e ≠ .noSelf ∧ e ≠ .noFileName := by
  cases e <;> simp_all [isSearchFault, isNotFound]

theorem Scope.Lacks.isBuildFault {s : Scope} {e : Error} (h : s.Lacks e) :
    e.isBuildFault = true := by
  cases h <;> rfl

/-- The failures of a search for a declaration. A function can always be described, and so can every
head. -/
def SearchFails (mode : BuildMode) (kind : Kind) (e : Error) : Prop :=
  e.isSearchFault = true ∨ (mode = .compiled ∧ kind ≠ .function ∧ e.isBuildFault = true)

theorem SearchFails.isSearchFault {mode : BuildMode} {kind : Kind} {e : Error}
    (h : SearchFails mode kind e) (hmode : mode = .identifierOnly ∨ kind = .function) :
    e.isSearchFault = true := by
  rcases h with h | ⟨hcompiled, hkind, -⟩
  · exact h
  · rcases hmode with hmode | hmode
    · rw [hmode] at hcompiled
      cases hcompiled
    · exact absurd hmode hkind

/-- A reflection that an identifier asks for, which says as much as a mode wants. -/
structure Reflection.Fits (r : Reflection) (mode : BuildMode) (id : Identifier) : Prop where
  kind_eq : r.kind = id.kind
  accepts : id.accepts r.name = true
  built : ∃ f d, buildReflection f d mode = .ok r

namespace Lookup

variable {α β : Type} {I : Session → Prop} {fault fault' : Error → Prop} {good good' : α → Prop}

/-- From every session with a property a lookup leads to such a session again, and it either gives
something good or has one of certain failures. -/
def Ensures (I : Session → Prop) (fault : Error → Prop) (good : α → Prop) (l : Lookup α) : Prop :=
  ∀ s, I s → I (l.start s).2 ∧ (∀ e, (l.start s).1 = .error e → fault e) ∧
    ∀ a, (l.start s).1 = .ok a → good a

theorem ensures_pure {a : α} (h : good a) : (pure a : Lookup α).Ensures I fault good := by
  intro s hs
  refine ⟨hs, fun e he => ?_, fun b hb => ?_⟩
  · cases he
  · cases hb
    exact h

theorem ensures_ofExcept {r : Except Error α} (hfault : ∀ e, r = .error e → fault e)
    (hgood : ∀ a, r = .ok a → good a) : (ofExcept r).Ensures I fault good := by
  intro s hs
  rw [start_ofExcept]
  exact ⟨hs, hfault, hgood⟩

theorem ensures_throw {e : Error} (h : fault e) : (throw e : Lookup α).Ensures I fault good := by
  intro s hs
  refine ⟨hs, fun e' he => ?_, fun a ha => ?_⟩
  · cases he
    exact h
  · cases ha

theorem Ensures.bind {l : Lookup α} {next : α → Lookup β} {good' : β → Prop}
    (h : l.Ensures I fault good) (hnext : ∀ a, good a → (next a).Ensures I fault good') :
    (l >>= next).Ensures I fault good' := by
  intro s hs
  obtain ⟨hI, hfault, hgood⟩ := h s hs
  rw [start_bind]
  rcases hl : l.start s with ⟨e | a, t⟩
  · rw [hl] at hI hfault
    refine ⟨hI, fun e' he => ?_, fun b hb => ?_⟩
    · cases he
      exact hfault e rfl
    · cases hb
  · rw [hl] at hI hgood
    exact hnext a (hgood a rfl) t hI

theorem Ensures.mono {l : Lookup α} (h : l.Ensures I fault good)
    (hfault : ∀ e, fault e → fault' e) (hgood : ∀ a, good a → good' a) :
    l.Ensures I fault' good' := by
  intro s hs
  obtain ⟨hI, herror, hok⟩ := h s hs
  exact ⟨hI, fun e he => hfault e (herror e he), fun a ha => hgood a (hok a ha)⟩

/-- The lookup leads from sessions with a property to such sessions, whatever comes out. -/
abbrev Keeps (I : Session → Prop) (l : Lookup α) : Prop :=
  l.Ensures I (fun _ => True) fun _ => True

theorem Ensures.keeps {l : Lookup α} (h : l.Ensures I fault good) : l.Keeps I :=
  h.mono (fun _ _ => trivial) fun _ _ => trivial

theorem keeps_of_session {l : Lookup α} (h : ∀ s, I s → I (l.start s).2) : l.Keeps I :=
  fun s hs => ⟨h s hs, fun _ _ => trivial, fun _ _ => trivial⟩

theorem keeps_ofExcept (r : Except Error α) : (ofExcept r).Keeps I :=
  ensures_ofExcept (fun _ _ => trivial) fun _ _ => trivial

theorem keeps_mapM {f : α → Lookup β} {xs : List α} (h : ∀ x ∈ xs, (f x).Keeps I) :
    (xs.mapM f).Keeps I := by
  induction xs with
  | nil =>
    rw [List.mapM_nil]
    exact ensures_pure trivial
  | cons x rest ih =>
    rw [List.mapM_cons]
    apply (h x List.mem_cons_self).bind
    intro y _
    apply (ih fun z hz => h z (List.mem_cons_of_mem _ hz)).bind
    intro ys _
    exact ensures_pure trivial

/-- What is done with the session at hand is known for every session with the property. -/
theorem ensures_get {next : Session → Lookup α} (h : ∀ s, (next s).Ensures I fault good) :
    (do next (← get) : Lookup α).Ensures I fault good := by
  intro s hs
  rw [start_bind, start_get]
  exact h s s hs

theorem ensures_modify {change : Session → Session} (h : ∀ s, I s → I (change s)) :
    (modify change : Lookup Unit).Ensures I fault fun _ => True := by
  intro s hs
  refine ⟨h s hs, fun e he => ?_, fun _ _ => trivial⟩
  cases he

/-- The first of two lookups that finds something. -/
theorem Ensures.or {good : Option Found → Prop} {l next : Lookup (Option Found)}
    (h : l.Ensures I fault good) (hnext : next.Ensures I fault good) :
    (do
      match ← l with
      | some found => return some found
      | none => next : Lookup (Option Found)).Ensures I fault good := by
  apply h.bind
  intro found hfound
  cases found with
  | none => exact hnext
  | some found => exact ensures_pure hfound

end Lookup

/-- A property of sessions that does not depend on the number of instances. -/
def KeptByInstances (I : Session → Prop) : Prop :=
  ∀ s, I s → I { s with nextInstance := s.nextInstance + 1 }

/-- A question about functions that keeps a property of sessions and fails only where files or texts
cannot be read. -/
def FunctionQuestion.Settles (I : Session → Prop) (isFunction : FunctionQuestion) : Prop :=
  ∀ name, (isFunction name).Ensures I (·.isSearchFault = true) fun _ => True

section Sources

variable {I : Session → Prop} {isFunction : FunctionQuestion} {mode : BuildMode}
  {id : Identifier} {kind : Kind}

theorem Declaration.ensures_reflect (hI : KeptByInstances I) (mode : BuildMode) (f : FileScope)
    {d : Declaration} (hname : d.qualifiedName?.isSome) :
    (d.reflect f mode).Ensures I (SearchFails mode d.kind) fun found =>
      buildReflection f d mode = .ok found.reflection := by
  intro s hs
  rw [start_reflect]
  cases hbuild : buildReflection f d mode with
  | error e =>
    obtain ⟨hmode, hkind, hlacks⟩ := lacks_of_buildReflection hname hbuild
    refine ⟨hs, fun e' he => ?_, fun found hfound => ?_⟩
    · cases he
      exact .inr ⟨hmode, hkind, hlacks.isBuildFault⟩
    · cases hfound
  | ok r =>
    refine ⟨hI s hs, fun e' he => ?_, fun found hfound => ?_⟩
    · cases he
    · cases hfound
      rfl

theorem Declaration.ensures_isShadowed (mode : BuildMode) {d : Declaration}
    (hq : d.kind = .constant → isFunction.Settles I) :
    (d.isShadowed isFunction).Ensures I (SearchFails mode d.kind) fun _ => True := by
  unfold isShadowed
  cases h : d.rivalDefine? with
  | none => exact Lookup.ensures_pure trivial
  | some name =>
    exact (hq (kind_of_rivalDefine h) name).mono (fun e he => .inl he) fun _ _ => trivial

theorem Syntax.Program.kind_of_mem {p : Program} {d : Declaration}
    (h : d ∈ p.declarationsOfKind kind) : d.kind = kind :=
  (mem_declarationsOfKind.mp h).2

theorem Reflection.kind_of_build {f : FileScope} {d : Declaration} {r : Reflection}
    (h : buildReflection f d mode = .ok r) : r.kind = d.kind := by
  unfold buildReflection at h
  split at h
  all_goals
    rename_i hkind
    obtain ⟨c, -, hc⟩ := Error.ok_of_bind h
    cases hc
    exact hkind.symm

theorem Declaration.isSome_of_answers {d : Declaration} (h : d.answers id = true) :
    d.qualifiedName?.isSome := by
  unfold answers at h
  cases hname : d.qualifiedName? with
  | none =>
    rw [hname] at h
    cases h
  | some name => rfl

/-- What is built from a declaration that answers an identifier is what the identifier asks for. -/
theorem Reflection.fits_of_build {p : Program} {f : FileScope} {d : Declaration} {r : Reflection}
    (hd : d ∈ p.declarationsOfKind id.kind) (hanswers : d.answers id = true)
    (h : buildReflection f d mode = .ok r) : r.Fits mode id := by
  refine ⟨(kind_of_build h).trans (p.kind_of_mem hd), ?_, f, d, h⟩
  unfold Declaration.answers at hanswers
  rwa [name_of_buildReflection (p.isNamed_of_mem hd) h] at hanswers

theorem ensures_findDeclared (hI : KeptByInstances I) {p : Program}
    (hq : id.kind = .constant → isFunction.Settles I) (f : FileScope) {ds : List Declaration}
    (hds : ∀ d ∈ ds, d ∈ p.declarationsOfKind id.kind ∧ d.answers id = true) :
    (findDeclared isFunction f mode ds).Ensures I (SearchFails mode id.kind) fun found =>
      ∀ r ∈ found, r.reflection.Fits mode id := by
  induction ds with
  | nil => exact Lookup.ensures_pure (by simp)
  | cons d rest ih =>
    obtain ⟨hd, hanswers⟩ := hds d List.mem_cons_self
    have hkind := p.kind_of_mem hd
    have hshadowed : (d.isShadowed isFunction).Ensures I (SearchFails mode id.kind)
        fun _ => True := by
      rw [← hkind]
      exact Declaration.ensures_isShadowed mode fun h => hq (hkind.symm.trans h)
    apply hshadowed.bind
    intro shadowed _
    cases shadowed with
    | true => exact ih fun e he => hds e (List.mem_cons_of_mem _ he)
    | false =>
      have hreflect := Declaration.ensures_reflect hI mode f
        (Declaration.isSome_of_answers hanswers)
      rw [hkind] at hreflect
      apply hreflect.bind
      intro found hfound
      refine Lookup.ensures_pure fun r hr => ?_
      cases hr
      exact Reflection.fits_of_build hd hanswers hfound

theorem Source.program_fault {source : Source} {e : Error} (h : source.program = .error e) :
    e.isSearchFault = true := by
  unfold program programWithin at h
  split at h
  · cases h
  · cases h
    rfl

theorem Source.ensures_find (hI : KeptByInstances I)
    (hq : id.kind = .constant → isFunction.Settles I) (source : Source) :
    (source.find isFunction mode id).Ensures I (SearchFails mode id.kind) fun found =>
      ∀ r ∈ found, r.reflection.Fits mode id := by
  have hprogram : (Lookup.ofExcept source.program).Ensures I (SearchFails mode id.kind)
      fun _ => True :=
    Lookup.ensures_ofExcept (fun e he => .inl (program_fault he)) fun _ _ => trivial
  apply hprogram.bind
  intro p _
  apply ensures_findDeclared hI hq
  intro d hd
  exact List.mem_filter.mp hd

theorem ensures_readUser (mode : BuildMode) (kind : Kind) (path : String) :
    (readUser path).Ensures I (SearchFails mode kind) fun _ => True := by
  intro s hs
  rw [start_readUser]
  refine ⟨hs, fun e he => .inl ?_, fun _ _ => trivial⟩
  have hread := Error.error_of_map he
  unfold FileTree.readSource at hread
  split at hread
  · cases hread
  · cases hread
    rfl

theorem ensures_findInFile (hI : KeptByInstances I)
    (hq : id.kind = .constant → isFunction.Settles I) (path : String) :
    (findInFile isFunction mode path id).Ensures I (SearchFails mode id.kind) fun found =>
      ∀ r ∈ found, r.reflection.Fits mode id := by
  apply (ensures_readUser mode id.kind path).bind
  intro source _
  exact source.ensures_find hI hq

theorem ensures_findInFiles (hI : KeptByInstances I)
    (hq : id.kind = .constant → isFunction.Settles I) (paths : List String) :
    (findInFiles isFunction mode id paths).Ensures I (SearchFails mode id.kind) fun found =>
      ∀ r ∈ found, r.reflection.Fits mode id := by
  induction paths with
  | nil => exact Lookup.ensures_pure (by simp)
  | cons path rest ih =>
    rw [findInFiles]
    apply Lookup.ensures_get
    intro s
    split
    · exact (ensures_findInFile hI hq path).or ih
    · exact ih

theorem ensures_findAutoloaded (hI : KeptByInstances I)
    (hq : id.kind = .constant → isFunction.Settles I) (file? : String → Option String) :
    (findAutoloaded isFunction mode file? id).Ensures I (SearchFails mode id.kind) fun found =>
      ∀ r ∈ found, r.reflection.Fits mode id := by
  unfold findAutoloaded
  split
  · exact Lookup.ensures_pure (by simp)
  · apply Lookup.ensures_get
    intro s
    split
    · exact ensures_findInFile hI hq _
    · exact Lookup.ensures_throw (.inl rfl)

theorem ensures_findInStub (hI : KeptByInstances I)
    (hq : id.kind = .constant → isFunction.Settles I) (stub : Option Stub) :
    (findInStub isFunction mode id stub).Ensures I (SearchFails mode id.kind) fun found =>
      ∀ r ∈ found, r.reflection.Fits mode id := by
  rcases stub with _ | ⟨text, _ | name, file⟩
  · exact Lookup.ensures_pure (by simp)
  · exact Lookup.ensures_pure (by simp)
  · exact Source.ensures_find hI hq _

theorem keeps_listDeclared (hI : KeptByInstances I) (hq : isFunction.Settles I) (f : FileScope)
    (ds : List Declaration) : (listDeclared isFunction f mode ds).Keeps I := by
  induction ds with
  | nil => exact Lookup.ensures_pure trivial
  | cons d rest ih =>
    apply (Declaration.ensures_isShadowed mode fun _ => hq).keeps.bind
    intro shadowed _
    cases shadowed with
    | true => exact ih
    | false =>
      have hreflect : (d.reflect f mode).Keeps I := by
        apply Lookup.keeps_of_session
        intro s hs
        rw [Declaration.start_reflect]
        split
        · exact hI s hs
        · exact hs
      apply hreflect.bind
      intro found _
      exact ih.bind fun others _ => Lookup.ensures_pure trivial

theorem Source.keeps_list (hI : KeptByInstances I) (hq : isFunction.Settles I) (source : Source) :
    (source.list isFunction mode kind).Keeps I := by
  apply (Lookup.keeps_ofExcept source.program).bind
  intro p _
  exact keeps_listDeclared hI hq _ _

theorem keeps_listInFiles (hI : KeptByInstances I) (hq : isFunction.Settles I)
    (paths : List String) : (listInFiles isFunction mode kind paths).Keeps I := by
  induction paths with
  | nil => exact Lookup.ensures_pure trivial
  | cons path rest ih =>
    apply (ensures_readUser mode kind path).keeps.bind
    intro source _
    apply (source.keeps_list hI hq).bind
    intro found _
    exact ih.bind fun others _ => Lookup.ensures_pure trivial

end Sources

end StaticReflection
