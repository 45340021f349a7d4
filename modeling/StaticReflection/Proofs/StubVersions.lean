import StaticReflection.Reflector

/-!
Built-in declarations against the version that stubs are for. An index gives the stub for a name if
any declaration of the name exists in the version. What is then found in the stub is the first
declaration that the identifier accepts. The two need not be the same: an earlier declaration of the
name may be for other versions, and an index reads the names of constants by the standard rules,
which may not accept what the identifier accepts.
-/

namespace StaticReflection

open Syntax

/-- What an identifier accepts is accepted under the standard rules as well, unless its own rules
list a constant that the standard ones do not. -/
theorem Identifier.accepts_standard {rules : NameRules} {kind : Kind} {name declared : String}
    (h : (make rules kind name).accepts declared = true)
    (hfolding : (make rules kind name).folding = .whole →
      (make .standard kind (Name.stripRoot name)).folding = .whole) :
    (make .standard kind (Name.stripRoot name)).accepts declared = true := by
  have hform : (make rules kind name).folding.apply declared =
      (make rules kind name).folding.apply (Name.stripRoot name) := eq_of_beq h
  suffices hsame : (make .standard kind (Name.stripRoot name)).folding.apply declared =
      (make .standard kind (Name.stripRoot name)).folding.apply
        (Name.stripRoot (Name.stripRoot name)) from beq_of_eq hsame
  cases hstandard : (make .standard kind (Name.stripRoot name)).folding with
  | whole =>
    have hlower := congrArg Name.lower hform
    rw [Folding.lower_apply, Folding.lower_apply] at hlower
    unfold Folding.apply
    rw [Name.stripRoots_stripRoot]
    exact hlower
  | namespaceOnly =>
    -- The standard rules tell short names of different case apart here; so must the others.
    have hown : (make rules kind name).folding = .namespaceOnly := by
      cases hcase : (make rules kind name).folding with
      | namespaceOnly => rfl
      | whole =>
        rw [hfolding hcase] at hstandard
        cases hstandard
    rw [hown] at hform
    rw [hform]
    unfold Folding.apply
    rw [Name.stripRoots_stripRoot (Name.stripRoot name)]

/-- Where the standard rules do not accept a name, it is a constant that the others list. -/
theorem Identifier.listed_of_not_accepts_standard {rules : NameRules} {kind : Kind}
    {name declared : String} (h : (make rules kind name).accepts declared = true)
    (hnot : (make .standard kind (Name.stripRoot name)).accepts declared = false) :
    kind = .constant ∧ rules.caseless.contains (Name.lower (Name.stripRoot name)) = true := by
  have hwhole : (make rules kind name).folding = .whole ∧
      (make .standard kind (Name.stripRoot name)).folding ≠ .whole := by
    cases hown : (make rules kind name).folding with
    | whole =>
      refine ⟨rfl, fun hstandard => ?_⟩
      rw [accepts_standard h fun _ => hstandard] at hnot
      cases hnot
    | namespaceOnly =>
      have haccepts := accepts_standard h fun hcase => by
        rw [hown] at hcase
        cases hcase
      rw [haccepts] at hnot
      cases hnot
  obtain ⟨hown, hstandard⟩ := hwhole
  cases kind with
  | classLike | function => exact absurd rfl hstandard
  | constant =>
    refine ⟨rfl, ?_⟩
    have hfolding : (if rules.caseless.contains (Name.lower (Name.stripRoot name)) = true
        then Folding.whole else Folding.namespaceOnly) = .whole := hown
    split at hfolding
    · assumption
    · cases hfolding

/-- What is found among declarations is the first of them that is not shadowed. -/
theorem exists_of_findDeclared {isFunction : FunctionQuestion} {f : FileScope} {mode : BuildMode}
    {ds : List Declaration} {found : Found} {s t : Session}
    (h : (findDeclared isFunction f mode ds).start s = (.ok (some found), t)) :
    ∃ before d after, ds = before ++ d :: after ∧
      (∀ earlier ∈ before, earlier.rivalDefine?.isSome = true) ∧
      buildReflection f d mode = .ok found.reflection := by
  induction ds generalizing s with
  | nil => cases h
  | cons d rest ih =>
    obtain ⟨shadowed, s', hshadowed, hrest⟩ := Lookup.start_bind_eq_ok.mp h
    cases shadowed with
    | true =>
      obtain ⟨before, found', after, rfl, hbefore, hbuild⟩ := ih hrest
      refine ⟨d :: before, found', after, rfl, ?_, hbuild⟩
      intro earlier hearlier
      rcases List.mem_cons.mp hearlier with rfl | hearlier
      · unfold Declaration.isShadowed at hshadowed
        cases hrival : earlier.rivalDefine? with
        | some name => rfl
        | none =>
          rw [hrival] at hshadowed
          cases hshadowed
      · exact hbefore earlier hearlier
    | false =>
      refine ⟨[], d, rest, rfl, by simp, ?_⟩
      have hreflect : (some <$> d.reflect f mode).start s' = (.ok (some found), t) := hrest
      rw [Lookup.start_map, Declaration.start_reflect] at hreflect
      cases hbuild : buildReflection f d mode with
      | error e =>
        rw [hbuild] at hreflect
        cases hreflect
      | ok r =>
        rw [hbuild] at hreflect
        cases hreflect
        rfl

/-- What is found in a stub is a declaration of its text that is not shadowed, the first of those
that the identifier accepts. -/
theorem exists_of_findInStub {isFunction : FunctionQuestion} {mode : BuildMode} {id : Identifier}
    {stub : Option Stub} {found : Found} {s t : Session}
    (h : (findInStub isFunction mode id stub).start s = (.ok (some found), t)) :
    ∃ text extension file p before d after, stub = some ⟨text, some extension, file⟩ ∧
      Program.read text = .ok p ∧
      (p.declarationsOfKind id.kind).filter (·.answers id) = before ++ d :: after ∧
      (∀ earlier ∈ before, earlier.rivalDefine?.isSome = true) ∧
      buildReflection ((Source.internal text extension file).fileScope p) d mode =
        .ok found.reflection := by
  rcases stub with _ | ⟨text, _ | extension, file⟩
  · cases h
  · cases h
  · obtain ⟨p, s', hprogram, hrest⟩ := Lookup.start_bind_eq_ok.mp h
    obtain ⟨before, d, after, hds, hbefore, hbuild⟩ := exists_of_findDeclared hrest
    have hread : Program.read text = .ok p := by
      rw [Lookup.start_ofExcept] at hprogram
      exact Source.program_eq_ok_iff.mp (congrArg Prod.fst hprogram)
    exact ⟨text, extension, file, p, before, d, after, rfl, hread, hds, hbefore, hbuild⟩

/-- The stub that an index gives is the file of the name, and the name is not absent. -/
theorem StubIndex.exists_of_stub? {i : StubIndex} {kind : Kind} {name : String} {stub : Stub}
    (h : i.stub? kind name = some stub) :
    ∃ number path text, i.names.get? kind name = some number ∧
      i.files[number]? = some (path, text) ∧ stub = ⟨text, extensionOf path, none⟩ ∧
      i.presence kind name ≠ .absent := by
  unfold stub? at h
  cases hnumber : i.names.get? kind name with
  | none =>
    rw [hnumber] at h
    cases h
  | some number =>
    rw [hnumber] at h
    dsimp only at h
    split at h
    · cases h
    · rename_i hpresent
      obtain ⟨⟨path, text⟩, hfile, rfl⟩ := Option.map_eq_some_iff.mp h
      exact ⟨number, path, text, rfl, hfile, rfl, hpresent⟩

/-- A file that is given for a version has a declaration that exists in it, or declares nothing of
the name by the standard rules. -/
theorem StubIndex.existsIn_of_presence {i : StubIndex} {version : PhpVersion} {kind : Kind}
    {name path text : String} {number : Nat} (hversion : i.version = some version)
    (hnumber : i.names.get? kind name = some number) (hfile : i.files[number]? = some (path, text))
    (h : i.presence kind name ≠ .absent) : existsIn path text kind name version = true := by
  unfold presence at h
  rw [hnumber, hversion] at h
  simp only [hfile] at h
  split at h
  · assumption
  · exact absurd rfl h

/-- Whether a declaration of a text exists in a version. -/
def Syntax.Program.existsIn (p : Program) (text : String) (version : PhpVersion)
    (d : Declaration) : Bool :=
  (Availability.ofDeclaration text p.trivia d).includes version

theorem StubIndex.existsIn_eq {path text : String} {kind : Kind} {name : String}
    {version : PhpVersion} {p : Program} (h : Program.read text = .ok p) :
    existsIn path text kind name version = true ↔
      (∃ d ∈ p.declarationsOfKind kind, d.answers (.make .standard kind name) = true ∧
        p.existsIn text version d = true) ∨
      ∀ d ∈ p.declarationsOfKind kind, d.answers (.make .standard kind name) = false := by
  have hprogram : (Source.user text (some path)).program = .ok p :=
    Source.program_eq_ok_iff.mpr h
  unfold existsIn
  rw [hprogram]
  simp [Program.existsIn, or_comm]

/-- A reflection is that of a declaration in the file of a name. -/
structure StubIndex.Describes (i : StubIndex) (kind : Kind) (name : String) (mode : BuildMode)
    (r : Reflection) (text : String) (p : Program) (d : Declaration) : Prop where
  built : ∃ number path extension, i.names.get? kind name = some number ∧
    i.files[number]? = some (path, text) ∧ extensionOf path = some extension ∧
    buildReflection ((Source.internal text extension none).fileScope p) d mode = .ok r
  read : Program.read text = .ok p
  mem : d ∈ p.declarationsOfKind kind

/-- Why a declaration of a name is found where stubs are for a version. -/
inductive Admitted (rules : NameRules) (kind : Kind) (name text : String) (p : Program)
    (version : PhpVersion) (d : Declaration) : Prop
  /-- It exists in this version. -/
  | itself (h : p.existsIn text version d = true)
  /-- It does not, but another declaration of the name does. -/
  | other (hnot : p.existsIn text version d = false) (d' : Declaration)
      (hd' : d' ∈ p.declarationsOfKind kind)
      (hname : d'.answers (.make .standard kind (Name.stripRoot name)) = true)
      (h : p.existsIn text version d' = true)
  /-- It is a constant that is listed by the rules, and no declaration has its name by the standard
  rules. -/
  | unread (hnot : p.existsIn text version d = false) (hkind : kind = .constant)
      (hlisted : rules.caseless.contains (Name.lower (Name.stripRoot name)) = true)
      (hnone : ∀ d' ∈ p.declarationsOfKind kind,
        d'.answers (.make .standard kind (Name.stripRoot name)) = false)

/-- What is found in an index for a version is the first declaration in the file of the name that
the identifier accepts and that is not shadowed. It exists in that version, unless another
declaration of the name does, or the file has none by the standard rules. -/
theorem located_in_index_admitted (i : StubIndex) {version : PhpVersion}
    (hversion : i.version = some version) (rules : NameRules) (kind : Kind) (name : String)
    (isFunction : FunctionQuestion) (q : Inquiry) (s t : Session) (found : Found)
    (h : ((Locator.builtIn (.index i)).locate isFunction q (.make rules kind name)).start s =
      (.ok (some found), t)) :
    ∃ text p d before after,
      i.Describes kind (Name.stripRoot name) q.mode found.reflection text p d ∧
      (p.declarationsOfKind kind).filter (·.answers (.make rules kind name)) =
        before ++ d :: after ∧
      (∀ earlier ∈ before, earlier.rivalDefine?.isSome = true) ∧
      Admitted rules kind name text p version d := by
  rw [Locator.locate] at h
  obtain ⟨text, extension, file, p, before, d, after, hstub, hread, hds, hbefore, hbuild⟩ :=
    exists_of_findInStub h
  obtain ⟨number, path, _, hnumber, hfile, hsame, hpresent⟩ := StubIndex.exists_of_stub? hstub
  obtain ⟨rfl, hextension, rfl⟩ := Stub.mk.injEq .. ▸ hsame
  have hd : d ∈ (p.declarationsOfKind kind).filter (·.answers (.make rules kind name)) := by
    have hmem : d ∈ before ++ d :: after := by simp
    exact hds ▸ hmem
  obtain ⟨hmem, hanswers⟩ := List.mem_filter.mp hd
  have hdescribes : i.Describes kind (Name.stripRoot name) q.mode found.reflection text p d :=
    ⟨⟨number, path, extension, hnumber, hfile, hextension.symm, hbuild⟩, hread, hmem⟩
  refine ⟨text, p, d, before, after, hdescribes, hds, hbefore, ?_⟩
  cases hitself : p.existsIn text version d with
  | true => exact .itself hitself
  | false =>
    -- The file was given for this version all the same, on behalf of another declaration or none.
    have hexists := StubIndex.existsIn_of_presence hversion hnumber hfile hpresent
    rcases (StubIndex.existsIn_eq hread).mp hexists with ⟨d', hd', hname, hversioned⟩ | hnone
    · exact .other hitself d' hd' hname hversioned
    · have hnot := hnone d hmem
      unfold Declaration.answers at hanswers hnot
      cases hname : d.qualifiedName? with
      | none =>
        rw [hname] at hanswers
        cases hanswers
      | some declared =>
        rw [hname] at hanswers hnot
        obtain ⟨hkind, hlisted⟩ := Identifier.listed_of_not_accepts_standard hanswers hnot
        exact .unread hitself hkind hlisted hnone

/-- An index for version 8.1 with a constant that was removed in version 8.0. -/
def removedConstant : StubIndex :=
  ⟨⟨[("Core/c.php", "<?php /** @removed 8.0 */ const FOO = 1;")], ⟨[(.constant, "FOO", 0)]⟩⟩,
    some ⟨8, 1, 0⟩⟩

theorem located_in_index_admitted_removedConstant :
    ∃ found t, ((Locator.builtIn (.index removedConstant)).locate (fun _ => pure false)
        ⟨.compiled, Kind.constant.asker⟩ (.make (.ofList ["FOO"]) .constant "foo")).start
          (.start .empty) = (.ok (some found), t) ∧
      ∃ text p d, removedConstant.Describes .constant (Name.stripRoot "foo") .compiled
          found.reflection text p d ∧
        Admitted (.ofList ["FOO"]) .constant "foo" text p ⟨8, 1, 0⟩ d := by
  have hrun : (((Locator.builtIn (.index removedConstant)).locate (fun _ => pure false)
      ⟨.compiled, Kind.constant.asker⟩ (.make (.ofList ["FOO"]) .constant "foo")).start
        (.start .empty)).1.toOption.any (·.isSome) = true := by decide +kernel
  obtain ⟨answer, hlocate, hanswer⟩ := Lookup.exists_of_any hrun
  obtain ⟨found, rfl⟩ := Option.isSome_iff_exists.mp hanswer
  obtain ⟨text, p, d, -, -, hdescribes, -, -, hadmitted⟩ :=
    located_in_index_admitted removedConstant rfl _ .constant "foo" _ _ _ _ found hlocate
  exact ⟨found, _, hlocate, text, p, d, hdescribes, hadmitted⟩

/-- Whether all that is found for a name in an index exists in a version. -/
def StubIndex.AnswersFor (i : StubIndex) (version : PhpVersion) (rules : NameRules) (kind : Kind)
    (name : String) : Prop :=
  ∀ (isFunction : FunctionQuestion) (q : Inquiry) (s t : Session) (found : Found),
    ((Locator.builtIn (.index i)).locate isFunction q (.make rules kind name)).start s =
      (.ok (some found), t) →
    ∃ text p d, i.Describes kind (Name.stripRoot name) q.mode found.reflection text p d ∧
      p.existsIn text version d = true

/-- An index does not answer for a version where the reflection that is found passes a test that no
declaration of the version passes. -/
theorem StubIndex.not_answersFor {i : StubIndex} {version : PhpVersion} {rules : NameRules}
    {kind : Kind} {name text : String} {number : Nat} (path : String)
    (hnumber : i.names.get? kind (Name.stripRoot name) = some number)
    (hfile : i.files[number]? = some (path, text)) (test : Reflection → Bool)
    (hrun : (((Locator.builtIn (.index i)).locate (fun _ => pure false) ⟨.compiled, kind.asker⟩
      (.make rules kind name)).start (.start .empty)).1.toOption.any
        (·.any (test ·.reflection)) = true)
    (hall : (Program.read text).toOption.all (fun p => (p.declarationsOfKind kind).all fun d =>
      !p.existsIn text version d || (buildReflection
        ((Source.internal text ((extensionOf path).getD "") none).fileScope p) d
          .compiled).toOption.all (!test ·)) = true) :
    ¬ i.AnswersFor version rules kind name := by
  intro hclaim
  obtain ⟨answer, hlocate, hanswer⟩ := Lookup.exists_of_any hrun
  obtain ⟨found, rfl, htest⟩ := (Option.any_eq_true _ _).mp hanswer
  obtain ⟨text', p, d, hdescribes, hexists⟩ := hclaim _ _ _ _ found hlocate
  obtain ⟨number', path', extension, hnumber', hfile', hextension, hbuild⟩ := hdescribes.built
  obtain rfl : number = number' := Option.some.inj (hnumber.symm.trans hnumber')
  obtain ⟨rfl, rfl⟩ : path = path' ∧ text = text' :=
    Prod.mk.inj (Option.some.inj (hfile.symm.trans hfile'))
  rw [hdescribes.read] at hall
  have hd := List.all_eq_true.mp hall d hdescribes.mem
  rw [hexists, hextension, Option.getD_some, hbuild] at hd
  simp [Except.toOption, htest] at hd

/-- An index for version 8.1 with a function that was declared anew, by another list of parameters,
in version 8.0. -/
def declaredAnew : StubIndex :=
  ⟨⟨[("standard/f.php", "<?php /** @removed 8.0 */ function f()\x7b\x7d " ++
    "/** @since 8.0 */ function f($a)\x7b\x7d")], ⟨[(.function, "f", 0)]⟩⟩, some ⟨8, 1, 0⟩⟩

/-- The function is found as it was before. The constant is found by a name that only the rules take
for it. -/
theorem not_answersFor_version :
    ¬ declaredAnew.AnswersFor ⟨8, 1, 0⟩ .standard .function "f" ∧
      ¬ removedConstant.AnswersFor ⟨8, 1, 0⟩ (.ofList ["FOO"]) .constant "foo" := by
  constructor
  · exact StubIndex.not_answersFor "standard/f.php" rfl rfl
      (·.toFunction.toOption.any (·.params.isEmpty)) (by decide +kernel) (by decide +kernel)
  · exact StubIndex.not_answersFor "Core/c.php" rfl rfl (fun _ => true)
      (by decide +kernel) (by decide +kernel)

end StaticReflection
