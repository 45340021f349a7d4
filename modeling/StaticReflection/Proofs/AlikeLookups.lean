import StaticReflection.Locator.Locate

/-!
Lookups that answer alike. Two lookups are compared as they run on sessions of two settings, which
they keep; their answers are compared as far as a view of them goes, so that instance numbers do not
count. A locator answers alike where questions about functions are answered alike, and where two
identifiers that ask for the same thing lead to the same files and stubs. Such questions come up
only where constants are looked for.
-/

namespace StaticReflection

open Syntax

/-- A condition on sessions that fixes the files, and that handing out an instance does not
break. -/
structure Setting (files : FileTree) (I : Session → Prop) : Prop where
  files_eq : ∀ s, I s → s.files = files
  handOut : ∀ s, I s → I { s with nextInstance := s.nextInstance + 1 }

/-- The setting in which only the files are known. -/
theorem Setting.ofFiles (files : FileTree) : Setting files fun s => s.files = files :=
  ⟨fun _ h => h, fun _ h => h⟩

namespace Lookup

/-- Two lookups with the same answer to the eye on any sessions of two settings, which they keep. -/
def Alike {α β : Type} (I J : Session → Prop) (view : α → β) (l l' : Lookup α) : Prop :=
  ∀ s t, I s → J t → (l.start s).1.map view = (l'.start t).1.map view ∧
    I (l.start s).2 ∧ J (l'.start t).2

variable {α β γ δ : Type} {I J : Session → Prop} {files : FileTree}

theorem alike_pure {view : α → β} {a a' : α} (h : view a = view a') :
    (pure a : Lookup α).Alike I J view (pure a') := by
  intro s t hs ht
  rw [start_pure, start_pure]
  exact ⟨congrArg Except.ok h, hs, ht⟩

theorem alike_ofExcept {view : α → β} {r r' : Except Error α} (h : r.map view = r'.map view) :
    (ofExcept r).Alike I J view (ofExcept r') := by
  intro s t hs ht
  rw [start_ofExcept, start_ofExcept]
  exact ⟨h, hs, ht⟩

/-- First parts that answer alike may be followed by second parts that do so for all answers that
look the same. -/
theorem Alike.bind {view : α → β} {view' : γ → δ} {l l' : Lookup α} {next next' : α → Lookup γ}
    (h : l.Alike I J view l')
    (hnext : ∀ a a', view a = view a' → (next a).Alike I J view' (next' a')) :
    (l >>= next).Alike I J view' (l' >>= next') := by
  intro s t hs ht
  obtain ⟨hview, hI, hJ⟩ := h s t hs ht
  rw [start_bind, start_bind]
  rcases hl : l.start s with ⟨e | a, s'⟩ <;> rcases hl' : l'.start t with ⟨e' | a', t'⟩ <;>
    rw [hl, hl'] at hview <;> rw [hl] at hI <;> rw [hl'] at hJ
  · have he : e = e' := Except.error.inj hview
    subst he
    exact ⟨rfl, hI, hJ⟩
  · cases hview
  · cases hview
  · exact hnext a a' (Except.ok.inj hview) s' t' hI hJ

theorem alike_readUser (hI : Setting files I) (hJ : Setting files J) (path : String) :
    (readUser path).Alike I J id (readUser path) := by
  intro s t hs ht
  rw [start_readUser, start_readUser, hI.files_eq s hs, hJ.files_eq t ht]
  exact ⟨rfl, hs, ht⟩

/-- A choice that depends on the files is made alike. -/
theorem alike_ifFiles (hI : Setting files I) (hJ : Setting files J) {view : α → β}
    (choose : FileTree → Bool) {l l' m m' : Lookup α} (h : l.Alike I J view l')
    (hm : m.Alike I J view m') :
    (do if choose (← get).files then l else m : Lookup α).Alike I J view
      (do if choose (← get).files then l' else m') := by
  intro s t hs ht
  rw [start_bind, start_bind, start_get, start_get]
  simp only [hI.files_eq s hs, hJ.files_eq t ht]
  split
  · exact h s t hs ht
  · exact hm s t hs ht

end Lookup

/-- What is compared of what was found: all but the number of the instance. -/
abbrev seen : Option Found → Option Reflection := Option.map (·.reflection)

/-- Questions about functions that are answered alike. -/
def FunctionQuestion.Alike (I J : Session → Prop) (isFunction isFunction' : FunctionQuestion) :
    Prop :=
  ∀ name, Lookup.Alike I J id (isFunction name) (isFunction' name)

section Sources

variable {I J : Session → Prop} {files : FileTree} {isFunction isFunction' : FunctionQuestion}

theorem Declaration.alike_reflect (hI : Setting files I) (hJ : Setting files J) (f : FileScope)
    (mode : BuildMode) (d : Declaration) :
    (some <$> d.reflect f mode : Lookup (Option Found)).Alike I J seen
      (some <$> d.reflect f mode) := by
  intro s t hs ht
  rw [Lookup.start_map, Lookup.start_map, Declaration.start_reflect, Declaration.start_reflect]
  cases buildReflection f d mode with
  | error e => exact ⟨rfl, hs, ht⟩
  | ok r => exact ⟨rfl, hI.handOut s hs, hJ.handOut t ht⟩

/-- Only constants are ever shadowed. -/
theorem Declaration.kind_of_rivalDefine {d : Declaration} {name : String}
    (h : d.rivalDefine? = some name) : d.kind = .constant := by
  unfold rivalDefine? at h
  split at h
  · rename_i hnode _
    unfold kind
    rw [hnode]
    rfl
  · cases h

theorem Declaration.alike_isShadowed {d : Declaration}
    (hq : d.kind = .constant → isFunction.Alike I J isFunction') :
    (d.isShadowed isFunction).Alike I J id (d.isShadowed isFunction') := by
  unfold isShadowed
  cases h : d.rivalDefine? with
  | none => exact Lookup.alike_pure rfl
  | some name => exact hq (kind_of_rivalDefine h) name

theorem alike_findDeclared (hI : Setting files I) (hJ : Setting files J) {ds : List Declaration}
    (hq : ∀ d ∈ ds, d.kind = .constant → isFunction.Alike I J isFunction') (f : FileScope)
    (mode : BuildMode) :
    (findDeclared isFunction f mode ds).Alike I J seen (findDeclared isFunction' f mode ds) := by
  induction ds with
  | nil => exact Lookup.alike_pure rfl
  | cons d rest ih =>
    apply (Declaration.alike_isShadowed (hq d List.mem_cons_self)).bind
    intro shadowed shadowed' hshadowed
    obtain rfl : shadowed = shadowed' := hshadowed
    cases shadowed with
    | true => exact ih fun e he => hq e (List.mem_cons_of_mem _ he)
    | false => exact d.alike_reflect hI hJ f mode

/-- Identifiers that ask for the same thing in the same way. -/
structure Identifier.Agrees (a b : Identifier) : Prop where
  kind_eq : a.kind = b.kind
  folding_eq : a.folding = b.folding
  key_eq : a.key = b.key

theorem Identifier.Agrees.answers_eq {a b : Identifier} (h : a.Agrees b) (d : Declaration) :
    d.answers a = d.answers b := by
  unfold Declaration.answers Identifier.accepts
  rw [h.folding_eq, h.key_eq]

variable {a b : Identifier} {mode : BuildMode}

theorem Source.alike_find (hI : Setting files I) (hJ : Setting files J)
    (hq : a.kind = .constant → isFunction.Alike I J isFunction') (h : a.Agrees b)
    (source : Source) :
    (source.find isFunction mode a).Alike I J seen (source.find isFunction' mode b) := by
  have hprogram : (Lookup.ofExcept source.program).Alike I J id (Lookup.ofExcept source.program) :=
    Lookup.alike_ofExcept rfl
  apply hprogram.bind
  intro p p' hp
  obtain rfl : p = p' := hp
  have hselected : (p.declarationsOfKind a.kind).filter (·.answers a) =
      (p.declarationsOfKind b.kind).filter (·.answers b) := by
    rw [h.kind_eq]
    apply List.filter_congr
    intro d hd
    exact h.answers_eq d
  rw [← hselected]
  apply alike_findDeclared hI hJ
  intro d hd hkind
  have hsame : d.kind = a.kind := (Program.mem_declarationsOfKind.mp (List.mem_filter.mp hd).1).2
  exact hq (hsame.symm.trans hkind)

theorem alike_findInFile (hI : Setting files I) (hJ : Setting files J)
    (hq : a.kind = .constant → isFunction.Alike I J isFunction') (h : a.Agrees b) (path : String) :
    (findInFile isFunction mode path a).Alike I J seen (findInFile isFunction' mode path b) := by
  apply (Lookup.alike_readUser hI hJ path).bind
  intro source source' hsource
  obtain rfl : source = source' := hsource
  exact source.alike_find hI hJ hq h

/-- The first of two lookups that finds something. -/
theorem Lookup.Alike.or {l l' next next' : Lookup (Option Found)} (h : l.Alike I J seen l')
    (hnext : next.Alike I J seen next') :
    (do
      match ← l with
      | some found => return some found
      | none => next : Lookup (Option Found)).Alike I J seen
    (do
      match ← l' with
      | some found => return some found
      | none => next') := by
  apply h.bind
  intro found found' hseen
  cases found with
  | none =>
    cases found' with
    | none => exact hnext
    | some _ => cases hseen
  | some _ =>
    cases found' with
    | none => cases hseen
    | some _ => exact Lookup.alike_pure hseen

theorem alike_findInFiles (hI : Setting files I) (hJ : Setting files J)
    (hq : a.kind = .constant → isFunction.Alike I J isFunction') (h : a.Agrees b)
    (paths : List String) :
    (findInFiles isFunction mode a paths).Alike I J seen
      (findInFiles isFunction' mode b paths) := by
  induction paths with
  | nil => exact Lookup.alike_pure rfl
  | cons path rest ih =>
    exact Lookup.alike_ifFiles hI hJ (·.isFile path) ((alike_findInFile hI hJ hq h path).or ih) ih

theorem alike_findInStub (hI : Setting files I) (hJ : Setting files J)
    (hq : a.kind = .constant → isFunction.Alike I J isFunction') (h : a.Agrees b)
    (stub : Option Stub) :
    (findInStub isFunction mode a stub).Alike I J seen (findInStub isFunction' mode b stub) := by
  rcases stub with _ | ⟨text, _ | name, file⟩
  · exact Lookup.alike_pure rfl
  · exact Lookup.alike_pure rfl
  · exact Source.alike_find hI hJ hq h _

end Sources

/-- Identifiers with one key are the same to stubbers, which fold all names alike. -/
theorem Identifier.stubKey_eq {a b : Identifier} (h : a.key = b.key) :
    stubKey a.name = stubKey b.name := by
  unfold stubKey
  rw [← a.folding.lower_apply, ← b.folding.lower_apply]
  exact congrArg Name.lower h

section Stubs

variable {kind : Kind} {a b : String}

/-- Stubs are selected by the standard rules. -/
theorem StubIndex.existsIn_congr
    (h : (Identifier.make .standard kind a).Agrees (.make .standard kind b)) (path text : String)
    (version : PhpVersion) :
    existsIn path text kind a version = existsIn path text kind b version := by
  unfold existsIn
  simp only [h.answers_eq]

theorem StubTable.get?_congr {α : Type} (t : StubTable α)
    (h : (Identifier.make .standard kind a).Agrees (.make .standard kind b)) :
    t.get? kind a = t.get? kind b := by
  have hkey : stubKey a = stubKey b := by
    have hstripped := Identifier.stubKey_eq h.key_eq
    unfold stubKey Identifier.make at hstripped
    rw [Name.stripRoots_stripRoot, Name.stripRoots_stripRoot] at hstripped
    exact hstripped
  unfold get?
  rw [hkey]

theorem StubIndex.stub?_congr (i : StubIndex)
    (h : (Identifier.make .standard kind a).Agrees (.make .standard kind b)) :
    i.stub? kind a = i.stub? kind b := by
  unfold stub? presence
  simp only [i.names.get?_congr h, existsIn_congr h]

mutual

/-- Names that agree by the standard rules have the same stub. -/
theorem Stubber.stub?_congr (stubs : Stubber)
    (h : (Identifier.make .standard kind a).Agrees (.make .standard kind b)) :
    stubs.stub? kind a = stubs.stub? kind b := by
  cases stubs with
  | table stubs =>
    rw [stub?, stub?]
    exact stubs.get?_congr h
  | index i =>
    rw [stub?, stub?]
    exact i.stub?_congr h
  | firstOf stubbers =>
    rw [stub?, stub?]
    exact firstStub?_congr stubbers h

theorem Stubber.firstStub?_congr (stubbers : List Stubber)
    (h : (Identifier.make .standard kind a).Agrees (.make .standard kind b)) :
    firstStub? kind a stubbers = firstStub? kind b stubbers := by
  cases stubbers with
  | nil => rfl
  | cons stubs rest =>
    rw [firstStub?, firstStub?, stub?_congr stubs h, firstStub?_congr rest h]

end

/-- For classes and functions the case of a name does not matter by any rules. -/
theorem Identifier.agrees_standard (hkind : kind ≠ .constant) (h : stubKey a = stubKey b) :
    (Identifier.make .standard kind a).Agrees (.make .standard kind b) := by
  have hmake : ∀ name, (Identifier.make .standard kind name).folding = .whole ∧
      (Identifier.make .standard kind name).key = stubKey name := by
    intro name
    unfold stubKey
    rw [← Name.stripRoots_stripRoot]
    cases kind with
    | classLike | function => exact ⟨rfl, rfl⟩
    | constant => exact absurd rfl hkind
  refine ⟨rfl, ?_, ?_⟩
  · rw [(hmake a).1, (hmake b).1]
  · rw [(hmake a).2, (hmake b).2, h]

end Stubs

namespace Locator

/-- Locators that take two identifiers to the same files and stubs: mappings see the same candidates
and maps of classes the same file. Of stubbers this has to be known for constants only, since they
look for all other names without case. -/
inductive ReadsAlike (a b : Identifier) : Locator → Prop where
  | text (source : String) : ReadsAlike a b (.text source)
  | file (path : String) : ReadsAlike a b (.file path)
  | psr4 {mapping : Psr4Mapping} (h : mapping.candidates a = mapping.candidates b) :
    ReadsAlike a b (.psr4 mapping)
  | classMap {map : ClassMap} (h : a.kind = .classLike → map.file? a.name = map.file? b.name) :
    ReadsAlike a b (.classMap map)
  | builtIn {stubs : Stubber} (h : a.kind = .constant →
      stubs.stub? a.kind a.name = stubs.stub? b.kind b.name) : ReadsAlike a b (.builtIn stubs)
  | firstOf {parts : List Locator} (h : ∀ part ∈ parts, ReadsAlike a b part) :
    ReadsAlike a b (.firstOf parts)

variable {I J : Session → Prop} {files : FileTree} {isFunction isFunction' : FunctionQuestion}
  {a b : Identifier}

/-- A locator answers alike for identifiers that agree and that it reads alike. -/
theorem ReadsAlike.alike_locate {l : Locator} (hl : l.ReadsAlike a b) (hI : Setting files I)
    (hJ : Setting files J) (hq : a.kind = .constant → isFunction.Alike I J isFunction')
    (h : a.Agrees b) (mode : BuildMode) (asker asker' : Nat) :
    (l.locate isFunction ⟨mode, asker⟩ a).Alike I J seen
      (l.locate isFunction' ⟨mode, asker'⟩ b) := by
  induction hl with
  | text source =>
    rw [locate, locate]
    exact Source.alike_find hI hJ hq h _
  | file path =>
    rw [locate, locate]
    exact alike_findInFile hI hJ hq h path
  | psr4 hfiles =>
    rw [locate, locate, hfiles]
    exact alike_findInFiles hI hJ hq h _
  | @classMap map hfile =>
    rw [locate, locate, ← h.kind_eq]
    cases hkind : a.kind with
    | classLike =>
      simp only
      rw [hfile hkind]
      cases map.file? b.name with
      | none => exact Lookup.alike_pure rfl
      | some path => exact alike_findInFile hI hJ hq h path
    | function | constant => exact Lookup.alike_pure rfl
  | @builtIn stubs hstub =>
    have hsame : stubs.stub? a.kind a.name = stubs.stub? b.kind b.name := by
      by_cases hkind : a.kind = .constant
      · exact hstub hkind
      · rw [← h.kind_eq]
        apply stubs.stub?_congr
        exact Identifier.agrees_standard hkind (Identifier.stubKey_eq h.key_eq)
    rw [locate, locate, hsame]
    exact alike_findInStub hI hJ hq h _
  | @firstOf parts hparts ih =>
    rw [locate, locate]
    clear hparts
    induction parts with
    | nil =>
      rw [locateFirst, locateFirst]
      exact Lookup.alike_pure rfl
    | cons part rest ihrest =>
      rw [locateFirst, locateFirst]
      apply (ih part List.mem_cons_self).or
      exact ihrest (fun p hp => ih p (List.mem_cons_of_mem _ hp))

end Locator

end StaticReflection
