import StaticReflection.Proofs.Chains
import StaticReflection.Proofs.Outcomes

/-!
Searches in the two modes of building. A search that describes heads only and one that describes
everything walk the same declarations, skip the same shadowed ones and stop at the same one. There
the heads agree. All that can go differently is that the declaration which is found cannot be
described in full.
-/

namespace StaticReflection

open Syntax

/-- What reflections say in either mode of building: the name, the place, and whom a class extends
and implements. -/
structure Outline where
  name : String
  kind : Kind
  classKind : Option ClassKind
  source : Source
  lines : LineSpan
  parent : Option String
  interfaces : List String
  deriving DecidableEq

namespace Reflection

def outline : Reflection → Outline
  | .classLike c => ⟨c.name, .classLike, some c.kind, c.source, c.lines, c.parent, c.interfaces⟩
  | .function f => ⟨f.name, .function, none, f.source, f.lines, none, []⟩
  | .constant c => ⟨c.name, .constant, none, c.source, c.lines, none, []⟩

/-- The head of a declaration and its full description. -/
def IsHeadOf (head full : Reflection) : Prop :=
  ∃ f d, buildReflection f d .identifierOnly = .ok head ∧ buildReflection f d .compiled = .ok full

private theorem outline_of_buildClass {f : FileScope} {imports : Imports} {decl : ClassDecl}
    {mode : BuildMode} {c : ClassReflection}
    (h : buildClass f imports (.classLike decl) mode = .ok c) :
    (Reflection.classLike c).outline =
      (Reflection.classLike (classHead f imports decl mode)).outline := by
  cases mode with
  | identifierOnly =>
    cases h
    rfl
  | compiled =>
    obtain ⟨constants, -, h⟩ := Error.ok_of_bind h
    cases h
    rfl

private theorem outline_of_buildConstant {f : FileScope} {d : Declaration} {head full : BuildMode}
    {a b : ConstantReflection} (ha : buildConstant f d.imports d.node head = .ok a)
    (hb : buildConstant f d.imports d.node full = .ok b) :
    (Reflection.constant a).outline = (Reflection.constant b).outline := by
  obtain ⟨node, imports⟩ := d
  cases node with
  | constant span item =>
    obtain ⟨x, -, ha⟩ := Error.ok_of_bind (r := buildValue f imports (some item.value) head) ha
    obtain ⟨y, -, hb⟩ := Error.ok_of_bind (r := buildValue f imports (some item.value) full) hb
    cases ha
    cases hb
    rfl
  | define span callee name value =>
    cases name with
    | none => cases ha
    | some name =>
      obtain ⟨x, -, ha⟩ := Error.ok_of_bind (r := buildValue f imports value head) ha
      obtain ⟨y, -, hb⟩ := Error.ok_of_bind (r := buildValue f imports value full) hb
      cases ha
      cases hb
      rfl
  | classLike | function | closure | arrow => cases ha

/-- The outline of a declaration does not depend on how much of it is described. -/
theorem outline_of_build {f : FileScope} {d : Declaration} {mode mode' : BuildMode}
    {a b : Reflection} (ha : buildReflection f d mode = .ok a)
    (hb : buildReflection f d mode' = .ok b) : a.outline = b.outline := by
  obtain ⟨node, imports⟩ := d
  cases node with
  | classLike decl =>
    obtain ⟨x, hx, ha⟩ := Error.ok_of_bind ha
    obtain ⟨y, hy, hb⟩ := Error.ok_of_bind hb
    cases ha
    cases hb
    rw [outline_of_buildClass hx, outline_of_buildClass hy]
    rfl
  | function | closure | arrow =>
    cases ha
    cases hb
    cases mode <;> cases mode' <;> rfl
  | constant span item | define span callee name value =>
    obtain ⟨x, hx, ha⟩ := Error.ok_of_bind ha
    obtain ⟨y, hy, hb⟩ := Error.ok_of_bind hb
    cases ha
    cases hb
    exact outline_of_buildConstant (d := ⟨_, imports⟩) hx hy

theorem IsHeadOf.outline_eq {head full : Reflection} (h : head.IsHeadOf full) :
    head.outline = full.outline := by
  obtain ⟨f, d, hhead, hfull⟩ := h
  exact outline_of_build hhead hfull

end Reflection

/-- What a search for heads comes to, and what the same search for full descriptions does. -/
inductive SameSearch : Except Error (Option Found) → Except Error (Option Found) → Prop where
  | failed (e : Error) : SameSearch (.error e) (.error e)
  | absent : SameSearch (.ok none) (.ok none)
  | described {head full : Found} (h : head.reflection.IsHeadOf full.reflection) :
    SameSearch (.ok (some head)) (.ok (some full))
  | undescribed {head : Found} {e : Error} (h : e.isBuildFault = true) :
    SameSearch (.ok (some head)) (.error e)

namespace Lookup

/-- A search for heads and one for full descriptions that go the same way on any sessions of two
settings, which they keep. -/
def GoesLike (I J : Session → Prop) (heads full : Lookup (Option Found)) : Prop :=
  ∀ s t, I s → J t → SameSearch (heads.start s).1 (full.start t).1 ∧
    I (heads.start s).2 ∧ J (full.start t).2

variable {α β : Type} {I J : Session → Prop} {files : FileTree}

theorem goesLike_none : (pure none : Lookup (Option Found)).GoesLike I J (pure none) :=
  fun _ _ hs ht => ⟨.absent, hs, ht⟩

/-- Searches go the same way after first parts that answer alike. -/
theorem Alike.bind_goesLike {view : α → β} {l l' : Lookup α}
    {heads full : α → Lookup (Option Found)} (h : l.Alike I J view l')
    (hnext : ∀ a a', view a = view a' → (heads a).GoesLike I J (full a')) :
    (l >>= heads).GoesLike I J (l' >>= full) := by
  intro s t hs ht
  obtain ⟨hview, hI, hJ⟩ := h s t hs ht
  rw [start_bind, start_bind]
  rcases hl : l.start s with ⟨e | a, s'⟩ <;> rcases hl' : l'.start t with ⟨e' | a', t'⟩ <;>
    rw [hl, hl'] at hview <;> rw [hl] at hI <;> rw [hl'] at hJ
  · obtain rfl : e = e' := Except.error.inj hview
    exact ⟨.failed e, hI, hJ⟩
  · cases hview
  · cases hview
  · exact hnext a a' (Except.ok.inj hview) s' t' hI hJ

/-- The first of two searches that finds something. -/
theorem GoesLike.or {heads full heads' full' : Lookup (Option Found)} (h : heads.GoesLike I J full)
    (hnext : heads'.GoesLike I J full') :
    (do
      match ← heads with
      | some found => return some found
      | none => heads' : Lookup (Option Found)).GoesLike I J
    (do
      match ← full with
      | some found => return some found
      | none => full') := by
  intro s t hs ht
  obtain ⟨hsame, hI, hJ⟩ := h s t hs ht
  rw [start_bind, start_bind]
  rcases hl : heads.start s with ⟨x, s'⟩
  rcases hl' : full.start t with ⟨y, t'⟩
  rw [hl, hl'] at hsame
  rw [hl] at hI
  rw [hl'] at hJ
  cases hsame with
  | failed e => exact ⟨.failed e, hI, hJ⟩
  | absent => exact hnext s' t' hI hJ
  | described hhead => exact ⟨.described hhead, hI, hJ⟩
  | undescribed hfault => exact ⟨.undescribed hfault, hI, hJ⟩

theorem goesLike_ifFiles (hI : Setting files I) (hJ : Setting files J)
    (choose : FileTree → Bool) {heads full heads' full' : Lookup (Option Found)}
    (h : heads.GoesLike I J full) (h' : heads'.GoesLike I J full') :
    (do if choose (← get).files then heads else heads' : Lookup (Option Found)).GoesLike I J
      (do if choose (← get).files then full else full') := by
  intro s t hs ht
  rw [start_bind, start_bind, start_get, start_get]
  simp only [hI.files_eq s hs, hJ.files_eq t ht]
  split
  · exact h s t hs ht
  · exact h' s t hs ht

end Lookup

section Sources

variable {I J : Session → Prop} {files : FileTree} {isFunction isFunction' : FunctionQuestion}
  {id : Identifier}

/-- The head of a declaration can always be described. -/
theorem Declaration.goesLike_reflect (hI : Setting files I) (hJ : Setting files J) (f : FileScope)
    {d : Declaration} (hname : d.qualifiedName?.isSome) :
    (some <$> d.reflect f .identifierOnly : Lookup (Option Found)).GoesLike I J
      (some <$> d.reflect f .compiled) := by
  intro s t hs ht
  rw [Lookup.start_map, Lookup.start_map, start_reflect, start_reflect]
  cases hhead : buildReflection f d .identifierOnly with
  | error e =>
    obtain ⟨hmode, -, -⟩ := lacks_of_buildReflection hname hhead
    cases hmode
  | ok head =>
    cases hfull : buildReflection f d .compiled with
    | error e =>
      obtain ⟨-, -, hlacks⟩ := lacks_of_buildReflection hname hfull
      exact ⟨.undescribed hlacks.isBuildFault, hI.handOut s hs, ht⟩
    | ok full => exact ⟨.described ⟨f, d, hhead, hfull⟩, hI.handOut s hs, hJ.handOut t ht⟩

theorem goesLike_findDeclared (hI : Setting files I) (hJ : Setting files J) (f : FileScope)
    {ds : List Declaration} (hname : ∀ d ∈ ds, d.qualifiedName?.isSome)
    (hq : ∀ d ∈ ds, d.kind = .constant → isFunction.Alike I J isFunction') :
    (findDeclared isFunction f .identifierOnly ds).GoesLike I J
      (findDeclared isFunction' f .compiled ds) := by
  induction ds with
  | nil => exact Lookup.goesLike_none
  | cons d rest ih =>
    apply (Declaration.alike_isShadowed (hq d List.mem_cons_self)).bind_goesLike
    intro shadowed shadowed' hshadowed
    obtain rfl : shadowed = shadowed' := hshadowed
    cases shadowed with
    | true =>
      exact ih (fun e he => hname e (List.mem_cons_of_mem _ he))
        fun e he => hq e (List.mem_cons_of_mem _ he)
    | false => exact Declaration.goesLike_reflect hI hJ f (hname d List.mem_cons_self)

theorem Source.goesLike_find (hI : Setting files I) (hJ : Setting files J)
    (hq : id.kind = .constant → isFunction.Alike I J isFunction') (source : Source) :
    (source.find isFunction .identifierOnly id).GoesLike I J
      (source.find isFunction' .compiled id) := by
  have hprogram : (Lookup.ofExcept source.program).Alike I J (fun p => p)
      (Lookup.ofExcept source.program) := Lookup.alike_ofExcept rfl
  apply hprogram.bind_goesLike
  intro p p' hp
  obtain rfl : p = p' := hp
  apply goesLike_findDeclared hI hJ
  · intro d hd
    exact Declaration.isSome_of_answers (List.mem_filter.mp hd).2
  · intro d hd hkind
    exact hq ((p.kind_of_mem (List.mem_filter.mp hd).1).symm.trans hkind)

theorem goesLike_findInFile (hI : Setting files I) (hJ : Setting files J)
    (hq : id.kind = .constant → isFunction.Alike I J isFunction') (path : String) :
    (findInFile isFunction .identifierOnly path id).GoesLike I J
      (findInFile isFunction' .compiled path id) := by
  apply (Lookup.alike_readUser hI hJ path).bind_goesLike
  intro source source' hsource
  obtain rfl : source = source' := hsource
  exact source.goesLike_find hI hJ hq

theorem goesLike_findInFiles (hI : Setting files I) (hJ : Setting files J)
    (hq : id.kind = .constant → isFunction.Alike I J isFunction') (paths : List String) :
    (findInFiles isFunction .identifierOnly id paths).GoesLike I J
      (findInFiles isFunction' .compiled id paths) := by
  induction paths with
  | nil => exact Lookup.goesLike_none
  | cons path rest ih =>
    exact Lookup.goesLike_ifFiles hI hJ (·.isFile path) ((goesLike_findInFile hI hJ hq path).or ih)
      ih

theorem goesLike_findInStub (hI : Setting files I) (hJ : Setting files J)
    (hq : id.kind = .constant → isFunction.Alike I J isFunction') (stub : Option Stub) :
    (findInStub isFunction .identifierOnly id stub).GoesLike I J
      (findInStub isFunction' .compiled id stub) := by
  rcases stub with _ | ⟨text, _ | name, file⟩
  · exact Lookup.goesLike_none
  · exact Lookup.goesLike_none
  · exact Source.goesLike_find hI hJ hq _

/-- A chain is searched the same way for heads and for full descriptions. -/
theorem Locator.IsChain.goesLike_locate {l : Locator} (hl : l.IsChain) (hI : Setting files I)
    (hJ : Setting files J) (hq : id.kind = .constant → isFunction.Alike I J isFunction')
    (asker asker' : Nat) :
    (l.locate isFunction ⟨.identifierOnly, asker⟩ id).GoesLike I J
      (l.locate isFunction' ⟨.compiled, asker'⟩ id) := by
  have hread := hl.readsAlike_self id
  clear hl
  induction hread with
  | text source =>
    rw [locate, locate]
    exact Source.goesLike_find hI hJ hq _
  | file path =>
    rw [locate, locate]
    exact goesLike_findInFile hI hJ hq path
  | psr4 =>
    rw [locate, locate]
    exact goesLike_findInFiles hI hJ hq _
  | @classMap map =>
    rw [locate, locate]
    cases id.kind with
    | classLike =>
      simp only
      cases map.file? id.name with
      | none => exact Lookup.goesLike_none
      | some path => exact goesLike_findInFile hI hJ hq path
    | function | constant => exact Lookup.goesLike_none
  | @builtIn stubs =>
    rw [locate, locate]
    exact goesLike_findInStub hI hJ hq _
  | @firstOf parts hparts ih =>
    rw [locate, locate]
    clear hparts
    induction parts with
    | nil =>
      rw [locateFirst, locateFirst]
      exact Lookup.goesLike_none
    | cons part rest ihrest =>
      rw [locateFirst, locateFirst]
      apply (ih part List.mem_cons_self).or
      exact ihrest fun p hp => ih p (List.mem_cons_of_mem _ hp)

end Sources

end StaticReflection
