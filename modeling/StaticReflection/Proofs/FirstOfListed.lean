import StaticReflection.Locator.Locate
import StaticReflection.Proofs.DeclaredNames

/-!
Looking for one declaration agrees with listing them. Both walk the same declarations, but the one
selects by name before it asks whether a call of `define` is shadowed, and stops at its first hit,
while the other describes everything. Over files that stay as they are, the first of a complete list
that an identifier accepts is what a search for that identifier finds.
-/

namespace StaticReflection

open Syntax

/-- A question whose answers do not change while the files are these, and which leaves the files as
they are. -/
structure SteadyQuestion (files : FileTree) (isFunction : FunctionQuestion) : Prop where
  same : ∀ name s t, s.files = files → t.files = files →
    ((isFunction name).start s).1 = ((isFunction name).start t).1
  keeps : ∀ name s, s.files = files → ((isFunction name).start s).2.files = files

/-- Whether a declaration is shadowed does not change either. -/
theorem SteadyQuestion.isShadowed {files : FileTree} {isFunction : FunctionQuestion}
    (h : SteadyQuestion files isFunction) (d : Declaration) {s t u : Session} {shadowed : Bool}
    (hs : s.files = files) (ht : t.files = files)
    (hd : (d.isShadowed isFunction).start s = (.ok shadowed, u)) :
    u.files = files ∧ ∃ v, (d.isShadowed isFunction).start t = (.ok shadowed, v) ∧
      v.files = files := by
  unfold Declaration.isShadowed at hd ⊢
  cases hname : d.rivalDefine? with
  | none =>
    rw [hname] at hd
    cases hd
    exact ⟨hs, t, rfl, ht⟩
  | some name =>
    rw [hname] at hd
    have hsame := h.same name s t hs ht
    have hkeeps := h.keeps name s hs
    have hasked : (isFunction name).start s = (.ok shadowed, u) := hd
    rw [hasked] at hsame hkeeps
    exact ⟨hkeeps, ((isFunction name).start t).2, Prod.ext hsame.symm rfl, h.keeps name t ht⟩

namespace Lookup

/-- A lookup that gives this reflection, or finds nothing, whenever it runs over these files. -/
def Finds (files : FileTree) (l : Lookup (Option Found)) (r : Option Reflection) : Prop :=
  ∀ s, s.files = files → ∃ found t, l.start s = (.ok found, t) ∧ t.files = files ∧
    found.map (·.reflection) = r

variable {files : FileTree}

theorem finds_none : (pure none : Lookup (Option Found)).Finds files none := by
  intro s hs
  exact ⟨none, s, rfl, hs, rfl⟩

theorem Finds.start_eq {l : Lookup (Option Found)} {r : Option Reflection} (h : l.Finds files r)
    {s : Session} (hs : s.files = files) :
    (l.start s).1.map (Option.map (·.reflection)) = .ok r := by
  obtain ⟨found, t, hl, -, hr⟩ := h s hs
  rw [hl, ← hr]
  rfl

theorem finds_reflect {f : FileScope} {mode : BuildMode} {d : Declaration} {r : Reflection}
    (h : buildReflection f d mode = .ok r) :
    (some <$> d.reflect f mode : Lookup (Option Found)).Finds files (some r) := by
  intro s hs
  refine ⟨some ⟨s.nextInstance, r⟩, { s with nextInstance := s.nextInstance + 1 }, ?_, hs, rfl⟩
  rw [start_map, Declaration.start_reflect, h]
  rfl

/-- A first part that neither fails nor touches the files does not matter for what is found. -/
theorem Finds.after {α : Type} {l : Lookup α} {next : α → Lookup (Option Found)}
    {r : Option Reflection}
    (h : ∀ s, s.files = files → ∃ a t, l.start s = (.ok a, t) ∧ t.files = files ∧
      (next a).Finds files r) : (l >>= next).Finds files r := by
  intro s hs
  obtain ⟨a, t, hl, ht, hnext⟩ := h s hs
  obtain ⟨found, u, hfound, hu, hr⟩ := hnext t ht
  exact ⟨found, u, start_bind_eq_ok.mpr ⟨a, t, hl, hfound⟩, hu, hr⟩

/-- Where a first lookup finds nothing, a second one is made. -/
theorem Finds.or {l next : Lookup (Option Found)} {r r' : Option Reflection}
    (h : l.Finds files r) (hnext : next.Finds files r') :
    (do
      match ← l with
      | some found => return some found
      | none => next : Lookup (Option Found)).Finds files (r.or r') := by
  apply Finds.after
  intro s hs
  obtain ⟨found, t, hl, ht, hr⟩ := h s hs
  refine ⟨found, t, hl, ht, ?_⟩
  subst hr
  cases found with
  | none => exact hnext
  | some found =>
    intro u hu
    exact ⟨some found, u, rfl, hu, rfl⟩

end Lookup

/-- The first of the listed reflections that an identifier accepts. -/
def firstAccepted (id : Identifier) (found : List Found) : Option Reflection :=
  (found.map (·.reflection)).find? fun r => id.accepts r.name

theorem firstAccepted_append (id : Identifier) (left right : List Found) :
    firstAccepted id (left ++ right) = (firstAccepted id left).or (firstAccepted id right) := by
  unfold firstAccepted
  rw [List.map_append, List.find?_append]

theorem firstAccepted_cons (id : Identifier) (found : Found) (rest : List Found) :
    firstAccepted id (found :: rest) =
      if id.accepts found.reflection.name then some found.reflection
      else firstAccepted id rest := by
  unfold firstAccepted
  rw [List.map_cons, List.find?_cons]
  cases id.accepts found.reflection.name <;> rfl

section Sources

variable {files : FileTree} {isFunction : FunctionQuestion} {mode : BuildMode}

/-- The declarations that an identifier selects lead to the first that is accepted of all those that
are listed. -/
theorem findDeclared_of_listDeclared (hsteady : SteadyQuestion files isFunction) {f : FileScope}
    {ds : List Declaration} (hnamed : ∀ d ∈ ds, d.node.isNamed = true) {s t : Session}
    {found : List Found} (hs : s.files = files)
    (h : (listDeclared isFunction f mode ds).start s = (.ok found, t)) :
    t.files = files ∧ ∀ id : Identifier,
      (findDeclared isFunction f mode (ds.filter (·.answers id))).Finds files
        (firstAccepted id found) := by
  induction ds generalizing s found with
  | nil =>
    cases h
    exact ⟨hs, fun id => Lookup.finds_none⟩
  | cons d rest ih =>
    obtain ⟨shadowed, u, hshadowed, h⟩ := Lookup.start_bind_eq_ok.mp h
    have hu : u.files = files := (hsteady.isShadowed d hs hs hshadowed).1
    have hrest : ∀ d ∈ rest, d.node.isNamed = true := by
      intro d hd
      exact hnamed d (List.mem_cons_of_mem _ hd)
    cases shadowed with
    | true =>
      obtain ⟨ht, hfind⟩ := ih hrest hu h
      refine ⟨ht, fun id => ?_⟩
      rw [List.filter_cons]
      split
      · apply Lookup.Finds.after
        intro v hv
        obtain ⟨-, w, hw, hfiles⟩ := hsteady.isShadowed d hs hv hshadowed
        exact ⟨true, w, hw, hfiles, hfind id⟩
      · exact hfind id
    | false =>
      obtain ⟨first, v, hreflect, h⟩ := Lookup.start_bind_eq_ok.mp h
      obtain ⟨others, w, hothers, h⟩ := Lookup.start_bind_eq_ok.mp h
      cases h
      rw [Declaration.start_reflect] at hreflect
      cases hbuild : buildReflection f d mode with
      | error e =>
        rw [hbuild] at hreflect
        cases hreflect
      | ok r =>
        rw [hbuild] at hreflect
        cases hreflect
        obtain ⟨ht, hfind⟩ := ih hrest (s := { u with nextInstance := u.nextInstance + 1 }) hu
          hothers
        refine ⟨ht, fun id => ?_⟩
        have hname := name_of_buildReflection (hnamed d List.mem_cons_self) hbuild
        have hanswers : d.answers id = id.accepts r.name := by
          unfold Declaration.answers
          rw [hname]
        rw [firstAccepted_cons, List.filter_cons, hanswers]
        split
        · apply Lookup.Finds.after
          intro x hx
          obtain ⟨-, y, hy, hfiles⟩ := hsteady.isShadowed d hs hx hshadowed
          exact ⟨false, y, hy, hfiles, Lookup.finds_reflect hbuild⟩
        · exact hfind id

theorem Source.find_of_list (hsteady : SteadyQuestion files isFunction) {source : Source}
    {kind : Kind} {s t : Session} {found : List Found} (hs : s.files = files)
    (h : (source.list isFunction mode kind).start s = (.ok found, t)) :
    t.files = files ∧ ∀ id : Identifier, id.kind = kind →
      (source.find isFunction mode id).Finds files (firstAccepted id found) := by
  obtain ⟨p, u, hp, h⟩ := Lookup.start_bind_eq_ok.mp h
  rw [Lookup.start_ofExcept] at hp
  obtain ⟨hprogram, rfl⟩ := Prod.mk.inj hp
  have hnamed : ∀ d ∈ (p.declarationsOfKind kind).filter (·.qualifiedName?.isSome),
      d.node.isNamed = true := by
    intro d hd
    exact p.isNamed_of_mem (List.mem_filter.mp hd).1
  obtain ⟨ht, hfind⟩ := findDeclared_of_listDeclared hsteady hnamed hs h
  refine ⟨ht, fun id hid => ?_⟩
  apply Lookup.Finds.after
  intro v hv
  refine ⟨p, v, ?_, hv, ?_⟩
  · rw [Lookup.start_ofExcept, hprogram]
  -- What an identifier selects has a name, so it is among the declarations that are listed.
  have hselected : ((p.declarationsOfKind kind).filter (·.qualifiedName?.isSome)).filter
      (·.answers id) = (p.declarationsOfKind id.kind).filter (·.answers id) := by
    rw [List.filter_filter, hid]
    apply List.filter_congr
    intro d hd
    unfold Declaration.answers
    cases d.qualifiedName? <;> simp
  rw [← hselected]
  exact hfind id

theorem findInFile_of_listInFiles (hsteady : SteadyQuestion files isFunction) {path : String}
    {kind : Kind} {s t : Session} {found : List Found} (hs : s.files = files)
    (h : (listInFiles isFunction mode kind [path]).start s = (.ok found, t)) :
    t.files = files ∧ ∀ id : Identifier, id.kind = kind →
      (findInFile isFunction mode path id).Finds files (firstAccepted id found) := by
  obtain ⟨source, u, hread, h⟩ := Lookup.start_bind_eq_ok.mp h
  obtain ⟨listed, v, hlist, h⟩ := Lookup.start_bind_eq_ok.mp h
  obtain ⟨rest, w, hrest, h⟩ := Lookup.start_bind_eq_ok.mp h
  cases hrest
  cases h
  rw [start_readUser] at hread
  obtain ⟨hsource, rfl⟩ := Prod.mk.inj hread
  obtain ⟨ht, hfind⟩ := Source.find_of_list hsteady hs hlist
  refine ⟨ht, fun id hid => ?_⟩
  rw [List.append_nil]
  apply Lookup.Finds.after
  intro x hx
  refine ⟨source, x, ?_, hx, hfind id hid⟩
  rw [start_readUser, hx, ← hs, hsource]

end Sources

namespace Locator

/-- Locators of texts, of files and of the files below directories, and locators that ask several
such in turn. -/
inductive IsSourceTree : Locator → Prop where
  | text (source : String) : IsSourceTree (.text source)
  | file (path : String) : IsSourceTree (.file path)
  | directories {before : FileTree} {paths : List String} {l : Locator}
    (h : ofDirectories before paths = .ok l) : IsSourceTree l
  | firstOf {parts : List Locator} (h : ∀ part ∈ parts, IsSourceTree part) :
    IsSourceTree (.firstOf parts)

/-- What a locator finds for an identifier is the first of what it lists that is accepted. -/
def FindsFirstListed (files : FileTree) (isFunction : FunctionQuestion) (l : Locator) : Prop :=
  ∀ (mode : BuildMode) (lister finder : Nat) (kind : Kind) (s t : Session) (found : List Found),
    s.files = files → (l.list isFunction ⟨mode, lister⟩ kind).start s = (.ok found, t) →
    t.files = files ∧ ∀ id : Identifier, id.kind = kind →
      (l.locate isFunction ⟨mode, finder⟩ id).Finds files (firstAccepted id found)

variable {files : FileTree} {isFunction : FunctionQuestion}

theorem findsFirstListed_file (hsteady : SteadyQuestion files isFunction) (path : String) :
    (file path).FindsFirstListed files isFunction := by
  intro mode lister finder kind s t found hs h
  rw [list] at h
  obtain ⟨ht, hfind⟩ := findInFile_of_listInFiles hsteady hs h
  refine ⟨ht, fun id hid => ?_⟩
  rw [locate]
  exact hfind id hid

theorem findsFirstListed_firstOf {parts : List Locator}
    (hparts : ∀ part ∈ parts, part.FindsFirstListed files isFunction) :
    (firstOf parts).FindsFirstListed files isFunction := by
  intro mode lister finder kind s t found hs h
  rw [list] at h
  suffices hrest : t.files = files ∧ ∀ id : Identifier, id.kind = kind →
      (locateFirst isFunction ⟨mode, finder⟩ parts id).Finds files (firstAccepted id found) by
    refine ⟨hrest.1, fun id hid => ?_⟩
    rw [locate]
    exact hrest.2 id hid
  induction parts generalizing s found with
  | nil =>
    rw [listEach] at h
    cases h
    refine ⟨hs, fun id _ => ?_⟩
    rw [locateFirst]
    exact Lookup.finds_none
  | cons part rest ih =>
    rw [listEach] at h
    obtain ⟨first, u, hfirst, h⟩ := Lookup.start_bind_eq_ok.mp h
    obtain ⟨others, v, hothers, h⟩ := Lookup.start_bind_eq_ok.mp h
    cases h
    obtain ⟨hu, hfind⟩ := hparts part List.mem_cons_self mode lister finder kind s u first hs hfirst
    obtain ⟨ht, hrest⟩ := ih (fun p hp => hparts p (List.mem_cons_of_mem _ hp)) u others hu hothers
    refine ⟨ht, fun id hid => ?_⟩
    rw [locateFirst, firstAccepted_append]
    exact (hfind id hid).or (hrest id hid)

theorem IsSourceTree.findsFirstListed {l : Locator} (hl : l.IsSourceTree)
    (hsteady : SteadyQuestion files isFunction) : l.FindsFirstListed files isFunction := by
  induction hl with
  | text source =>
    intro mode lister finder kind s t found hs h
    rw [list] at h
    obtain ⟨ht, hfind⟩ := Source.find_of_list hsteady hs h
    refine ⟨ht, fun id hid => ?_⟩
    rw [locate]
    exact hfind id hid
  | file path => exact findsFirstListed_file hsteady path
  | directories h =>
    obtain ⟨parts, rfl, hfiles⟩ := ofDirectories_eq_firstOf h
    apply findsFirstListed_firstOf
    intro part hpart
    obtain ⟨path, rfl⟩ := hfiles part hpart
    exact findsFirstListed_file hsteady path
  | firstOf _ ih => exact findsFirstListed_firstOf ih

end Locator

/-- Every reflection is accepted by the identifier that is made from its own name. -/
theorem Identifier.make_accepts (rules : NameRules) (kind : Kind) (name : String) :
    (make rules kind name).accepts name = true := by
  unfold accepts key make Folding.apply
  rw [Name.stripRoots_stripRoot]
  exact beq_self_eq_true _

/-- If a tree of texts, files, directories and aggregates lists the declarations of a kind, then a
search for an identifier of that kind does not fail, and it finds the first of the list that the
identifier accepts, or nothing where it accepts none. So each declaration of the list is found under
its own name, unless an earlier one has a name that counts as equal. -/
theorem located_is_first_listed {files : FileTree} {isFunction : FunctionQuestion} {l : Locator}
    (hl : l.IsSourceTree) (hsteady : SteadyQuestion files isFunction) (mode : BuildMode)
    (lister finder : Nat) (kind : Kind) {s t : Session} (hs : s.files = files)
    (ht : t.files = files) {found : List Found}
    (hlist : ((l.list isFunction ⟨mode, lister⟩ kind).start s).1 = .ok found) :
    let answer (id : Identifier) :=
      ((l.locate isFunction ⟨mode, finder⟩ id).start t).1.map (Option.map (·.reflection))
    (∀ id : Identifier, id.kind = kind →
      answer id = .ok ((found.map (·.reflection)).find? fun r => id.accepts r.name)) ∧
    ∀ (rules : NameRules) (before after : List Found) (r : Found), found = before ++ r :: after →
      let id := Identifier.make rules kind r.reflection.name
      answer id = .ok (some (((before.map (·.reflection)).find? fun e => id.accepts e.name).getD
        r.reflection)) := by
  intro answer
  have hfirst : ∀ id : Identifier, id.kind = kind → answer id = .ok (firstAccepted id found) := by
    intro id hid
    have hfinds := (hl.findsFirstListed hsteady mode lister finder kind s _ found hs
      (Prod.ext hlist rfl)).2 id hid
    exact hfinds.start_eq ht
  refine ⟨hfirst, ?_⟩
  intro rules before after r hsplit id
  have hown : id.accepts r.reflection.name = true := Identifier.make_accepts rules kind _
  rw [hfirst id rfl, hsplit, firstAccepted_append, firstAccepted_cons, if_pos hown]
  unfold firstAccepted
  cases (before.map (·.reflection)).find? fun e => id.accepts e.name <;> rfl

/-- A text in which a namespace has its own function `define`: the call without a backslash declares
nothing, and the names of two of its three constants count as equal. -/
def shadowingText : Locator :=
  .text "<?php namespace N; define('B', 1); \\define('n\\B', 2); const B = 3, C = 4;"

/-- Only the function `define` of the namespace `N` exists. -/
def onlyRivalDefine : FunctionQuestion := fun name => pure (name == "N\\define")

theorem located_is_first_listed_shadowingText :
    ∃ found, ((shadowingText.list onlyRivalDefine ⟨.compiled, 0⟩ .constant).start
        (.start .empty)).1 = .ok found ∧
      found.map (·.reflection.name) = ["n\\B", "N\\B", "N\\C"] ∧
      ((shadowingText.locate onlyRivalDefine ⟨.compiled, 1⟩
        (.make .standard .constant "N\\B")).start (.start .empty)).1.map
          (Option.map (·.reflection)) = .ok (found.head?.map (·.reflection)) := by
  have hnames : (((shadowingText.list onlyRivalDefine ⟨.compiled, 0⟩ .constant).start
      (.start .empty)).1.map (List.map (·.reflection.name))).toOption =
        some ["n\\B", "N\\B", "N\\C"] := by
    decide +kernel
  cases hlist : ((shadowingText.list onlyRivalDefine ⟨.compiled, 0⟩ .constant).start
      (.start .empty)).1 with
  | error e =>
    rw [hlist] at hnames
    cases hnames
  | ok found =>
    rw [hlist] at hnames
    have hfound : found.map (·.reflection.name) = ["n\\B", "N\\B", "N\\C"] := Option.some.inj hnames
    have hsteady : SteadyQuestion .empty onlyRivalDefine :=
      ⟨fun _ _ _ _ _ => rfl, fun _ _ hs => hs⟩
    have hfirst := (located_is_first_listed (t := .start .empty) (.text _) hsteady .compiled 0 1
      .constant rfl rfl hlist).1 (.make .standard .constant "N\\B") rfl
    refine ⟨found, rfl, hfound, hfirst.trans ?_⟩
    cases found with
    | nil => cases hfound
    | cons first rest =>
      have hname : first.reflection.name = "n\\B" := (List.cons.inj hfound).1
      have haccepts : (Identifier.make .standard .constant "N\\B").accepts "n\\B" = true := by
        decide +kernel
      rw [List.map_cons, List.find?_cons, hname, haccepts]
      rfl

end StaticReflection
