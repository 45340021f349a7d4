import Mathlib.Data.List.Induction
import StaticReflection.Proofs.DeclarationPlaces
import StaticReflection.Proofs.PrintedArrays
import StaticReflection.Proofs.ResolvedNames

/-!
The imports of a namespace as a table. Each item of a `use` statement imports one name, whatever the
form of the statement; the items of all statements in their order are all there is to know. Adding
one of them changes what its kind has under its alias and nothing else, so an alias stands for what
the last import of the kind under that alias names.
-/

namespace StaticReflection

open Name Syntax Text

namespace UseItem

/-- The item of a group with its name written out: one backslash stands between the common name,
which may end in backslashes itself, and its own. -/
def under (base : String) (item : UseItem) : UseItem :=
  { item with name :=
      String.ofList (dropEndWhile (· == '\\') base.toList) ++ "\\" ++ item.name }

/-- The full name of what is imported. -/
def target (item : UseItem) : String := stripRoots item.name

/-- The alias that the item has or, without one, the last segment of the full name. -/
def goesBy (item : UseItem) : String := item.localName.getD (short item.target)

end UseItem

/-- Aliases of constants are the same if they are equal, all others if their letters are. -/
def ImportKind.SameAlias : ImportKind → String → String → Prop
  | .constant, a, b => a = b
  | .classLike, a, b | .function, a, b => sameLetters a b = true

instance (kind : ImportKind) (a b : String) : Decidable (kind.SameAlias a b) := by
  cases kind <;> exact inferInstanceAs (Decidable (_ = _))

namespace UseClause

/-- The statement that imports a single item. -/
def single : ImportKind → UseItem → UseClause
  | .classLike, item => .plain [item]
  | kind, item => .typed kind [item]

/-- The statements to write in place of one, with none of them a group. -/
def writtenOut : UseClause → List UseClause
  | .plain items => [.plain items]
  | .typed kind items => [.typed kind items]
  | .group kind base items => items.map fun item => .single kind (item.under base)
  | .mixedGroup base items =>
    items.map fun item => .single (item.1.getD .classLike) (item.2.under base)

/-- What a statement imports, item by item, with the names written out. -/
def importedItems : UseClause → List (ImportKind × UseItem)
  | .plain items => items.map (.classLike, ·)
  | .typed kind items => items.map (kind, ·)
  | .group kind base items => items.map fun item => (kind, item.under base)
  | .mixedGroup base items => items.map fun item => (item.1.getD .classLike, item.2.under base)

end UseClause

/-- A body with its groups of imports written out. -/
def withoutGroups (body : List Stmt) : List Stmt :=
  body.flatMap fun s =>
    match s.clause? with
    | some clause => clause.writtenOut.map .use
    | none => [s]

/-- What the `use` statements directly in a body import, in their order. -/
def importedIn (body : List Stmt) : List (ImportKind × UseItem) :=
  (usesIn body).flatMap UseClause.importedItems

/-- What an alias stands for as a class, a function or a constant. -/
def Imports.lookup (imports : Imports) (kind : ImportKind) (localName : String) : Option String :=
  match kind with
  | .classLike => target? imports.classes (lower localName)
  | .function => target? imports.functions (lower localName)
  | .constant => target? imports.constants localName

/-! ### Groups are written out -/

/-- A common name that does not end in a backslash gets one. -/
theorem UseItem.under_of_getLast? {base : String} (h : base.toList.getLast? ≠ some '\\')
    (item : UseItem) : item.under base = { item with name := base ++ "\\" ++ item.name } := by
  have hbase : dropEndWhile (· == '\\') base.toList = base.toList := by
    cases hlast : base.toList.getLast? with
    | none =>
      rw [List.getLast?_eq_none_iff] at hlast
      rw [hlast]
      rfl
    | some c =>
      rw [hlast] at h
      exact dropEndWhile_of_getLast? hlast (by simpa using h)
  rw [under, hbase, String.ofList_toList]

/-- Another backslash at the end of the common name changes nothing. -/
theorem UseItem.under_backslash (base : String) (item : UseItem) :
    item.under (base ++ "\\") = item.under base := by
  have hbase : dropEndWhile (· == '\\') (base.toList ++ ['\\']) =
      dropEndWhile (· == '\\') base.toList := dropEndWhile_concat rfl
  rw [under, under, String.toList_append, show "\\".toList = ['\\'] from rfl, hbase]

/-- Without an alias, an item goes by what stands behind the last backslash of its full name. -/
theorem UseItem.goesBy_of_localName_none {item : UseItem} (h : item.localName = none) :
    isQualified item.goesBy = false ∧
      (item.target = item.goesBy ∨ ∃ space, item.target = space ++ "\\" ++ item.goesBy) := by
  rw [goesBy, h, Option.getD_none, short]
  cases hcut : cutLast '\\' item.target.toList with
  | none => exact ⟨by simpa [isQualified] using cutLast_eq_none.mp hcut, .inl rfl⟩
  | some parts =>
    obtain ⟨space, segment⟩ := parts
    obtain ⟨htarget, hsegment⟩ := cutLast_eq_some hcut
    refine ⟨by simpa [isQualified] using hsegment, .inr ⟨String.ofList space, ?_⟩⟩
    apply String.toList_inj.mp
    simpa using htarget

namespace Imports

/-- Adds what one item imports. -/
def addImported (imports : Imports) (imported : ImportKind × UseItem) : Imports :=
  imports.add imported.1 imported.2.goesBy imported.2.target

theorem addItem_eq (imports : Imports) (kind : ImportKind) (item : UseItem) :
    imports.addItem none kind item = imports.addImported (kind, item) := rfl

theorem addItem_under (imports : Imports) (base : String) (kind : ImportKind) (item : UseItem) :
    imports.addItem (some base) kind item = imports.addImported (kind, item.under base) := rfl

theorem addClause_eq (imports : Imports) (clause : UseClause) :
    imports.addClause clause = clause.importedItems.foldl addImported imports := by
  cases clause <;>
    simp only [addClause, UseClause.importedItems, List.foldl_map, addItem_eq, addItem_under]

/-- The imports of a body are added one after the other. -/
theorem ofBody_eq_foldl (space : Option String) (body : List Stmt) :
    ofBody space body = (importedIn body).foldl addImported (empty space) := by
  rw [ofBody_eq_imports, NamespaceBlock.imports, importedIn, List.foldl_flatMap]
  congr
  funext imports clause
  exact imports.addClause_eq clause

end Imports

theorem UseClause.importedItems_single (kind : ImportKind) (item : UseItem) :
    (single kind item).importedItems = [(kind, item)] := by
  cases kind <;> rfl

theorem UseClause.importedItems_writtenOut (clause : UseClause) :
    clause.writtenOut.flatMap importedItems = clause.importedItems := by
  cases clause with
  | plain items | typed kind items => exact List.flatMap_singleton _ _
  | group kind base items | mixedGroup base items =>
    rw [writtenOut, importedItems, List.flatMap_map, List.map_eq_flatMap]
    exact List.flatMap_congr fun item _ => importedItems_single _ _

theorem usesIn_withoutGroups (body : List Stmt) :
    usesIn (withoutGroups body) = (usesIn body).flatMap UseClause.writtenOut := by
  have huses : ∀ clauses : List UseClause, usesIn (clauses.map .use) = clauses := by
    intro clauses
    rw [usesIn, List.filterMap_map]
    exact List.filterMap_some
  induction body with
  | nil => rfl
  | cons s rest ih =>
    rw [withoutGroups, List.flatMap_cons, usesIn, List.filterMap_append, usesIn,
      List.filterMap_cons]
    change usesIn _ ++ usesIn (withoutGroups rest) = _
    rw [ih]
    cases hs : s.clause? with
    | none => simp [usesIn, hs]
    | some clause => rw [huses, List.flatMap_cons]; rfl

theorem importedIn_withoutGroups (body : List Stmt) :
    importedIn (withoutGroups body) = importedIn body := by
  rw [importedIn, usesIn_withoutGroups, List.flatMap_assoc, importedIn]
  exact List.flatMap_congr fun clause _ => clause.importedItems_writtenOut

/-! ### The last import counts -/

namespace Imports

theorem lookup_empty (space : Option String) (kind : ImportKind) (localName : String) :
    (empty space).lookup kind localName = none := by
  cases kind <;> rfl

theorem target?_cons (first : Import) (rest : List Import) (localName : String) :
    target? (first :: rest) localName =
      if first.localName = localName then some first.target else target? rest localName := by
  unfold target?
  by_cases h : first.localName = localName
  · rw [List.find?_cons_of_pos (by simpa using h), if_pos h]
    rfl
  · rw [List.find?_cons_of_neg (by simpa using h), if_neg h]

/-- An import changes what its kind has under its alias, and nothing else. -/
theorem lookup_addImported (imports : Imports) (imported : ImportKind × UseItem) (kind : ImportKind)
    (localName : String) :
    (imports.addImported imported).lookup kind localName =
      if imported.1 = kind ∧ kind.SameAlias imported.2.goesBy localName then
        some imported.2.target
      else imports.lookup kind localName := by
  obtain ⟨importedKind, item⟩ := imported
  cases importedKind <;> cases kind <;>
    simp [addImported, add, lookup, target?_cons, ImportKind.SameAlias, sameLetters]

/-- An alias stands for what the last of the imports of the kind under that alias names. -/
theorem lookup_foldl (space : Option String) (items : List (ImportKind × UseItem))
    (kind : ImportKind) (localName : String) :
    (items.foldl addImported (empty space)).lookup kind localName =
      (items.reverse.find? fun imported =>
        imported.1 = kind ∧ kind.SameAlias imported.2.goesBy localName).map (·.2.target) := by
  -- The last item comes off first: it is the one that overrides all others.
  induction items using List.reverseRecOn with
  | nil => exact lookup_empty space kind localName
  | append_singleton items imported ih =>
    rw [List.foldl_concat, lookup_addImported, ih, List.reverse_concat]
    split
    · rename_i h
      rw [List.find?_cons_of_pos (by simpa using h)]
      rfl
    · rename_i h
      rw [List.find?_cons_of_neg (by simpa using h)]

/-- What the imports of one kind come to does not depend on the others. -/
theorem lookup_ofBody_congr (space space' : Option String) {body body' : List Stmt}
    {kind : ImportKind}
    (h : (importedIn body).filter (·.1 = kind) = (importedIn body').filter (·.1 = kind))
    (localName : String) :
    (ofBody space body).lookup kind localName = (ofBody space' body').lookup kind localName := by
  have hfilter : ∀ items : List (ImportKind × UseItem),
      (items.reverse.find? fun imported =>
        imported.1 = kind ∧ kind.SameAlias imported.2.goesBy localName) =
      (items.filter (·.1 = kind)).reverse.find? fun imported =>
        kind.SameAlias imported.2.goesBy localName := by
    intro items
    rw [← List.filter_reverse, List.find?_filter]
    simp only [Bool.decide_and, Bool.decide_eq_true]
  rw [ofBody_eq_foldl, ofBody_eq_foldl, lookup_foldl, lookup_foldl, hfilter, hfilter, h]

/-- A name without backslashes is what it is imported as, or belongs to the namespace. -/
theorem resolve_of_not_isQualified (imports : Imports) {name : String}
    (h : isQualified name = false) :
    imports.resolveClass name =
        (imports.lookup .classLike name).getD (qualify imports.space name) ∧
      imports.resolveFunction name =
        (imports.lookup .function name).getD (qualify imports.space name) ∧
      imports.resolveConstant name =
        (imports.lookup .constant name).getD (qualify imports.space name) := by
  have hhead : name.toList.head? ≠ some '\\' := by
    intro hhead
    rw [isQualified_of_rooted hhead] at h
    cases h
  have hcut : cutFirst '\\' name.toList = none := by
    rw [cutFirst_eq_none]
    simpa [isQualified] using h
  have hnot : ¬ isQualified name = true := by simp [h]
  rw [imports.resolveClass_of_head hhead, hcut, imports.resolveFunction_eq, if_neg hnot,
    imports.resolveConstant_eq, if_neg hnot]
  exact ⟨rfl, rfl, rfl⟩

/-- The groups among the `use` statements of a namespace may be written out, each item with the
common name, a backslash and its own name. An item without an alias goes by the last segment of its
full name. Under an alias each kind has what the last import of that kind under that alias names,
whatever is imported of the other kinds, and names without backslashes resolve to it. -/
theorem last_import_counts (space : Option String) (body : List Stmt) :
    (∀ base (item : UseItem), item.under (base ++ "\\") = item.under base ∧
      (base.toList.getLast? ≠ some '\\' →
        item.under base = { item with name := base ++ "\\" ++ item.name })) ∧
    (∀ item : UseItem, item.localName = none → isQualified item.goesBy = false ∧
      (item.target = item.goesBy ∨ ∃ before, item.target = before ++ "\\" ++ item.goesBy)) ∧
    ofBody space (withoutGroups body) = ofBody space body ∧
    (∀ kind localName target, (ofBody space body).lookup kind localName = some target ↔
      ∃ before item after, importedIn body = before ++ (kind, item) :: after ∧
        kind.SameAlias item.goesBy localName ∧ item.target = target ∧
        ∀ later, (kind, later) ∈ after → ¬ kind.SameAlias later.goesBy localName) ∧
    (∀ kind space' body',
      (importedIn body).filter (·.1 = kind) = (importedIn body').filter (·.1 = kind) →
      ∀ localName, (ofBody space body).lookup kind localName =
        (ofBody space' body').lookup kind localName) ∧
    ∀ name, isQualified name = false →
      (ofBody space body).resolveClass name =
        ((ofBody space body).lookup .classLike name).getD (qualify (ofBody space body).space name) ∧
      (ofBody space body).resolveFunction name =
        ((ofBody space body).lookup .function name).getD (qualify (ofBody space body).space name) ∧
      (ofBody space body).resolveConstant name =
        ((ofBody space body).lookup .constant name).getD
          (qualify (ofBody space body).space name) := by
  refine ⟨fun base item => ⟨item.under_backslash base, fun h => item.under_of_getLast? h⟩,
    fun item => UseItem.goesBy_of_localName_none, ?_, fun kind localName target => ?_,
    fun kind space' body' h => lookup_ofBody_congr space space' h,
    fun name => resolve_of_not_isQualified _⟩
  · rw [ofBody_eq_foldl, importedIn_withoutGroups, ofBody_eq_foldl]
  · rw [ofBody_eq_foldl, lookup_foldl, Option.map_eq_some_iff]
    constructor
    · rintro ⟨imported, hfind, rfl⟩
      obtain ⟨hmatches, later, earlier, hreverse, hlater⟩ := List.find?_eq_some_iff_append.mp hfind
      obtain ⟨importedKind, item⟩ := imported
      obtain ⟨rfl, halias⟩ : importedKind = kind ∧ kind.SameAlias item.goesBy localName := by
        simpa using hmatches
      refine ⟨earlier.reverse, item, later.reverse, ?_, halias, rfl, fun other hother hsame => ?_⟩
      · simpa using congrArg List.reverse hreverse
      · have hnot := hlater _ (List.mem_reverse.mp hother)
        simp [hsame] at hnot
    · rintro ⟨before, item, after, himported, halias, rfl, hlast⟩
      refine ⟨(kind, item), List.find?_eq_some_iff_append.mpr
        ⟨by simpa using halias, after.reverse, before.reverse, ?_, fun other hother => ?_⟩, rfl⟩
      · rw [himported]
        simp
      · obtain ⟨otherKind, other⟩ := other
        have hnot := hlast other
        rw [Bool.not_eq_true', decide_eq_false_iff_not]
        rintro ⟨rfl, hsame⟩
        exact hnot (List.mem_reverse.mp hother) hsame

/-- A body in which all three kinds are imported under one alias, from groups and by themselves. -/
def mixedImports : List Stmt :=
  [.use (.plain [⟨"A\\B", none⟩]),
    .use (.group .function "\\Lib\\" [⟨"b", none⟩, ⟨"c", some "B"⟩]),
    .use (.mixedGroup "N" [(some .constant, ⟨"M\\B", none⟩), (none, ⟨"C", some "b"⟩)])]

theorem last_import_counts_mixedImports :
    (importedIn mixedImports).filter (·.1 = .constant) =
        (importedIn [.use (.typed .constant [⟨"N\\M\\B", none⟩])]).filter (·.1 = .constant) ∧
      isQualified "b" = false ∧ "\\Lib".toList.getLast? ≠ some '\\' ∧
      UseItem.under "\\Lib" ⟨"c", some "B"⟩ = ⟨"\\Lib\\c", some "B"⟩ ∧
      isQualified (UseItem.goesBy ⟨"N\\M\\B", none⟩) = false ∧
      (ofBody (some "App") mixedImports).lookup .constant "B" = some "N\\M\\B" ∧
      (ofBody (some "App") mixedImports).lookup .classLike "B" = some "N\\C" ∧
      (ofBody (some "App") mixedImports).lookup .constant "B" =
        (ofBody none [.use (.typed .constant [⟨"N\\M\\B", none⟩])]).lookup .constant "B" ∧
      (ofBody (some "App") mixedImports).resolveFunction "b" =
        ((ofBody (some "App") mixedImports).lookup .function "b").getD
          (qualify (ofBody (some "App") mixedImports).space "b") := by
  have hconstants : (importedIn mixedImports).filter (·.1 = .constant) =
      (importedIn [.use (.typed .constant [⟨"N\\M\\B", none⟩])]).filter (·.1 = .constant) := by
    decide +kernel
  have hsimple : isQualified "b" = false := by decide +kernel
  have hlib : "\\Lib".toList.getLast? ≠ some '\\' := by decide
  obtain ⟨hunder, hsegment, -, htable, hkinds, hresolved⟩ :=
    last_import_counts (some "App") mixedImports
  refine ⟨hconstants, hsimple, hlib, (hunder "\\Lib" _).2 hlib, (hsegment _ rfl).1, ?_, ?_,
    hkinds _ none _ hconstants "B", (hresolved "b" hsimple).2.1⟩
  · exact (htable .constant "B" "N\\M\\B").mpr ⟨(importedIn mixedImports).take 3,
      ⟨"N\\M\\B", none⟩, [(.classLike, ⟨"N\\C", some "b"⟩)], by decide +kernel,
      by decide +kernel, by decide +kernel, by simp⟩
  · exact (htable .classLike "B" "N\\C").mpr ⟨(importedIn mixedImports).dropLast,
      ⟨"N\\C", some "b"⟩, [], by decide +kernel, by decide +kernel, by decide +kernel, nofun⟩

end Imports

end StaticReflection
