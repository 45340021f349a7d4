import StaticReflection.Project
import StaticReflection.Proofs.AlikeLookups
import StaticReflection.Proofs.FirstOfListed

/-!
Chains of locators as projects have them: source trees, mappings, maps of classes and stubs. What a
chain answers for a class may depend on how its name is spelled; for a function it depends on the
key of the name alone.
-/

namespace StaticReflection

namespace Locator

/-- Chains of source trees, mappings of prefixes, maps of classes and stubs. -/
inductive IsChain : Locator → Prop where
  | sources {l : Locator} (h : l.IsSourceTree) : IsChain l
  | psr4 (mapping : Psr4Mapping) : IsChain (.psr4 mapping)
  | classMap (map : ClassMap) : IsChain (.classMap map)
  | builtIn (stubs : Stubber) : IsChain (.builtIn stubs)
  | firstOf {parts : List Locator} (h : ∀ part ∈ parts, IsChain part) : IsChain (.firstOf parts)

theorem IsSourceTree.readsAlike {l : Locator} (hl : l.IsSourceTree) (a b : Identifier) :
    l.ReadsAlike a b := by
  induction hl with
  | text source => exact .text source
  | file path => exact .file path
  | directories h =>
    obtain ⟨parts, rfl, hfiles⟩ := ofDirectories_eq_firstOf h
    refine .firstOf fun part hpart => ?_
    obtain ⟨path, rfl⟩ := hfiles part hpart
    exact .file path
  | firstOf _ ih => exact .firstOf ih

theorem IsChain.readsAlike_self {l : Locator} (hl : l.IsChain) (a : Identifier) :
    l.ReadsAlike a a := by
  induction hl with
  | sources h => exact h.readsAlike a a
  | psr4 mapping => exact .psr4 rfl
  | classMap map => exact .classMap fun _ => rfl
  | builtIn stubs => exact .builtIn fun _ => rfl
  | firstOf _ ih => exact .firstOf ih

/-- Functions are read alike, however their names are spelled. -/
theorem IsChain.readsAlike_function {l : Locator} (hl : l.IsChain) (rules : NameRules)
    (a b : String) :
    l.ReadsAlike (.make rules .function a) (.make rules .function b) := by
  induction hl with
  | sources h => exact h.readsAlike _ _
  | psr4 mapping => exact .psr4 rfl
  | classMap map => exact .classMap fun hclass => by cases hclass
  | builtIn stubs =>
    refine .builtIn fun hkind => ?_
    cases hkind
  | firstOf _ ih => exact .firstOf ih

/-- By the standard rules constants are read alike as well, if no name has a second leading
backslash: such a name is compared by other rules than its key shows. -/
theorem IsChain.readsAlike_constant {l : Locator} (hl : l.IsChain) {a b : String}
    (ha : Name.stripRoot a = Name.stripRoots a) (hb : Name.stripRoot b = Name.stripRoots b)
    (h : (Identifier.make .standard .constant a).key =
      (Identifier.make .standard .constant b).key) :
    (Identifier.make .standard .constant a).folding =
        (Identifier.make .standard .constant b).folding ∧
      l.ReadsAlike (.make .standard .constant a) (.make .standard .constant b) := by
  have hlower : Name.lower (Name.stripRoot a) = Name.lower (Name.stripRoot b) := by
    have hkey := Identifier.stubKey_eq h
    unfold stubKey Identifier.make at hkey
    rw [Name.stripRoots_stripRoot, Name.stripRoots_stripRoot, ← ha, ← hb] at hkey
    exact hkey
  have hfolding : (Identifier.make .standard .constant a).folding =
      (Identifier.make .standard .constant b).folding := by
    unfold Identifier.make NameRules.folding
    simp only [hlower]
  have htwice : ∀ name, Name.stripRoot name = Name.stripRoots name →
      Identifier.make .standard .constant (Identifier.make .standard .constant name).name =
        .make .standard .constant name := by
    intro name hname
    unfold Identifier.make
    simp only [hname, Name.stripRoot_stripRoots]
  refine ⟨hfolding, ?_⟩
  induction hl with
  | sources h => exact h.readsAlike _ _
  | psr4 mapping => exact .psr4 rfl
  | classMap map => exact .classMap fun hclass => by cases hclass
  | builtIn stubs =>
    refine .builtIn fun _ => stubs.stub?_congr ?_
    rw [Identifier.make_kind, htwice a ha, htwice b hb]
    exact ⟨rfl, hfolding, h⟩
  | firstOf _ ih => exact .firstOf ih

theorem isSourceTree_of_ofPath {files : FileTree} {path : String} {l : Locator}
    (h : ofPath files path = .ok l) : l.IsSourceTree := by
  unfold ofPath at h
  split at h
  · exact .directories h
  · rw [eq_file_of_ofFile h]
    exact .file path

end Locator

theorem Project.isChain_of_composerLocators {files : FileTree} {root : String} {config : Config}
    {parts : List Locator} (h : composerLocators files root config = .ok parts) :
    ∀ l ∈ parts, l.IsChain := by
  obtain ⟨loaded, hloaded, h⟩ := Error.ok_of_bind h
  cases h
  intro l hl
  rcases List.mem_append.mp hl with hl | hl
  · rcases List.mem_append.mp hl with hl | hl
    · split at hl
      · cases hl
      · rw [List.mem_singleton.mp hl]
        exact .psr4 _
    · split at hl
      · cases hl
      · rw [List.mem_singleton.mp hl]
        exact .classMap _
  · obtain ⟨path, -, hpath⟩ := Error.exists_of_mem_mapM hloaded hl
    rw [Locator.eq_file_of_ofFile hpath]
    exact .sources (.file path)

/-- The locators of a project make a chain if those of the host do. -/
theorem Project.isChain_of_chainParts {embedded : StubCollection} {files : FileTree}
    {root : String} {config : Config} {host parts : List Locator} (hhost : ∀ l ∈ host, l.IsChain)
    (h : chainParts embedded files root config host = .ok parts) :
    (Locator.firstOf parts).IsChain := by
  obtain ⟨paths, hpaths, h⟩ := Error.ok_of_bind h
  have hparts : ∃ composer, (∀ l ∈ composer, l.IsChain) ∧ parts = host ++ paths ++ composer ++
      (if config.stubs then [.builtIn (stubs embedded config)] else []) := by
    dsimp only at h
    split at h
    · obtain ⟨composer, hcomposer, h⟩ := Error.ok_of_bind h
      cases h
      exact ⟨composer, isChain_of_composerLocators hcomposer, rfl⟩
    · cases h
      exact ⟨[], by simp, rfl⟩
  obtain ⟨composer, hcomposer, rfl⟩ := hparts
  refine .firstOf fun l hl => ?_
  rcases List.mem_append.mp hl with hl | hl
  · rcases List.mem_append.mp hl with hl | hl
    · rcases List.mem_append.mp hl with hl | hl
      · exact hhost l hl
      · obtain ⟨path, -, hpath⟩ := Error.exists_of_mem_mapM hpaths hl
        exact .sources (Locator.isSourceTree_of_ofPath hpath)
    · exact hcomposer l hl
  · split at hl
    · rw [List.mem_singleton.mp hl]
      exact .builtIn _
    · cases hl

/-- A project with the sources below one directory, and with nothing that Composer says. -/
theorem Project.build_of_directory {embedded : StubCollection} {files : FileTree} {root : String}
    {config : Config} {directory : String} {found : List String}
    (hcomposer : config.composer = false) (hpaths : config.paths = [directory])
    (hdirectory : files.isDirectory (Path.join root directory) = true)
    (hfound : files.sourceFiles (Path.join root directory) = .ok found)
    (hfiles : ∀ path ∈ found, files.requireFile path = .ok ()) :
    build embedded files root config [] =
      let chain := Locator.firstOf (.firstOf (found.map .file) ::
        if config.stubs then [.builtIn (stubs embedded config)] else [])
      .ok ⟨root, config, if config.memoize then .memo chainSlot chain else chain⟩ := by
  have hpath : config.paths.mapM (fun path => Locator.ofPath files (Path.join root path)) =
      .ok [.firstOf (found.map .file)] := by
    rw [hpaths, List.mapM_cons, Locator.ofPath_of_isDirectory hdirectory hfound hfiles]
    rfl
  rw [build, chainParts, hpath, hcomposer]
  rfl

end StaticReflection
