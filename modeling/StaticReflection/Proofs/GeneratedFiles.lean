import Mathlib.Algebra.BigOperators.Group.List.Basic
import Mathlib.Data.List.Induction
import StaticReflection.Composer.VendorFiles
import StaticReflection.Proofs.PathPlaces

/-!
Generated files as Composer writes them, and what is read from them: a row for each entry, with its
key between quotes and one path expression or a list of them. All keys and paths come back in order.
What a path leads to is where Composer has it, below the directory of packages or below the root,
unless the directory of packages has no name: then a path below it is taken for an absolute one.
-/

namespace StaticReflection

open Text

/-! ### The last of several entries -/

namespace ClassMap

theorem ofList_concat (pairs : List (String × String)) (pair : String × String) :
    (ofList (pairs ++ [pair])).entries =
      (ofList pairs).entries.filter (·.1 != pair.1) ++ [pair] := by
  simp [ofList]

theorem lookup_filter (entries : List (String × String)) (name key : String) :
    (entries.filter (·.1 != name)).lookup key =
      if key = name then none else entries.lookup key := by
  induction entries with
  | nil => simp
  | cons e entries ih =>
    obtain ⟨n, path⟩ := e
    by_cases hn : n = name
    · rw [List.filter_cons_of_neg (by simp [hn]), ih]
      split
      · rfl
      · rename_i hkey
        rw [List.lookup_cons, show (key == n) = false by simp [hn, hkey]]
    · rw [List.filter_cons_of_pos (by simp [hn]), List.lookup_cons, List.lookup_cons]
      by_cases hkey : key = n
      · rw [show (key == n) = true by simp [hkey], if_neg (hkey ▸ hn)]
      · rw [show (key == n) = false by simp [hkey]]
        exact ih

/-- Of several entries with one name the last one counts. -/
theorem lookup_ofList (pairs : List (String × String)) (key : String) :
    (ofList pairs).entries.lookup key = pairs.reverse.lookup key := by
  induction pairs using List.reverseRecOn with
  | nil => rfl
  | append_singleton pairs pair ih =>
    obtain ⟨name, path⟩ := pair
    rw [ofList_concat, List.lookup_append, lookup_filter, ih, List.reverse_concat,
      List.lookup_cons, List.lookup_cons]
    by_cases hkey : key = name
    · rw [if_pos hkey, Option.none_or, show (key == name) = true by simp [hkey]]
    · rw [if_neg hkey, show (key == name) = false by simp [hkey]]
      exact Option.or_none

theorem nodup_ofList (pairs : List (String × String)) :
    ((ofList pairs).entries.map (·.1)).Nodup := by
  induction pairs using List.reverseRecOn with
  | nil => exact List.nodup_nil
  | append_singleton pairs pair ih =>
    rw [ofList_concat, List.map_append, List.map_singleton, List.nodup_append]
    refine ⟨ih.sublist (List.filter_sublist.map _), List.pairwise_singleton _ _, ?_⟩
    intro name hname other hother
    obtain ⟨e, he, rfl⟩ := List.mem_map.mp hname
    rw [List.mem_singleton.mp hother]
    simpa using (List.mem_filter.mp he).2

end ClassMap

namespace Composer

/-! ### Entries as they are written -/

/-- A path as generated files have it: below the directory of packages or below the root. -/
structure PathExpression where
  ofPackage : Bool
  path : String
  deriving DecidableEq, Repr

namespace PathExpression

/-- A relative path that stands between quotes as it is. -/
structure IsRelative (x : PathExpression) : Prop where
  noSlash : Path.isAbsolute x.path = false
  plain : IsPlain '\'' x.path.toList
  oneLine : '\n' ∉ x.path.toList

instance (x : PathExpression) : Decidable x.IsRelative :=
  decidable_of_iff
    (Path.isAbsolute x.path = false ∧ IsPlain '\'' x.path.toList ∧ '\n' ∉ x.path.toList)
    ⟨fun ⟨noSlash, plain, oneLine⟩ => ⟨noSlash, plain, oneLine⟩,
      fun ⟨noSlash, plain, oneLine⟩ => ⟨noSlash, plain, oneLine⟩⟩

def mark (x : PathExpression) : List Char := if x.ofPackage then vendorMark else rootMark

def printed (x : PathExpression) : List Char :=
  x.mark ++ (" . ".toList ++ '\'' :: '/' :: (x.path.toList ++ ['\'']))

/-- The path from the root on. -/
def fromRoot (vendor : String) (x : PathExpression) : String :=
  if x.ofPackage then vendor ++ "/" ++ x.path else x.path

/-- Where a path leads: below the directory of packages, which is below the root, or below the root
itself. -/
def target (root vendor : String) (x : PathExpression) : String :=
  Path.join (if x.ofPackage then Path.join root vendor else root) x.path

end PathExpression

/-- The value of an entry. -/
inductive PathValue where
  | single (x : PathExpression)
  | list (first : PathExpression) (more : List PathExpression)
  deriving DecidableEq, Repr

namespace PathValue

def first : PathValue → PathExpression
  | single x => x
  | list first _ => first

def paths : PathValue → List PathExpression
  | single x => [x]
  | list first more => first :: more

def printed : PathValue → List Char
  | single x => x.printed
  | list first more =>
    "array(".toList ++ (Text.join ", ".toList ((first :: more).map (·.printed)) ++ [')'])

end PathValue

structure GeneratedEntry where
  key : String
  value : PathValue
  deriving DecidableEq, Repr

namespace GeneratedEntry

def row (e : GeneratedEntry) : List Char :=
  '\'' :: (escaped '\'' e.key.toList ++ '\'' :: (" => ".toList ++ (e.value.printed ++ [','])))

/-- Any key on one line, and relative paths. -/
structure IsWritten (e : GeneratedEntry) : Prop where
  oneLine : '\n' ∉ e.key.toList
  relative : ∀ x ∈ e.value.paths, x.IsRelative

instance (e : GeneratedEntry) : Decidable e.IsWritten :=
  decidable_of_iff ('\n' ∉ e.key.toList ∧ ∀ x ∈ e.value.paths, x.IsRelative)
    ⟨fun ⟨oneLine, relative⟩ => ⟨oneLine, relative⟩,
      fun ⟨oneLine, relative⟩ => ⟨oneLine, relative⟩⟩

end GeneratedEntry

/-- A generated file of a project returns an array with these entries, each on a line of its own. -/
def Writes (files : FileTree) (root vendor name : String) (entries : List GeneratedEntry) : Prop :=
  Holds (generatedFile files root vendor name) "return array(".toList [' ', ' ', ' ', ' ']
    (entries.map (·.row))

/-! ### Rows -/

theorem PathValue.printed_list (first : PathExpression) (more : List PathExpression) :
    (list first more).printed = "array(".toList ++ (first.printed ++
      (more.flatMap (fun x => ", ".toList ++ x.printed) ++ [')'])) := by
  have hprinted : (list first more).printed = "array(".toList ++
      (Text.join ", ".toList ((first :: more).map (·.printed)) ++ [')']) := rfl
  rw [hprinted, List.map_cons, join_cons, List.flatMap_map, List.append_assoc]

theorem PathExpression.IsRelative.not_mem_printed {x : PathExpression} (hx : x.IsRelative) :
    '\n' ∉ x.printed := by
  have hmark : '\n' ∉ x.mark := by
    unfold mark
    cases x.ofPackage <;> decide
  simp [printed, hmark, hx.oneLine]

theorem GeneratedEntry.IsWritten.isRow {e : GeneratedEntry} (he : e.IsWritten) : IsRow e.row := by
  have hkey : '\n' ∉ escaped '\'' e.key.toList := fun hmem =>
    (mem_of_mem_escaped hmem).elim (by decide) he.oneLine
  have hvalue : '\n' ∉ e.value.printed := by
    have hpaths := he.relative
    cases hvalue : e.value with
    | single x =>
      rw [hvalue] at hpaths
      exact (hpaths x List.mem_cons_self).not_mem_printed
    | list first more =>
      rw [hvalue] at hpaths
      have hfirst := (hpaths first List.mem_cons_self).not_mem_printed
      have hmore : ∀ x ∈ more, '\n' ∉ x.printed := fun x hx =>
        (hpaths x (List.mem_cons_of_mem first hx)).not_mem_printed
      rw [PathValue.printed_list]
      simpa [hfirst] using hmore
  have hend : e.row = '\'' :: (escaped '\'' e.key.toList ++ '\'' ::
      (" => ".toList ++ e.value.printed)) ++ [','] := by
    simp [row]
  exact ⟨by simp [row, hkey, hvalue], rfl, hend ▸ List.getLast?_concat ..⟩

/-! ### Keys -/

theorem takeKey_cons_of_plain {c : Char} (hback : c ≠ '\\') (hquote : c ≠ '\'') (cs : List Char) :
    takeKey (c :: cs) = (takeKey cs).map fun (key, rest) => (c :: key, rest) := by
  rw [takeKey.eq_def]
  simp [hback, hquote]

/-- Reading undoes the escapes of a key. -/
theorem takeKey_escaped (key rest : List Char) :
    takeKey (escaped '\'' key ++ '\'' :: rest) = some (key, rest) := by
  induction key with
  | nil => rfl
  | cons c key ih =>
    by_cases hc : c = '\\' ∨ c = '\''
    · rw [escaped_cons_of_escape hc, List.cons_append, List.cons_append, takeKey, ih]
      simp [hc]
    · have ⟨hback, hquote⟩ := not_or.mp hc
      rw [escaped_cons_of_plain hback hquote, List.cons_append,
        takeKey_cons_of_plain hback hquote, ih]
      rfl

theorem takeEntry?_row (e : GeneratedEntry) :
    takeEntry? e.row = some (e.key, ' ' :: (e.value.printed ++ [','])) := by
  have hblank : (" => ".toList ++ (e.value.printed ++ [','])).dropWhile isBlank =
      '=' :: '>' :: ' ' :: (e.value.printed ++ [',']) := rfl
  simp only [GeneratedEntry.row, takeEntry?, takeKey_escaped, hblank, stripHead?, if_true,
    Option.map_some, String.ofList_toList]

/-! ### Paths -/

/-- Both variables start with a dollar sign. -/
theorem nextMark_cons_of_ne {c : Char} (h : '$' ≠ c) (cs : List Char) :
    nextMark (c :: cs) = nextMark cs := by
  have hnone : ∀ mark, stripHead? ('$' :: mark) (c :: cs) = none := fun mark => by
    rw [stripHead?, if_neg h]
  have hvendor : stripHead? vendorMark (c :: cs) = none := hnone "vendorDir".toList
  have hroot : stripHead? rootMark (c :: cs) = none := hnone "baseDir".toList
  rw [nextMark, hvendor, hroot]
  rfl

theorem nextMark_append {gap : List Char} (h : '$' ∉ gap) (cs : List Char) :
    nextMark (gap ++ cs) = nextMark cs := by
  induction gap with
  | nil => rfl
  | cons c gap ih =>
    simp only [List.mem_cons, not_or] at h
    rw [List.cons_append, nextMark_cons_of_ne h.1, ih h.2]

theorem nextMark_of_not_mem {cs : List Char} (h : '$' ∉ cs) : nextMark cs = none := by
  have happend := nextMark_append h []
  rwa [List.append_nil] at happend

theorem nextMark_mark (x : PathExpression) (cs : List Char) :
    nextMark (x.mark ++ cs) = some (x.ofPackage, x.mark ++ cs) := by
  unfold PathExpression.mark
  cases x.ofPackage <;> rfl

/-- The next expression gives its path, whatever stands behind it. -/
theorem takePaths_printed {vendor : String} {gap : List Char} {x : PathExpression}
    (hgap : '$' ∉ gap) (hx : x.IsRelative) (fuel : Nat) (rest : List Char) :
    takePaths vendor (fuel + 1) (gap ++ (x.printed ++ rest)) =
      x.fromRoot vendor :: takePaths vendor fuel rest := by
  have hmark : '\'' ∉ x.mark ++ " . ".toList := by
    unfold PathExpression.mark
    cases x.ofPackage <;> decide
  have hpath : '\'' ∉ '/' :: x.path.toList := by simp [hx.plain.2]
  have hslash : ('/' :: x.path.toList).dropWhile (· == '/') = x.path.toList := by
    have hhead := hx.noSlash
    rw [Path.isAbsolute] at hhead
    cases hcs : x.path.toList with
    | nil => rfl
    | cons c cs =>
      rw [hcs] at hhead
      have hc : (c == '/') = false := by simpa using hhead
      rw [List.dropWhile_cons_of_pos rfl, List.dropWhile_cons_of_neg (by simp [hc])]
  have hprinted : x.printed ++ rest =
      x.mark ++ " . ".toList ++ '\'' :: ('/' :: x.path.toList ++ '\'' :: rest) := by
    simp [PathExpression.printed]
  rw [takePaths, nextMark_append hgap]
  rw [hprinted, List.append_assoc, nextMark_mark, ← List.append_assoc]
  simp only [cutFirst_append hmark, cutFirst_append hpath, hslash, String.ofList_toList]
  rfl

theorem takePaths_of_not_mem {vendor : String} {tail : List Char} (h : '$' ∉ tail) (fuel : Nat) :
    takePaths vendor fuel tail = [] := by
  cases fuel with
  | zero => rfl
  | succ fuel => rw [takePaths, nextMark_of_not_mem h]

/-- The expressions behind the first one of a list, with a step for each of them. -/
theorem takePaths_more {vendor : String} {more : List PathExpression} {tail : List Char}
    (hmore : ∀ x ∈ more, x.IsRelative) (htail : '$' ∉ tail) {fuel : Nat}
    (hfuel : more.length ≤ fuel) :
    takePaths vendor fuel (more.flatMap (fun x => ", ".toList ++ x.printed) ++ tail) =
      more.map (·.fromRoot vendor) := by
  induction more generalizing fuel with
  | nil => exact takePaths_of_not_mem htail fuel
  | cons x more ih =>
    obtain ⟨fuel, rfl⟩ : ∃ n, fuel = n + 1 := ⟨fuel - 1, by simp at hfuel; omega⟩
    rw [List.flatMap_cons, List.append_assoc, List.append_assoc,
      takePaths_printed (by decide) (hmore x List.mem_cons_self),
      ih (fun y hy => hmore y (List.mem_cons_of_mem x hy)) (by simpa using hfuel), List.map_cons]

theorem pathsOf_printed {vendor : String} {value : PathValue}
    (h : ∀ x ∈ value.paths, x.IsRelative) :
    pathsOf vendor (' ' :: (value.printed ++ [','])) = value.paths.map (·.fromRoot vendor) := by
  cases value with
  | single x =>
    have hx : x.IsRelative := h x List.mem_cons_self
    rw [pathsOf, List.length_cons]
    exact (takePaths_printed (show '$' ∉ [' '] by decide) hx _ [',']).trans
      (congrArg _ (takePaths_of_not_mem (by decide) _))
  | list first more =>
    have hfirst : first.IsRelative := h first List.mem_cons_self
    have hmore : ∀ x ∈ more, x.IsRelative := fun x hx => h x (List.mem_cons_of_mem first hx)
    have hprinted : ' ' :: ((PathValue.list first more).printed ++ [',']) =
        " array(".toList ++ (first.printed ++
          (more.flatMap (fun x => ", ".toList ++ x.printed) ++ [')', ','])) := by
      simp [PathValue.printed_list]
    -- There are as many steps as characters, and no expression is without any.
    have hlength : more.length ≤ (more.flatMap fun x => ", ".toList ++ x.printed).length := by
      rw [List.length_flatMap]
      have hle := List.length_le_sum_of_one_le
        (more.map fun x => (", ".toList ++ x.printed).length) (by simp)
      rwa [List.length_map] at hle
    rw [pathsOf, hprinted]
    obtain ⟨fuel, hfuel, hmoreFuel⟩ : ∃ fuel, (" array(".toList ++ (first.printed ++
        (more.flatMap (fun x => ", ".toList ++ x.printed) ++ [')', ',']))).length = fuel + 1 ∧
        more.length ≤ fuel := by
      simp only [List.length_append]
      exact ⟨_, rfl, by simp; omega⟩
    rw [hfuel, takePaths_printed (by decide) hfirst, takePaths_more hmore (by decide) hmoreFuel]
    rfl

theorem arrayLines_of_writes {files : FileTree} {root vendor name : String}
    {entries : List GeneratedEntry} (hentries : ∀ e ∈ entries, e.IsWritten)
    (h : Writes files root vendor name entries) :
    arrayLines (generatedFile files root vendor name) = [] :: entries.map (·.row) := by
  have hrows : ∀ row ∈ entries.map (·.row), IsRow row := by
    intro row hrow
    obtain ⟨e, he, rfl⟩ := List.mem_map.mp hrow
    exact (hentries e he).isRow
  have hopening : "return array(".toList = "return array".toList ++ ['('] := rfl
  obtain ⟨before, body, hcut, hlines⟩ := h.rows_eq hopening (by decide) (by simp) hrows
  rw [arrayLines, hcut]
  exact hlines

/-- All entries come back, each with all of its paths. -/
theorem generatedEntries_of_writes {files : FileTree} {root vendor name : String}
    {entries : List GeneratedEntry} (hentries : ∀ e ∈ entries, e.IsWritten)
    (h : Writes files root vendor name entries) :
    generatedEntries files root vendor name =
      entries.map fun e => (e.key, e.value.paths.map (·.fromRoot vendor)) := by
  have hrows : (entries.map (·.row)).filterMap takeEntry? =
      entries.map fun e => (e.key, ' ' :: (e.value.printed ++ [','])) := by
    rw [List.filterMap_map, ← List.filterMap_eq_map]
    exact List.filterMap_congr fun e _ => takeEntry?_row e
  rw [generatedEntries, arrayLines_of_writes hentries h,
    List.filterMap_cons_none (show takeEntry? [] = none from rfl), hrows, List.map_map]
  apply List.map_congr_left
  intro e he
  exact congrArg (Prod.mk e.key) (pathsOf_printed (hentries e he).relative)

/-- A directory is normalised by a slash at its end, unless backslashes are written for slashes. -/
theorem same_normalDirectory {path : String} (h : '\\' ∉ path.toList) :
    Path.Same (normalDirectory path) path := by
  have hslashed : (path.toList.map fun c => if c == '\\' then '/' else c) = path.toList := by
    rw [List.map_congr_left (g := id), List.map_id]
    intro c hc
    have hne : (c == '\\') = false := by
      rw [beq_eq_false_iff_ne]
      rintro rfl
      exact h hc
    rw [hne]
    rfl
  simp only [normalDirectory, hslashed]
  split
  · rw [String.ofList_toList]
    exact ⟨rfl, rfl⟩
  · rename_i hopen
    have hne : path ≠ "" := by
      rintro rfl
      simp at hopen
    have hslash : String.ofList (path.toList ++ ['/']) = path ++ "/" ++ "" := by simp
    rw [hslash]
    refine ⟨?_, by rw [Path.segments_slash, Path.segments_empty, List.append_nil]⟩
    rw [String.append_assoc, Path.isAbsolute_append hne]

theorem PathExpression.IsRelative.same_target_iff {x : PathExpression} (hx : x.IsRelative)
    (root vendor : String) :
    Path.Same (Path.join root (x.fromRoot vendor)) (x.target root vendor) ↔
      x.ofPackage = false ∨ vendor ≠ "" ∨
        (Path.isAbsolute root = true ∧ Path.segments root = []) := by
  rw [fromRoot, target]
  cases x.ofPackage with
  | false => exact iff_of_true ⟨rfl, rfl⟩ (.inl rfl)
  | true =>
    by_cases hvendor : vendor = ""
    · subst hvendor
      simpa using Path.same_join_slash_empty hx.noSlash root
    · exact iff_of_true (Path.same_join_slash hvendor hx.noSlash root) (.inr (.inl hvendor))

theorem lookup_map_pair {α : Type} (entries : List α) (name path : α → String) (key : String) :
    (entries.map fun e => (name e, path e)).lookup key =
      (entries.find? (name · == key)).map path := by
  induction entries with
  | nil => rfl
  | cons e entries ih =>
    rw [List.map_cons, List.lookup_cons, List.find?_cons, Bool.beq_comm, ih]
    cases name e == key <;> rfl

/-- What is read from generated files is what was written into them: for packages each prefix with
each of its directories, in order, and for classes the first path of the last entry of each. A path
leads where it was written for; only below a directory of packages without a name it leads away from
the start of the file system, which is elsewhere unless the root is there. -/
theorem generated_files_read (files : FileTree) (root vendor : String)
    (entries : List GeneratedEntry) (hentries : ∀ e ∈ entries, e.IsWritten) :
    (Writes files root vendor "autoload_psr4.php" entries →
      packageEntries files root vendor = entries.flatMap fun e => e.value.paths.map fun x =>
        ⟨normalPrefix e.key, normalDirectory (x.fromRoot vendor)⟩) ∧
    (Writes files root vendor "autoload_classmap.php" entries →
      ((packageClasses files root vendor).entries.map (·.1)).Nodup ∧
      ∀ key, (packageClasses files root vendor).entries.lookup key =
        (entries.reverse.find? (·.key == key)).map fun e =>
          Path.join root (e.value.first.fromRoot vendor)) ∧
    ∀ e ∈ entries, ∀ x ∈ e.value.paths,
      (Path.Same (Path.join root (x.fromRoot vendor)) (x.target root vendor) ↔
        x.ofPackage = false ∨ vendor ≠ "" ∨
          (Path.isAbsolute root = true ∧ Path.segments root = [])) ∧
      ('\\' ∉ vendor.toList →
        Path.Same (Path.join root (normalDirectory (x.fromRoot vendor)))
          (Path.join root (x.fromRoot vendor))) := by
  refine ⟨fun hwrites => ?_, fun hwrites => ?_, fun e he x hx => ?_⟩
  · rw [packageEntries, generatedEntries_of_writes hentries hwrites, List.flatMap_map]
    simp only [List.map_map]
    rfl
  · have hclasses : packageClasses files root vendor = ClassMap.ofList (entries.map fun e =>
        (e.key, Path.join root (e.value.first.fromRoot vendor))) := by
      have hfirst : ∀ e : GeneratedEntry, (e.value.paths.map (·.fromRoot vendor)).head? =
          some (e.value.first.fromRoot vendor) := by
        rintro ⟨key, _ | _⟩ <;> rfl
      simp only [packageClasses, generatedEntries_of_writes hentries hwrites, List.filterMap_map,
        Function.comp_def, hfirst, Option.map_some, List.filterMap_eq_map']
    rw [hclasses]
    refine ⟨ClassMap.nodup_ofList _, fun key => ?_⟩
    rw [ClassMap.lookup_ofList, ← List.map_reverse, lookup_map_pair]
  · have hrelative := (hentries e he).relative x hx
    refine ⟨hrelative.same_target_iff root vendor, fun hvendor => ?_⟩
    apply (same_normalDirectory _).join
    have hpath := hrelative.plain.1
    cases hpackage : x.ofPackage <;> simp [PathExpression.fromRoot, hpackage, hvendor, hpath]

/-- Entries with a quote and a variable inside their texts, and with two paths for one class. -/
def mixedEntries : List GeneratedEntry :=
  [⟨"It's\\", .list ⟨true, "$baseDir"⟩ [⟨false, "lib"⟩]⟩,
    ⟨"A\\B", .single ⟨false, "B.php"⟩⟩, ⟨"A\\B", .single ⟨true, "b/B.php"⟩⟩]

def mixedText : String :=
  "<?php\n\nreturn array(\n" ++
    "    'It\\'s\\\\' => array($vendorDir . '/$baseDir', $baseDir . '/lib'),\n" ++
    "    'A\\\\B' => $baseDir . '/B.php',\n    'A\\\\B' => $vendorDir . '/b/B.php',\n);\n"

/-- A project whose generated files both have this text. -/
def generatedProject (vendor : List String) (text : String) : FileTree :=
  ⟨[(["p"], .directory), ("p" :: vendor, .directory), ("p" :: vendor ++ ["composer"], .directory),
    ("p" :: vendor ++ ["composer", "autoload_psr4.php"], .file (some text)),
    ("p" :: vendor ++ ["composer", "autoload_classmap.php"], .file (some text))], []⟩

theorem writes_mixedText {name : String}
    (hname : name = "autoload_psr4.php" ∨ name = "autoload_classmap.php") :
    Writes (generatedProject ["vendor"] mixedText) "p" "vendor" name mixedEntries := by
  have hfile : generatedFile (generatedProject ["vendor"] mixedText) "p" "vendor" name =
      mixedText.toList := by
    rcases hname with rfl | rfl <;> rfl
  rw [Writes, hfile]
  exact ⟨"<?php\n\n".toList, ['\n'], by decide +kernel, by decide +kernel, .inr rfl⟩

theorem generated_files_read_mixedEntries :
    packageEntries (generatedProject ["vendor"] mixedText) "p" "vendor" =
        [⟨"It's\\", "vendor/$baseDir/"⟩, ⟨"It's\\", "lib/"⟩, ⟨"A\\B\\", "B.php/"⟩,
          ⟨"A\\B\\", "vendor/b/B.php/"⟩] ∧
      (packageClasses (generatedProject ["vendor"] mixedText) "p" "vendor").entries.lookup "A\\B" =
        some "p/vendor/b/B.php" ∧
      Path.Same "p/vendor/b/B.php" (PathExpression.target "p" "vendor" ⟨true, "b/B.php"⟩) := by
  obtain ⟨hpackages, hclasses, hpaths⟩ := generated_files_read
    (generatedProject ["vendor"] mixedText) "p" "vendor" mixedEntries (by decide +kernel)
  refine ⟨(hpackages (writes_mixedText (.inl rfl))).trans (by decide +kernel),
    ((hclasses (writes_mixedText (.inr rfl))).2 "A\\B").trans (by decide +kernel), ?_⟩
  exact (hpaths ⟨"A\\B", .single ⟨true, "b/B.php"⟩⟩ (by decide) ⟨true, "b/B.php"⟩ (by decide)).1.mpr
    (.inr (.inl (by decide)))

def rootedEntries : List GeneratedEntry := [⟨"B", .single ⟨true, "b/B.php"⟩⟩]

def rootedText : String := "<?php\nreturn array(\n    'B' => $vendorDir . '/b/B.php',\n);\n"

/-- Of a directory of packages without a name, the files are not found below it. -/
theorem generated_paths_astray_of_unnamed_directory :
    ¬ ∀ (files : FileTree) (root vendor : String) (entries : List GeneratedEntry),
      (∀ e ∈ entries, e.IsWritten) → Writes files root vendor "autoload_classmap.php" entries →
      ∀ key path, (packageClasses files root vendor).entries.lookup key = some path →
        ∃ e ∈ entries, e.key = key ∧ Path.Same path (e.value.first.target root vendor) := by
  intro h
  have hfile : generatedFile (generatedProject [] rootedText) "p" "" "autoload_classmap.php" =
      rootedText.toList := rfl
  have hwrites :
      Writes (generatedProject [] rootedText) "p" "" "autoload_classmap.php" rootedEntries := by
    rw [Writes, hfile]
    exact ⟨"<?php\n".toList, ['\n'], by decide +kernel, by decide +kernel, .inr rfl⟩
  have hlookup : (packageClasses (generatedProject [] rootedText) "p" "").entries.lookup "B" =
      some "/b/B.php" := by decide +kernel
  obtain ⟨e, he, -, hsame⟩ := h _ _ _ _ (by decide +kernel) hwrites _ _ hlookup
  rw [List.mem_singleton.mp he] at hsame
  exact absurd hsame (by decide +kernel)

end Composer

end StaticReflection
