import Mathlib.Algebra.Order.BigOperators.Group.List
import Mathlib.Algebra.Order.Group.Nat
import Mathlib.Data.List.Nodup
import StaticReflection.Proofs.PrintedArrays
import StaticReflection.Proofs.StubPresence
import StaticReflection.Stub.MapFile

/-!
Map files as they are printed. A table of names and paths becomes a section, in which quotes and
backslashes are escaped. The reader takes the texts between the quotes as they stand, so that it
gives back the table with its escapes: exactly the table where nothing had to be escaped, and
another one for names in namespaces. What the index that is built from it finds follows.
-/

namespace StaticReflection.StubMap

open Text

/-- A text as it stands between the quotes of a map. -/
def printed (text : String) : String := String.ofList (escaped '\'' text.toList)

/-- A row of a section, for a name and a path. -/
def printedRow (entry : String × String) : List Char :=
  ('\'' :: (printed entry.1).toList ++ ['\'']) ++
    (" => ".toList ++ ('\'' :: (printed entry.2).toList ++ ['\''])) ++ [',']

/-- A map file has a table as one of its sections. -/
def HoldsSection (content name : String) (table : List (String × String)) : Prop :=
  Holds content.toList ("const " ++ name ++ " = array (").toList [' ', ' '] (table.map printedRow)

/-- A table of names, each with its path: texts of one line, and no arrow inside a name. -/
structure IsTable (table : List (String × String)) : Prop where
  nodup : (table.map (·.1)).Nodup
  oneLine : ∀ e ∈ table, '\n' ∉ e.1.toList ∧ '\n' ∉ e.2.toList
  noArrow : ∀ e ∈ table, ¬ " => ".toList <:+: e.1.toList

@[simp] theorem toList_printed (text : String) :
    (printed text).toList = escaped '\'' text.toList := String.toList_ofList

theorem printed_injective : Function.Injective printed := by
  intro a b h
  have hescaped := congrArg String.toList h
  rw [toList_printed, toList_printed] at hescaped
  have hsame := congrArg unescaped hescaped
  rw [unescaped_escaped, unescaped_escaped] at hsame
  exact String.toList_inj.mp hsame

theorem printed_of_isPlain {text : String} (h : IsPlain '\'' text.toList) :
    printed text = text := by
  rw [printed, escaped_of_isPlain h, String.ofList_toList]

/-! ### One row -/

theorem isRow_printedRow {entry : String × String}
    (h : '\n' ∉ entry.1.toList ∧ '\n' ∉ entry.2.toList) : IsRow (printedRow entry) := by
  have hline : ∀ text : String, '\n' ∉ text.toList → '\n' ∉ (printed text).toList := by
    intro text htext hmem
    rw [toList_printed] at hmem
    exact (mem_of_mem_escaped hmem).elim (by decide) htext
  have hname := hline _ h.1
  have hpath := hline _ h.2
  exact ⟨by simp_all [printedRow], rfl, List.getLast?_concat ..⟩

theorem unquote?_quoted (cs : List Char) : unquote? ('\'' :: cs ++ ['\'']) = some cs := by
  have htrim : trim isBlank ('\'' :: cs ++ ['\'']) = '\'' :: cs ++ ['\''] := by
    have h : trim isBlank ([] ++ ('\'' :: cs ++ ['\''])) = '\'' :: cs ++ ['\''] :=
      trim_row (fun _ h => (List.not_mem_nil h).elim) rfl rfl (List.getLast?_concat ..) rfl
    rwa [List.nil_append] at h
  have hhead : stripHead? ['\''] ('\'' :: cs ++ ['\'']) = some (cs ++ ['\'']) :=
    stripHead?_eq_some.mpr rfl
  rw [unquote?, htrim, hhead, Option.bind_some]
  exact stripTail?_eq_some.mpr rfl

/-- Reading a row gives what stands between its quotes, escapes included. -/
theorem readLine?_printedRow {entry : String × String} (h : ¬ " => ".toList <:+: entry.1.toList) :
    readLine? (printedRow entry) = some (printed entry.1, printed entry.2) := by
  have hcomma : dropEndWhile (· == ',') (printedRow entry) =
      ('\'' :: (printed entry.1).toList ++ ['\'']) ++
        (" => ".toList ++ ('\'' :: (printed entry.2).toList ++ ['\''])) := by
    rw [printedRow, dropEndWhile_concat rfl]
    apply dropEndWhile_of_getLast? (c := '\'') _ rfl
    rw [← List.append_assoc, ← List.append_assoc]
    exact List.getLast?_concat ..
  have hnot : ¬ " => ".toList <:+: '\'' :: (printed entry.1).toList := by
    rw [toList_printed, List.infix_cons_iff]
    rintro (hstart | hinside)
    · rw [show " => ".toList = [' ', '=', '>', ' '] from rfl, List.cons_prefix_cons] at hstart
      exact absurd hstart.1 (by decide)
    · exact h (infix_of_infix_escaped (by decide) hinside)
  rw [readLine?, hcomma, cutAt_of_barrier (by decide) hnot]
  simp only [Option.bind_eq_bind, Option.bind_some, unquote?_quoted, String.ofList_toList]
  rfl

/-! ### One section -/

/-- Entries in ascending order of names, so that each name has one. -/
def Ascending (entries : List (String × String)) : Prop := entries.Pairwise (·.1 < ·.1)

variable {entries table : List (String × String)} {name path : String}

theorem lt_of_not_lt_of_ne {a b : String} (h : ¬ a < b) (hne : a ≠ b) : b < a := by
  have hle : b ≤ a := String.not_lt.mp h
  exact Classical.byContradiction fun hnot => hne (String.le_antisymm (String.not_lt.mp hnot) hle)

/-- The names behind the first one are other names. -/
theorem ne_of_ascending {e first : String × String} (h : Ascending (first :: entries))
    (he : e ∈ entries) : e.1 ≠ first.1 := by
  intro heq
  have hlt := (List.pairwise_cons.mp h).1 e he
  rw [heq] at hlt
  exact String.lt_irrefl _ hlt

theorem ascending_setEntry (h : Ascending entries) (name path : String) :
    Ascending (setEntry name path entries) ∧
      ∀ e, e ∈ setEntry name path entries ↔ e = (name, path) ∨ (e.1 ≠ name ∧ e ∈ entries) := by
  induction entries with
  | nil => simp [setEntry, Ascending]
  | cons first rest ih =>
    obtain ⟨n, p⟩ := first
    obtain ⟨hfirst, hrest⟩ := List.pairwise_cons.mp h
    rw [setEntry]
    split
    · rename_i hlt
      have hbefore : ∀ e ∈ (n, p) :: rest, name < e.1 := by
        intro e he
        rcases List.mem_cons.mp he with rfl | he
        · exact hlt
        · exact String.lt_trans hlt (hfirst e he)
      have hnew : Ascending ((name, path) :: (n, p) :: rest) := List.pairwise_cons.mpr ⟨hbefore, h⟩
      refine ⟨hnew, fun e => ?_⟩
      rw [List.mem_cons]
      exact or_congr_right ⟨fun he => ⟨ne_of_ascending hnew he, he⟩, And.right⟩
    · split
      · rename_i heq
        subst heq
        refine ⟨List.pairwise_cons.mpr ⟨hfirst, hrest⟩, fun e => ?_⟩
        have hne : e ∈ rest → e.1 ≠ name := ne_of_ascending h
        simp only [List.mem_cons]
        constructor
        · exact Or.imp_right fun he => ⟨hne he, .inr he⟩
        · rintro (he | ⟨hother, rfl | he⟩)
          · exact .inl he
          · exact absurd rfl hother
          · exact .inr he
      · rename_i hnot hne
        obtain ⟨hascending, hmem⟩ := ih hrest
        refine ⟨List.pairwise_cons.mpr ⟨fun e he => ?_, hascending⟩, fun e => ?_⟩
        · rcases (hmem e).mp he with rfl | ⟨-, he⟩
          · exact lt_of_not_lt_of_ne hnot hne
          · exact hfirst e he
        · rw [List.mem_cons, List.mem_cons, hmem e]
          have hfirst : e = (n, p) → e.1 ≠ name := by
            rintro rfl
            exact Ne.symm hne
          constructor
          · rintro (he | he | ⟨hother, he⟩)
            · exact .inr ⟨hfirst he, .inl he⟩
            · exact .inl he
            · exact .inr ⟨hother, .inr he⟩
          · rintro (he | ⟨hother, he | he⟩)
            · exact .inr (.inl he)
            · exact .inl he
            · exact .inr (.inr ⟨hother, he⟩)

/-- Entries with distinct names are all there after they have been set. -/
theorem foldl_setEntry {list : List (String × String)} (hlist : (list.map (·.1)).Nodup)
    (h : Ascending entries) :
    Ascending (list.foldl (fun entries (name, path) => setEntry name path entries) entries) ∧
      ∀ e, e ∈ list.foldl (fun entries (name, path) => setEntry name path entries) entries ↔
        e ∈ list ∨ (e.1 ∉ list.map (·.1) ∧ e ∈ entries) := by
  induction list generalizing entries with
  | nil => simpa using h
  | cons first list ih =>
    obtain ⟨name, path⟩ := first
    obtain ⟨hnew, hnodup⟩ := List.nodup_cons.mp hlist
    obtain ⟨hset, hmem⟩ := ascending_setEntry h name path
    obtain ⟨hascending, hmemAll⟩ := ih hnodup hset
    refine ⟨hascending, fun e => ?_⟩
    rw [List.foldl_cons, hmemAll, hmem, List.map_cons, List.mem_cons, List.mem_cons, not_or]
    have hother : e = (name, path) → e.1 ∉ list.map (·.1) := by
      rintro rfl
      exact hnew
    tauto

/-! ### A whole section -/

/-- An entry that nothing is escaped in. -/
def IsPlainEntry (e : String × String) : Prop :=
  IsPlain '\'' e.1.toList ∧ IsPlain '\'' e.2.toList

/-- What reading a printed table gives: names and paths as they are printed, each name once, and so
the table itself where nothing in it is escaped. -/
structure ReadsAsPrinted (entries table : List (String × String)) : Prop where
  ascending : Ascending entries
  mem_iff : ∀ name path, (name, path) ∈ entries ↔
    ∃ e ∈ table, name = printed e.1 ∧ path = printed e.2
  exact_iff : (∀ e, e ∈ entries ↔ e ∈ table) ↔ ∀ e ∈ table, IsPlainEntry e

theorem readSection_eq (htable : IsTable table) {content : String} (hname : '(' ∉ name.toList)
    (h : HoldsSection content name table) :
    readSection content name = (table.map fun e => (printed e.1, printed e.2)).foldl
      (fun entries (name, path) => setEntry name path entries) [] := by
  have hopening : ("const " ++ name ++ " = array (").toList =
      ("const " ++ name ++ " = array ").toList ++ ['('] := by
    simp
  obtain ⟨before, body, hcut, hrows⟩ := h.rows_eq hopening (by simpa using hname)
    (by simp) (by
      intro row hrow
      obtain ⟨e, he, rfl⟩ := List.mem_map.mp hrow
      exact isRow_printedRow (htable.oneLine e he))
  have hread : ([] :: table.map printedRow).filterMap readLine? =
      table.map fun e => (printed e.1, printed e.2) := by
    rw [List.filterMap_cons_none (by rfl), List.filterMap_map, ← List.filterMap_eq_map]
    exact List.filterMap_congr fun e he => readLine?_printedRow (htable.noArrow e he)
  rw [readSection, hcut]
  simp only [hrows, hread]

def entryLength (e : String × String) : Nat := e.1.toList.length + e.2.toList.length

theorem entryLength_lt_printed {e : String × String} (h : ¬ IsPlainEntry e) :
    entryLength e < entryLength (printed e.1, printed e.2) := by
  have hle : ∀ text : String, text.toList.length ≤ (printed text).toList.length := by
    intro text
    rw [toList_printed, length_escaped]
    omega
  have hlt : ∀ text : String, ¬ IsPlain '\'' text.toList →
      text.toList.length < (printed text).toList.length := by
    intro text htext
    rw [isPlain_iff_length, Nat.not_le] at htext
    rwa [toList_printed]
  change _ < (printed e.1).toList.length + (printed e.2).toList.length
  unfold entryLength
  rcases not_and_or.mp h with h | h
  · have := hlt e.1 h
    have := hle e.2
    omega
  · have := hle e.1
    have := hlt e.2 h
    omega

theorem isPlainEntry_of_printed {e : String × String}
    (h : IsPlainEntry (printed e.1, printed e.2)) : IsPlainEntry e := by
  obtain ⟨hname, hpath⟩ := h
  rw [toList_printed] at hname hpath
  exact ⟨isPlain_of_isPlain_escaped hname, isPlain_of_isPlain_escaped hpath⟩

/-- A table that has each of its entries as it is printed, too, has nothing to escape. -/
theorem isPlainEntry_of_closed (h : ∀ e ∈ table, (printed e.1, printed e.2) ∈ table) :
    ∀ e ∈ table, IsPlainEntry e := by
  intro e he
  by_contra hplain
  -- Printed again and again, the entry would grow beyond the longest one.
  have hgrows : ∀ n, ∃ e ∈ table, ¬ IsPlainEntry e ∧ n ≤ entryLength e := by
    intro n
    induction n with
    | zero => exact ⟨e, he, hplain, Nat.zero_le _⟩
    | succ n ih =>
      obtain ⟨e, he, hplain, hle⟩ := ih
      exact ⟨_, h e he, fun hprinted => hplain (isPlainEntry_of_printed hprinted),
        Nat.lt_of_le_of_lt hle (entryLength_lt_printed hplain)⟩
  obtain ⟨long, hlong, -, hle⟩ := hgrows ((table.map entryLength).sum + 1)
  have hbound : entryLength long ≤ (table.map entryLength).sum :=
    List.single_le_sum (fun _ _ => Nat.zero_le _) _ (List.mem_map_of_mem hlong)
  omega

theorem readSection_readsAsPrinted (htable : IsTable table) {content : String}
    (hname : '(' ∉ name.toList) (h : HoldsSection content name table) :
    ReadsAsPrinted (readSection content name) table := by
  have hnodup : ((table.map fun e => (printed e.1, printed e.2)).map (·.1)).Nodup := by
    rw [List.map_map]
    have hnames := htable.nodup.map printed_injective
    rwa [List.map_map] at hnames
  obtain ⟨hascending, hmem⟩ := foldl_setEntry hnodup (List.Pairwise.nil : Ascending [])
  rw [← readSection_eq htable hname h] at hascending hmem
  have hmem_iff : ∀ name' path, (name', path) ∈ readSection content name ↔
      ∃ e ∈ table, name' = printed e.1 ∧ path = printed e.2 := by
    intro name' path
    rw [hmem]
    simp [eq_comm]
  refine ⟨hascending, hmem_iff, fun hsame => ?_, fun hplain e => ?_⟩
  · exact isPlainEntry_of_closed fun e he =>
      (hsame _).mp ((hmem_iff _ _).mpr ⟨e, he, rfl, rfl⟩)
  · have hsame : ∀ e ∈ table, (printed e.1, printed e.2) = e := fun e he =>
      Prod.ext (printed_of_isPlain (hplain e he).1) (printed_of_isPlain (hplain e he).2)
    rw [show e = (e.1, e.2) from rfl, hmem_iff]
    constructor
    · rintro ⟨e', he', hname', hpath'⟩
      rw [hname', hpath', hsame e' he']
      exact he'
    · intro he
      exact ⟨e, he, (congrArg Prod.fst (hsame e he)).symm, (congrArg Prod.snd (hsame e he)).symm⟩

/-! ### The index of a map -/

/-- The text that a literal between double quotes stands for. -/
def literalText (literal : String) : String :=
  String.ofList (unescaped literal.toList.tail.dropLast)

theorem literalText_quoted (text : String) : literalText (quoted text) = text := by
  have hbetween : (quoted text).toList.tail.dropLast = escaped '"' text.toList := by
    simp [quoted, escaped]
  rw [literalText, hbetween, unescaped_escaped, String.ofList_toList]

def kinds : List Kind := [.classLike, .function, .constant]

/-- The section with the names of a kind. -/
def sectionName : Kind → String
  | .classLike => "CLASSES"
  | .function => "FUNCTIONS"
  | .constant => "CONSTANTS"

/-- The index that a program has of a map: the tables that are generated for it, with names and
paths as their literals give them. -/
def indexOf (files : FileTree) (base content : String) (version : Option PhpVersion) : StubIndex :=
  let entries := sections.map fun s => readSection content s.name
  let embedded := embeddedFiles files base entries
  let rows (kind : Kind) := numbered embedded (readSection content (sectionName kind))
  { files := embedded.map fun path =>
      (literalText (quoted path), (files.read (Path.join base path)).toOption.getD "")
    names := ⟨kinds.flatMap fun kind =>
      (rows kind).map fun (name, number) => (kind, literalText (quoted name), number)⟩
    version }

variable {files : FileTree} {base content : String} {kind : Kind}

theorem mem_embeddedFiles {tables : List (List (String × String))} :
    path ∈ embeddedFiles files base tables ↔
      (∃ table ∈ tables, ∃ name, (name, path) ∈ table) ∧
        files.isFile (Path.join base path) = true := by
  have hmem : ∀ entries : List (String × String),
      path ∈ entries.foldr (fun (_, path) list => insertAscending path list) [] ↔
        ∃ name, (name, path) ∈ entries := by
    intro entries
    induction entries with
    | nil => simp
    | cons e entries ih =>
      obtain ⟨name, path'⟩ := e
      rw [List.foldr_cons, mem_insertAscending, ih]
      simp only [List.mem_cons, Prod.mk.injEq]
      constructor
      · rintro (rfl | ⟨name', h⟩)
        · exact ⟨name, .inl ⟨rfl, rfl⟩⟩
        · exact ⟨name', .inr h⟩
      · rintro ⟨name', ⟨-, h⟩ | h⟩
        · exact .inl h
        · exact .inr ⟨name', h⟩
  rw [embeddedFiles, List.mem_filter, hmem]
  refine and_congr_left fun _ => ?_
  simp only [List.mem_flatten]
  tauto

theorem mem_numbered {embedded : List String} {number : Nat} :
    (name, number) ∈ numbered embedded entries ↔
      ∃ path, (name, path) ∈ entries ∧ embedded.idxOf? path = some number := by
  simp [numbered, List.mem_filterMap]

theorem mem_kinds (kind : Kind) : kind ∈ kinds := by
  cases kind <;> decide

theorem readSection_mem_sections (content : String) (kind : Kind) :
    readSection content (sectionName kind) ∈ sections.map fun s => readSection content s.name := by
  cases kind <;> simp [sections, sectionName]

theorem mem_names_indexOf {version : Option PhpVersion} {number : Nat} :
    (kind, name, number) ∈ (indexOf files base content version).names.entries ↔
      ∃ path, (name, path) ∈ readSection content (sectionName kind) ∧
        (embeddedFiles files base (sections.map fun s => readSection content s.name)).idxOf? path =
          some number := by
  simp only [indexOf, literalText_quoted, List.mem_flatMap, List.mem_map]
  constructor
  · rintro ⟨k, -, ⟨n, i⟩, hrow, he⟩
    cases he
    exact mem_numbered.mp hrow
  · intro h
    exact ⟨kind, mem_kinds kind, (name, number), mem_numbered.mpr h, rfl⟩

theorem inRange_indexOf (files : FileTree) (base content : String) (version : Option PhpVersion) :
    (indexOf files base content version).InRange := by
  rintro ⟨kind, name, number⟩ hentry
  obtain ⟨path, -, hnumber⟩ := mem_names_indexOf.mp hentry
  obtain ⟨hlt, -⟩ := List.idxOf?_eq_some_iff.mp hnumber
  simpa [indexOf] using hlt

/-- The index knows of what folds to the key of a name that was read with the path of a file. -/
theorem isKnown_indexOf {version : Option PhpVersion} :
    ((indexOf files base content version).presence kind name).isKnown = true ↔
      ∃ declared path, (declared, path) ∈ readSection content (sectionName kind) ∧
        files.isFile (Path.join base path) = true ∧ stubKey declared = stubKey name := by
  rw [StubIndex.isKnown_presence, StubTable.isSome_get?_iff]
  constructor
  · rintro ⟨declared, number, hentry, hkey⟩
    obtain ⟨path, hread, hnumber⟩ := mem_names_indexOf.mp hentry
    have hembedded := List.isSome_idxOf?.mp (Option.isSome_of_eq_some hnumber)
    exact ⟨declared, path, hread, (mem_embeddedFiles.mp hembedded).2, hkey⟩
  · rintro ⟨declared, path, hread, hfile, hkey⟩
    have hembedded : path ∈ embeddedFiles files base
        (sections.map fun s => readSection content s.name) :=
      mem_embeddedFiles.mpr ⟨⟨_, readSection_mem_sections content kind, declared, hread⟩, hfile⟩
    obtain ⟨number, hnumber⟩ := Option.isSome_iff_exists.mp (List.isSome_idxOf?.mpr hembedded)
    exact ⟨declared, number, mem_names_indexOf.mpr ⟨path, hread, hnumber⟩, hkey⟩

/-- Without a version the index has a stub for each name that it knows of. -/
theorem isSome_stub?_indexOf :
    ((indexOf files base content none).stub? kind name).isSome =
      ((indexOf files base content none).presence kind name).isKnown := by
  rw [Bool.eq_iff_iff, (inRange_indexOf files base content none).isSome_stub?_iff,
    StubIndex.isKnown_presence]
  unfold StubIndex.presence
  cases (indexOf files base content none).names.get? kind name <;> simp [indexOf]

/-- A name as a declaration has it: segments with a backslash between each two. -/
structure IsSymbolName (name : String) : Prop where
  head : name.toList.head? ≠ some '\\'
  segments : ¬ ['\\', '\\'] <:+: name.toList
  noQuote : '\'' ∉ name.toList

theorem head?_printed {declared : String} (h : IsSymbolName declared) :
    (printed declared).toList.head? ≠ some '\\' := by
  rw [toList_printed]
  have hhead := h.head
  have hquote := h.noQuote
  cases hcs : declared.toList with
  | nil => simp [escaped]
  | cons c cs =>
    simp only [hcs, List.head?_cons, ne_eq, Option.some.injEq, List.mem_cons, not_or]
      at hhead hquote
    rw [escaped_cons_of_plain hhead (Ne.symm hquote.1), List.head?_cons, ne_eq, Option.some.injEq]
    exact hhead

theorem eq_of_toLower_eq {c : Char} (h : c.toLower = '\\') : c = '\\' := by
  have hbeq := Text.toLower_eq_backslash c
  simpa [h] using hbeq

/-- No name in a namespace has the key of a name as it is printed: behind a backslash another one
would have to stand. -/
theorem not_mem_of_stubKey_printed {declared : String} (hdeclared : IsSymbolName declared)
    (hname : IsSymbolName name) (h : stubKey (printed declared) = stubKey name) :
    '\\' ∉ name.toList := by
  rw [stubKey, stubKey, Name.stripRoots_of_head (head?_printed hdeclared),
    Name.stripRoots_of_head hname.head] at h
  have hlower : Text.lower (escaped '\'' declared.toList) = Text.lower name.toList := by
    rw [← toList_printed]
    exact String.ofList_injective h
  intro hmem
  have hback : '\\' ∈ declared.toList := by
    have hlowered : '\\' ∈ Text.lower name.toList := List.mem_map.mpr ⟨_, hmem, rfl⟩
    rw [← hlower] at hlowered
    obtain ⟨c, hc, hcback⟩ := List.mem_map.mp hlowered
    rw [eq_of_toLower_eq hcback] at hc
    by_contra hnot
    rw [escaped_of_isPlain ⟨hnot, hdeclared.noQuote⟩] at hc
    exact hnot hc
  obtain ⟨front, rest, hsplit⟩ := List.append_of_mem hback
  have hdouble : escaped '\'' declared.toList =
      escaped '\'' front ++ '\\' :: '\\' :: escaped '\'' rest := by
    rw [hsplit, escaped, List.flatMap_append]
    rfl
  rw [hdouble, Text.lower, List.map_append, List.map_cons, List.map_cons, Text.lower, eq_comm,
    List.map_eq_append_iff] at hlower
  obtain ⟨before, after, hnameSplit, -, hafter⟩ := hlower
  rw [List.map_eq_cons_iff] at hafter
  obtain ⟨c, after, rfl, hc, hafter⟩ := hafter
  rw [List.map_eq_cons_iff] at hafter
  obtain ⟨d, after, rfl, hd, -⟩ := hafter
  rw [eq_of_toLower_eq hc, eq_of_toLower_eq hd] at hnameSplit
  exact hname.segments ⟨before, after, by simp [hnameSplit]⟩

/-- A section that was printed from a table is read with its escapes. The index then knows of a name
if it has the key of a name of the table as printed, whose path as printed leads to a file; of the
names that declarations have, with paths as they are, these are those outside all namespaces. -/
theorem section_reads_as_printed (tables : Kind → List (String × String)) (content : String)
    (htables : ∀ kind, IsTable (tables kind))
    (hcontent : ∀ kind, HoldsSection content (sectionName kind) (tables kind))
    (files : FileTree) (base : String) (kind : Kind) :
    ReadsAsPrinted (readSection content (sectionName kind)) (tables kind) ∧
    (∀ version name,
      ((indexOf files base content version).presence kind name).isKnown = true ↔
        ∃ e ∈ tables kind, files.isFile (Path.join base (printed e.2)) = true ∧
          stubKey (printed e.1) = stubKey name) ∧
    ((∀ e ∈ tables kind, IsSymbolName e.1) →
      ∀ e ∈ tables kind, IsPlain '\'' e.2.toList → files.isFile (Path.join base e.2) = true →
        (((indexOf files base content none).stub? kind e.1).isSome = true ↔
          '\\' ∉ e.1.toList)) := by
  have hread : ReadsAsPrinted (readSection content (sectionName kind)) (tables kind) :=
    readSection_readsAsPrinted (htables kind) (by cases kind <;> decide) (hcontent kind)
  have hknown : ∀ version name,
      ((indexOf files base content version).presence kind name).isKnown = true ↔
        ∃ e ∈ tables kind, files.isFile (Path.join base (printed e.2)) = true ∧
          stubKey (printed e.1) = stubKey name := by
    intro version name
    rw [isKnown_indexOf]
    constructor
    · rintro ⟨declared, path, hmem, hfile, hkey⟩
      obtain ⟨e, he, rfl, rfl⟩ := (hread.mem_iff _ _).mp hmem
      exact ⟨e, he, hfile, hkey⟩
    · rintro ⟨e, he, hfile, hkey⟩
      exact ⟨_, _, (hread.mem_iff _ _).mpr ⟨e, he, rfl, rfl⟩, hfile, hkey⟩
  refine ⟨hread, hknown, fun hsymbols e he hpath hfile => ?_⟩
  rw [isSome_stub?_indexOf, hknown]
  constructor
  · rintro ⟨e', he', -, hkey⟩
    exact not_mem_of_stubKey_printed (hsymbols e' he') (hsymbols e he) hkey
  · intro hback
    refine ⟨e, he, ?_, ?_⟩
    · rwa [printed_of_isPlain hpath]
    · rw [printed_of_isPlain ⟨hback, (hsymbols e he).noQuote⟩]

/-- A map of two classes, one of them in a namespace. -/
def twoClasses : Kind → List (String × String)
  | .classLike => [("N\\A", "a.php"), ("B", "a.php")]
  | .function | .constant => []

def twoClassesMap : String :=
  "<?php\nconst CLASSES = array (\n  'N\\\\A' => 'a.php',\n  'B' => 'a.php',\n);\n" ++
    "const FUNCTIONS = array (\n);\nconst CONSTANTS = array (\n);\n"

def twoClassesFiles : FileTree :=
  ⟨[(["stubs"], .directory), (["stubs", "a.php"], .file (some "<?php"))], []⟩

theorem isTable_twoClasses (kind : Kind) : IsTable (twoClasses kind) := by
  cases kind <;> exact ⟨by decide, by decide, by decide⟩

theorem holdsSection_twoClasses (kind : Kind) :
    HoldsSection twoClassesMap (sectionName kind) (twoClasses kind) := by
  cases kind with
  | classLike =>
    exact ⟨"<?php\n".toList,
      "\nconst FUNCTIONS = array (\n);\nconst CONSTANTS = array (\n);\n".toList,
      by decide +kernel, by decide +kernel, .inr rfl⟩
  | function =>
    exact ⟨twoClassesMap.toList.take 72, "\nconst CONSTANTS = array (\n);\n".toList,
      by decide +kernel, by decide +kernel, .inr rfl⟩
  | constant =>
    exact ⟨twoClassesMap.toList.take 101, ['\n'], by decide +kernel, by decide +kernel, .inr rfl⟩

/-- The class in the namespace is not found, and the other one is. -/
theorem section_reads_as_printed_twoClasses :
    ReadsAsPrinted (readSection twoClassesMap (sectionName .classLike)) (twoClasses .classLike) ∧
      ((indexOf twoClassesFiles "stubs" twoClassesMap none).stub? .classLike "B").isSome = true ∧
      ¬ ((indexOf twoClassesFiles "stubs" twoClassesMap none).stub? .classLike "N\\A").isSome =
        true := by
  obtain ⟨hread, -, hfound⟩ := section_reads_as_printed twoClasses twoClassesMap isTable_twoClasses
    holdsSection_twoClasses twoClassesFiles "stubs" .classLike
  have hsymbols : ∀ e ∈ twoClasses .classLike, IsSymbolName e.1 := by
    intro e he
    simp only [twoClasses, List.mem_cons, List.not_mem_nil, or_false] at he
    rcases he with rfl | rfl <;> exact ⟨by decide, by decide, by decide⟩
  have hfile : twoClassesFiles.isFile (Path.join "stubs" "a.php") = true := by decide +kernel
  refine ⟨hread, ?_, ?_⟩
  · exact (hfound hsymbols ("B", "a.php") (by decide) (by decide) hfile).mpr (by decide)
  · rw [hfound hsymbols ("N\\A", "a.php") (by decide) (by decide) hfile]
    decide

/-- A section does not give back the table that it was printed from. -/
theorem section_differs_in_twoClasses :
    ¬ ∀ (content : String) (kind : Kind) (table : List (String × String)), IsTable table →
      HoldsSection content (sectionName kind) table →
      ∀ e, e ∈ readSection content (sectionName kind) ↔ e ∈ table := by
  intro h
  have hsame := h twoClassesMap .classLike (twoClasses .classLike) (isTable_twoClasses _)
    (holdsSection_twoClasses _) ("N\\A", "a.php")
  exact absurd (hsame.mpr (by decide)) (by decide +kernel)

end StaticReflection.StubMap
