import Mathlib.Data.List.Induction
import Mathlib.Data.List.Nodup
import StaticReflection.Composer.VendorFiles
import StaticReflection.Proofs.PathPlaces

/-!
The files that may declare a class, from the entries of a project and of its packages. On the way
entries are merged, sorted by the length of their prefixes, grouped by prefix and grouped once more
without the backslashes around them. What comes out follows from the entries alone: for each way to
cut a class name into a prefix and a rest, the longest prefix first, the directories of the entries
with just that prefix, each where it first stands, the project's before those of packages.
-/

namespace StaticReflection

open Text

/-! ### Each element once -/

section Dups

variable {α : Type} [BEq α] [LawfulBEq α] {l : List α} {x : α}

theorem eraseDups_concat_of_mem (h : x ∈ l) : (l ++ [x]).eraseDups = l.eraseDups := by
  have hnone : [x].removeAll l = [] := by simp [List.removeAll, h]
  rw [List.eraseDups_append, hnone, List.eraseDups_nil, List.append_nil]

theorem eraseDups_concat_of_not_mem (h : x ∉ l) :
    (l ++ [x]).eraseDups = l.eraseDups ++ [x] := by
  have hone : [x].removeAll l = [x] := by simp [List.removeAll, h]
  rw [List.eraseDups_append, hone, List.eraseDups_cons]
  rfl

theorem eraseDups_sublist (l : List α) : l.eraseDups.Sublist l := by
  induction l using List.reverseRecOn with
  | nil => exact List.Sublist.slnil
  | append_singleton l x ih =>
    by_cases h : x ∈ l
    · rw [eraseDups_concat_of_mem h]
      exact ih.trans (List.sublist_append_left l [x])
    · rw [eraseDups_concat_of_not_mem h]
      exact ih.append (List.Sublist.refl [x])

theorem nodup_eraseDups (l : List α) : l.eraseDups.Nodup := by
  induction l using List.reverseRecOn with
  | nil => exact List.nodup_nil
  | append_singleton l x ih =>
    by_cases h : x ∈ l
    · rw [eraseDups_concat_of_mem h]
      exact ih
    · rw [eraseDups_concat_of_not_mem h]
      rw [← List.concat_eq_append]
      exact ih.concat (by rwa [List.mem_eraseDups])

theorem eraseDups_concat_congr {m : List α} (h : l.eraseDups = m.eraseDups) (x : α) :
    (l ++ [x]).eraseDups = (m ++ [x]).eraseDups := by
  have hmem : x ∈ l ↔ x ∈ m := by rw [← List.mem_eraseDups, h, List.mem_eraseDups]
  by_cases hx : x ∈ l
  · rw [eraseDups_concat_of_mem hx, eraseDups_concat_of_mem (hmem.mp hx), h]
  · rw [eraseDups_concat_of_not_mem hx, eraseDups_concat_of_not_mem (mt hmem.mpr hx), h]

end Dups

namespace Psr4Mapping

theorem foldl_addNew (l : List String) : l.foldl addNew [] = l.eraseDups := by
  induction l using List.reverseRecOn with
  | nil => rfl
  | append_singleton l x ih =>
    rw [List.foldl_concat, ih, addNew]
    by_cases h : x ∈ l
    · rw [if_pos (by simpa using h), eraseDups_concat_of_mem h]
    · rw [if_neg (by simpa using h), eraseDups_concat_of_not_mem h]

/-! ### Groups -/

theorem addGroup_of_not_mem {name : String} {directories : List String}
    {groups : List (String × List String)} (h : name ∉ groups.map (·.1)) :
    addGroup name directories groups = groups ++ [(name, directories.eraseDups)] := by
  induction groups with
  | nil => rw [addGroup, foldl_addNew, List.nil_append]
  | cons group groups ih =>
    obtain ⟨n, ds⟩ := group
    simp only [List.map_cons, List.mem_cons, not_or] at h
    rw [addGroup, if_neg (Ne.symm h.1), ih h.2, List.cons_append]

/-- Prefixes that differ without their backslashes get a group each. -/
theorem ofPairs_of_nodup {pairs : List (String × List String)}
    (h : (pairs.map fun pair => trimPrefix pair.1).Nodup) :
    (ofPairs pairs).groups =
      pairs.map fun pair => (trimPrefix pair.1, (pair.2.map trimDirectory).eraseDups) := by
  induction pairs using List.reverseRecOn with
  | nil => rfl
  | append_singleton pairs pair ih =>
    rw [List.map_append, List.map_singleton, List.nodup_append] at h
    obtain ⟨hpairs, -, hdisjoint⟩ := h
    have hnew : trimPrefix pair.1 ∉ (ofPairs pairs).groups.map (·.1) := by
      rw [ih hpairs, List.map_map]
      intro hmem
      exact hdisjoint _ hmem _ List.mem_cons_self rfl
    rw [List.map_append, List.map_singleton, ← ih hpairs, ← addGroup_of_not_mem hnew]
    simp only [ofPairs, List.foldl_concat]

end Psr4Mapping

namespace Composer

open Psr4Mapping

theorem groupEntry_of_not_mem {root : String} {e : Psr4Entry} {groups : List (String × List String)}
    (h : e.namePrefix ∉ groups.map (·.1)) :
    groupEntry root e groups = groups ++ [(e.namePrefix, [groupEntry.directory root e])] := by
  induction groups with
  | nil => rfl
  | cons group groups ih =>
    obtain ⟨n, ds⟩ := group
    simp only [List.map_cons, List.mem_cons, not_or] at h
    rw [groupEntry, if_neg (Ne.symm h.1), ih h.2, List.cons_append]

theorem groupEntry_of_mem {root : String} {e : Psr4Entry} {names : List String}
    (hnames : names.Nodup) (h : e.namePrefix ∈ names) (directories : String → List String) :
    groupEntry root e (names.map fun name => (name, directories name)) =
      names.map fun name => (name, if name = e.namePrefix
        then directories name ++ [groupEntry.directory root e] else directories name) := by
  induction names with
  | nil => cases h
  | cons name names ih =>
    obtain ⟨hname, hnodup⟩ := List.nodup_cons.mp hnames
    rw [List.map_cons, List.map_cons, groupEntry]
    by_cases heq : name = e.namePrefix
    · rw [if_pos heq, if_pos heq]
      congr 1
      apply List.map_congr_left
      intro other hother
      rw [if_neg]
      rintro rfl
      exact hname (heq ▸ hother)
    · rw [if_neg heq, if_neg heq, ih hnodup ((List.mem_cons.mp h).resolve_left (Ne.symm heq))]

/-- The entries with a prefix. -/
def entriesWith (entries : List Psr4Entry) (name : String) : List Psr4Entry :=
  entries.filter (·.namePrefix == name)

theorem entriesWith_concat (entries : List Psr4Entry) (e : Psr4Entry) (name : String) :
    entriesWith (entries ++ [e]) name =
      if name = e.namePrefix then entriesWith entries name ++ [e]
      else entriesWith entries name := by
  rw [entriesWith, List.filter_append, ← entriesWith]
  by_cases hname : name = e.namePrefix
  · simp [hname]
  · simp [hname, Ne.symm hname]

theorem mem_entriesWith {entries : List Psr4Entry} {e : Psr4Entry} {name : String} :
    e ∈ entriesWith entries name ↔ e ∈ entries ∧ e.namePrefix = name := by
  rw [entriesWith, List.mem_filter, beq_iff_eq]

/-- Grouping keeps prefixes in the order of their first entries, and the directories of each in the
order of its entries. -/
theorem foldl_groupEntry (root : String) (entries : List Psr4Entry) :
    entries.foldl (fun groups e => groupEntry root e groups) [] =
      (entries.map (·.namePrefix)).eraseDups.map fun name =>
        (name, (entriesWith entries name).map (groupEntry.directory root)) := by
  induction entries using List.reverseRecOn with
  | nil => rfl
  | append_singleton entries e ih =>
    rw [List.foldl_concat, ih, List.map_append, List.map_singleton]
    by_cases hmem : e.namePrefix ∈ entries.map (·.namePrefix)
    · rw [eraseDups_concat_of_mem hmem,
        groupEntry_of_mem (nodup_eraseDups _) (by rwa [List.mem_eraseDups])]
      apply List.map_congr_left
      intro name _
      rw [entriesWith_concat]
      split <;> simp
    · have hkeys : e.namePrefix ∉ ((entries.map (·.namePrefix)).eraseDups.map fun name =>
          (name, (entriesWith entries name).map (groupEntry.directory root))).map (·.1) := by
        rw [List.map_map]
        simpa using hmem
      have hempty : entriesWith entries e.namePrefix = [] := by
        rw [List.eq_nil_iff_forall_not_mem]
        intro other hother
        obtain ⟨hother, heq⟩ := mem_entriesWith.mp hother
        exact hmem (heq ▸ List.mem_map_of_mem hother)
      rw [eraseDups_concat_of_not_mem hmem, groupEntry_of_not_mem hkeys, List.map_append]
      congr 1
      · apply List.map_congr_left
        intro name hname
        rw [entriesWith_concat, if_neg]
        rintro rfl
        exact hmem (List.mem_eraseDups.mp hname)
      · rw [List.map_singleton, entriesWith_concat, if_pos rfl, hempty]
        rfl

/-! ### Merging and sorting -/

theorem mem_foldl_addEntry {own packages : List Psr4Entry} {e : Psr4Entry} :
    e ∈ packages.foldl addEntry own ↔ e ∈ own ++ packages := by
  induction packages using List.reverseRecOn with
  | nil => rw [List.foldl_nil, List.append_nil]
  | append_singleton packages last ih =>
    rw [List.foldl_concat, addEntry, ← List.append_assoc, List.mem_append (t := [last]), ← ih,
      List.mem_singleton]
    split
    · rename_i hlast
      exact ⟨.inl, fun h => h.elim id fun heq => heq ▸ List.contains_iff_mem.mp hlast⟩
    · rw [List.mem_append, List.mem_singleton]

/-- Entries that are left out of a list for being there already add nothing new to it. -/
theorem eraseDups_foldl_addEntry (own packages : List Psr4Entry) (name : String)
    (f : Psr4Entry → String) :
    ((entriesWith (packages.foldl addEntry own) name).map f).eraseDups =
      ((entriesWith (own ++ packages) name).map f).eraseDups := by
  induction packages using List.reverseRecOn with
  | nil => rw [List.foldl_nil, List.append_nil]
  | append_singleton packages e ih =>
    rw [List.foldl_concat, addEntry, ← List.append_assoc, entriesWith_concat]
    split
    · rename_i hthere
      rw [List.contains_iff_mem, mem_foldl_addEntry] at hthere
      split
      · rename_i hname
        have hmem : f e ∈ (entriesWith (own ++ packages) name).map f :=
          List.mem_map_of_mem (mem_entriesWith.mpr ⟨hthere, hname.symm⟩)
        rw [List.map_append, List.map_singleton, eraseDups_concat_of_mem hmem, ih]
      · exact ih
    · rw [entriesWith_concat]
      split
      · rw [List.map_append, List.map_append, List.map_singleton]
        exact eraseDups_concat_congr ih (f e)
      · exact ih

/-- Whether an entry may stand before another one: its prefix is not shorter. -/
def ranksBefore (a b : Psr4Entry) : Bool := b.namePrefix.utf8ByteSize ≤ a.namePrefix.utf8ByteSize

theorem ranksBefore_trans (a b c : Psr4Entry) (hab : ranksBefore a b = true)
    (hbc : ranksBefore b c = true) : ranksBefore a c = true := by
  simp only [ranksBefore, decide_eq_true_eq] at *
  omega

theorem ranksBefore_total (a b : Psr4Entry) : (ranksBefore a b || ranksBefore b a) = true := by
  simp only [ranksBefore, Bool.or_eq_true, decide_eq_true_eq]
  omega

theorem rankedEntries_eq (own packages : List Psr4Entry) :
    rankedEntries own packages = (packages.foldl addEntry own).mergeSort ranksBefore := rfl

/-- The sort is stable, so that entries with one prefix keep their order. -/
theorem entriesWith_mergeSort (entries : List Psr4Entry) (name : String) :
    entriesWith (entries.mergeSort ranksBefore) name = entriesWith entries name := by
  have hpairwise : (entriesWith entries name).Pairwise fun a b => ranksBefore a b = true := by
    apply List.pairwise_of_forall_mem_list
    intro a ha b hb
    rw [ranksBefore, (mem_entriesWith.mp ha).2, (mem_entriesWith.mp hb).2]
    exact decide_eq_true (Nat.le_refl _)
  have hsublist : (entriesWith entries name).Sublist
      (entriesWith (entries.mergeSort ranksBefore) name) := by
    have h := (List.sublist_mergeSort ranksBefore_trans ranksBefore_total hpairwise
      List.filter_sublist).filter (·.namePrefix == name)
    simp only [entriesWith, List.filter_filter, Bool.and_self] at h
    exact h
  refine (hsublist.eq_of_length ?_).symm
  exact ((List.mergeSort_perm entries ranksBefore).filter _).length_eq.symm

end Composer

/-! ### Prefixes of a class name -/

/-- A prefix as entries have it: empty, or with one backslash at its end and none at its start. -/
def IsNamePrefix (name : String) : Prop :=
  name = "" ∨ (name.toList.head? ≠ some '\\' ∧ name.toList.getLast? = some '\\' ∧
    name.toList.dropLast.getLast? ≠ some '\\')

instance (name : String) : Decidable (IsNamePrefix name) := inferInstanceAs (Decidable (_ ∨ _))

namespace Psr4Mapping

/-- Without its backslash, a prefix is empty only if it is empty with it. -/
theorem trimPrefix_cases {name : String} (h : IsNamePrefix name) :
    (name = "" ∧ trimPrefix name = "") ∨
      (trimPrefix name ≠ "" ∧ name = trimPrefix name ++ "\\") := by
  rcases h with rfl | ⟨hhead, hend, hlast⟩
  · exact .inl ⟨rfl, rfl⟩
  · obtain ⟨cs, hcs⟩ := List.getLast?_eq_some_iff.mp hend
    rw [hcs] at hhead
    rw [hcs, List.dropLast_concat] at hlast
    cases cs with
    | nil => exact absurd rfl hhead
    | cons c cs =>
      have hc : (c == '\\') = false := by simpa using hhead
      obtain ⟨last, hgetLast⟩ : ∃ last, (c :: cs).getLast? = some last :=
        ⟨_, List.getLast?_eq_some_getLast (List.cons_ne_nil c cs)⟩
      have hlast' : (last == '\\') = false := by
        rw [hgetLast] at hlast
        simpa using hlast
      have htrim : trimPrefix name = String.ofList (c :: cs) := by
        rw [trimPrefix, hcs, trim, List.cons_append, List.dropWhile_cons_of_neg (by simp [hc]),
          ← List.cons_append, dropEndWhile_concat rfl, dropEndWhile_of_getLast? hgetLast hlast']
      refine .inr ⟨by simp [htrim], ?_⟩
      rw [htrim, ← String.toList_inj, hcs]
      simp

theorem trimPrefix_inj {a b : String} (ha : IsNamePrefix a) (hb : IsNamePrefix b)
    (h : trimPrefix a = trimPrefix b) : a = b := by
  rcases trimPrefix_cases ha with ⟨rfl, hempty⟩ | ⟨hne, hshort⟩
  · rcases trimPrefix_cases hb with ⟨rfl, -⟩ | ⟨hne, -⟩
    · rfl
    · exact absurd (h ▸ hempty) hne
  · rcases trimPrefix_cases hb with ⟨rfl, hempty⟩ | ⟨-, hshort'⟩
    · exact absurd (h ▸ hempty) hne
    · rw [hshort, hshort', h]

/-- A class name is matched at the end of a segment, with something left behind the prefix. -/
theorem relative?_trimPrefix {name className rest : String} (h : IsNamePrefix name)
    (hclass : className ≠ "") :
    relative? (trimPrefix name) className = some rest ↔ className = name ++ rest ∧ rest ≠ "" := by
  rcases trimPrefix_cases h with ⟨rfl, hempty⟩ | ⟨hne, hshort⟩
  · have hnone : "".isEmpty = true := rfl
    rw [hempty, relative?, if_pos hnone, String.empty_append, Option.some_inj]
    exact ⟨fun heq => ⟨heq, heq ▸ hclass⟩, And.left⟩
  · have hsplit : ∀ tail : List Char, stripHead? (trimPrefix name).toList className.toList =
        some ('\\' :: tail) ↔ className = name ++ String.ofList tail := by
      intro tail
      rw [stripHead?_eq_some, ← String.toList_inj]
      conv_rhs => rw [hshort]
      simp
    rw [relative?, if_neg (by simpa using hne)]
    constructor
    · intro hsome
      split at hsome
      · rename_i c cs hstrip
        cases hsome
        exact ⟨(hsplit _).mp hstrip, by simp⟩
      · cases hsome
    · rintro ⟨heq, hrest⟩
      obtain ⟨c, cs, hcs⟩ := List.exists_cons_of_ne_nil (l := rest.toList) (by simpa using hrest)
      have hofList : String.ofList (c :: cs) = rest := by rw [← hcs, String.ofList_toList]
      rw [(hsplit (c :: cs)).mpr (hofList ▸ heq)]
      exact congrArg some hofList

theorem flatMap_eq_filterMap {α β γ : Type} {l : List α} {f : α → List β} {g : α → Option γ}
    {h : γ → List β} (hf : ∀ x ∈ l, f x = (g x).elim [] h) :
    l.flatMap f = (l.filterMap g).flatMap h := by
  induction l with
  | nil => rfl
  | cons x l ih =>
    rw [List.flatMap_cons, hf x List.mem_cons_self, ih fun y hy => hf y (List.mem_cons_of_mem x hy),
      List.filterMap_cons]
    cases g x <;> rfl

/-- Numbers in descending order are met by counting down, if nothing comes of all others. -/
theorem flatMap_eq_range_reverse {β : Type} {numbers : List Nat} {bound : Nat} {g : Nat → List β}
    (hdescending : numbers.Pairwise (· > ·)) (hbound : ∀ n ∈ numbers, n < bound)
    (hothers : ∀ n < bound, n ∉ numbers → g n = []) :
    numbers.flatMap g = (List.range bound).reverse.flatMap g := by
  induction bound generalizing numbers with
  | zero =>
    cases numbers with
    | nil => rfl
    | cons n numbers => exact absurd (hbound n List.mem_cons_self) (Nat.not_lt_zero n)
  | succ bound ih =>
    rw [List.range_succ, List.reverse_concat, List.flatMap_cons]
    by_cases hmem : bound ∈ numbers
    · cases numbers with
      | nil => cases hmem
      | cons n numbers =>
        obtain ⟨hfirst, hrest⟩ := List.pairwise_cons.mp hdescending
        -- The largest number comes first.
        have hn : n = bound := by
          have hle := hbound n List.mem_cons_self
          rcases List.mem_cons.mp hmem with heq | hlater
          · exact heq.symm
          · have := hfirst bound hlater
            omega
        subst hn
        rw [List.flatMap_cons, ih hrest hfirst]
        intro m hm hnot
        refine hothers m (by omega) ?_
        rw [List.mem_cons, not_or]
        exact ⟨by omega, hnot⟩
    · rw [hothers bound (Nat.lt_succ_self bound) hmem, List.nil_append]
      refine ih hdescending (fun n hn => ?_) fun n hn => hothers n (by omega)
      have := hbound n hn
      have hne : n ≠ bound := by
        rintro rfl
        exact hmem hn
      omega

end Psr4Mapping

namespace Composer

open Psr4Mapping

/-! ### Directories -/

/-- Slashes and nothing else. -/
def IsSlashes (path : String) : Prop := path ≠ "" ∧ path.toList.all (· == '/') = true

instance (path : String) : Decidable (IsSlashes path) := inferInstanceAs (Decidable (_ ∧ _))

theorem isSlashes_iff {path : String} :
    IsSlashes path ↔ path ≠ "" ∧ ∀ c ∈ path.toList, c = '/' := by
  simp [IsSlashes]

/-- The directory of an entry, from where the root is. Slashes alone stand for the root. -/
def directoryOf (root : String) (e : Psr4Entry) : String :=
  trimDirectory (Path.join root (if IsSlashes e.directory then "" else e.directory))

/-- The directories of the entries with a prefix, each where it first stands. -/
def directoriesOf (root : String) (entries : List Psr4Entry) (name : String) : List String :=
  ((entriesWith entries name).map (directoryOf root)).eraseDups

theorem trimDirectory_slash {directory : String} (h : directory ≠ "") :
    trimDirectory (directory ++ "/") = trimDirectory directory := by
  have hslash : (directory ++ "/").toList = directory.toList ++ ['/'] := by simp
  have hdrop : dropEndWhile (fun c => c == '/' || c == '\\') (directory.toList ++ ['/']) =
      dropEndWhile (fun c => c == '/' || c == '\\') directory.toList := dropEndWhile_concat rfl
  have hempty : (directory ++ "/").isEmpty = directory.isEmpty := by
    rw [Bool.eq_iff_iff, String.isEmpty_iff, String.isEmpty_iff]
    exact iff_of_false (by simp) h
  simp only [trimDirectory, hslash, hdrop, hempty]

/-- Slashes at the end of a path do not matter for the directory, unless there is nothing else. -/
theorem trimDirectory_join_dropEndWhile (root : String) {cs : List Char}
    (h : cs = [] ∨ ∃ c ∈ cs, c ≠ '/') :
    trimDirectory (Path.join root (String.ofList (dropEndWhile (· == '/') cs))) =
      trimDirectory (Path.join root (String.ofList cs)) := by
  induction cs using List.reverseRecOn with
  | nil => rfl
  | append_singleton cs c ih =>
    by_cases hc : c = '/'
    · subst hc
      obtain ⟨d, hd, hne⟩ : ∃ d ∈ cs, d ≠ '/' := by
        obtain ⟨d, hd, hne⟩ := h.resolve_left (by simp)
        exact ⟨d, (List.mem_append.mp hd).resolve_right (by simpa using hne), hne⟩
      have hcs : String.ofList cs ≠ "" := by
        have hne : cs ≠ [] := List.ne_nil_of_mem hd
        simpa using hne
      have hslash : String.ofList (cs ++ ['/']) = String.ofList cs ++ "/" := by simp
      rw [dropEndWhile_concat rfl, ih (.inr ⟨d, hd, hne⟩), hslash, Path.join_append root hcs,
        trimDirectory_slash (Path.join_ne_empty root hcs)]
    · rw [dropEndWhile_of_getLast? (List.getLast?_concat ..) (by simpa using hc)]

/-- What grouping makes of an entry's directory. -/
theorem trimDirectory_directory (root : String) (e : Psr4Entry) :
    trimDirectory (groupEntry.directory root e) = directoryOf root e := by
  rw [groupEntry.directory, directoryOf]
  split
  · rename_i hslashes
    rw [dropEndWhile_eq_nil_iff.mpr (List.all_eq_true.mp hslashes.2)]
  · rename_i hslashes
    rw [trimDirectory_join_dropEndWhile, String.ofList_toList]
    rw [isSlashes_iff, not_and_or, not_not] at hslashes
    exact hslashes.imp (by simp) (by simp)

theorem segments_dropEndWhile {cs : List Char} (h : '\\' ∉ cs) :
    Path.segments (String.ofList (dropEndWhile (fun c => c == '/' || c == '\\') cs)) =
      Path.segments (String.ofList cs) := by
  induction cs using List.reverseRecOn with
  | nil => rfl
  | append_singleton cs c ih =>
    simp only [List.mem_append, List.mem_singleton, not_or] at h
    by_cases hc : c = '/'
    · have hslash : String.ofList (cs ++ [c]) = String.ofList cs ++ "/" ++ "" := by simp [hc]
      rw [dropEndWhile_concat (by simp [hc]), ih h.1, hslash, Path.segments_slash,
        Path.segments_empty, List.append_nil]
    · rw [dropEndWhile_of_getLast? (List.getLast?_concat ..) (by simp [hc, Ne.symm h.2])]

theorem same_trimDirectory {directory : String} (h : '\\' ∉ directory.toList) :
    Path.Same (trimDirectory directory) directory := by
  have hsegments := segments_dropEndWhile h
  have hprefix : dropEndWhile (fun c => c == '/' || c == '\\') directory.toList <+:
      directory.toList := by
    apply List.reverse_suffix.mp
    rw [dropEndWhile, List.reverse_reverse]
    exact List.dropWhile_suffix _
  rw [String.ofList_toList] at hsegments
  cases htrimmed : dropEndWhile (fun c => c == '/' || c == '\\') directory.toList with
  | nil =>
    by_cases hempty : directory = ""
    · subst hempty
      exact ⟨rfl, rfl⟩
    · -- What is left out altogether starts with a slash.
      have hne : directory.toList ≠ [] := by simpa using hempty
      obtain ⟨c, cs, hcs⟩ := List.exists_cons_of_ne_nil hne
      have hc : c = '/' := by
        have hmem : c ∈ directory.toList := hcs ▸ List.mem_cons_self
        have hne : c ≠ '\\' := by
          rintro rfl
          exact h hmem
        simpa [hne] using dropEndWhile_eq_nil_iff.mp htrimmed c hmem
      have htrim : trimDirectory directory = "/" := by
        simp [trimDirectory, htrimmed, hempty]
      rw [htrimmed] at hsegments
      refine ⟨?_, by rw [htrim, ← hsegments]; rfl⟩
      rw [htrim, Path.isAbsolute, Path.isAbsolute, hcs, hc]
      rfl
  | cons c cs =>
    obtain ⟨more, hmore⟩ := hprefix
    have htrim : trimDirectory directory = String.ofList (c :: cs) := by
      simp [trimDirectory, htrimmed]
    rw [htrimmed] at hsegments hmore
    refine ⟨?_, by rw [htrim, hsegments]⟩
    rw [htrim, Path.isAbsolute, Path.isAbsolute, ← hmore, String.toList_ofList]
    rfl

theorem IsSlashes.isAbsolute {path : String} (h : IsSlashes path) :
    Path.isAbsolute path = true := by
  obtain ⟨c, cs, hcs⟩ := List.exists_cons_of_ne_nil (l := path.toList) (by simpa using h.1)
  have hc : c = '/' := (isSlashes_iff.mp h).2 c (hcs ▸ List.mem_cons_self)
  rw [Path.isAbsolute, hcs, hc]
  rfl

theorem IsSlashes.segments {path : String} (h : IsSlashes path) : Path.segments path = [] := by
  have hall := (isSlashes_iff.mp h).2
  have hback : '\\' ∉ path.toList := fun hmem => absurd (hall _ hmem) (by decide)
  have hnone : dropEndWhile (fun c => c == '/' || c == '\\') path.toList = [] :=
    dropEndWhile_eq_nil_iff.mpr fun c hc => by simp [hall c hc]
  have hsegments := segments_dropEndWhile hback
  rw [hnone, String.ofList_toList] at hsegments
  exact hsegments.symm

/-- The directory of an entry is where its path leads from the root. Slashes alone stand for the
root, even where it is not the start of the file system. -/
theorem same_directoryOf_iff {root : String} {e : Psr4Entry} (hroot : '\\' ∉ root.toList)
    (hdirectory : '\\' ∉ e.directory.toList) :
    Path.Same (directoryOf root e) (Path.join root e.directory) ↔
      ¬ IsSlashes e.directory ∨ (Path.isAbsolute root = true ∧ Path.segments root = []) := by
  have hjoin : ∀ path : String, '\\' ∉ path.toList → '\\' ∉ (Path.join root path).toList := by
    intro path hpath
    unfold Path.join
    split
    · exact hpath
    · split
      · exact hpath
      · split <;> simp [hroot, hpath]
  rw [directoryOf]
  split
  · rename_i hslashes
    obtain ⟨habsolute, hsegments⟩ := same_trimDirectory (hjoin "" (by simp))
    have hempty : Path.isAbsolute "" = false := rfl
    rw [Path.isAbsolute_join, hempty, Bool.or_false] at habsolute
    rw [Path.segments_join hempty, Path.segments_empty, List.append_nil] at hsegments
    have hjoined : Path.join root e.directory = e.directory := if_pos hslashes.isAbsolute
    rw [hjoined, Path.Same, habsolute, hsegments, hslashes.isAbsolute, hslashes.segments,
      or_iff_right (not_not_intro hslashes)]
  · rename_i hslashes
    exact iff_of_true (same_trimDirectory (hjoin _ hdirectory)) (.inl hslashes)

/-! ### Candidates -/

theorem directoriesOf_rankedEntries (root : String) (own packages : List Psr4Entry)
    (name : String) :
    directoriesOf root (rankedEntries own packages) name =
      directoriesOf root (own ++ packages) name := by
  rw [directoriesOf, rankedEntries_eq, entriesWith_mergeSort, eraseDups_foldl_addEntry]
  rfl

/-- The prefixes of entries, each where it first stands. -/
def prefixesOf (entries : List Psr4Entry) : List String := (entries.map (·.namePrefix)).eraseDups

theorem mem_prefixesOf {entries : List Psr4Entry} {name : String} :
    name ∈ prefixesOf entries ↔ ∃ e ∈ entries, e.namePrefix = name := by
  rw [prefixesOf, List.mem_eraseDups, List.mem_map]

theorem isNamePrefix_of_mem_prefixesOf {entries : List Psr4Entry}
    (h : ∀ e ∈ entries, IsNamePrefix e.namePrefix) {name : String}
    (hname : name ∈ prefixesOf entries) : IsNamePrefix name := by
  obtain ⟨e, he, rfl⟩ := mem_prefixesOf.mp hname
  exact h e he

theorem groups_mappingOf (root : String) {entries : List Psr4Entry}
    (h : ∀ e ∈ entries, IsNamePrefix e.namePrefix) :
    (mappingOf root entries).groups = (prefixesOf entries).map fun name =>
      (trimPrefix name, directoriesOf root entries name) := by
  have hnodup : ((prefixesOf entries).map trimPrefix).Nodup :=
    (nodup_eraseDups _).map_on fun a ha b hb =>
      trimPrefix_inj (isNamePrefix_of_mem_prefixesOf h ha) (isNamePrefix_of_mem_prefixesOf h hb)
  have hdirectories : ∀ name,
      (((entriesWith entries name).map (groupEntry.directory root)).map trimDirectory).eraseDups =
        directoriesOf root entries name := by
    intro name
    rw [directoriesOf, List.map_map, List.map_congr_left (g := directoryOf root)]
    intro e _
    rw [Function.comp_apply, trimDirectory_directory]
  have hgrouped : mappingOf root entries = ofPairs ((prefixesOf entries).map fun name =>
      (name, (entriesWith entries name).map (groupEntry.directory root))) :=
    congrArg ofPairs (foldl_groupEntry root entries)
  have hpairs : (((prefixesOf entries).map fun name =>
      (name, (entriesWith entries name).map (groupEntry.directory root))).map
        fun pair => trimPrefix pair.1).Nodup := by
    rw [List.map_map]
    exact hnodup
  rw [hgrouped, ofPairs_of_nodup hpairs, List.map_map]
  apply List.map_congr_left
  intro name _
  exact congrArg (Prod.mk (trimPrefix name)) (hdirectories name)

/-- The candidates from the entries whose prefix is the class name up to a position. -/
def candidatesAt (root : String) (entries : List Psr4Entry) (className : String) (position : Nat) :
    List String :=
  (directoriesOf root entries (String.ofList (className.toList.take position))).map fun directory =>
    classPath directory (String.ofList (className.toList.drop position))

/-- Where a prefix of the class name ends. -/
def matchLength (className name : String) : Option Nat :=
  (relative? (trimPrefix name) className).map fun _ => name.toList.length

theorem matchLength_eq_some {className name : String} {position : Nat} (h : IsNamePrefix name)
    (hclass : className ≠ "") :
    matchLength className name = some position ↔
      ∃ rest, className = name ++ rest ∧ rest ≠ "" ∧ name.toList.length = position := by
  rw [matchLength, Option.map_eq_some_iff]
  simp only [relative?_trimPrefix h hclass, and_assoc]

theorem candidates_mappingOf_eq (root : String) {entries : List Psr4Entry}
    (h : ∀ e ∈ entries, IsNamePrefix e.namePrefix) (id : Identifier) (hkind : id.kind = .classLike)
    (hname : id.name ≠ "") :
    candidates (mappingOf root entries) id =
      ((prefixesOf entries).filterMap (matchLength id.name)).flatMap
        (candidatesAt root entries id.name) := by
  rw [candidates, hkind, groups_mappingOf root h]
  simp only [List.flatMap_map]
  apply flatMap_eq_filterMap
  intro name hmem
  obtain ⟨e, he, rfl⟩ := mem_prefixesOf.mp hmem
  rw [matchLength]
  cases hrelative : relative? (trimPrefix e.namePrefix) id.name with
  | none => rfl
  | some rest =>
    obtain ⟨hsplit, -⟩ := (relative?_trimPrefix (h e he) hname).mp hrelative
    have hchars : id.name.toList = e.namePrefix.toList ++ rest.toList := by
      rw [hsplit, String.toList_append]
    simp [candidatesAt, hchars]

/-- Of two prefixes of one class name, the one that is sorted first is the longer one. -/
theorem length_lt_of_size_le {className a b restA restB : String} (ha : className = a ++ restA)
    (hb : className = b ++ restB) (hne : a ≠ b) (hsize : b.utf8ByteSize ≤ a.utf8ByteSize) :
    b.toList.length < a.toList.length := by
  by_contra hle
  have hchars : a.toList ++ restA.toList = b.toList ++ restB.toList := by
    rw [← String.toList_append, ← String.toList_append, ← ha, ← hb]
  obtain ⟨more, hmore⟩ := List.prefix_of_prefix_length_le (List.prefix_append _ _)
    (hchars ▸ List.prefix_append b.toList restB.toList) (Nat.le_of_not_lt hle)
  have hsplit : b = a ++ String.ofList more := by
    rw [← String.toList_inj, String.toList_append, String.toList_ofList, hmore]
  rw [hsplit, String.utf8ByteSize_append] at hsize
  have hempty : String.ofList more = "" := by
    rw [← String.utf8ByteSize_eq_zero_iff]
    omega
  rw [hempty, String.append_empty] at hsplit
  exact hne hsplit.symm

theorem descending_matchLengths (own packages : List Psr4Entry)
    (h : ∀ e ∈ rankedEntries own packages, IsNamePrefix e.namePrefix) {className : String}
    (hname : className ≠ "") :
    ((prefixesOf (rankedEntries own packages)).filterMap (matchLength className)).Pairwise
      (· > ·) := by
  have hsizes : (prefixesOf (rankedEntries own packages)).Pairwise fun a b =>
      b.utf8ByteSize ≤ a.utf8ByteSize := by
    refine List.Pairwise.sublist (eraseDups_sublist _) ?_
    rw [List.pairwise_map, rankedEntries_eq]
    exact (List.pairwise_mergeSort ranksBefore_trans ranksBefore_total _).imp of_decide_eq_true
  rw [List.pairwise_filterMap]
  refine List.Pairwise.imp_of_mem ?_ (hsizes.and (nodup_eraseDups _))
  intro a b ha hb hranked lengthA hlengthA lengthB hlengthB
  have hprefixA := isNamePrefix_of_mem_prefixesOf h ha
  have hprefixB := isNamePrefix_of_mem_prefixesOf h hb
  obtain ⟨restA, hsplitA, -, rfl⟩ := (matchLength_eq_some hprefixA hname).mp hlengthA
  obtain ⟨restB, hsplitB, -, rfl⟩ := (matchLength_eq_some hprefixB hname).mp hlengthB
  exact length_lt_of_size_le hsplitA hsplitB hranked.2 hranked.1

/-- The candidates for a class in a project with such entries, its own and those of its packages. -/
def classCandidates (rules : NameRules) (root : String) (own packages : List Psr4Entry)
    (className : String) : List String :=
  candidates (mappingOf root (rankedEntries own packages))
    (Identifier.make rules .classLike className)

/-- In front of its end, a class name is cut into a prefix and a rest with something in it. -/
theorem split_at_position {className : String} {position : Nat}
    (h : position < className.toList.length) :
    className = String.ofList (className.toList.take position) ++
        String.ofList (className.toList.drop position) ∧
      String.ofList (className.toList.drop position) ≠ "" := by
  refine ⟨by rw [← String.ofList_append, List.take_append_drop, String.ofList_toList], ?_⟩
  have hdrop : className.toList.drop position ≠ [] := by
    rw [ne_eq, List.drop_eq_nil_iff]
    omega
  simpa using hdrop

theorem classCandidates_eq (rules : NameRules) (root : String) {className : String}
    {own packages : List Psr4Entry} (h : ∀ e ∈ own ++ packages, IsNamePrefix e.namePrefix)
    (hname : className ≠ "") (hhead : className.toList.head? ≠ some '\\') :
    classCandidates rules root own packages className =
      (List.range className.toList.length).reverse.flatMap
        (candidatesAt root (own ++ packages) className) := by
  have hranked : ∀ e ∈ rankedEntries own packages, IsNamePrefix e.namePrefix := by
    intro e he
    rw [rankedEntries_eq, (List.mergeSort_perm _ _).mem_iff, mem_foldl_addEntry] at he
    exact h e he
  have hid : (Identifier.make rules .classLike className).name = className :=
    Name.stripRoot_of_head hhead
  have hcandidates := candidates_mappingOf_eq root hranked
    (Identifier.make rules .classLike className) rfl (by rwa [hid])
  rw [hid] at hcandidates
  have hentries : candidatesAt root (own ++ packages) className =
      candidatesAt root (rankedEntries own packages) className := by
    funext position
    rw [candidatesAt, candidatesAt, directoriesOf_rankedEntries]
  rw [classCandidates, hcandidates, hentries]
  refine flatMap_eq_range_reverse (descending_matchLengths own packages hranked hname) ?_ ?_
  · intro position hposition
    obtain ⟨name, hmem, hlength⟩ := List.mem_filterMap.mp hposition
    have hprefixName := isNamePrefix_of_mem_prefixesOf hranked hmem
    obtain ⟨rest, rfl, hrest, rfl⟩ := (matchLength_eq_some hprefixName hname).mp hlength
    have hpos : 0 < rest.toList.length := List.length_pos_iff.mpr (by simpa using hrest)
    rw [String.toList_append, List.length_append]
    omega
  · intro position hposition hnot
    -- An entry with this prefix would have had the position found.
    have hnone : entriesWith (rankedEntries own packages)
        (String.ofList (className.toList.take position)) = [] := by
      rw [List.eq_nil_iff_forall_not_mem]
      intro e he
      obtain ⟨he, heq⟩ := mem_entriesWith.mp he
      have hmem := mem_prefixesOf.mpr ⟨e, he, heq⟩
      refine hnot (List.mem_filterMap.mpr ⟨_, hmem, ?_⟩)
      rw [matchLength_eq_some (isNamePrefix_of_mem_prefixesOf hranked hmem) hname]
      obtain ⟨hsplit, hrest⟩ := split_at_position hposition
      refine ⟨String.ofList (className.toList.drop position), hsplit, hrest, ?_⟩
      rw [String.toList_ofList, List.length_take]
      omega
    rw [candidatesAt, directoriesOf, hnone]
    rfl

theorem mem_candidatesAt {root className path : String} {entries : List Psr4Entry}
    {position : Nat} :
    path ∈ candidatesAt root entries className position ↔
      ∃ e ∈ entries, e.namePrefix = String.ofList (className.toList.take position) ∧
        path = classPath (directoryOf root e) (String.ofList (className.toList.drop position)) := by
  simp only [candidatesAt, directoriesOf, List.mem_map, List.mem_eraseDups, mem_entriesWith]
  constructor
  · rintro ⟨directory, ⟨e, ⟨he, heq⟩, rfl⟩, rfl⟩
    exact ⟨e, he, heq, rfl⟩
  · rintro ⟨e, he, heq, rfl⟩
    exact ⟨_, ⟨e, ⟨he, heq⟩, rfl⟩, rfl⟩

/-- The candidates for a class are the files below the directories of entries whose prefix the class
name goes on from: those of longer prefixes first, for one prefix in the order of the entries, with
the project's in front, and each directory once. A directory is where the entry's path leads from
the root, but for a path of slashes alone, which stands for the root itself. -/
theorem candidates_follow_entries (rules : NameRules) (root : String)
    (own packages : List Psr4Entry) (className : String)
    (hprefixes : ∀ e ∈ own ++ packages, IsNamePrefix e.namePrefix) (hname : className ≠ "")
    (hhead : className.toList.head? ≠ some '\\') :
    classCandidates rules root own packages className =
        (List.range className.toList.length).reverse.flatMap
          (candidatesAt root (own ++ packages) className) ∧
      (∀ path, path ∈ classCandidates rules root own packages className ↔
        ∃ e ∈ own ++ packages, ∃ rest, rest ≠ "" ∧ className = e.namePrefix ++ rest ∧
          path = classPath (directoryOf root e) rest) ∧
      (∀ name, (directoriesOf root (own ++ packages) name).Nodup) ∧
      ∀ e ∈ own ++ packages, '\\' ∉ root.toList → '\\' ∉ e.directory.toList →
        (Path.Same (directoryOf root e) (Path.join root e.directory) ↔
          ¬ IsSlashes e.directory ∨ (Path.isAbsolute root = true ∧ Path.segments root = [])) := by
  have hcandidates := classCandidates_eq rules root hprefixes hname hhead
  refine ⟨hcandidates, fun path => ?_, fun name => nodup_eraseDups _,
    fun e _ hroot hdirectory => same_directoryOf_iff hroot hdirectory⟩
  rw [hcandidates]
  simp only [List.mem_flatMap, List.mem_reverse, List.mem_range, mem_candidatesAt]
  constructor
  · rintro ⟨position, hposition, e, he, heq, rfl⟩
    obtain ⟨hsplit, hrest⟩ := split_at_position hposition
    exact ⟨e, he, _, hrest, heq ▸ hsplit, rfl⟩
  · rintro ⟨e, he, rest, hrest, rfl, rfl⟩
    have hpos : 0 < rest.toList.length := List.length_pos_iff.mpr (by simpa using hrest)
    refine ⟨e.namePrefix.toList.length, ?_, e, he, ?_, ?_⟩
    · rw [String.toList_append, List.length_append]
      omega
    · simp
    · simp

def ownSources : List Psr4Entry := [⟨"App\\", "src/"⟩, ⟨"", "lib/"⟩]

def packageSources : List Psr4Entry :=
  [⟨"App\\Sub\\", "vendor/sub/"⟩, ⟨"App\\", "src/"⟩, ⟨"App\\", "more/"⟩]

theorem candidates_follow_entries_overlapping :
    classCandidates .standard "p" ownSources packageSources "App\\Sub\\X" =
      ["p/vendor/sub/X.php", "p/src/Sub/X.php", "p/more/Sub/X.php", "p/lib/App/Sub/X.php"] :=
  (candidates_follow_entries .standard "p" ownSources packageSources "App\\Sub\\X" (by decide)
    (by decide) (by decide)).1.trans (by decide +kernel)

/-- A directory written as the start of the file system is taken for the root. -/
theorem candidates_astray_of_slash :
    ¬ ∀ (rules : NameRules) (root : String) (own packages : List Psr4Entry) (className : String),
      root ≠ "" → (∀ e ∈ own ++ packages, IsNamePrefix e.namePrefix) → className ≠ "" →
      className.toList.head? ≠ some '\\' →
      ∀ path ∈ classCandidates rules root own packages className,
        ∃ e ∈ own ++ packages, ∃ rest, className = e.namePrefix ++ rest ∧
          path = classPath (trimDirectory (Path.join root e.directory)) rest := by
  intro h
  obtain ⟨e, he, rest, -, hpath⟩ := h .standard "p" [⟨"App\\", "/"⟩] [] "App\\Foo" (by decide)
    (by decide) (by decide) (by decide) "p/Foo.php" (by decide +kernel)
  rw [List.append_nil, List.mem_singleton] at he
  subst he
  have hslash : trimDirectory (Path.join "p" "/") = "/" := by decide +kernel
  have habsolute := congrArg Path.isAbsolute hpath
  rw [hslash, classPath, Path.isAbsolute_append (by simp), Path.isAbsolute_append (by simp),
    Path.isAbsolute_append (by simp)] at habsolute
  exact absurd habsolute (by decide)

end Composer

end StaticReflection
