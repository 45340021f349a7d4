import StaticReflection.Proofs.ClassCandidates
import StaticReflection.Proofs.ReturnTags

/-!
Mappings in canonical form. Pairs of a prefix and directories are trimmed before anything else is
done with them, and only then compared: a prefix joins the group that has it already, and a
directory is added to a group unless it is there. So a mapping has the trimmed prefixes of its pairs
and under each of them its trimmed directories, each once and where it first came up. A mapping in
this form is made of its own groups again.
-/

namespace StaticReflection

open Text

/-! ### First occurrences -/

/-- The elements of a list, each once, in the order in which they first come up in it. -/
structure FirstOccurrences {α : Type} [BEq α] (source listed : List α) : Prop where
  nodup : listed.Nodup
  mem_iff : ∀ x, x ∈ listed ↔ x ∈ source
  ordered : listed.Pairwise fun x y => source.idxOf x < source.idxOf y

theorem firstOccurrences_eraseDups {α : Type} [BEq α] [LawfulBEq α] (source : List α) :
    FirstOccurrences source source.eraseDups := by
  refine ⟨nodup_eraseDups source, fun x => List.mem_eraseDups, ?_⟩
  induction source using List.reverseRecOn with
  | nil => exact .nil
  | append_singleton source x ih =>
    have hearlier : (source.eraseDups).Pairwise
        fun y z => (source ++ [x]).idxOf y < (source ++ [x]).idxOf z := by
      refine ih.imp_of_mem fun hy hz hlt => ?_
      rwa [List.idxOf_append_of_mem (List.mem_eraseDups.mp hy),
        List.idxOf_append_of_mem (List.mem_eraseDups.mp hz)]
    by_cases hx : x ∈ source
    · rwa [eraseDups_concat_of_mem hx]
    · rw [eraseDups_concat_of_not_mem hx, List.pairwise_append]
      refine ⟨hearlier, List.pairwise_singleton _ _, fun y hy z hz => ?_⟩
      have hmem := List.mem_eraseDups.mp hy
      rw [List.mem_singleton.mp hz, List.idxOf_append_of_mem hmem, List.idxOf_append_of_notMem hx]
      exact (List.idxOf_lt_length_of_mem hmem).trans_le (Nat.le_add_right _ _)

theorem eraseDups_of_nodup {α : Type} [BEq α] [LawfulBEq α] {l : List α} (h : l.Nodup) :
    l.eraseDups = l := by
  induction l using List.reverseRecOn with
  | nil => rfl
  | append_singleton l x ih =>
    rw [← List.concat_eq_append, List.nodup_concat] at h
    rw [eraseDups_concat_of_not_mem h.1, ih h.2]

/-! ### Trimmed ends -/

namespace Text

variable {p : Char → Bool} {cs kept : List Char}

/-- What is left of a text is followed by dropped characters alone, and ends in front of them. -/
theorem dropEndWhile_eq_iff :
    dropEndWhile p cs = kept ↔
      (∀ c ∈ kept.getLast?, p c = false) ∧
        ∃ back, cs = kept ++ back ∧ ∀ c ∈ back, p c = true := by
  constructor
  · rintro rfl
    refine ⟨fun c hc => ?_, exists_of_dropEndWhile p cs⟩
    have hhead := List.head?_dropWhile_not p cs.reverse
    rw [dropEndWhile, List.getLast?_reverse] at hc
    rwa [hc] at hhead
  · rintro ⟨hlast, back, rfl, hback⟩
    rw [dropEndWhile_append_of_forall hback]
    cases hend : kept.getLast? with
    | none => rw [List.getLast?_eq_none_iff.mp hend]; rfl
    | some c => exact dropEndWhile_of_getLast? hend (hlast c hend)

theorem trim_eq_iff :
    trim p cs = kept ↔
      (∀ c ∈ kept.head?, p c = false) ∧ (∀ c ∈ kept.getLast?, p c = false) ∧
        ∃ front back, cs = front ++ kept ++ back ∧ ∀ c ∈ front ++ back, p c = true := by
  constructor
  · rintro rfl
    obtain ⟨front, back, hcs, hfront, hback⟩ := exists_of_trim p cs
    refine ⟨fun c hc => ?_, (dropEndWhile_eq_iff.mp rfl).1, front, back, hcs, fun c hc =>
      (List.mem_append.mp hc).elim (hfront c) (hback c)⟩
    -- What is trimmed in front begins with the same character before its end is trimmed.
    have hhead := List.head?_dropWhile_not p cs
    obtain ⟨dropped, hdropped, -⟩ := exists_of_dropEndWhile p (cs.dropWhile p)
    rw [hdropped, ← trim, List.head?_append, Option.mem_def.mp hc] at hhead
    exact hhead
  · rintro ⟨hfirst, hlast, front, back, rfl, houter⟩
    have hback : ∀ c ∈ back, p c = true := fun c hc => houter c (List.mem_append_right front hc)
    rw [List.append_assoc, trim_append fun c hc => houter c (List.mem_append_left back hc)]
    cases hhead : kept.head? with
    | none =>
      rw [List.head?_eq_none_iff.mp hhead, List.nil_append, trim,
        List.dropWhile_eq_nil_iff.mpr hback]
      rfl
    | some c =>
      have hstart : (kept ++ back).head? = some c := by rw [List.head?_append, hhead]; rfl
      rw [trim_of_head? hstart (hfirst c hhead)]
      exact dropEndWhile_eq_iff.mpr ⟨hlast, back, rfl, hback⟩

end Text

namespace Psr4Mapping

/-- A prefix without a backslash at either end. -/
def IsBarePrefix (name : String) : Prop :=
  (∀ c ∈ name.toList.head?, c ≠ '\\') ∧ ∀ c ∈ name.toList.getLast?, c ≠ '\\'

/-- A text is taken for a prefix if nothing but backslashes stands around the prefix in it. -/
def WrittenPrefix (text name : String) : Prop :=
  IsBarePrefix name ∧
    ∃ front back, text.toList = front ++ name.toList ++ back ∧ ∀ c ∈ front ++ back, c = '\\'

theorem trimPrefix_eq_iff {text name : String} :
    trimPrefix text = name ↔ WrittenPrefix text name := by
  rw [trimPrefix, ← String.toList_inj, String.toList_ofList, Text.trim_eq_iff, WrittenPrefix,
    IsBarePrefix]
  simp [and_assoc]

theorem IsBarePrefix.trimPrefix_eq {name : String} (h : IsBarePrefix name) :
    trimPrefix name = name :=
  trimPrefix_eq_iff.mpr ⟨h, [], [], by simp, List.forall_mem_nil _⟩

def IsSeparator (c : Char) : Prop := c = '/' ∨ c = '\\'

/-- A directory without a slash or a backslash at its end, but for the root. -/
def IsBareDirectory (directory : String) : Prop :=
  directory = "/" ∨ ∀ c ∈ directory.toList.getLast?, ¬ IsSeparator c

/-- A text is taken for a directory if nothing but slashes and backslashes stands behind the
directory in it. Where there is nothing else at all, it is taken for the root. -/
inductive WrittenDirectory (text directory : String) : Prop
  | root (hne : text ≠ "") (hall : ∀ c ∈ text.toList, IsSeparator c) (heq : directory = "/")
  | ended (hlast : ∀ c ∈ directory.toList.getLast?, ¬ IsSeparator c)
      (hback : ∃ back, text.toList = directory.toList ++ back ∧ ∀ c ∈ back, IsSeparator c)
      (hempty : directory = "" → text = "")

theorem dropEndWhile_separators_iff {text kept : List Char} :
    dropEndWhile (fun c => c == '/' || c == '\\') text = kept ↔
      (∀ c ∈ kept.getLast?, ¬ IsSeparator c) ∧
        ∃ back, text = kept ++ back ∧ ∀ c ∈ back, IsSeparator c := by
  rw [Text.dropEndWhile_eq_iff]
  simp [IsSeparator]

theorem trimDirectory_eq_iff {text directory : String} :
    trimDirectory text = directory ↔ WrittenDirectory text directory := by
  have hnone : dropEndWhile (fun c => c == '/' || c == '\\') text.toList = [] ↔
      ∀ c ∈ text.toList, IsSeparator c := by
    rw [dropEndWhile_eq_nil_iff]
    simp [IsSeparator]
  by_cases hroot : text ≠ "" ∧ ∀ c ∈ text.toList, IsSeparator c
  · obtain ⟨hne, hall⟩ := hroot
    have htrim : trimDirectory text = "/" := by simp [trimDirectory, hnone.mpr hall, hne]
    rw [htrim]
    constructor
    · rintro rfl
      exact .root hne hall rfl
    · rintro (⟨-, -, rfl⟩ | ⟨hlast, hback, hempty⟩)
      · rfl
      · have hkept := dropEndWhile_separators_iff.mpr ⟨hlast, hback⟩
        rw [hnone.mpr hall] at hkept
        exact absurd (hempty (by simpa using hkept.symm)) hne
  · have hnotRoot : ¬ (dropEndWhile (fun c => c == '/' || c == '\\') text.toList = [] ∧
        text ≠ "") := by
      rintro ⟨hnil, hne⟩
      exact hroot ⟨hne, hnone.mp hnil⟩
    have htrim : trimDirectory text =
        String.ofList (dropEndWhile (fun c => c == '/' || c == '\\') text.toList) := by
      rw [trimDirectory, if_neg (by simpa using hnotRoot)]
    rw [htrim, ← String.toList_inj, String.toList_ofList, dropEndWhile_separators_iff]
    constructor
    · rintro ⟨hlast, hback⟩
      refine .ended hlast hback ?_
      rintro rfl
      by_contra hne
      exact hnotRoot ⟨dropEndWhile_separators_iff.mpr ⟨hlast, hback⟩, hne⟩
    · rintro (⟨hne, hall, -⟩ | ⟨hlast, hback, -⟩)
      · exact absurd ⟨hne, hall⟩ hroot
      · exact ⟨hlast, hback⟩

theorem WrittenDirectory.isBareDirectory {text directory : String}
    (h : WrittenDirectory text directory) : IsBareDirectory directory := by
  cases h with
  | root _ _ heq => exact .inl heq
  | ended hlast => exact .inr hlast

theorem IsBareDirectory.trimDirectory_eq {directory : String} (h : IsBareDirectory directory) :
    trimDirectory directory = directory := by
  rcases h with rfl | hlast
  · rfl
  · exact trimDirectory_eq_iff.mpr (.ended hlast ⟨[], by simp, List.forall_mem_nil _⟩ id)

/-! ### Groups -/

/-- The directories that are given for a prefix, in the order of the pairs. -/
def directoriesGiven (pairs : List (String × List String)) (name : String) : List String :=
  (pairs.filter fun pair => trimPrefix pair.1 == name).flatMap (·.2.map trimDirectory)

theorem directoriesGiven_concat (pairs : List (String × List String))
    (pair : String × List String) (name : String) :
    directoriesGiven (pairs ++ [pair]) name =
      if name = trimPrefix pair.1 then directoriesGiven pairs name ++ pair.2.map trimDirectory
      else directoriesGiven pairs name := by
  rw [directoriesGiven, List.filter_append, List.flatMap_append, ← directoriesGiven]
  by_cases hname : name = trimPrefix pair.1
  · simp [hname]
  · simp [hname, Ne.symm hname]

theorem foldl_addNew_eraseDups (list added : List String) :
    added.foldl addNew list.eraseDups = (list ++ added).eraseDups := by
  rw [← foldl_addNew, ← foldl_addNew, List.foldl_append]

theorem addGroup_of_mem {name : String} {added names : List String} (hnames : names.Nodup)
    (h : name ∈ names) (directories : String → List String) :
    addGroup name added (names.map fun other => (other, directories other)) =
      names.map fun other => (other, if other = name
        then added.foldl addNew (directories other) else directories other) := by
  induction names with
  | nil => cases h
  | cons first names ih =>
    obtain ⟨hfirst, hnodup⟩ := List.nodup_cons.mp hnames
    rw [List.map_cons, List.map_cons, addGroup]
    by_cases heq : first = name
    · rw [if_pos heq, if_pos heq]
      congr 1
      apply List.map_congr_left
      intro other hother
      rw [if_neg]
      rintro rfl
      exact hfirst (heq ▸ hother)
    · rw [if_neg heq, if_neg heq, ih hnodup ((List.mem_cons.mp h).resolve_left (Ne.symm heq))]

/-- Groups stand in the order in which their prefixes first come up, and each has the directories
given for its prefix. -/
theorem groups_ofPairs (pairs : List (String × List String)) :
    (ofPairs pairs).groups = (pairs.map fun pair => trimPrefix pair.1).eraseDups.map fun name =>
      (name, (directoriesGiven pairs name).eraseDups) := by
  induction pairs using List.reverseRecOn with
  | nil => rfl
  | append_singleton pairs pair ih =>
    have hstep : (ofPairs (pairs ++ [pair])).groups =
        addGroup (trimPrefix pair.1) (pair.2.map trimDirectory) (ofPairs pairs).groups := by
      simp only [ofPairs, List.foldl_concat]
    rw [hstep, ih, List.map_append, List.map_singleton]
    by_cases hmem : trimPrefix pair.1 ∈ pairs.map fun pair => trimPrefix pair.1
    · rw [eraseDups_concat_of_mem hmem,
        addGroup_of_mem (nodup_eraseDups _) (List.mem_eraseDups.mpr hmem)]
      apply List.map_congr_left
      intro name _
      rw [directoriesGiven_concat, foldl_addNew_eraseDups]
      split <;> rfl
    · have hkeys : trimPrefix pair.1 ∉ ((pairs.map fun pair => trimPrefix pair.1).eraseDups.map
          fun name => (name, (directoriesGiven pairs name).eraseDups)).map (·.1) := by
        rw [List.map_map]
        simpa using hmem
      have hempty : directoriesGiven pairs (trimPrefix pair.1) = [] := by
        rw [directoriesGiven, List.filter_eq_nil_iff.mpr]
        · rfl
        · intro other hother heq
          exact hmem (beq_iff_eq.mp heq ▸ List.mem_map_of_mem hother)
      rw [eraseDups_concat_of_not_mem hmem, addGroup_of_not_mem hkeys, List.map_append]
      congr 1
      · apply List.map_congr_left
        intro name hname
        rw [directoriesGiven_concat, if_neg]
        rintro rfl
        exact hmem (List.mem_eraseDups.mp hname)
      · rw [List.map_singleton, directoriesGiven_concat, if_pos rfl, hempty, List.nil_append]

theorem directories_eq (m : Psr4Mapping) :
    m.directories = (m.groups.flatMap (·.2)).eraseDups := by
  rw [← foldl_addNew, List.foldl_flatMap, directories]

theorem prefixes_ofPairs (pairs : List (String × List String)) :
    (ofPairs pairs).groups.map (·.1) = (pairs.map fun pair => trimPrefix pair.1).eraseDups := by
  rw [groups_ofPairs, List.map_map]
  exact List.map_id _

theorem mem_prefixes_ofPairs {pairs : List (String × List String)} {name : String} :
    name ∈ (ofPairs pairs).groups.map (·.1) ↔ ∃ pair ∈ pairs, WrittenPrefix pair.1 name := by
  simp only [prefixes_ofPairs, List.mem_eraseDups, List.mem_map, trimPrefix_eq_iff]

theorem mem_directoriesGiven {pairs : List (String × List String)} {name directory : String} :
    directory ∈ directoriesGiven pairs name ↔
      ∃ pair ∈ pairs, WrittenPrefix pair.1 name ∧
        ∃ text ∈ pair.2, WrittenDirectory text directory := by
  simp only [directoriesGiven, List.mem_flatMap, List.mem_filter, beq_iff_eq, List.mem_map,
    trimPrefix_eq_iff, trimDirectory_eq_iff, and_assoc]

theorem directories_of_mem_groups {pairs : List (String × List String)}
    {group : String × List String} (h : group ∈ (ofPairs pairs).groups) :
    group.2 = (directoriesGiven pairs group.1).eraseDups := by
  rw [groups_ofPairs] at h
  obtain ⟨name, -, rfl⟩ := List.mem_map.mp h
  rfl

/-! ### Canonical mappings -/

/-- Every prefix once, every directory once under a prefix, and both without what is trimmed. -/
structure IsCanonical (m : Psr4Mapping) : Prop where
  prefixes_nodup : (m.groups.map (·.1)).Nodup
  prefixes_bare : ∀ group ∈ m.groups, IsBarePrefix group.1
  directories_nodup : ∀ group ∈ m.groups, group.2.Nodup
  directories_bare : ∀ group ∈ m.groups, ∀ directory ∈ group.2, IsBareDirectory directory

theorem isCanonical_ofPairs (pairs : List (String × List String)) :
    (ofPairs pairs).IsCanonical where
  prefixes_nodup := prefixes_ofPairs pairs ▸ nodup_eraseDups _
  prefixes_bare group hgroup := by
    obtain ⟨_, _, hwritten⟩ := mem_prefixes_ofPairs.mp (List.mem_map_of_mem hgroup)
    exact hwritten.1
  directories_nodup group hgroup := directories_of_mem_groups hgroup ▸ nodup_eraseDups _
  directories_bare group hgroup directory hdirectory := by
    rw [directories_of_mem_groups hgroup, List.mem_eraseDups, mem_directoriesGiven] at hdirectory
    obtain ⟨_, _, _, _, _, hwritten⟩ := hdirectory
    exact hwritten.isBareDirectory

/-- A mapping in canonical form is made of its own groups. -/
theorem IsCanonical.ofPairs_groups {m : Psr4Mapping} (h : m.IsCanonical) :
    ofPairs m.groups = m := by
  have hprefixes : m.groups.map (fun group => trimPrefix group.1) = m.groups.map (·.1) :=
    List.map_congr_left fun group hgroup => (h.prefixes_bare group hgroup).trimPrefix_eq
  have hgroups : (ofPairs m.groups).groups = m.groups := by
    rw [ofPairs_of_nodup (hprefixes ▸ h.prefixes_nodup)]
    conv_rhs => rw [← List.map_id m.groups]
    refine List.map_congr_left fun group hgroup => Prod.ext ?_ ?_
    · exact (h.prefixes_bare group hgroup).trimPrefix_eq
    · have htrimmed : group.2.map trimDirectory = group.2 := by
        conv_rhs => rw [← List.map_id group.2]
        exact List.map_congr_left fun directory hdirectory =>
          (h.directories_bare group hgroup directory hdirectory).trimDirectory_eq
      dsimp only
      rw [htrimmed, eraseDups_of_nodup (h.directories_nodup group hgroup), id]
  obtain ⟨groups⟩ := m
  exact congrArg Psr4Mapping.mk hgroups

/-- A prefix leads to a directory. -/
def Maps (m : Psr4Mapping) (name directory : String) : Prop :=
  ∃ group ∈ m.groups, group.1 = name ∧ directory ∈ group.2

theorem maps_ofPairs {pairs : List (String × List String)} {name directory : String} :
    (ofPairs pairs).Maps name directory ↔
      ∃ pair ∈ pairs, WrittenPrefix pair.1 name ∧
        ∃ text ∈ pair.2, WrittenDirectory text directory := by
  rw [← mem_directoriesGiven]
  constructor
  · rintro ⟨group, hgroup, rfl, hdirectory⟩
    rwa [directories_of_mem_groups hgroup, List.mem_eraseDups] at hdirectory
  · intro hdirectory
    obtain ⟨pair, hpair, hwritten, -⟩ := mem_directoriesGiven.mp hdirectory
    obtain ⟨group, hgroup, rfl⟩ :=
      List.mem_map.mp (mem_prefixes_ofPairs.mpr ⟨pair, hpair, hwritten⟩)
    refine ⟨group, hgroup, rfl, ?_⟩
    rwa [directories_of_mem_groups hgroup, List.mem_eraseDups]

/-- However prefixes and directories are written, the mapping made of them is canonical. Its
prefixes are those that are written, and under each of them are the directories written for it, all
where they first come up and with nothing left out or added. It is made of its own groups again, and
lists every directory of a group once, where it first stands. -/
theorem ofPairs_canonical (pairs : List (String × List String)) :
    (ofPairs pairs).IsCanonical ∧
      FirstOccurrences (pairs.map fun pair => trimPrefix pair.1)
        ((ofPairs pairs).groups.map (·.1)) ∧
      (∀ group ∈ (ofPairs pairs).groups,
        FirstOccurrences (directoriesGiven pairs group.1) group.2) ∧
      (∀ name, name ∈ (ofPairs pairs).groups.map (·.1) ↔
        ∃ pair ∈ pairs, WrittenPrefix pair.1 name) ∧
      (∀ name directory, (ofPairs pairs).Maps name directory ↔
        ∃ pair ∈ pairs, WrittenPrefix pair.1 name ∧
          ∃ text ∈ pair.2, WrittenDirectory text directory) ∧
      ofPairs (ofPairs pairs).groups = ofPairs pairs ∧
      FirstOccurrences ((ofPairs pairs).groups.flatMap (·.2)) (ofPairs pairs).directories := by
  refine ⟨isCanonical_ofPairs pairs, ?_, fun group hgroup => ?_, fun name => mem_prefixes_ofPairs,
    fun name directory => maps_ofPairs, (isCanonical_ofPairs pairs).ofPairs_groups, ?_⟩
  · rw [prefixes_ofPairs]
    exact firstOccurrences_eraseDups _
  · rw [directories_of_mem_groups hgroup]
    exact firstOccurrences_eraseDups _
  · rw [directories_eq]
    exact firstOccurrences_eraseDups _

/-- Prefixes and directories that are the same but for what stands around them. -/
def overlappingPairs : List (String × List String) :=
  [("App\\", ["src/", "lib"]), ("\\", ["//", ""]), ("\\App", ["src\\", "/", "lib/", "more"]),
    ("", ["src"])]

theorem ofPairs_canonical_overlapping :
    (ofPairs overlappingPairs).groups =
        [("App", ["src", "lib", "/", "more"]), ("", ["/", "", "src"])] ∧
      FirstOccurrences (directoriesGiven overlappingPairs "App") ["src", "lib", "/", "more"] ∧
      (ofPairs overlappingPairs).directories = ["src", "lib", "/", "more", ""] := by
  have hgroups : (ofPairs overlappingPairs).groups =
      [("App", ["src", "lib", "/", "more"]), ("", ["/", "", "src"])] := by decide +kernel
  obtain ⟨-, -, hdirectories, -⟩ := ofPairs_canonical overlappingPairs
  exact ⟨hgroups, hdirectories ("App", _) (hgroups ▸ List.mem_cons_self), by decide +kernel⟩

end Psr4Mapping

end StaticReflection
