import StaticReflection.Files.Path
import StaticReflection.Proofs.PrintedArrays

/-!
Where paths lead. Paths that differ in slashes only lead through the same directories, and a path
that is joined to a directory leads through that directory's first, unless it is absolute.
-/

namespace StaticReflection

namespace Path

open Text

/-- Two paths that lead through the same directories, from the same start. -/
def Same (a b : String) : Prop := isAbsolute a = isAbsolute b ∧ segments a = segments b

instance (a b : String) : Decidable (Same a b) := inferInstanceAs (Decidable (_ ∧ _))

theorem segments_slash (a b : String) : segments (a ++ "/" ++ b) = segments a ++ segments b := by
  have hslash : (a ++ "/" ++ b).toList = a.toList ++ '/' :: b.toList := by simp
  rw [segments, hslash, pieces_append_sep, List.filter_append, List.map_append]
  rfl

@[simp] theorem segments_empty : segments "" = [] := rfl

theorem segments_join {path : String} (h : isAbsolute path = false) (base : String) :
    segments (join base path) = segments base ++ segments path := by
  rw [join, if_neg (by simp [h])]
  split
  · rename_i hempty
    rw [String.isEmpty_iff.mp hempty, segments_empty, List.nil_append]
  · split
    · rename_i hend
      obtain ⟨front, hfront⟩ := List.getLast?_eq_some_iff.mp hend
      have hbase : base = String.ofList front ++ "/" := by
        apply String.toList_inj.mp
        simpa using hfront
      have hslash := segments_slash (String.ofList front) ""
      rw [String.append_empty] at hslash
      rw [hbase, segments_slash, hslash, segments_empty, List.append_nil]
    · rw [segments_slash]

theorem isAbsolute_append {a : String} (h : a ≠ "") (b : String) :
    isAbsolute (a ++ b) = isAbsolute a := by
  have hne : a.toList ≠ [] := by simpa using h
  rw [isAbsolute, isAbsolute, String.toList_append, List.head?_append_of_ne_nil _ hne]

theorem join_append (root : String) {path : String} (h : path ≠ "") (more : String) :
    join root (path ++ more) = join root path ++ more := by
  simp only [join, isAbsolute_append h]
  split
  · rfl
  · split
    · rfl
    · split
      · rw [String.append_assoc]
      · rw [String.append_assoc, String.append_assoc, String.append_assoc]

theorem join_ne_empty (root : String) {path : String} (h : path ≠ "") :
    join root path ≠ "" := by
  unfold join
  split
  · exact h
  · split
    · exact h
    · split <;> simp [h]

theorem isAbsolute_join (base path : String) :
    isAbsolute (join base path) = (isAbsolute base || isAbsolute path) := by
  rw [join]
  split
  · rename_i h
    rw [h, Bool.or_true]
  · rename_i hpath
    rw [Bool.not_eq_true] at hpath
    rw [hpath, Bool.or_false]
    split
    · rename_i hempty
      rw [hpath, String.isEmpty_iff.mp hempty]
      rfl
    · rename_i hempty
      have hne : base ≠ "" := by simpa using hempty
      split
      · exact isAbsolute_append hne path
      · rw [isAbsolute_append (by simp), isAbsolute_append hne]

theorem Same.join {a b : String} (h : Same a b) (root : String) :
    Same (Path.join root a) (Path.join root b) := by
  obtain ⟨habsolute, hsegments⟩ := h
  refine ⟨by rw [isAbsolute_join, isAbsolute_join, habsolute], ?_⟩
  cases ha : isAbsolute a with
  | true =>
    rw [Path.join, if_pos ha, Path.join, if_pos (habsolute ▸ ha)]
    exact hsegments
  | false => rw [segments_join ha, segments_join (habsolute ▸ ha), hsegments]

/-- A path below a directory with a name leads below it from wherever that directory is. -/
theorem same_join_slash {directory path : String} (hdirectory : directory ≠ "")
    (hpath : isAbsolute path = false) (root : String) :
    Same (join root (directory ++ "/" ++ path)) (join (join root directory) path) := by
  have hslash : isAbsolute (directory ++ "/" ++ path) = isAbsolute directory := by
    rw [isAbsolute_append (by simp), isAbsolute_append hdirectory]
  constructor
  · rw [isAbsolute_join, hslash, isAbsolute_join, isAbsolute_join, hpath, Bool.or_false]
  · rw [segments_join hpath]
    cases habsolute : isAbsolute directory with
    | true =>
      rw [join, if_pos (hslash.trans habsolute), join, if_pos habsolute, segments_slash]
    | false =>
      rw [segments_join (hslash.trans habsolute), segments_join habsolute, segments_slash,
        List.append_assoc]

/-- Below a directory without a name, a path is taken for an absolute one. -/
theorem same_join_slash_empty {path : String} (hpath : isAbsolute path = false) (root : String) :
    Same (join root ("" ++ "/" ++ path)) (join (join root "") path) ↔
      isAbsolute root = true ∧ segments root = [] := by
  have habsolute : isAbsolute ("" ++ "/" ++ path) = true := by simp [isAbsolute]
  have hempty : isAbsolute "" = false := rfl
  rw [join, if_pos habsolute, Same, habsolute, isAbsolute_join, isAbsolute_join, hpath, hempty,
    Bool.or_false, Bool.or_false, segments_slash, segments_join hpath, segments_join hempty,
    segments_empty, List.nil_append, List.append_nil, eq_comm,
    List.self_eq_append_left]

end Path

end StaticReflection
