import StaticReflection.Text.Cut

/-!
Names with backslash separators. A qualified name is a namespace and a short name; the global
namespace is `none` or the empty text.
-/

namespace StaticReflection

open Text

namespace Name

/-- The text after the last backslash. -/
def short (name : String) : String :=
  match cutLast '\\' name.toList with
  | some (_, after) => String.ofList after
  | none => name

/-- The name without one leading backslash. -/
def stripRoot (name : String) : String :=
  match name.toList with
  | '\\' :: rest => String.ofList rest
  | _ => name

/-- The name without all its leading backslashes. -/
def stripRoots (name : String) : String :=
  String.ofList (name.toList.dropWhile (· == '\\'))

/-- The namespace and the short name; one leading backslash is no part of either. -/
def split (name : String) : Option String × String :=
  match cutLast '\\' (stripRoot name).toList with
  | some (space, short) => (some (String.ofList space), String.ofList short)
  | none => (none, stripRoot name)

def qualify (space : Option String) (short : String) : String :=
  match space with
  | none => short
  | some space => if space.isEmpty then short else space ++ "\\" ++ short

def isQualified (name : String) : Bool := name.toList.contains '\\'

def lower (name : String) : String := String.ofList (Text.lower name.toList)

def sameLetters (a b : String) : Bool := lower a == lower b

theorem stripRoot_of_head {name : String} (h : name.toList.head? ≠ some '\\') :
    stripRoot name = name := by
  unfold stripRoot
  split
  · rename_i rest hname
    rw [hname] at h
    exact absurd rfl h
  · rfl

theorem stripRoots_of_head {name : String} (h : name.toList.head? ≠ some '\\') :
    stripRoots name = name := by
  unfold stripRoots
  cases hname : name.toList with
  | nil => rw [List.dropWhile_nil, ← hname, String.ofList_toList]
  | cons c cs =>
    rw [hname] at h
    rw [List.dropWhile_cons_of_neg (by simpa using h), ← hname, String.ofList_toList]

theorem stripRoots_stripRoot (name : String) : stripRoots (stripRoot name) = stripRoots name := by
  unfold stripRoot stripRoots
  split
  · rename_i rest hname
    rw [hname, String.toList_ofList]
    rfl
  · rfl

theorem stripRoot_stripRoots (name : String) : stripRoot (stripRoots name) = stripRoots name := by
  unfold stripRoot
  split
  · rename_i rest hroot
    have hhead := List.head?_dropWhile_not (· == '\\') name.toList
    unfold stripRoots at hroot
    rw [String.toList_ofList] at hroot
    rw [hroot] at hhead
    simp at hhead
  · rfl

theorem stripRoots_stripRoots (name : String) :
    stripRoots (stripRoots name) = stripRoots name := by
  unfold stripRoots
  rw [String.toList_ofList]
  congr 1
  induction name.toList with
  | nil => rfl
  | cons c cs ih =>
    rw [List.dropWhile_cons]
    split
    · exact ih
    · rename_i hc
      rw [List.dropWhile_cons, if_neg hc]

theorem lower_append (left right : String) : lower (left ++ right) = lower left ++ lower right := by
  unfold lower
  rw [String.toList_append, Text.lower_append, String.ofList_append]

theorem lower_lower (name : String) : lower (lower name) = lower name := by
  unfold lower
  rw [String.toList_ofList, Text.lower_lower]

theorem lower_stripRoots (name : String) :
    lower (stripRoots name) = stripRoots (lower name) := by
  unfold lower stripRoots
  rw [String.toList_ofList, String.toList_ofList]
  congr 1
  induction name.toList with
  | nil => rfl
  | cons c cs ih =>
    unfold Text.lower at ih ⊢
    rw [List.map_cons, List.dropWhile_cons, List.dropWhile_cons, Text.toLower_eq_backslash]
    split
    · exact ih
    · rfl

theorem isQualified_lower (name : String) : isQualified (lower name) = isQualified name := by
  unfold isQualified lower
  rw [String.toList_ofList]
  induction name.toList with
  | nil => rfl
  | cons c cs ih =>
    unfold Text.lower at ih ⊢
    have hc : ('\\' == c.toLower) = ('\\' == c) := by
      rw [Bool.beq_comm, Text.toLower_eq_backslash, Bool.beq_comm]
    rw [List.map_cons, List.contains_cons, List.contains_cons, ih, hc]

theorem stripRoots_of_not_isQualified {name : String} (h : isQualified name = false) :
    stripRoots name = name := by
  unfold stripRoots
  have hnone : ∀ c ∈ name.toList.head?, ¬ (c == '\\') = true := by
    intro c hc hback
    rw [beq_iff_eq] at hback
    subst hback
    have hmem : '\\' ∈ name.toList := List.mem_of_mem_head? hc
    simp [isQualified, hmem] at h
  cases hname : name.toList with
  | nil => rw [← String.ofList_toList (s := name), hname]; rfl
  | cons c cs =>
    rw [hname] at hnone
    rw [List.dropWhile_cons, if_neg (hnone c rfl), ← hname, String.ofList_toList]

/-- A name is put together again from its namespace and its short name. -/
theorem eq_of_split {name space short : String} (h : split name = (some space, short)) :
    stripRoot name = space ++ "\\" ++ short := by
  unfold split at h
  split at h
  · rename_i before after hcut
    cases h
    have hname := (cutLast_eq_some hcut).1
    rw [← String.ofList_toList (s := stripRoot name), hname, String.append_assoc]
    rw [show "\\" = String.ofList ['\\'] from rfl, ← String.ofList_append, ← String.ofList_append]
    rfl
  · cases h

theorem eq_of_split_none {name short : String} (h : split name = (none, short)) :
    stripRoot name = short := by
  unfold split at h
  split at h
  · cases h
  · cases h
    rfl

end Name

end StaticReflection
