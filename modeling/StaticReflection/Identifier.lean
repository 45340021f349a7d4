import StaticReflection.Name

/-!
Identifiers: the name and kind that every lookup asks for. Class and function names are compared
without case. Of a constant's name the namespace is compared without case and the short name
exactly, but for the constants that the rules list, which are compared without case as a whole.
-/

namespace StaticReflection

/-- What a name may stand for. -/
inductive Kind where
  | classLike
  | function
  | constant
  deriving DecidableEq, Repr

def Kind.word : Kind → String
  | .classLike => "class"
  | .function => "function"
  | .constant => "constant"

/-- Constants that are compared without case unless other rules are given. -/
def defaultCaselessConstants : List String :=
  ["true", "false", "null", "__LINE__", "__FILE__", "__DIR__", "__FUNCTION__", "__CLASS__",
    "__TRAIT__", "__METHOD__", "__NAMESPACE__"]

/-- Inserts a text into an ascending list without repetitions. -/
def insertAscending (x : String) : List String → List String
  | [] => [x]
  | y :: ys => if x < y then x :: y :: ys else if x = y then y :: ys else y :: insertAscending x ys

theorem mem_insertAscending {x y : String} {list : List String} :
    x ∈ insertAscending y list ↔ x = y ∨ x ∈ list := by
  induction list with
  | nil => simp [insertAscending]
  | cons z rest ih =>
    unfold insertAscending
    split
    · simp
    · split
      · simp_all
      · simp [ih, or_left_comm]

/-- Which constants are compared without case, as small-letter names in ascending order. -/
structure NameRules where
  caseless : List String
  deriving DecidableEq, Repr

namespace NameRules

/-- Rules for the listed constants, whose leading backslashes and case do not matter. -/
def ofList (names : List String) : NameRules :=
  ⟨names.foldr (fun name list => insertAscending (Name.lower (Name.stripRoots name)) list) []⟩

def standard : NameRules := ofList defaultCaselessConstants

/-- What the rules list has no leading backslashes and is in small letters. -/
theorem exists_of_mem_ofList {names : List String} {x : String}
    (h : x ∈ (ofList names).caseless) : ∃ name, x = Name.lower (Name.stripRoots name) := by
  unfold ofList at h
  induction names with
  | nil => cases h
  | cons name rest ih =>
    rw [List.foldr_cons] at h
    rcases mem_insertAscending.mp h with rfl | h
    · exact ⟨name, rfl⟩
    · exact ih h

end NameRules

/-- How a name is brought to the form in which names are compared. -/
inductive Folding where
  | whole
  | namespaceOnly
  deriving DecidableEq, Repr

/-- The form in which names are compared. Leading backslashes never matter. -/
def Folding.apply (folding : Folding) (name : String) : String :=
  let name := Name.stripRoots name
  match folding with
  | .whole => Name.lower name
  | .namespaceOnly =>
    match Name.split name with
    | (some space, short) => Name.lower space ++ "\\" ++ short
    | (none, short) => short

/-- Without its case, the form in which names are compared is the name itself. -/
theorem Folding.lower_apply (folding : Folding) (name : String) :
    Name.lower (folding.apply name) = Name.lower (Name.stripRoots name) := by
  unfold apply
  cases folding with
  | whole => exact Name.lower_lower _
  | namespaceOnly =>
    rcases hsplit : Name.split (Name.stripRoots name) with ⟨_ | space, short⟩
    · have hname := Name.eq_of_split_none hsplit
      rw [Name.stripRoot_stripRoots] at hname
      simp only [hsplit]
      rw [hname]
    · have hname := Name.eq_of_split hsplit
      rw [Name.stripRoot_stripRoots] at hname
      simp only [hsplit]
      rw [hname, Name.lower_append, Name.lower_append, Name.lower_append, Name.lower_append,
        Name.lower_lower]

/-- How names of this kind are compared with `name`, which has no leading backslash. -/
def NameRules.folding (rules : NameRules) (kind : Kind) (name : String) : Folding :=
  match kind with
  | .classLike | .function => .whole
  | .constant => if rules.caseless.contains (Name.lower name) then .whole else .namespaceOnly

/-- A name and a kind, with the way in which names are compared with it. -/
structure Identifier where
  kind : Kind
  name : String
  folding : Folding
  deriving DecidableEq, Repr

namespace Identifier

/-- The identifier for a name as written; one leading backslash is dropped. -/
def make (rules : NameRules) (kind : Kind) (name : String) : Identifier :=
  let name := Name.stripRoot name
  ⟨kind, name, rules.folding kind name⟩

def key (id : Identifier) : String := id.folding.apply id.name

def accepts (id : Identifier) (declared : String) : Bool := id.folding.apply declared == id.key

def same (a b : Identifier) : Bool := a.kind == b.kind && a.key == b.key

/-- The identifier as messages show it. -/
def describe (id : Identifier) : String := id.kind.word ++ " " ++ id.name

theorem same_iff {a b : Identifier} : a.same b = true ↔ a.kind = b.kind ∧ a.key = b.key := by
  simp [same]

@[simp] theorem make_kind (rules : NameRules) (kind : Kind) (name : String) :
    (make rules kind name).kind = kind := rfl

end Identifier

end StaticReflection
