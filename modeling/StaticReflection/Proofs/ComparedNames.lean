import Mathlib.Data.List.Induction
import Mathlib.Data.List.TakeWhile
import StaticReflection.Identifier

/-!
When two names of a kind count as equal. An identifier accepts a name that it folds to its own key,
and two identifiers are equal if each folds its own name to the same key. The two agree as long as
both names are folded in the same way. Of two names with the same letters one is folded in another
way than the other only if it is a constant that the rules list: they are asked for a name without
one leading backslash, and miss what they list if there is a second one.
-/

namespace StaticReflection

open Text

theorem Text.cutLast_append (sep : Char) (before after : List Char) :
    cutLast sep (before ++ sep :: after) =
      match cutLast sep after with
      | some (middle, last) => some (before ++ sep :: middle, last)
      | none => some (before, after) := by
  induction before with
  | nil => cases h : cutLast sep after <;> simp [cutLast, h]
  | cons c before ih =>
    rw [List.cons_append, cutLast, ih]
    cases cutLast sep after <;> rfl

namespace Name

/-- What stands in front of a backslash does not matter for the short name. -/
theorem short_append (left right : String) : short (left ++ "\\" ++ right) = short right := by
  have htext : (left ++ "\\" ++ right).toList = left.toList ++ '\\' :: right.toList := by simp
  rw [short, short, htext, cutLast_append]
  cases cutLast '\\' right.toList with
  | none => exact String.ofList_toList
  | some cut => rfl

theorem exists_roots (name : String) :
    ∃ roots : List Char, (∀ c ∈ roots, c = '\\') ∧
      name.toList = roots ++ (stripRoots name).toList := by
  refine ⟨name.toList.takeWhile (· == '\\'), fun c hc => ?_, ?_⟩
  · simpa using List.mem_takeWhile_imp hc
  · rw [stripRoots, String.toList_ofList, List.takeWhile_append_dropWhile]

/-- Leading backslashes are no part of the short name. -/
theorem short_stripRoots (name : String) : short (stripRoots name) = short name := by
  obtain ⟨roots, hroots, hname⟩ := exists_roots name
  cases roots using List.reverseRecOn with
  | nil => exact congrArg short (String.toList_inj.mp hname).symm
  | append_singleton front c =>
    obtain rfl : c = '\\' := hroots c (by simp)
    have hjoined : name = String.ofList front ++ "\\" ++ stripRoots name :=
      String.toList_inj.mp (by simpa using hname)
    calc short (stripRoots name)
      _ = short (String.ofList front ++ "\\" ++ stripRoots name) := (short_append _ _).symm
      _ = short name := congrArg short hjoined.symm

theorem short_stripRoot (name : String) : short (stripRoot name) = short name := by
  rw [← short_stripRoots (stripRoot name), stripRoots_stripRoot, short_stripRoots]

/-- A name is its short name, or it has a namespace and a backslash in front of that. -/
theorem split_cases (name : String) :
    (split name = (none, short name) ∧ stripRoot name = short name) ∨
      ∃ space, split name = (some space, short name) ∧
        stripRoot name = space ++ "\\" ++ short name := by
  rcases hsplit : split name with ⟨_ | space, rest⟩
  · have hname := eq_of_split_none hsplit
    have hcut : cutLast '\\' (stripRoot name).toList = none := by
      unfold split at hsplit
      split at hsplit
      · cases hsplit
      · assumption
    have hshort : short name = stripRoot name := by
      rw [← short_stripRoot, short, hcut]
    exact .inl ⟨by rw [hshort, hname], hshort.symm⟩
  · have hname := eq_of_split hsplit
    have hrest : '\\' ∉ rest.toList := by
      unfold split at hsplit
      split at hsplit
      · rename_i _ _ hcut
        cases hsplit
        simpa using (cutLast_eq_some hcut).2
      · cases hsplit
    have hshort : short name = rest := by
      rw [← short_stripRoot, hname, short_append, short, cutLast_eq_none.mpr hrest]
    exact .inr ⟨space, by rw [hshort], by rw [hname, hshort]⟩

theorem length_lower (name : String) : (lower name).toList.length = name.toList.length := by
  rw [lower, String.toList_ofList, Text.lower, List.length_map]

end Name

open Name

/-! ### Folded names -/

namespace Folding

theorem apply_stripRoot (folding : Folding) (name : String) :
    folding.apply (stripRoot name) = folding.apply name := by
  unfold apply
  rw [stripRoots_stripRoot]

/-- Without its leading backslashes a name is its short name, or it has a namespace in front of
that. Only the namespace is folded. -/
theorem apply_namespaceOnly_cases (name : String) :
    (stripRoots name = short name ∧ namespaceOnly.apply name = short name) ∨
      ∃ space, stripRoots name = space ++ "\\" ++ short name ∧
        namespaceOnly.apply name = lower space ++ "\\" ++ short name := by
  have hcases := split_cases (stripRoots name)
  rw [stripRoot_stripRoots, short_stripRoots] at hcases
  unfold apply
  rcases hcases with ⟨hsplit, hname⟩ | ⟨space, hsplit, hname⟩
  · exact .inl ⟨hname, by simp only [hsplit]⟩
  · exact .inr ⟨space, hname, by simp only [hsplit]⟩

theorem short_apply_namespaceOnly (name : String) :
    short (namespaceOnly.apply name) = short name := by
  have hshort := short_stripRoots name
  rcases apply_namespaceOnly_cases name with ⟨hname, happly⟩ | ⟨space, hname, happly⟩
  · rw [happly]
    exact (congrArg short hname).symm.trans hshort
  · rw [happly, short_append, ← short_append space (short name)]
    exact (congrArg short hname).symm.trans hshort

/-- The small letters of the name, with its short name as it is. -/
theorem toList_apply_namespaceOnly (name : String) :
    (namespaceOnly.apply name).toList =
      (lower (stripRoots name)).toList.take
        ((lower (stripRoots name)).toList.length - (short name).toList.length) ++
      (short name).toList := by
  rcases apply_namespaceOnly_cases name with ⟨hname, happly⟩ | ⟨space, hname, happly⟩
  · rw [happly, length_lower, hname, Nat.sub_self, List.take_zero, List.nil_append]
  · have hback : lower "\\" = "\\" := rfl
    have hlower : (lower (stripRoots name)).toList =
        (lower space ++ "\\").toList ++ (lower (short name)).toList := by
      rw [hname, Name.lower_append, Name.lower_append, hback, String.toList_append]
    rw [happly, String.toList_append, hlower, List.length_append, length_lower,
      Nat.add_sub_cancel, List.take_left]

/-- Folded but for their short names, names are the same if they have the same letters and the same
short name. -/
theorem apply_namespaceOnly_eq_iff {a b : String} :
    namespaceOnly.apply a = namespaceOnly.apply b ↔
      lower (stripRoots a) = lower (stripRoots b) ∧ short a = short b := by
  constructor
  · intro h
    refine ⟨?_, ?_⟩
    · rw [← lower_apply namespaceOnly, h, lower_apply]
    · rw [← short_apply_namespaceOnly, h, short_apply_namespaceOnly]
  · rintro ⟨hletters, hshort⟩
    apply String.toList_inj.mp
    rw [toList_apply_namespaceOnly, toList_apply_namespaceOnly, hletters, hshort]

/-- It makes no difference whether the short name is folded if that has no capitals. -/
theorem apply_namespaceOnly_eq_whole_iff {name : String} :
    namespaceOnly.apply name = whole.apply name ↔ lower (short name) = short name := by
  have hwhole : whole.apply name = lower (stripRoots name) := rfl
  rw [hwhole]
  rcases apply_namespaceOnly_cases name with ⟨hname, happly⟩ | ⟨space, hname, happly⟩
  · rw [happly, hname, eq_comm]
  · have hback : lower "\\" = "\\" := rfl
    rw [happly, hname, Name.lower_append, Name.lower_append, hback, eq_comm]
    simp [← String.toList_inj]

end Folding

/-! ### Identifiers -/

namespace NameRules

/-- A constant of the list that is written with more than one leading backslash. The rules are asked
for it without the first one only. -/
def Misses (rules : NameRules) (kind : Kind) (name : String) : Prop :=
  kind = .constant ∧ stripRoot name ≠ stripRoots name ∧ lower (stripRoots name) ∈ rules.caseless

instance (rules : NameRules) (kind : Kind) (name : String) : Decidable (rules.Misses kind name) :=
  inferInstanceAs (Decidable (_ ∧ _ ∧ _))

variable {names : List String} {kind : Kind} {a b name : String}

/-- No constant is listed with a backslash in front. -/
theorem stripRoot_of_mem_ofList (h : lower (stripRoot name) ∈ (ofList names).caseless) :
    stripRoot name = stripRoots name := by
  obtain ⟨listed, hlisted⟩ := exists_of_mem_ofList h
  have hbare : lower (stripRoots name) = lower (stripRoot name) := by
    rw [← stripRoots_stripRoot, lower_stripRoots, hlisted, lower_stripRoots, stripRoots_stripRoots]
  obtain ⟨roots, -, hname⟩ := exists_roots (stripRoot name)
  rw [stripRoots_stripRoot] at hname
  have hlength := congrArg List.length hname
  rw [List.length_append, ← length_lower (stripRoot name), ← length_lower (stripRoots name),
    hbare] at hlength
  obtain rfl : roots = [] := List.eq_nil_of_length_eq_zero (by omega)
  exact String.toList_inj.mp hname

/-- Classes and functions are compared without case as a whole, and of the constants those that are
listed and not missed. -/
theorem folding_stripRoot_eq_whole_iff :
    (ofList names).folding kind (stripRoot name) = .whole ↔
      (kind = .constant → lower (stripRoots name) ∈ (ofList names).caseless) ∧
        ¬ (ofList names).Misses kind name := by
  cases kind with
  | classLike | function => simp [folding, Misses]
  | constant =>
    by_cases hmem : lower (stripRoot name) ∈ (ofList names).caseless
    · have hname := stripRoot_of_mem_ofList hmem
      simp [folding, Misses, hmem, ← hname]
    · have hmissed : lower (stripRoots name) ∈ (ofList names).caseless →
          (ofList names).Misses .constant name :=
        fun hlisted => ⟨rfl, fun hname => hmem (hname ▸ hlisted), hlisted⟩
      simpa [folding, hmem] using hmissed

end NameRules

namespace Identifier

variable {names : List String} {kind : Kind} {a b : String}

theorem accepts_make_iff {rules : NameRules} {declared : String} :
    (make rules kind a).accepts declared = true ↔
      (rules.folding kind (stripRoot a)).apply declared =
        (rules.folding kind (stripRoot a)).apply a := by
  rw [← Folding.apply_stripRoot _ a]
  exact beq_iff_eq

theorem same_make_iff {rules : NameRules} :
    (make rules kind a).same (make rules kind b) = true ↔
      (rules.folding kind (stripRoot a)).apply a =
        (rules.folding kind (stripRoot b)).apply b := by
  rw [same_iff, ← Folding.apply_stripRoot _ a, ← Folding.apply_stripRoot _ b]
  exact and_iff_right rfl

/-- Names that are folded to the same text have the same letters. -/
theorem lower_stripRoots_eq_of_apply {folding folding' : Folding}
    (h : folding.apply a = folding'.apply b) :
    Name.lower (stripRoots a) = Name.lower (stripRoots b) := by
  rw [← folding.lower_apply, h, folding'.lower_apply]

/-- Where the rules miss both of two names with the same letters or neither, they are folded in the
same way. -/
theorem folding_eq_of_misses_iff (hletters : Name.lower (stripRoots a) = Name.lower (stripRoots b))
    (h : (NameRules.ofList names).Misses kind a ↔ (NameRules.ofList names).Misses kind b) :
    (NameRules.ofList names).folding kind (stripRoot a) =
      (NameRules.ofList names).folding kind (stripRoot b) := by
  have hwhole : (NameRules.ofList names).folding kind (stripRoot a) = .whole ↔
      (NameRules.ofList names).folding kind (stripRoot b) = .whole := by
    rw [NameRules.folding_stripRoot_eq_whole_iff, NameRules.folding_stripRoot_eq_whole_iff,
      hletters, h]
  cases hb : (NameRules.ofList names).folding kind (stripRoot b) with
  | whole => exact hwhole.mpr hb
  | namespaceOnly =>
    cases ha : (NameRules.ofList names).folding kind (stripRoot a) with
    | whole => rw [hwhole.mp ha] at hb; cases hb
    | namespaceOnly => rfl

/-- A name that the rules miss is folded but for its short name. -/
theorem folding_of_misses (h : (NameRules.ofList names).Misses kind a) :
    (NameRules.ofList names).folding kind (stripRoot a) = .namespaceOnly := by
  cases hfolding : (NameRules.ofList names).folding kind (stripRoot a) with
  | whole => exact absurd h (NameRules.folding_stripRoot_eq_whole_iff.mp hfolding).2
  | namespaceOnly => rfl

/-- A name with the letters of a listed constant that the rules do not miss is folded as a whole. -/
theorem folding_of_letters_of_misses (ha : (NameRules.ofList names).Misses kind a)
    (hb : ¬ (NameRules.ofList names).Misses kind b)
    (hletters : Name.lower (stripRoots a) = Name.lower (stripRoots b)) :
    (NameRules.ofList names).folding kind (stripRoot b) = .whole :=
  NameRules.folding_stripRoot_eq_whole_iff.mpr ⟨fun _ => hletters ▸ ha.2.2, hb⟩

/-- An identifier accepts a name just if the identifier for that name is equal to it, and equal
identifiers accept the same names, unless the rules miss one of the two names and not the other.
Then the missed one accepts a name with the same letters and the same short name, the other one
accepts any name with the same letters, and they are equal if the letters are the same and the short
name that is missed has no capitals. -/
theorem accepts_iff_same_unless_missed (names : List String) (kind : Kind) (a b : String) :
    (((NameRules.ofList names).Misses kind a ↔ (NameRules.ofList names).Misses kind b) →
      ((make (.ofList names) kind a).accepts b = true ↔
        (make (.ofList names) kind a).same (make (.ofList names) kind b) = true) ∧
      ((make (.ofList names) kind a).same (make (.ofList names) kind b) = true →
        ∀ declared, (make (.ofList names) kind a).accepts declared =
          (make (.ofList names) kind b).accepts declared)) ∧
    ((NameRules.ofList names).Misses kind a → ¬ (NameRules.ofList names).Misses kind b →
      ((make (.ofList names) kind a).accepts b = true ↔
        sameLetters (stripRoots a) (stripRoots b) = true ∧ short a = short b) ∧
      ((make (.ofList names) kind b).accepts a = true ↔
        sameLetters (stripRoots a) (stripRoots b) = true) ∧
      ((make (.ofList names) kind a).same (make (.ofList names) kind b) = true ↔
        sameLetters (stripRoots a) (stripRoots b) = true ∧ Name.lower (short a) = short a)) := by
  have hletters_iff : sameLetters (stripRoots a) (stripRoots b) = true ↔
      Name.lower (stripRoots a) = Name.lower (stripRoots b) := beq_iff_eq
  rw [hletters_iff, same_make_iff, accepts_make_iff, accepts_make_iff]
  refine ⟨fun hmissed => ⟨?_, fun hsame declared => ?_⟩, fun ha hb => ?_⟩
  · constructor
    · intro h
      have hfolding := folding_eq_of_misses_iff (lower_stripRoots_eq_of_apply h).symm hmissed
      rw [← hfolding, h]
    · intro h
      have hfolding := folding_eq_of_misses_iff (lower_stripRoots_eq_of_apply h) hmissed
      rw [h, hfolding]
  · have hfolding := folding_eq_of_misses_iff (lower_stripRoots_eq_of_apply hsame) hmissed
    rw [Bool.eq_iff_iff, accepts_make_iff, accepts_make_iff, hsame, hfolding]
  · -- As soon as the letters are the same, `b` is listed like `a`, and it is not missed.
    have hwhole := folding_of_letters_of_misses ha hb
    rw [folding_of_misses ha]
    refine ⟨?_, ?_, ?_⟩
    · rw [eq_comm]
      exact Folding.apply_namespaceOnly_eq_iff
    · constructor
      · exact fun h => lower_stripRoots_eq_of_apply h
      · intro h
        rw [hwhole h]
        exact h
    · constructor
      · intro h
        have hletters := lower_stripRoots_eq_of_apply h
        rw [hwhole hletters] at h
        exact ⟨hletters, Folding.apply_namespaceOnly_eq_whole_iff.mp (h.trans hletters.symm)⟩
      · rintro ⟨hletters, hshort⟩
        rw [hwhole hletters]
        exact (Folding.apply_namespaceOnly_eq_whole_iff.mpr hshort).trans hletters

theorem accepts_iff_same_unless_missed_true :
    ((NameRules.ofList ["TRUE"]).Misses .constant "true" ↔
        (NameRules.ofList ["TRUE"]).Misses .constant "\\True") ∧
      (NameRules.ofList ["TRUE"]).Misses .constant "\\\\True" ∧
      ((make (.ofList ["TRUE"]) .constant "true").accepts "\\True" = true ↔
        (make (.ofList ["TRUE"]) .constant "true").same
          (make (.ofList ["TRUE"]) .constant "\\True") = true) ∧
      ((make (.ofList ["TRUE"]) .constant "true").accepts "\\\\True" = true ↔
        sameLetters (stripRoots "\\\\True") (stripRoots "true") = true) := by
  have hunmissed : ¬ (NameRules.ofList ["TRUE"]).Misses .constant "true" := by decide +kernel
  have hmissed : (NameRules.ofList ["TRUE"]).Misses .constant "\\\\True" := by decide +kernel
  have hrooted : (NameRules.ofList ["TRUE"]).Misses .constant "true" ↔
      (NameRules.ofList ["TRUE"]).Misses .constant "\\True" := by decide +kernel
  exact ⟨hrooted, hmissed, ((accepts_iff_same_unless_missed _ _ _ _).1 hrooted).1,
    ((accepts_iff_same_unless_missed _ _ _ _).2 hmissed hunmissed).2.1⟩

/-- With two leading backslashes a listed constant is accepted, and is not equal. -/
theorem accepted_but_not_same_with_two_roots :
    ¬ ∀ (names : List String) (kind : Kind) (a b : String),
      (make (.ofList names) kind a).accepts b = true ↔
        (make (.ofList names) kind a).same (make (.ofList names) kind b) = true := by
  intro h
  have haccepts : (make (.ofList ["true"]) .constant "true").accepts "\\\\TRUE" = true := by
    decide +kernel
  have hother : ¬ (make (.ofList ["true"]) .constant "true").same
      (make (.ofList ["true"]) .constant "\\\\TRUE") = true := by
    decide +kernel
  exact hother ((h _ _ _ _).mp haccepts)

end Identifier

end StaticReflection
