import StaticReflection.Imports
import StaticReflection.Proofs.ComparedNames

/-!
What names resolve to, and that the case in which they are written does not matter. Names with the
same letters are of the same form, so they go through the same imports; what they resolve to has the
same letters, and the same short name if they have. Identifiers for it are equal then.
-/

namespace StaticReflection

open Text

/-! ### Names in small letters -/

theorem Text.cutFirst_lower (cs : List Char) :
    cutFirst '\\' (lower cs) =
      (cutFirst '\\' cs).map fun cut => (lower cut.1, lower cut.2) := by
  induction cs with
  | nil => rfl
  | cons c cs ih =>
    have hc : c.toLower = '\\' ↔ c = '\\' := by
      rw [← beq_iff_eq, toLower_eq_backslash, beq_iff_eq]
    have hlower : lower (c :: cs) = c.toLower :: lower cs := rfl
    rw [hlower, cutFirst, cutFirst]
    by_cases hback : c = '\\'
    · rw [if_pos (hc.mpr hback), if_pos hback]
      rfl
    · rw [if_neg (mt hc.mp hback), if_neg hback, ih]
      cases cutFirst '\\' cs <;> rfl

namespace Name

theorem toList_lower (name : String) : (lower name).toList = Text.lower name.toList := by
  rw [lower, String.toList_ofList]

theorem lower_ofList_eq_iff {cs ds : List Char} :
    lower (String.ofList cs) = lower (String.ofList ds) ↔ Text.lower cs = Text.lower ds := by
  rw [← String.toList_inj, toList_lower, toList_lower, String.toList_ofList, String.toList_ofList]

theorem lower_stripRoot (name : String) : lower (stripRoot name) = stripRoot (lower name) := by
  cases hname : name.toList with
  | nil =>
    obtain rfl : name = "" := String.toList_inj.mp hname
    rfl
  | cons c cs =>
    have hlower : (lower name).toList = c.toLower :: Text.lower cs := by
      rw [toList_lower, hname]
      rfl
    by_cases hc : c = '\\'
    · subst hc
      unfold stripRoot
      rw [hname, hlower]
      exact String.toList_inj.mp (by simp [toList_lower])
    · have hback : c.toLower ≠ '\\' := by
        rw [ne_eq, ← beq_iff_eq, toLower_eq_backslash, beq_iff_eq]
        exact hc
      rw [stripRoot_of_head (by simpa [hname] using hc),
        stripRoot_of_head (by simpa [hlower] using hback)]

theorem isQualified_of_rooted {name : String} (h : name.toList.head? = some '\\') :
    isQualified name = true := by
  simpa [isQualified] using List.mem_of_mem_head? h

theorem short_of_not_isQualified {name : String} (h : isQualified name = false) :
    short name = name := by
  have hcut : cutLast '\\' name.toList = none := by
    rw [cutLast_eq_none]
    simpa [isQualified] using h
  rw [short, hcut]

theorem exists_of_rooted {name : String} (h : name.toList.head? = some '\\') :
    ∃ absolute, name = "\\" ++ absolute := by
  obtain ⟨absolute, habsolute⟩ := List.head?_eq_some_iff.mp h
  exact ⟨String.ofList absolute, String.toList_inj.mp (by simpa using habsolute)⟩

/-- Of two names with the same letters both start with a backslash or neither does. -/
theorem rooted_congr {a b : String} (h : lower a = lower b) :
    a.toList.head? = some '\\' ↔ b.toList.head? = some '\\' := by
  have hlower : ∀ name : String, name.toList.head? = some '\\' ↔
      (lower name).toList.head? = some '\\' := by
    intro name
    rw [toList_lower, Text.lower, List.head?_map]
    cases name.toList.head? with
    | none => simp
    | some c => simpa using (Bool.eq_iff_iff.mp (toLower_eq_backslash c)).symm
  rw [hlower a, hlower b, h]

theorem short_qualify (space : Option String) (name : String) :
    short (qualify space name) = short name := by
  unfold qualify
  split
  · rfl
  · split
    · rfl
    · exact short_append _ _

theorem lower_qualify_congr (space : Option String) {a b : String} (h : lower a = lower b) :
    lower (qualify space a) = lower (qualify space b) := by
  unfold qualify
  split
  · exact h
  · split
    · exact h
    · rw [lower_append, h, ← lower_append]

end Name

open Name

namespace Imports

variable (imports : Imports)

/-! ### What a name resolves to -/

theorem resolveClass_of_toList {name : String} {absolute : List Char}
    (h : name.toList = '\\' :: absolute) : imports.resolveClass name = String.ofList absolute := by
  rw [resolveClass, h]
  rfl

theorem resolveClass_rooted (absolute : String) :
    imports.resolveClass ("\\" ++ absolute) = absolute := by
  have htext : ("\\" ++ absolute).toList = '\\' :: absolute.toList := by simp
  rw [imports.resolveClass_of_toList htext, String.ofList_toList]

/-- The full name of a class by the form of the name: of a single segment, with a first segment that
means the namespace, or with one that may be an alias. -/
theorem resolveClass_of_head {name : String} (h : name.toList.head? ≠ some '\\') :
    imports.resolveClass name =
      match cutFirst '\\' name.toList with
      | none => (target? imports.classes (lower name)).getD (qualify imports.space name)
      | some (first, rest) =>
        if Text.lower first = "namespace".toList then
          qualify imports.space (String.ofList rest)
        else
          match target? imports.classes (lower (String.ofList first)) with
          | some target => target ++ "\\" ++ String.ofList rest
          | none => qualify imports.space name := by
  unfold resolveClass relative?
  split
  · rename_i absolute hname
    rw [hname] at h
    exact absurd rfl h
  · cases cutFirst '\\' name.toList with
    | none =>
      dsimp only
      cases target? imports.classes (lower name) <;> rfl
    | some cut =>
      by_cases hrelative : Text.lower cut.1 = "namespace".toList
      · simp only [hrelative, if_true]
      · simp only [hrelative, if_false]
        cases target? imports.classes (lower (String.ofList cut.1)) <;> rfl

/-- Names with the same letters resolve to classes with the same letters. -/
theorem lower_resolveClass_congr {a b : String} (h : lower a = lower b) :
    lower (imports.resolveClass a) = lower (imports.resolveClass b) := by
  have hlist : Text.lower a.toList = Text.lower b.toList := by
    rw [← toList_lower, ← toList_lower, h]
  by_cases ha : a.toList.head? = some '\\'
  · obtain ⟨absolute, rfl⟩ := exists_of_rooted ha
    obtain ⟨absolute', rfl⟩ := exists_of_rooted ((rooted_congr h).mp ha)
    rw [resolveClass_rooted, resolveClass_rooted]
    simpa [Name.lower_append, ← String.toList_inj] using h
  · have hcuts := congrArg (cutFirst '\\') hlist
    rw [cutFirst_lower, cutFirst_lower] at hcuts
    rw [imports.resolveClass_of_head ha, imports.resolveClass_of_head (mt (rooted_congr h).mpr ha)]
    cases hcuta : cutFirst '\\' a.toList with
    | none =>
      cases hcutb : cutFirst '\\' b.toList with
      | some cut => simp [hcuta, hcutb] at hcuts
      | none =>
        rw [h]
        cases target? imports.classes (lower b) with
        | none => exact lower_qualify_congr _ h
        | some target => rfl
    | some cuta =>
      cases hcutb : cutFirst '\\' b.toList with
      | none => simp [hcuta, hcutb] at hcuts
      | some cutb =>
        obtain ⟨first, rest⟩ := cuta
        obtain ⟨first', rest'⟩ := cutb
        simp only [hcuta, hcutb, Option.map_some, Option.some.injEq, Prod.mk.injEq] at hcuts
        obtain ⟨hfirst, hrest⟩ := hcuts
        rw [← lower_ofList_eq_iff] at hrest
        simp only [hfirst, lower_ofList_eq_iff.mpr hfirst]
        split
        · exact lower_qualify_congr _ hrest
        · cases target? imports.classes (lower (String.ofList first')) with
          | none => exact lower_qualify_congr _ h
          | some target => rw [Name.lower_append, hrest, ← Name.lower_append]

/-- Behind the last backslash a resolved name is what was written. -/
theorem short_resolveClass {name : String} (h : isQualified name = true) :
    short (imports.resolveClass name) = short name := by
  by_cases hhead : name.toList.head? = some '\\'
  · obtain ⟨absolute, rfl⟩ := exists_of_rooted hhead
    rw [resolveClass_rooted, ← short_append "" absolute, String.empty_append]
  · rw [imports.resolveClass_of_head hhead]
    cases hcut : cutFirst '\\' name.toList with
    | none =>
      rw [cutFirst_eq_none] at hcut
      simp [isQualified, hcut] at h
    | some cut =>
      obtain ⟨first, rest⟩ := cut
      have hname : name = String.ofList first ++ "\\" ++ String.ofList rest :=
        String.toList_inj.mp (by simpa using (cutFirst_eq_some hcut).1)
      have hshort : short name = short (String.ofList rest) := by
        rw [hname, short_append]
      simp only
      split
      · rw [short_qualify, hshort]
      · cases target? imports.classes (lower (String.ofList first)) with
        | none => exact short_qualify _ _
        | some target => exact (short_append _ _).trans hshort.symm

/-- Only a name without backslashes is looked for among the imports of functions. -/
theorem resolveFunction_eq (name : String) :
    imports.resolveFunction name =
      if isQualified name then imports.resolveClass name
      else (target? imports.functions (lower name)).getD (qualify imports.space name) := by
  unfold resolveFunction
  split
  · rename_i absolute hname
    rw [if_pos (isQualified_of_rooted (by rw [hname]; rfl)), imports.resolveClass_of_toList hname]
  · rfl

/-- Only a name without backslashes is looked for among the imports of constants. -/
theorem resolveConstant_eq (name : String) :
    imports.resolveConstant name =
      if isQualified name then imports.resolveClass name
      else (target? imports.constants name).getD (qualify imports.space name) := by
  unfold resolveConstant
  split
  · rename_i absolute hname
    rw [if_pos (isQualified_of_rooted (by rw [hname]; rfl)), imports.resolveClass_of_toList hname]
  · rfl

theorem lower_resolveFunction_congr {a b : String} (h : lower a = lower b) :
    lower (imports.resolveFunction a) = lower (imports.resolveFunction b) := by
  have hqualified : isQualified a = isQualified b := by
    rw [← isQualified_lower a, h, isQualified_lower]
  rw [resolveFunction_eq, resolveFunction_eq, hqualified, h]
  split
  · exact imports.lower_resolveClass_congr h
  · cases target? imports.functions (lower b) with
    | none => exact lower_qualify_congr _ h
    | some target => rfl

/-- Names of constants that have the same letters and the same short name resolve to names that do.
Without a backslash they are the same name. -/
theorem resolveConstant_congr {a b : String} (h : lower a = lower b) (hshort : short a = short b) :
    lower (imports.resolveConstant a) = lower (imports.resolveConstant b) ∧
      short (imports.resolveConstant a) = short (imports.resolveConstant b) := by
  have hqualified : isQualified a = isQualified b := by
    rw [← isQualified_lower a, h, isQualified_lower]
  cases hb : isQualified b with
  | true =>
    have ha := hqualified.trans hb
    rw [resolveConstant_eq, resolveConstant_eq, if_pos ha, if_pos hb]
    exact ⟨imports.lower_resolveClass_congr h,
      by rw [imports.short_resolveClass ha, imports.short_resolveClass hb, hshort]⟩
  | false =>
    have hsame : a = b := by
      rw [← short_of_not_isQualified hb, ← hshort,
        short_of_not_isQualified (hqualified.trans hb)]
    rw [hsame]
    exact ⟨rfl, rfl⟩

end Imports

/-! ### Identifiers for resolved names -/

theorem NameRules.folding_congr (rules : NameRules) (kind : Kind) {a b : String}
    (h : lower a = lower b) :
    rules.folding kind (stripRoot a) = rules.folding kind (stripRoot b) := by
  unfold folding
  rw [lower_stripRoot, lower_stripRoot, h]

/-- Identifiers of names with the same letters are equal, if the names of constants have the same
short name too. -/
theorem Identifier.same_of_lower_eq (rules : NameRules) (kind : Kind) {a b : String}
    (h : Name.lower a = Name.lower b) (hshort : kind = .constant → short a = short b) :
    (make rules kind a).same (make rules kind b) = true := by
  have hbare : Name.lower (stripRoots a) = Name.lower (stripRoots b) := by
    rw [lower_stripRoots, lower_stripRoots, h]
  rw [same_make_iff, rules.folding_congr kind h]
  cases hfolding : rules.folding kind (stripRoot b) with
  | whole => exact hbare
  | namespaceOnly =>
    have hconstant : kind = .constant := by
      cases kind with
      | constant => rfl
      | classLike | function => cases hfolding
    exact Folding.apply_namespaceOnly_eq_iff.mpr ⟨hbare, hshort hconstant⟩

namespace Imports

/-- Whatever a namespace imports, names that differ in case only resolve to equal identifiers, of
classes and of functions, and of constants if they differ in front of the last backslash only. -/
theorem resolved_identifiers_ignore_case (imports : Imports) (rules : NameRules) (a b : String)
    (h : sameLetters a b = true) :
    (Identifier.make rules .classLike (imports.resolveClass a)).same
        (.make rules .classLike (imports.resolveClass b)) = true ∧
      (Identifier.make rules .function (imports.resolveFunction a)).same
        (.make rules .function (imports.resolveFunction b)) = true ∧
      (short a = short b →
        (Identifier.make rules .constant (imports.resolveConstant a)).same
          (.make rules .constant (imports.resolveConstant b)) = true) := by
  have hletters : lower a = lower b := beq_iff_eq.mp h
  refine ⟨?_, ?_, fun hshort => ?_⟩
  · exact Identifier.same_of_lower_eq rules _ (imports.lower_resolveClass_congr hletters) nofun
  · exact Identifier.same_of_lower_eq rules _ (imports.lower_resolveFunction_congr hletters) nofun
  · obtain ⟨hlower, hshort⟩ := imports.resolveConstant_congr hletters hshort
    exact Identifier.same_of_lower_eq rules _ hlower fun _ => hshort

/-- A namespace that imports a namespace under an alias. -/
def toolImports : Imports :=
  (Imports.empty (some "App")).addClause (.plain [⟨"Lib\\Tools", some "T"⟩])

theorem resolved_identifiers_ignore_case_tools :
    sameLetters "t\\Box" "T\\BOX" = true ∧ sameLetters "t\\BOX" "T\\BOX" = true ∧
      short "t\\BOX" = short "T\\BOX" ∧ toolImports.resolveClass "t\\Box" = "Lib\\Tools\\Box" ∧
      (Identifier.make .standard .classLike (toolImports.resolveClass "t\\Box")).same
        (.make .standard .classLike (toolImports.resolveClass "T\\BOX")) = true ∧
      (Identifier.make .standard .constant (toolImports.resolveConstant "t\\BOX")).same
        (.make .standard .constant (toolImports.resolveConstant "T\\BOX")) = true := by
  have hletters : sameLetters "t\\Box" "T\\BOX" = true := by decide +kernel
  have hspace : sameLetters "t\\BOX" "T\\BOX" = true := by decide +kernel
  have hshort : short "t\\BOX" = short "T\\BOX" := by decide +kernel
  exact ⟨hletters, hspace, hshort, by decide +kernel,
    (resolved_identifiers_ignore_case _ _ _ _ hletters).1,
    (resolved_identifiers_ignore_case _ _ _ _ hspace).2.2 hshort⟩

end Imports

end StaticReflection
