import Mathlib.Data.List.Forall2
import StaticReflection.Proofs.ResolvedNames
import StaticReflection.Proofs.ReturnTags
import StaticReflection.Syntax.Token

/-!
What the types of a return tag resolve to. A type is an optional question mark, a base and what is
in brackets behind it; only the base is resolved. A type that is written in full starts its base
with a backslash, so no import and no namespace changes it any more, and if the names it is made of
hold no blanks, every scanner takes it as a whole again.
-/

namespace StaticReflection

open Syntax Text

/-! ### Characters of resolved names -/

namespace Imports

/-- All characters of the namespace and of the names of imported classes are of one sort. -/
structure SpelledIn (imports : Imports) (p : Char → Prop) : Prop where
  space : ∀ space ∈ imports.space, ∀ c ∈ space.toList, p c
  classes : ∀ entry ∈ imports.classes, ∀ c ∈ entry.target.toList, p c

variable {imports : Imports} {p q : Char → Prop} {name : String}

theorem spelledIn_iff [DecidablePred p] : imports.SpelledIn p ↔
    (imports.space.all fun space => space.toList.all (p ·)) = true ∧
      (imports.classes.all fun entry => entry.target.toList.all (p ·)) = true := by
  simp only [Option.all_eq_true, List.all_eq_true, decide_eq_true_eq]
  exact ⟨fun h => ⟨h.space, h.classes⟩, fun h => ⟨h.1, h.2⟩⟩

theorem SpelledIn.mono (h : imports.SpelledIn p) (hpq : ∀ c, p c → q c) : imports.SpelledIn q :=
  ⟨fun space hspace c hc => hpq c (h.space space hspace c hc),
    fun entry hentry c hc => hpq c (h.classes entry hentry c hc)⟩

theorem SpelledIn.qualify (h : imports.SpelledIn p) (hback : p '\\')
    (hname : ∀ c ∈ name.toList, p c) : ∀ c ∈ (Name.qualify imports.space name).toList, p c := by
  unfold Name.qualify
  cases hspace : imports.space with
  | none => exact hname
  | some space =>
    dsimp only
    split
    · exact hname
    · intro c hc
      simp only [String.toList_append, List.mem_append] at hc
      rcases hc with (hc | hc) | hc
      · exact h.space space (by rw [hspace]; rfl) c hc
      · obtain rfl : c = '\\' := List.mem_singleton.mp hc
        exact hback
      · exact hname c hc

theorem SpelledIn.target? (h : imports.SpelledIn p) {localName target : String}
    (htarget : Imports.target? imports.classes localName = some target) :
    ∀ c ∈ target.toList, p c := by
  obtain ⟨entry, hentry, rfl⟩ := Option.map_eq_some_iff.mp htarget
  exact h.classes entry (List.mem_of_find?_eq_some hentry)

/-- The full name of a class is spelled with characters of the written name, of the namespace, of an
imported name, and with backslashes. -/
theorem SpelledIn.resolveClass (h : imports.SpelledIn p) (hback : p '\\')
    (hname : ∀ c ∈ name.toList, p c) : ∀ c ∈ (imports.resolveClass name).toList, p c := by
  by_cases hhead : name.toList.head? = some '\\'
  · obtain ⟨absolute, hroot⟩ := List.head?_eq_some_iff.mp hhead
    rw [imports.resolveClass_of_toList hroot, String.toList_ofList]
    exact fun c hc => hname c (hroot ▸ List.mem_cons_of_mem _ hc)
  · rw [imports.resolveClass_of_head hhead]
    cases hcut : cutFirst '\\' name.toList with
    | none =>
      dsimp only
      cases htarget : Imports.target? imports.classes (Name.lower name) with
      | none => exact h.qualify hback hname
      | some target => exact h.target? htarget
    | some cut =>
      obtain ⟨first, rest⟩ := cut
      have hrest : ∀ c ∈ (String.ofList rest).toList, p c := by
        intro c hc
        rw [String.toList_ofList] at hc
        refine hname c ?_
        rw [(cutFirst_eq_some hcut).1]
        exact List.mem_append_right _ (List.mem_cons_of_mem _ hc)
      dsimp only
      split
      · exact h.qualify hback hrest
      · cases htarget : Imports.target? imports.classes (Name.lower (String.ofList first)) with
        | none => exact h.qualify hback hname
        | some target =>
          intro c hc
          simp only [String.toList_append, List.mem_append] at hc
          rcases hc with (hc | hc) | hc
          · exact h.target? htarget c hc
          · obtain rfl : c = '\\' := List.mem_singleton.mp hc
            exact hback
          · exact hrest c hc

end Imports

namespace DocComment

/-! ### What a type consists of -/

/-- Brackets that end the base of a type. Square ones are among them here only. -/
def endsBase (c : Char) : Bool := c == '<' || c == '[' || c == '{' || c == '('

/-- A type as an optional question mark, a base up to the first bracket, and the rest. -/
structure TypeParts (type mark base suffix : List Char) : Prop where
  spelled : type = mark ++ base ++ suffix
  marked : mark = ['?'] ∨ mark = [] ∧ type.head? ≠ some '?'
  base_ended : ∀ c ∈ base, endsBase c = false
  suffix_ends : ∀ c, suffix.head? = some c → endsBase c = true

/-- A base that stands for no class. -/
def IsBuiltin (base : List Char) : Prop := base = [] ∨ String.ofList (lower base) ∈ builtinTypes

/-- A type and what it becomes when its class name is written in full. -/
inductive WrittenInFull (imports : Imports) (type : String) : String → Prop
  | kept {mark base suffix} (parts : TypeParts type.toList mark base suffix)
      (builtin : IsBuiltin base) : WrittenInFull imports type type
  | resolved {mark base suffix} (parts : TypeParts type.toList mark base suffix)
      (named : ¬ IsBuiltin base) :
      WrittenInFull imports type (String.ofList
        (mark ++ '\\' :: (imports.resolveClass (String.ofList base)).toList ++ suffix))

section Parts

variable {imports : Imports} {type mark base suffix : List Char}

theorem exists_typeParts (type : List Char) :
    ∃ mark base suffix, TypeParts type mark base suffix := by
  have hparts : ∀ mark body, type = mark ++ body →
      (mark = ['?'] ∨ mark = [] ∧ type.head? ≠ some '?') →
      ∃ mark base suffix, TypeParts type mark base suffix := by
    intro mark body htype hmark
    refine ⟨mark, body.takeWhile (!endsBase ·), body.dropWhile (!endsBase ·), ?_, hmark,
      fun c hc => by simpa using List.mem_takeWhile_imp hc, fun c hc => ?_⟩
    · rw [List.append_assoc, List.takeWhile_append_dropWhile, htype]
    · have hnot := List.head?_dropWhile_not (!endsBase ·) body
      rw [hc] at hnot
      simpa using hnot
  by_cases hhead : type.head? = some '?'
  · obtain ⟨body, rfl⟩ := List.head?_eq_some_iff.mp hhead
    exact hparts ['?'] body rfl (.inl rfl)
  · exact hparts [] type rfl (.inr ⟨rfl, hhead⟩)

theorem isBuiltin_iff {base : List Char} : IsBuiltin base ↔
    (base.isEmpty || builtinTypes.contains (String.ofList (lower base))) = true := by
  rw [IsBuiltin, Bool.or_eq_true, List.isEmpty_iff, List.contains_iff_mem]

theorem TypeParts.body_eq (h : TypeParts type mark base suffix) :
    (base ++ suffix).takeWhile (!endsBase ·) = base ∧
      (base ++ suffix).dropWhile (!endsBase ·) = suffix := by
  have hbase : ∀ c ∈ base, (!endsBase c) = true := by simpa using h.base_ended
  rw [List.takeWhile_append_of_pos hbase, List.dropWhile_append_of_pos hbase]
  cases suffix with
  | nil => exact ⟨List.append_nil _, rfl⟩
  | cons c cs => simp [h.suffix_ends c rfl]

theorem resolvePart_marked {body : List Char}
    (hmark : mark = ['?'] ∨ mark = [] ∧ (mark ++ body).head? ≠ some '?') (imports : Imports) :
    resolvePart imports (mark ++ body) =
      if (body.takeWhile (!endsBase ·)).isEmpty ||
          builtinTypes.contains (String.ofList (lower (body.takeWhile (!endsBase ·))))
      then String.ofList (mark ++ body)
      else String.ofList (mark ++ '\\' :: (imports.resolveClass (String.ofList
        (body.takeWhile (!endsBase ·)))).toList ++ body.dropWhile (!endsBase ·)) := by
  rcases hmark with rfl | ⟨rfl, hhead⟩
  · rfl
  · have hunmarked : ∀ rest, body = '?' :: rest → False := by
      rintro rest rfl
      exact hhead rfl
    rw [List.nil_append, resolvePart.eq_2 imports body hunmarked]
    rfl

theorem TypeParts.resolvePart_eq (h : TypeParts type mark base suffix) (imports : Imports) :
    resolvePart imports type =
      if base.isEmpty || builtinTypes.contains (String.ofList (lower base)) then String.ofList type
      else String.ofList
        (mark ++ '\\' :: (imports.resolveClass (String.ofList base)).toList ++ suffix) := by
  have htype : type = mark ++ (base ++ suffix) := by rw [h.spelled, List.append_assoc]
  have hmark := h.marked
  rw [htype] at hmark ⊢
  rw [resolvePart_marked hmark, h.body_eq.1, h.body_eq.2]

theorem writtenInFull_iff {imports : Imports} {type entry : String} :
    WrittenInFull imports type entry ↔ resolvePart imports type.toList = entry := by
  constructor
  · rintro (⟨parts, builtin⟩ | ⟨parts, named⟩)
    · rw [parts.resolvePart_eq, if_pos (isBuiltin_iff.mp builtin), String.ofList_toList]
    · rw [parts.resolvePart_eq, if_neg (mt isBuiltin_iff.mpr named)]
  · rintro rfl
    obtain ⟨mark, base, suffix, parts⟩ := exists_typeParts type.toList
    rw [parts.resolvePart_eq]
    split
    · rename_i builtin
      rw [String.ofList_toList]
      exact .kept parts (isBuiltin_iff.mpr builtin)
    · rename_i named
      exact .resolved parts (mt isBuiltin_iff.mp named)

end Parts

/-! ### What is written in full -/

/-- A character that is no bracket, no blank and no bar. -/
def IsPlain (c : Char) : Prop :=
  isOpening c = false ∧ isClosing c = false ∧ isBlank c = false ∧ c ≠ '[' ∧ c ≠ '|'

theorem isPlain_of_isNameChar {c : Char} (hname : isNameChar c = true)
    (hblank : isBlank c = false) : IsPlain c := by
  have hnone : ['<', '(', '{', '>', ')', '}', '[', '|'].any isNameChar = false := by decide
  have hsigns : ∀ d ∈ ['<', '(', '{', '>', ')', '}', '[', '|'], c ≠ d := by
    rintro d hd rfl
    exact List.any_eq_false.mp hnone c hd hname
  simp only [List.forall_mem_cons] at hsigns
  simp [IsPlain, isOpening, isClosing, hblank, hsigns]

theorem isPlain_backslash : IsPlain '\\' := by
  refine ⟨?_, ?_, ?_, ?_, ?_⟩ <;> decide

theorem IsPlain.endsBase_eq {c : Char} (h : IsPlain c) : endsBase c = false := by
  obtain ⟨hopening, -, -, hsquare, -⟩ := h
  simp only [isOpening, Bool.or_eq_false_iff, beq_eq_false_iff_ne] at hopening
  simp [endsBase, hopening, hsquare]

theorem isToken_of_isPlain {cs : List Char} (h : ∀ c ∈ cs, IsPlain c) : IsToken cs :=
  .of_plain fun c hc => ⟨(h c hc).1, (h c hc).2.1, (h c hc).2.2.1⟩

section Fronts

variable {front other suffix : List Char}

theorem IsToken.of_append (hfront : IsToken front) (h : IsToken (front ++ suffix)) :
    IsToken suffix := by
  have hdepth : ∀ before, depth (front ++ before) = depth before := by
    intro before
    rw [depth_append, hfront.closed, zero_add]
  refine ⟨hdepth suffix ▸ h.closed, fun before hbefore => ?_, fun before c hbefore hzero => ?_⟩
  · rw [← hdepth before]
    exact h.nonneg _ ((List.prefix_append_right_inj front).mpr hbefore)
  · exact h.unspaced (front ++ before) c (prefix_append_concat front hbefore)
      ((hdepth before).trans hzero)

/-- In front of the first bracket that ends a base everything is plain: a closing bracket there
would close what nothing has opened. -/
theorem IsUnionPart.plain (h : IsUnionPart (front ++ suffix))
    (hfront : ∀ c ∈ front, endsBase c = false) : ∀ c ∈ front, IsPlain c := by
  have hopening : ∀ c ∈ front, isOpening c = false := by
    intro c hc
    have hends := hfront c hc
    simp only [endsBase, Bool.or_eq_false_iff] at hends
    simp [isOpening, hends]
  have hcount : front.countP isOpening = 0 := by
    rw [List.countP_eq_zero]
    simpa using hopening
  have hclosing : ∀ c ∈ front, isClosing c = false := by
    have hnonneg := h.nonneg front (List.prefix_append front suffix)
    rw [depth, hcount] at hnonneg
    have hnone : front.countP isClosing = 0 := by omega
    simpa using List.countP_eq_zero.mp hnone
  intro c hc
  obtain ⟨before, after, rfl⟩ := List.append_of_mem hc
  have hprefix : before ++ [c] <+: before ++ c :: after ++ suffix :=
    ⟨after ++ suffix, by simp⟩
  have hbefore : ∀ b ∈ before, b ∈ before ++ c :: after := fun b => List.mem_append_left _
  have hzero : depth before = 0 := by
    rw [depth, List.countP_eq_zero.mpr (by simpa using fun b hb => hopening b (hbefore b hb)),
      List.countP_eq_zero.mpr (by simpa using fun b hb => hclosing b (hbefore b hb))]
    rfl
  refine ⟨hopening c hc, hclosing c hc, h.unspaced before c hprefix hzero, ?_, ?_⟩
  · rintro rfl
    exact absurd (hfront _ hc) (by decide)
  · rintro rfl
    exact h.unbarred before hprefix hzero

/-- A part of a union stays one when other plain characters are put in front of what follows. -/
theorem IsUnionPart.replace_front (h : IsUnionPart (front ++ suffix))
    (hfront : ∀ c ∈ front, IsPlain c) (hother : ∀ c ∈ other, IsPlain c) (hne : other ≠ []) :
    IsUnionPart (other ++ suffix) := by
  have htoken := isToken_of_isPlain hfront
  have hplain := isToken_of_isPlain hother
  refine ⟨hplain.append (htoken.of_append h.toIsToken), by simp [hne], fun before hbar => ?_, ?_⟩
  · rcases prefix_append_cases hbar with hin | ⟨more, rfl, hmore⟩
    · exact absurd rfl (hother '|' (hin.subset (by simp))).2.2.2.2
    · have hkept := h.unbarred (front ++ more) (prefix_append_concat front hmore)
      rw [depth_append, htoken.closed] at hkept
      rwa [depth_append, hplain.closed]
  · rw [List.mem_append]
    rintro (hline | hline)
    · exact absurd (hother _ hline).2.2.1 (by decide)
    · exact h.unbroken (List.mem_append_right _ hline)

end Fronts

section Rooted

variable {imports : Imports} {type mark base suffix name : List Char}

theorem TypeParts.mark_ended (h : TypeParts type mark base suffix) :
    ∀ c ∈ mark, endsBase c = false := by
  rcases h.marked with rfl | ⟨rfl, -⟩
  · exact List.forall_mem_singleton.mpr rfl
  · exact nofun

theorem TypeParts.plain (h : TypeParts type mark base suffix) (htype : IsUnionPart type) :
    ∀ c ∈ mark ++ base, IsPlain c := by
  refine IsUnionPart.plain (h.spelled ▸ htype) fun c hc => ?_
  exact (List.mem_append.mp hc).elim (h.mark_ended c) (h.base_ended c)

theorem TypeParts.rooted (h : TypeParts type mark base suffix) (hname : ∀ c ∈ name, IsPlain c) :
    TypeParts (mark ++ '\\' :: name ++ suffix) mark ('\\' :: name) suffix := by
  refine ⟨rfl, ?_, fun c hc => ?_, h.suffix_ends⟩
  · rcases h.marked with rfl | ⟨rfl, -⟩
    · exact .inl rfl
    · exact .inr ⟨rfl, by simp⟩
  · rcases List.mem_cons.mp hc with rfl | hc
    · rfl
    · exact (hname c hc).endsBase_eq

/-- No built-in type is written with a backslash. -/
theorem not_isBuiltin_rooted (name : List Char) : ¬ IsBuiltin ('\\' :: name) := by
  rintro (hempty | hbuiltin)
  · cases hempty
  · have hnone : ∀ type ∈ builtinTypes, type.toList.head? ≠ some '\\' := by decide
    refine hnone _ hbuiltin ?_
    rw [String.toList_ofList]
    rfl

/-- A type that is written in full is a type as before, and it is written in full in every other
namespace too. -/
theorem WrittenInFull.again {type entry : String} (h : WrittenInFull imports type entry)
    (himports : imports.SpelledIn IsPlain) (htype : IsUnionPart type.toList) :
    IsUnionPart entry.toList ∧ ∀ other, WrittenInFull other entry entry := by
  rcases h with ⟨parts, builtin⟩ | @⟨mark, base, suffix, parts, named⟩
  · exact ⟨htype, fun other => .kept parts builtin⟩
  · have hfront := parts.plain htype
    have hname : ∀ c ∈ (imports.resolveClass (String.ofList base)).toList, IsPlain c :=
      himports.resolveClass isPlain_backslash (by
        rw [String.toList_ofList]
        exact fun c hc => hfront c (List.mem_append_right _ hc))
    generalize (imports.resolveClass (String.ofList base)).toList = name at hname
    have hfull : ∀ c ∈ mark ++ '\\' :: name, IsPlain c := by
      intro c hc
      rcases List.mem_append.mp hc with hmark | hrooted
      · exact hfront c (List.mem_append_left _ hmark)
      · rcases List.mem_cons.mp hrooted with rfl | hc
        · exact isPlain_backslash
        · exact hname c hc
    refine ⟨?_, fun other => writtenInFull_iff.mpr ?_⟩
    · rw [String.toList_ofList]
      exact (parts.spelled ▸ htype).replace_front hfront hfull (by simp)
    · rw [String.toList_ofList, (parts.rooted hname).resolvePart_eq,
        if_neg (mt isBuiltin_iff.mpr (not_isBuiltin_rooted name)),
        other.resolveClass_of_toList (String.toList_ofList), String.toList_ofList]

end Rooted

/-! ### The types of a tag -/

theorem IsToken.trim_eq {cs : List Char} (h : IsToken cs) : trim isBlank cs = cs := by
  rcases List.eq_nil_or_concat' cs with rfl | ⟨front, last, rfl⟩
  · rfl
  · obtain ⟨first, rest, hcs⟩ := List.exists_cons_of_ne_nil (List.concat_ne_nil last front)
    have hhead : isBlank first = false := by
      rw [hcs] at h
      exact h.head
    exact trim_of_ends (by rw [hcs]; rfl) hhead List.getLast?_concat h.last

namespace TaggedComment

variable {comment : TaggedComment} {types : List String}

/-- The types of the tag are resolved one by one. -/
theorem returnTypes_text (hheld : comment.Holds types)
    (htypes : ∀ type ∈ types, IsUnionPart type.toList) (imports : Imports) :
    returnTypes (comment.text types) imports =
      types.map fun type => resolvePart imports type.toList := by
  by_cases hne : types = []
  · subst hne
    rw [returnTypes, returnType?_text_nil hheld]
    rfl
  · have hparts : ∀ part ∈ types.map String.toList, IsUnionPart part := by
      simpa only [List.forall_mem_map] using htypes
    have htrim : (types.map String.toList).map (trim isBlank) = types.map String.toList := by
      rw [List.map_congr_left (fun part hpart => (hparts part hpart).trim_eq), List.map_id']
    have hfilter : (types.map String.toList).filter (!·.isEmpty) = types.map String.toList :=
      List.filter_eq_self.mpr fun part hpart => by simpa using (hparts part hpart).ne_nil
    rw [returnTypes, returnType?_text hne htypes]
    dsimp only
    rw [String.toList_ofList, unionParts_join (by simpa using hne) hparts, htrim, hfilter,
      List.map_map]
    rfl

/-- Characters of the names in imports: those of names, and the backslashes in between. -/
def IsNamePart (c : Char) : Prop := isNameChar c = true ∨ c = '\\'

instance : DecidablePred IsNamePart := fun _ => inferInstanceAs (Decidable (_ ∨ _))

/-- A comment of one line, with a tag only. -/
def inlineComment (behind : List Char) (hspaced : behind.head?.all isBlank = true)
    (hline : '\n' ∉ behind) : TaggedComment where
  before := []
  lead := [' ']
  tag := "@return"
  gap := [' ']
  behind := behind
  after := []
  before_ended := .inl rfl
  untagged := by decide
  isLead := ⟨[' '], [], [], rfl, List.forall_mem_singleton.mpr rfl, nofun, nofun⟩
  tag_mem := List.mem_cons_self
  gap_ne_nil := List.cons_ne_nil _ _
  gap_blank := List.forall_mem_singleton.mpr rfl
  behind_spaced := (Option.all_eq_true _ _).mp hspaced
  oneLine := by simpa using hline
  after_broken := nofun

/-- A comment of several lines, with text in front of the tag and behind the types. -/
def boxComment : TaggedComment where
  before := "\n * Opens them all.\n".toList
  lead := " * ".toList
  tag := "@return"
  gap := [' ']
  behind := " the boxes".toList
  after := "\n ".toList
  before_ended := .inr (by decide)
  untagged := by decide
  isLead := ⟨[' '], ['*'], [' '], rfl, List.forall_mem_singleton.mpr rfl,
    List.forall_mem_singleton.mpr rfl, List.forall_mem_singleton.mpr rfl⟩
  tag_mem := List.mem_cons_self
  gap_ne_nil := List.cons_ne_nil _ _
  gap_blank := List.forall_mem_singleton.mpr rfl
  behind_spaced := by rintro _ ⟨⟩; rfl
  oneLine := by decide
  after_broken := by rintro _ ⟨⟩; rfl

def boxTypes : List String := ["?T\\Box", "array<int, A|B>", "T[]", "INT"]

def boxTypesInFull : List String :=
  ["?\\Lib\\Tools\\Box", "array<int, A|B>", "\\Lib\\Tools[]", "INT"]

/-- A namespace with a blank in its name that is not ASCII. -/
def spacedImports : Imports := .empty (some "N\u00a0")

end TaggedComment

end DocComment

end StaticReflection
