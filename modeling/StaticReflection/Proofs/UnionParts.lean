import Mathlib.Algebra.Order.Ring.Int
import Mathlib.Data.List.Infix
import StaticReflection.DocComment
import StaticReflection.Proofs.PrintedArrays

/-!
Types with brackets. The depth of a text is how many more brackets it opens than it closes; a text
is closed if no prefix closes more than it opens and the whole comes out even. The scanner for a
type and the one for the parts of a union keep a depth of their own each, and over a closed text
both end at the depth at which they started. So a type is taken up to the first blank behind it,
whatever blanks are in its brackets, and a union is cut at the bars between its parts and nowhere
else.
-/

namespace StaticReflection

open Text

namespace DocComment

/-! ### Depth -/

def isOpening (c : Char) : Bool := c == '<' || c == '(' || c == '{'

def isClosing (c : Char) : Bool := c == '>' || c == ')' || c == '}'

/-- How many more brackets a text opens than it closes. -/
def depth (cs : List Char) : Int := cs.countP isOpening - cs.countP isClosing

@[simp] theorem depth_nil : depth [] = 0 := rfl

theorem depth_append (left right : List Char) :
    depth (left ++ right) = depth left + depth right := by
  simp only [depth, List.countP_append]
  omega

theorem depthStep_eq (d : Int) (c : Char) : depthStep d c = d + depth [c] := by
  have hboth : isOpening c = true → isClosing c = false := by
    simp only [isOpening, isClosing, Bool.or_eq_true, beq_iff_eq]
    rintro ((rfl | rfl) | rfl) <;> rfl
  have hstep : depthStep d c =
      if isOpening c then d + 1 else if isClosing c then d - 1 else d := rfl
  rw [hstep, depth, List.countP_singleton, List.countP_singleton]
  by_cases hopening : isOpening c
  · simp [hopening, hboth hopening]
  · by_cases hclosing : isClosing c
    · simp [hopening, hclosing]
      omega
    · simp [hopening, hclosing]

theorem depth_cons (c : Char) (cs : List Char) : depth (c :: cs) = depth [c] + depth cs :=
  depth_append [c] cs

/-- Brackets match up, and no blank stands outside of them. -/
structure IsToken (cs : List Char) : Prop where
  closed : depth cs = 0
  nonneg : ∀ before, before <+: cs → 0 ≤ depth before
  unspaced : ∀ before c, before ++ [c] <+: cs → depth before = 0 → isBlank c = false

/-- A part of a union: not empty, with no blank and no bar outside its brackets, on one line. -/
structure IsUnionPart (cs : List Char) : Prop extends IsToken cs where
  ne_nil : cs ≠ []
  unbarred : ∀ before, before ++ ['|'] <+: cs → depth before ≠ 0
  unbroken : '\n' ∉ cs

/-- What stands in front of a character of two texts together stands in front of it in the first, or
is the first and what stands in front of it in the second. -/
theorem prefix_append_cases {before left right : List Char} {c : Char}
    (h : before ++ [c] <+: left ++ right) :
    before ++ [c] <+: left ∨ ∃ more, before = left ++ more ∧ more ++ [c] <+: right := by
  rcases List.prefix_or_prefix_of_prefix h (List.prefix_append left right) with hleft | hleft
  · exact .inl hleft
  · obtain ⟨more, hmore⟩ := hleft
    rcases List.eq_nil_or_concat' more with rfl | ⟨more, last, rfl⟩
    · rw [List.append_nil] at hmore
      exact .inl (hmore ▸ List.prefix_rfl)
    · rw [← List.append_assoc] at hmore
      obtain ⟨rfl, hlast⟩ := List.append_inj' hmore rfl
      cases hlast
      rw [List.append_assoc, List.prefix_append_right_inj] at h
      exact .inr ⟨more, rfl, h⟩

theorem prefix_append_concat {before right : List Char} {c : Char} (left : List Char)
    (h : before ++ [c] <+: right) : left ++ before ++ [c] <+: left ++ right := by
  rw [List.append_assoc]
  exact (List.prefix_append_right_inj left).mpr h

namespace IsToken

variable {cs left right : List Char} {c : Char}

theorem append (hleft : IsToken left) (hright : IsToken right) : IsToken (left ++ right) where
  closed := by rw [depth_append, hleft.closed, hright.closed, add_zero]
  nonneg before h := by
    rcases List.eq_nil_or_concat' before with rfl | ⟨before, c, rfl⟩
    · exact le_of_eq depth_nil.symm
    · rcases prefix_append_cases h with hbefore | ⟨more, rfl, hmore⟩
      · exact hleft.nonneg _ hbefore
      · rw [List.append_assoc, depth_append, hleft.closed, zero_add]
        exact hright.nonneg _ hmore
  unspaced before c h hdepth := by
    rcases prefix_append_cases h with hbefore | ⟨more, rfl, hmore⟩
    · exact hleft.unspaced before c hbefore hdepth
    · rw [depth_append, hleft.closed, zero_add] at hdepth
      exact hright.unspaced more c hmore hdepth

/-- Characters that are no brackets and no blanks. -/
theorem of_plain (h : ∀ c ∈ cs, isOpening c = false ∧ isClosing c = false ∧ isBlank c = false) :
    IsToken cs := by
  have hdepth : ∀ before, before <+: cs → depth before = 0 := by
    intro before hbefore
    rw [depth, List.countP_eq_zero.mpr, List.countP_eq_zero.mpr]
    · rfl
    · intro c hc
      simp [(h c (hbefore.subset hc)).2.1]
    · intro c hc
      simp [(h c (hbefore.subset hc)).1]
  exact ⟨hdepth cs List.prefix_rfl, fun before hbefore => (hdepth before hbefore).ge,
    fun before c hbefore _ => (h c (hbefore.subset (by simp))).2.2⟩

theorem head (h : IsToken (c :: cs)) : isBlank c = false :=
  h.unspaced [] c ⟨cs, rfl⟩ rfl

/-- The last character is no blank: it stands outside of brackets or closes the last one. -/
theorem last (h : IsToken (cs ++ [c])) : isBlank c = false := by
  by_cases hdepth : depth cs = 0
  · exact h.unspaced cs c List.prefix_rfl hdepth
  · have hopen := h.nonneg cs (List.prefix_append cs [c])
    have hclosed := h.closed
    rw [depth_append] at hclosed
    have hclosing : isClosing c = true := by
      by_contra hnot
      have hnonneg : 0 ≤ depth [c] := by
        rw [depth, List.countP_singleton, List.countP_singleton, if_neg hnot]
        omega
      omega
    simp only [isClosing, Bool.or_eq_true, beq_iff_eq] at hclosing
    rcases hclosing with (rfl | rfl) | rfl <;> decide

end IsToken

theorem IsToken.join {parts : List (List Char)} (h : ∀ part ∈ parts, IsToken part) :
    IsToken (Text.join ['|'] parts) := by
  have hbar : IsToken ['|'] := .of_plain (List.forall_mem_singleton.mpr (by decide))
  induction parts with
  | nil => exact .of_plain nofun
  | cons part rest ih =>
    have hpart := h part List.mem_cons_self
    cases rest with
    | nil => exact hpart
    | cons next rest =>
      exact (hpart.append hbar).append
        (ih fun other hother => h other (List.mem_cons_of_mem _ hother))

theorem forall_prefix_concat {cs : List Char} {P : List Char → Char → Prop} :
    (∀ before c, before ++ [c] <+: cs → P before c) ↔
      ∀ i (h : i < cs.length), P (cs.take i) cs[i] := by
  constructor
  · intro h i hi
    refine h (cs.take i) cs[i] ?_
    rw [List.take_append_getElem hi]
    exact List.take_prefix _ _
  · rintro h before c ⟨rest, rfl⟩
    simpa using h before.length (by simp)

theorem isUnionPart_iff {cs : List Char} : IsUnionPart cs ↔
    depth cs = 0 ∧ (∀ before ∈ cs.inits, 0 ≤ depth before) ∧
      (∀ i (h : i < cs.length), depth (cs.take i) = 0 → isBlank cs[i] = false ∧ cs[i] ≠ '|') ∧
      cs ≠ [] ∧ '\n' ∉ cs := by
  rw [← forall_prefix_concat (P := fun before c => depth before = 0 → isBlank c = false ∧ c ≠ '|')]
  simp only [List.mem_inits]
  constructor
  · intro h
    refine ⟨h.closed, h.nonneg, fun before c hbefore hzero =>
      ⟨h.unspaced before c hbefore hzero, ?_⟩, h.ne_nil, h.unbroken⟩
    rintro rfl
    exact h.unbarred before hbefore hzero
  · rintro ⟨hclosed, hnonneg, hplain, hne, hline⟩
    exact ⟨⟨hclosed, hnonneg, fun before c hbefore hzero => (hplain before c hbefore hzero).1⟩, hne,
      fun before hbefore hzero => (hplain before '|' hbefore hzero).2 rfl, hline⟩

instance (cs : List Char) : Decidable (IsUnionPart cs) := decidable_of_iff _ isUnionPart_iff.symm

example : IsUnionPart "?Map<int, array(A|B)>".toList := by decide

/-! ### The scanners -/

/-- A text without blanks outside brackets is taken as a whole. -/
theorem typeToken_append {d : Int} {cs : List Char}
    (h : ∀ before c, before ++ [c] <+: cs → isBlank c = true → 0 < d + depth before)
    (rest : List Char) : typeToken d (cs ++ rest) = cs ++ typeToken (d + depth cs) rest := by
  induction cs generalizing d with
  | nil => simp
  | cons c cs ih =>
    have hc : ¬ (isBlank c && decide (d ≤ 0)) = true := by
      intro hstop
      obtain ⟨hblank, hdepth⟩ := Bool.and_eq_true_iff.mp hstop
      have hopen := h [] c ⟨cs, rfl⟩ hblank
      rw [depth_nil, add_zero] at hopen
      exact absurd (of_decide_eq_true hdepth) (not_le.mpr hopen)
    -- Behind the first character the scanner is as much deeper as the prefixes are shallower.
    have hinside : ∀ before b, before ++ [b] <+: cs → isBlank b = true →
        0 < depthStep d c + depth before := by
      intro before b hbefore hblank
      have hopen := h (c :: before) b ((List.prefix_cons_inj c).mpr hbefore) hblank
      rw [depth_cons] at hopen
      rw [depthStep_eq]
      omega
    rw [List.cons_append, typeToken, if_neg hc, ih hinside, depth_cons, depthStep_eq,
      List.cons_append, add_assoc]

theorem IsToken.typeToken_append {cs rest : List Char} (h : IsToken cs)
    (hrest : ∀ c, rest.head? = some c → isBlank c = true) : typeToken 0 (cs ++ rest) = cs := by
  have hopen : ∀ before c, before ++ [c] <+: cs → isBlank c = true → 0 < 0 + depth before := by
    intro before c hbefore hblank
    have hnonneg := h.nonneg before ((List.prefix_append before [c]).trans hbefore)
    have hne : depth before ≠ 0 := by
      intro hzero
      rw [h.unspaced before c hbefore hzero] at hblank
      cases hblank
    omega
  rw [DocComment.typeToken_append hopen, h.closed]
  cases rest with
  | nil => simp [typeToken]
  | cons c rest => simp [typeToken, hrest c rfl]

/-- A text without bars outside brackets goes with the part behind it. -/
theorem unionParts_append {d : Int} {cs rest part : List Char} {parts : List (List Char)}
    (h : ∀ before, before ++ ['|'] <+: cs → d + depth before ≠ 0)
    (hrest : unionParts (d + depth cs) rest = part :: parts) :
    unionParts d (cs ++ rest) = (cs ++ part) :: parts := by
  induction cs generalizing d with
  | nil => simpa using hrest
  | cons c cs ih =>
    have hc : ¬ (c == '|' && d == 0) = true := by
      intro hbar
      obtain ⟨hbar, hdepth⟩ := Bool.and_eq_true_iff.mp hbar
      rw [beq_iff_eq] at hbar hdepth
      subst hbar
      exact h [] ⟨cs, rfl⟩ (by rw [hdepth, depth_nil, add_zero])
    have hinside : ∀ before, before ++ ['|'] <+: cs → depthStep d c + depth before ≠ 0 := by
      intro before hbefore
      have hopen := h (c :: before) ((List.prefix_cons_inj c).mpr hbefore)
      rwa [depth_cons, ← add_assoc, ← depthStep_eq] at hopen
    rw [depth_cons, ← add_assoc, ← depthStep_eq] at hrest
    rw [List.cons_append, unionParts, if_neg hc, ih hinside hrest]
    rfl

/-- A union is cut at the bars with which its parts are joined. -/
theorem unionParts_join {parts : List (List Char)} (hne : parts ≠ [])
    (h : ∀ part ∈ parts, IsUnionPart part) : unionParts 0 (Text.join ['|'] parts) = parts := by
  induction parts with
  | nil => exact absurd rfl hne
  | cons part rest ih =>
    have hpart := h part List.mem_cons_self
    have hbars : ∀ before, before ++ ['|'] <+: part → 0 + depth before ≠ 0 := by
      intro before hbefore
      rw [zero_add]
      exact hpart.unbarred before hbefore
    have hdepth : (0 : Int) + depth part = 0 := by rw [hpart.closed, add_zero]
    cases rest with
    | nil =>
      have hend : unionParts (0 + depth part) [] = [[]] := rfl
      have hparts := unionParts_append hbars hend
      rw [List.append_nil] at hparts
      exact hparts
    | cons next rest =>
      have hrest := ih (List.cons_ne_nil _ _)
        fun other hother => h other (List.mem_cons_of_mem _ hother)
      have hbar : unionParts (0 + depth part) ('|' :: Text.join ['|'] (next :: rest)) =
          [] :: next :: rest := by
        rw [hdepth, unionParts, if_pos (by rfl), hrest]
      have hjoin : Text.join ['|'] (part :: next :: rest) =
          part ++ '|' :: Text.join ['|'] (next :: rest) := by
        change part ++ ['|'] ++ Text.join ['|'] (next :: rest) = _
        rw [List.append_assoc, List.singleton_append]
      rw [hjoin, unionParts_append hbars hbar, List.append_nil]

end DocComment

end StaticReflection
