import StaticReflection.DocComment
import StaticReflection.Proofs.LinePositions
import StaticReflection.Syntax.Program

/-!
Which doc comment belongs to a declaration. Between the two only ASCII blanks may stand, and blanks
and comments that are no doc comments. The search goes backwards from the declaration and keeps the
offset down to which it has found nothing else. Since trivia do not overlap, what stands between two
of them lies in none, so the first doc comment that the search comes to is the nearest one that
belongs there, and where it stops at code, none does.
-/

namespace StaticReflection

open Syntax Text

/-! ### Trivia in order -/

/-- Trivia in the order of their places, none of which reaches into the next one. -/
structure InOrder (trivia : List Trivia) : Prop where
  forward : ∀ t ∈ trivia, t.span.start ≤ t.span.stop
  ordered : trivia.Pairwise fun a b => a.span.stop ≤ b.span.start

theorem triviaOf_cons (lexeme : LexemeKind × String × Span)
    (rest : List (LexemeKind × String × Span)) :
    triviaOf (lexeme :: rest) = match lexeme with
      | (.trivia kind, text, span) => ⟨kind, span, text⟩ :: triviaOf rest
      | (.token _, _) => triviaOf rest := by
  obtain ⟨_ | kind, text, span⟩ := lexeme <;> rfl

/-- Behind a lexeme the others go on where it stops. -/
theorem exists_placeLexemes_cons (offset : Nat) (kind : LexemeKind) (text : List Char)
    (rest : List (LexemeKind × List Char)) :
    ∃ stop, offset ≤ stop ∧ placeLexemes offset ((kind, text) :: rest) =
      (kind, String.ofList text, ⟨offset, stop⟩) :: placeLexemes stop rest :=
  ⟨_, Nat.le_add_right _ _, rfl⟩

/-- Lexemes follow one another. -/
theorem forward_of_mem_triviaOf {offset : Nat} {found : List (LexemeKind × List Char)} {t : Trivia}
    (ht : t ∈ triviaOf (placeLexemes offset found)) :
    offset ≤ t.span.start ∧ t.span.start ≤ t.span.stop := by
  induction found generalizing offset with
  | nil => cases ht
  | cons first rest ih =>
    obtain ⟨kind, text⟩ := first
    obtain ⟨stop, hle, hplaced⟩ := exists_placeLexemes_cons offset kind text rest
    have hrest : t ∈ triviaOf (placeLexemes stop rest) →
        offset ≤ t.span.start ∧ t.span.start ≤ t.span.stop := by
      intro hmem
      obtain ⟨hstart, hforward⟩ := ih hmem
      exact ⟨hle.trans hstart, hforward⟩
    rw [hplaced, triviaOf_cons] at ht
    cases kind with
    | token kind => exact hrest ht
    | trivia kind =>
      rcases List.mem_cons.mp ht with rfl | ht
      · exact ⟨Nat.le_refl _, hle⟩
      · exact hrest ht

theorem ordered_triviaOf (offset : Nat) (found : List (LexemeKind × List Char)) :
    (triviaOf (placeLexemes offset found)).Pairwise fun a b => a.span.stop ≤ b.span.start := by
  induction found generalizing offset with
  | nil => exact .nil
  | cons first rest ih =>
    obtain ⟨kind, text⟩ := first
    obtain ⟨stop, -, hplaced⟩ := exists_placeLexemes_cons offset kind text rest
    rw [hplaced, triviaOf_cons]
    cases kind with
    | token kind => exact ih _
    | trivia kind => exact .cons (fun t ht => (forward_of_mem_triviaOf ht).1) (ih _)

/-- The trivia of a program are in order. -/
theorem inOrder_of_read {source : String} {p : Program} (h : Program.read source = .ok p) :
    InOrder p.trivia := by
  unfold Program.read Program.readWithin lexemes at h
  cases hfound : lexFrom source.toList.length ⟨.opening, []⟩ source.toList with
  | error left =>
    rw [hfound] at h
    cases h
  | ok found =>
    rw [hfound] at h
    simp only [Except.map] at h
    cases hstatements : statementsOf? maxExpressionDepth (tokensOf (placeLexemes 0 found)) with
    | error e =>
      rw [hstatements] at h
      cases h
    | ok statements =>
      rw [hstatements] at h
      cases h
      exact ⟨fun t ht => (forward_of_mem_triviaOf ht).2, ordered_triviaOf 0 found⟩

namespace DocComment

variable {source : String} {trivia : List Trivia} {offset : Nat}

/-- What may stand between a doc comment and its declaration: an ASCII blank, or a part of a blank
or of a comment that is no doc comment. -/
def Passable (source : String) (trivia : List Trivia) (i : Nat) : Prop :=
  (bytes source.toList)[i]?.any isBlankByte = true ∨
    ∃ t ∈ trivia, t.kind ≠ .docComment ∧ t.span.start ≤ i ∧ i < t.span.stop

/-- A place of code: no blank stands there, and no trivia covers it. -/
structure IsCode (source : String) (trivia : List Trivia) (i : Nat) : Prop where
  inside : i < (bytes source.toList).length
  unblank : (bytes source.toList)[i]?.any isBlankByte = false
  uncovered : ∀ t ∈ trivia, t.span.start ≤ i → t.span.stop ≤ i

/-- A doc comment before an offset from which nothing else parts it. -/
structure Attached (source : String) (trivia : List Trivia) (offset : Nat) (d : Trivia) : Prop where
  mem : d ∈ trivia
  isDoc : d.kind = .docComment
  before : d.span.start < offset
  passable : ∀ i < offset, d.span.stop ≤ i → Passable source trivia i

/-- The last of the doc comments that nothing parts from an offset. -/
structure Nearest (source : String) (trivia : List Trivia) (offset : Nat) (d : Trivia) : Prop where
  attached : Attached source trivia offset d
  last : ∃ earlier later, trivia = earlier ++ d :: later ∧
    ∀ t ∈ later, ¬ Attached source trivia offset t

theorem all_between {start stop : Nat} (hle : start ≤ stop)
    (hstop : stop ≤ (bytes source.toList).length) :
    (between source start stop).all isBlankByte = true ↔
      ∀ i < stop, start ≤ i → (bytes source.toList)[i]?.any isBlankByte = true := by
  rw [between, if_pos ⟨hle, hstop⟩, List.all_eq_true]
  constructor
  · intro h i hi hstart
    have hlt : i < (bytes source.toList).length := hi.trans_le hstop
    rw [List.getElem?_eq_getElem hlt, Option.any_some]
    apply h
    refine List.mem_of_getElem? (i := i - start) ?_
    rw [List.extract_eq_take_drop, List.getElem?_take_of_lt (by omega), List.getElem?_drop,
      Nat.add_sub_cancel' hstart, List.getElem?_eq_getElem hlt]
  · intro h b hb
    obtain ⟨j, hj⟩ := List.mem_iff_getElem?.mp hb
    rw [List.extract_eq_take_drop, List.getElem?_take] at hj
    split at hj
    · rename_i hlt
      rw [List.getElem?_drop] at hj
      have hblank := h (start + j) (by omega) (by omega)
      rwa [hj] at hblank
    · cases hj

instance (source : String) (trivia : List Trivia) (i : Nat) :
    Decidable (Passable source trivia i) := inferInstanceAs (Decidable (_ ∨ _))

theorem attached_iff {d : Trivia} : Attached source trivia offset d ↔
    d ∈ trivia ∧ d.kind = .docComment ∧ d.span.start < offset ∧
      ∀ i < offset, d.span.stop ≤ i → Passable source trivia i :=
  ⟨fun h => ⟨h.mem, h.isDoc, h.before, h.passable⟩, fun ⟨hmem, hdoc, hbefore, hpassable⟩ =>
    ⟨hmem, hdoc, hbefore, hpassable⟩⟩

instance (source : String) (trivia : List Trivia) (offset : Nat) (d : Trivia) :
    Decidable (Attached source trivia offset d) := decidable_of_iff _ attached_iff.symm

/-- Code parts all that stands before it from the offset. -/
theorem Attached.lt_start {d : Trivia} (h : Attached source trivia offset d) {i : Nat}
    (hi : i < offset) (hcode : IsCode source trivia i) : i < d.span.start := by
  by_contra hle
  have hstop : d.span.stop ≤ i := hcode.uncovered d h.mem (by omega)
  rcases h.passable i hi hstop with hblank | ⟨t, ht, -, hfrom, hto⟩
  · rw [hcode.unblank] at hblank
    cases hblank
  · have huncovered := hcode.uncovered t ht hfrom
    omega

/-- Where a search stands that has come down to an offset: behind it nothing parts a doc comment
from the declaration, and the trivia before it are still to be searched, the nearest first. -/
structure SearchedDownTo (source : String) (trivia : List Trivia) (offset from_ : Nat)
    (back : List Trivia) : Prop where
  le : from_ ≤ offset
  passable : ∀ i < offset, from_ ≤ i → Passable source trivia i
  back_mem : ∀ t ∈ back, t ∈ trivia ∧ t.span.start < offset ∧ t.span.stop ≤ from_
  ordered : back.Pairwise fun a b => b.span.stop ≤ a.span.start
  rest : ∀ t ∈ trivia, t ∈ back ∨ from_ ≤ t.span.start

namespace SearchedDownTo

variable {from_ : Nat} {t : Trivia} {back : List Trivia}

/-- The search starts at the declaration. -/
theorem start (horder : InOrder trivia)
    (hstart : ∀ t ∈ trivia, t.span.start < offset → t.span.stop ≤ offset) :
    SearchedDownTo source trivia offset offset
      (trivia.filter fun t => t.span.start < offset).reverse := by
  have hmem : ∀ t, t ∈ (trivia.filter fun t => t.span.start < offset).reverse ↔
      t ∈ trivia ∧ t.span.start < offset := by
    simp
  refine ⟨Nat.le_refl _, fun i hi hfrom => absurd hi (by omega), fun t ht => ?_, ?_, fun t ht => ?_⟩
  · obtain ⟨hin, hlt⟩ := (hmem t).mp ht
    exact ⟨hin, hlt, hstart t hin hlt⟩
  · rw [List.pairwise_reverse]
    exact horder.ordered.sublist List.filter_sublist
  · rw [hmem]
    by_cases hlt : t.span.start < offset
    · exact .inl ⟨ht, hlt⟩
    · exact .inr (by omega)

/-- Nothing that is still to be searched reaches beyond the nearest trivia. -/
theorem stop_le (h : SearchedDownTo source trivia offset from_ (t :: back))
    (horder : InOrder trivia) : ∀ other ∈ t :: back, other.span.stop ≤ t.span.stop := by
  intro other hother
  rcases List.mem_cons.mp hother with rfl | hother
  · exact Nat.le_refl _
  · have hbefore := (List.pairwise_cons.mp h.ordered).1 other hother
    exact hbefore.trans (horder.forward t (h.back_mem t List.mem_cons_self).1)

/-- What stands between the nearest trivia and the offset lies in no trivia, so code there parts all
that is still to be searched from the declaration. -/
theorem not_attached (h : SearchedDownTo source trivia offset from_ (t :: back))
    (horder : InOrder trivia) {i : Nat} (hi : i < from_) (hstop : t.span.stop ≤ i)
    (hcode : ¬ (bytes source.toList)[i]?.any isBlankByte = true) :
    ∀ other ∈ t :: back, ¬ Attached source trivia offset other := by
  intro other hother hattached
  have hle := h.le
  have hother := (h.stop_le horder other hother).trans hstop
  rcases hattached.passable i (by omega) hother with hblank | ⟨cover, hcover, -, hfrom, hto⟩
  · exact hcode hblank
  · rcases h.rest cover hcover with hback | hbehind
    · have hbefore := h.stop_le horder cover hback
      omega
    · omega

/-- Blanks between the nearest trivia and the offset part nothing. -/
theorem passable_stop (h : SearchedDownTo source trivia offset from_ (t :: back))
    (hblank : ∀ i < from_, t.span.stop ≤ i → (bytes source.toList)[i]?.any isBlankByte = true) :
    ∀ i < offset, t.span.stop ≤ i → Passable source trivia i := by
  intro i hi hstop
  by_cases hfrom : from_ ≤ i
  · exact h.passable i hi hfrom
  · exact .inl (hblank i (by omega) hstop)

/-- The search passes over a comment that is no doc comment. -/
theorem next (h : SearchedDownTo source trivia offset from_ (t :: back)) (horder : InOrder trivia)
    (hblank : ∀ i < from_, t.span.stop ≤ i → (bytes source.toList)[i]?.any isBlankByte = true)
    (hkind : t.kind ≠ .docComment) :
    SearchedDownTo source trivia offset t.span.start back := by
  obtain ⟨ht, hbefore, hstop⟩ := h.back_mem t List.mem_cons_self
  obtain ⟨hordered, hback⟩ := List.pairwise_cons.mp h.ordered
  refine ⟨hbefore.le, fun i hi hfrom => ?_, fun other hother => ?_, hback, fun other hother => ?_⟩
  · by_cases hlt : i < t.span.stop
    · exact .inr ⟨t, ht, hkind, hfrom, hlt⟩
    · exact h.passable_stop hblank i hi (by omega)
  · obtain ⟨hmem, hlt, -⟩ := h.back_mem other (List.mem_cons_of_mem _ hother)
    exact ⟨hmem, hlt, hordered other hother⟩
  · have hforward := horder.forward t ht
    rcases h.rest other hother with hmem | hbehind
    · rcases List.mem_cons.mp hmem with rfl | hmem
      · exact .inr (Nat.le_refl _)
      · exact .inl hmem
    · exact .inr (by omega)

/-- The search finds the first doc comment on its way that belongs to the declaration. -/
theorem searchBack_eq (h : SearchedDownTo source trivia offset from_ back)
    (horder : InOrder trivia) (hoffset : offset ≤ (bytes source.toList).length) :
    searchBack source from_ back =
      (back.find? fun t => Attached source trivia offset t).map (·.text) := by
  induction back generalizing from_ with
  | nil => rfl
  | cons t back ih =>
    obtain ⟨ht, hbefore, hstop⟩ := h.back_mem t List.mem_cons_self
    rw [searchBack]
    have hgap := all_between hstop (h.le.trans hoffset)
    by_cases hall : (between source t.span.stop from_).all isBlankByte = true
    · rw [if_pos hall]
      have hblank := hgap.mp hall
      have hpass : t.kind ≠ .docComment → searchBack source t.span.start back =
          ((t :: back).find? fun t => Attached source trivia offset t).map (·.text) := by
        intro hkind
        have hnot : ¬ Attached source trivia offset t := fun hattached => hkind hattached.isDoc
        rw [List.find?_cons_of_neg (by simpa using hnot)]
        exact ih (h.next horder hblank hkind)
      cases hkind : t.kind with
      | docComment =>
        have hattached : Attached source trivia offset t :=
          ⟨ht, hkind, hbefore, h.passable_stop hblank⟩
        rw [List.find?_cons_of_pos (by simpa using hattached)]
        rfl
      | blank => exact hpass (by simp [hkind])
      | comment => exact hpass (by simp [hkind])
    · rw [if_neg hall]
      -- There is code in the gap, and all that is still to be searched stands before it.
      rw [hgap] at hall
      push Not at hall
      obtain ⟨i, hi, hfrom, hcode⟩ := hall
      have hnone := h.not_attached horder hi hfrom hcode
      rw [List.find?_eq_none.mpr (by simpa using hnone)]
      rfl

end SearchedDownTo

/-- Trivia before an offset stand in front of all others. -/
theorem takeWhile_before (horder : InOrder trivia) (offset : Nat) :
    (trivia.takeWhile fun t => t.span.start < offset) =
      trivia.filter fun t => t.span.start < offset := by
  refine takeWhile_eq_filter (horder.ordered.imp_of_mem fun ha _ hab hb => ?_)
  have hforward := horder.forward _ ha
  have hlt := of_decide_eq_true hb
  exact decide_eq_true (by omega)

/-- The doc comment of an offset is the last of those that nothing parts from it. -/
theorem before?_eq (horder : InOrder trivia)
    (hstart : ∀ t ∈ trivia, t.span.start < offset → t.span.stop ≤ offset)
    (hoffset : offset ≤ (bytes source.toList).length) :
    before? source trivia offset =
      (trivia.reverse.find? fun t => Attached source trivia offset t).map (·.text) := by
  have hbefore : ∀ t, decide (t.span.start < offset) = true ∧
      decide (Attached source trivia offset t) = true ↔ Attached source trivia offset t := by
    intro t
    rw [decide_eq_true_eq, decide_eq_true_eq]
    exact and_iff_right_of_imp Attached.before
  rw [before?, takeWhile_before horder,
    (SearchedDownTo.start horder hstart).searchBack_eq horder hoffset, ← List.filter_reverse,
    List.find?_filter]
  simp only [hbefore]

theorem find?_reverse_eq_some {d : Trivia} :
    (trivia.reverse.find? fun t => Attached source trivia offset t) = some d ↔
      Nearest source trivia offset d := by
  rw [List.find?_eq_some_iff_append]
  simp only [decide_eq_true_eq, Bool.not_eq_true', decide_eq_false_iff_not]
  constructor
  · rintro ⟨hattached, later, earlier, hsplit, hlast⟩
    refine ⟨hattached, earlier.reverse, later.reverse, ?_, by simpa using hlast⟩
    rw [← List.reverse_reverse trivia, hsplit]
    simp
  · rintro ⟨hattached, earlier, later, hsplit, hlast⟩
    refine ⟨hattached, later.reverse, earlier.reverse, ?_, by simpa using hlast⟩
    rw [hsplit]
    simp

/-- A doc comment is attached to a node just if nothing but blanks and ordinary comments parts some
doc comment from it, and then it is the nearest of these. Where code stands before the node, what is
attached stands behind the code. -/
theorem nearest_comment_attached (horder : InOrder trivia)
    (hstart : ∀ t ∈ trivia, t.span.start < offset → t.span.stop ≤ offset)
    (hoffset : offset ≤ (bytes source.toList).length) :
    ((before? source trivia offset).isSome = true ↔ ∃ d, Attached source trivia offset d) ∧
    (∀ text, before? source trivia offset = some text ↔
      ∃ d, Nearest source trivia offset d ∧ d.text = text) ∧
    ∀ i < offset, IsCode source trivia i → ∀ text, before? source trivia offset = some text →
      ∃ d ∈ trivia, d.kind = .docComment ∧ d.text = text ∧ i < d.span.start := by
  have hresult : ∀ text, before? source trivia offset = some text ↔
      ∃ d, Nearest source trivia offset d ∧ d.text = text := by
    intro text
    rw [before?_eq horder hstart hoffset, Option.map_eq_some_iff]
    simp only [find?_reverse_eq_some]
  refine ⟨?_, hresult, fun i hi hcode text htext => ?_⟩
  · rw [before?_eq horder hstart hoffset, Option.isSome_map, List.find?_isSome]
    constructor
    · rintro ⟨d, -, hattached⟩
      exact ⟨d, of_decide_eq_true hattached⟩
    · rintro ⟨d, hattached⟩
      exact ⟨d, List.mem_reverse.mpr hattached.mem, decide_eq_true hattached⟩
  · obtain ⟨d, hnearest, rfl⟩ := (hresult text).mp htext
    have hattached := hnearest.attached
    exact ⟨d, hattached.mem, hattached.isDoc, rfl, hattached.lt_start hi hcode⟩

/-- A function and a class, each with a doc comment. Two other comments stand before the class. -/
def commentedSource : String :=
  "<?php /** é */ function f() \x7b\x7d /** C */ # and\n /* more */ final class C \x7b\x7d"

theorem nearest_comment_attached_commentedSource :
    ∃ p, Program.read commentedSource = .ok p ∧ InOrder p.trivia ∧
      (∀ t ∈ p.trivia, t.span.start < 59 → t.span.stop ≤ 59) ∧
      59 ≤ (bytes commentedSource.toList).length ∧
      IsCode commentedSource p.trivia 25 ∧
      before? commentedSource p.trivia 59 = some "/** C */" ∧
      ∃ d, Nearest commentedSource p.trivia 59 d ∧ d.text = "/** C */" := by
  have hchecked : (Program.read commentedSource).toOption.any (fun p => decide (
      (∀ t ∈ p.trivia, t.span.start < 59 → t.span.stop ≤ 59) ∧
      (∀ t ∈ p.trivia, t.span.start ≤ 25 → t.span.stop ≤ 25) ∧
      before? commentedSource p.trivia 59 = some "/** C */")) = true := by decide +kernel
  cases hread : Program.read commentedSource with
  | error e =>
    rw [hread] at hchecked
    cases hchecked
  | ok p =>
    rw [hread] at hchecked
    obtain ⟨hstart, huncovered, hbefore⟩ := of_decide_eq_true hchecked
    have horder := inOrder_of_read hread
    have hoffset : 59 ≤ (bytes commentedSource.toList).length := by decide
    obtain ⟨-, hresult, -⟩ := nearest_comment_attached horder hstart hoffset
    exact ⟨p, rfl, horder, hstart, hoffset, ⟨by decide, by decide, huncovered⟩, hbefore,
      (hresult _).mp hbefore⟩

end DocComment

end StaticReflection
