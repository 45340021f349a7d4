import StaticReflection.Proofs.BareConstants
import StaticReflection.Proofs.LiteralTexts

/-!
Names and number literals. Both are read from their texts, and numbers first, without the
underscores. No literal is taken for a name. A name is taken for a number just if its underscores
hide one: it is a single segment that starts with an underscore, and what is left of it without
underscores is a literal.
-/

namespace StaticReflection

open Syntax

/-! ### Names -/

/-- A segment of a name: ASCII letters, digits and underscores, with no digit in front. -/
structure IsSegment (cs : List Char) : Prop where
  ne_nil : cs ≠ []
  head : ∀ c, cs.head? = some c → c.isDigit = false
  chars : ∀ c ∈ cs, c.isAlphanum = true ∨ c = '_'

/-- The name of a constant: segments with backslashes in between, and maybe one in front. -/
inductive SpellsName : List Char → Prop
  | relative {segments : List (List Char)} (hne : segments ≠ [])
    (h : ∀ segment ∈ segments, IsSegment segment) : SpellsName (Text.join ['\\'] segments)
  | rooted {segments : List (List Char)} (hne : segments ≠ [])
    (h : ∀ segment ∈ segments, IsSegment segment) : SpellsName ('\\' :: Text.join ['\\'] segments)

/-- What is joined has the same pieces again. -/
theorem Text.pieces_join {sep : Char} {parts : List (List Char)} (hne : parts ≠ [])
    (h : ∀ part ∈ parts, sep ∉ part) : pieces sep (join [sep] parts) = parts := by
  induction parts with
  | nil => exact absurd rfl hne
  | cons part parts ih =>
    have hpart := pieces_of_not_mem (h part List.mem_cons_self)
    cases parts with
    | nil => exact hpart
    | cons next parts =>
      rw [join, List.append_assoc, List.singleton_append, pieces_append_sep, hpart,
        ih (by simp) fun part hmem => h part (List.mem_cons_of_mem _ hmem)]
      · rfl
      · simp

theorem IsSegment.not_mem {cs : List Char} (h : IsSegment cs) : '\\' ∉ cs := by
  intro hc
  rcases h.chars _ hc with h | h <;> cases h

theorem exists_head_join {segments : List (List Char)} (hne : segments ≠ [])
    (h : ∀ segment ∈ segments, IsSegment segment) :
    ∃ c, (Text.join ['\\'] segments).head? = some c ∧ c.isDigit = false ∧
      (c.isAlphanum = true ∨ c = '_') := by
  obtain ⟨segment, more, rfl⟩ := List.exists_cons_of_ne_nil hne
  have hsegment := h segment List.mem_cons_self
  obtain ⟨c, cs, rfl⟩ := List.exists_cons_of_ne_nil hsegment.ne_nil
  exact ⟨c, by rw [Text.join_cons]; rfl, hsegment.head c rfl, hsegment.chars c List.mem_cons_self⟩

/-- No segment starts with a backslash. -/
theorem dropWhile_join {segments : List (List Char)} (hne : segments ≠ [])
    (h : ∀ segment ∈ segments, IsSegment segment) :
    (Text.join ['\\'] segments).dropWhile (· == '\\') = Text.join ['\\'] segments := by
  obtain ⟨c, hc, -, hchar⟩ := exists_head_join hne h
  obtain ⟨more, hmore⟩ := List.head?_eq_some_iff.mp hc
  rw [hmore]
  refine List.dropWhile_cons_of_neg ?_
  rw [beq_iff_eq]
  rintro rfl
  rcases hchar with h | h <;> cases h

namespace SpellsName

variable {cs : List Char}

/-- Without the backslashes in front there are the segments left. -/
theorem exists_segments (h : SpellsName cs) :
    ∃ segments, segments ≠ [] ∧ (∀ segment ∈ segments, IsSegment segment) ∧
      cs.dropWhile (· == '\\') = Text.join ['\\'] segments ∧
      (cs = Text.join ['\\'] segments ∨ cs = '\\' :: Text.join ['\\'] segments) := by
  cases h with
  | @relative segments hne h => exact ⟨segments, hne, h, dropWhile_join hne h, .inl rfl⟩
  | @rooted segments hne h => exact ⟨segments, hne, h, dropWhile_join hne h, .inr rfl⟩

theorem chars (h : SpellsName cs) : ∀ c ∈ cs, c.isAlphanum = true ∨ c ∈ ['_', '\\'] := by
  obtain ⟨segments, hne, hsegments, -, hcs⟩ := h.exists_segments
  have hjoined : ∀ c ∈ Text.join ['\\'] segments, c.isAlphanum = true ∨ c ∈ ['_', '\\'] := by
    obtain ⟨segment, more, rfl⟩ := List.exists_cons_of_ne_nil hne
    have hpart : ∀ part ∈ segment :: more, ∀ c ∈ part,
        c.isAlphanum = true ∨ c ∈ ['_', '\\'] := by
      intro part hmem c hc
      exact ((hsegments part hmem).chars c hc).imp_right (by rintro rfl; simp)
    intro c hc
    rw [Text.join_cons, List.mem_append, List.mem_flatMap] at hc
    rcases hc with hc | ⟨next, hnext, hc⟩
    · exact hpart _ List.mem_cons_self c hc
    · rcases List.mem_cons.mp hc with rfl | hc
      · exact .inr (by simp)
      · exact hpart next (List.mem_cons_of_mem _ hnext) c hc
  rcases hcs with rfl | rfl
  · exact hjoined
  · intro c hc
    rcases List.mem_cons.mp hc with rfl | hc
    · exact .inr (by simp)
    · exact hjoined c hc

theorem isConstantName {text : String} (h : SpellsName text.toList) :
    isConstantName text = true := by
  obtain ⟨segments, hne, hsegments, hdrop, -⟩ := h.exists_segments
  have hname : (Name.stripRoots text).toList = Text.join ['\\'] segments := by
    rw [Name.stripRoots, String.toList_ofList, hdrop]
  obtain ⟨c, hc, hdigit, -⟩ := exists_head_join hne hsegments
  obtain ⟨more, hmore⟩ := List.head?_eq_some_iff.mp hc
  have hpieces := Text.pieces_join hne fun segment hmem => (hsegments segment hmem).not_mem
  rw [hmore] at hname hpieces
  unfold StaticReflection.isConstantName
  simp only [hname, hpieces, hdigit, Bool.not_false, Bool.true_and, List.all_eq_true]
  intro segment hmem
  have hsegment := hsegments segment hmem
  rw [Bool.and_eq_true, List.all_eq_true]
  refine ⟨by simpa using hsegment.ne_nil, fun c hc => ?_⟩
  rcases hsegment.chars c hc with h | rfl
  · rw [Text.isAlphanumeric_of_isAlphanum h, Bool.true_or]
  · simp

/-- A name hides a number only if it is a single segment that starts with an underscore. -/
theorem head_of_readsAsNumber (h : SpellsName cs)
    (hreads : Number.ReadsAsNumber (Number.stripped cs)) : cs.head? = some '_' ∧ '\\' ∉ cs := by
  have hliteral := hreads.spellsLiteral
  have hsingle : '\\' ∉ cs := by
    intro hmem
    have hkept : '\\' ∈ Number.stripped cs :=
      List.mem_map.mpr ⟨'\\', List.mem_filter.mpr ⟨hmem, rfl⟩, rfl⟩
    rcases hliteral.chars _ hkept with h | h <;> revert h <;> decide
  refine ⟨?_, hsingle⟩
  obtain ⟨segments, hne, hsegments, -, hcs⟩ := h.exists_segments
  obtain ⟨c, hc, hdigit, hchar⟩ := exists_head_join hne hsegments
  obtain ⟨more, hmore⟩ := List.head?_eq_some_iff.mp hc
  rw [hmore] at hcs
  obtain rfl : cs = c :: more := hcs.resolve_right (by rintro rfl; simp at hsingle)
  by_contra hhead
  have hne : c ≠ '_' := fun hc => hhead (congrArg some hc)
  have hletter : c.isAlphanum = true := hchar.resolve_right hne
  -- So the first character is a letter, and stays in front.
  have hstripped : Number.stripped (c :: more) = c.toLower :: Number.stripped more := by
    rw [Number.stripped, List.filter_cons_of_pos (by simpa using hne)]
    rfl
  obtain ⟨first, hfirst, hnumeric⟩ := hliteral.exists_head
  rw [hstripped, List.head?_cons, Option.some.injEq] at hfirst
  have hsame : c.toLower = c := by
    apply Number.toLower_of_not_isAlpha
    rw [hfirst]
    rcases hnumeric with hnumeric | rfl
    · exact Number.isAlpha_eq_false_of_isDigit hnumeric
    · rfl
  rw [← hfirst, hsame] at hnumeric
  rcases hnumeric with hnumeric | rfl
  · exact Bool.false_ne_true (hdigit.symm.trans hnumeric)
  · cases hletter

end SpellsName

/-! ### What they come to -/

/-- Neither names nor numbers hold blanks. -/
theorem isBlank_eq_false {c : Char} (h : c.isAlphanum = true ∨ c ∈ ['_', '\\', '.', '+', '-']) :
    Text.isBlank c = false := by
  have hall : ∀ n < 128, (Char.ofNat n).isAlphanum = true →
      Text.isBlank (Char.ofNat n) = false := by
    decide
  rcases h with h | h
  · have hascii : c.val.toNat < 128 := by
      simp only [Char.isAlphanum, Char.isAlpha, Char.isUpper, Char.isLower, Char.isDigit,
        Bool.or_eq_true, Bool.and_eq_true, decide_eq_true_eq, UInt32.le_iff_toNat_le,
        Char.reduceVal, UInt32.reduceToNat] at h
      omega
    rw [← Char.ofNat_toNat c] at h ⊢
    exact hall _ hascii h
  · simp only [List.mem_cons, List.not_mem_nil, or_false] at h
    rcases h with rfl | rfl | rfl | rfl | rfl <;> decide

variable {s : Scope} {follow : String → Option (Except Error Value)} {span : Span} {kind : LeafKind}
  {text : String}

theorem evalWith_leaf (h : ∀ c ∈ text.toList, Text.isBlank c = false) :
    evalWith s follow (.leaf span kind text) = evalText s span.start text := by
  rw [evalWith, trim_of_forall h, String.ofList_toList]

/-- Only the name of a constant comes to a constant. -/
theorem isConstantName_of_evalText {offset : Nat} {name : String}
    (h : evalText s offset text = .ok (.constant name)) : isConstantName text = true := by
  unfold evalText at h
  split at h
  case h_5 | h_6 => cases hfile : s.fileName <;> simp [hfile, Except.map] at h
  case h_11 =>
    split at h
    · rename_i n _
      cases n <;> cases h
    · split at h
      · assumption
      · cases h
  all_goals cases h

/-- A literal is no name. -/
theorem Number.SpellsLiteral.isConstantName_eq_false (h : Number.SpellsLiteral text.toList) :
    isConstantName text = false := by
  obtain ⟨c, hc, hnumeric⟩ := h.exists_head
  obtain ⟨more, hmore⟩ := List.head?_eq_some_iff.mp hc
  have hroot : Name.stripRoots text = text := by
    refine Name.stripRoots_of_head ?_
    rw [hc, ne_eq, Option.some.injEq]
    rintro rfl
    rcases hnumeric with h | h <;> cases h
  unfold isConstantName
  simp only [hroot, hmore]
  rcases hnumeric with hdigit | rfl
  · rw [hdigit]
    rfl
  · obtain ⟨piece, pieces, hpieces⟩ := List.exists_cons_of_ne_nil (Text.pieces_ne_nil '\\' more)
    have hpoint : Text.isAlphanumeric '.' = false := by decide +kernel
    simp [Text.pieces, hpieces, hpoint]

/-- A name other than the words for values comes to the constant of the name, unless it hides a
number. -/
theorem SpellsName.evalWith_eq (h : SpellsName text.toList)
    (hword : Name.lower (Name.stripRoots text) ∉ valueWords) :
    evalWith s follow (.leaf span kind text) =
      match Number.ofLiteral? text with
      | some n => .ok (.ofNumber n)
      | none => .ok (.constant (s.constantName text)) := by
  have hmarks : ['_', '\\'] ⊆ ['_', '\\', '.', '+', '-'] := by simp
  have hblank : ∀ c ∈ text.toList, Text.isBlank c = false := fun c hc =>
    isBlank_eq_false ((h.chars c hc).imp_right (@hmarks c))
  rw [evalWith_leaf hblank, evalText_of_not_valueWord s _ hword, h.isConstantName]
  rfl

/-- A name is told from a number, except for a single segment that starts with an underscore and
would be a literal without its underscores: that comes to the number of the literal. Any other name
comes to the constant that it names, and no literal comes to a constant. -/
theorem names_and_literals_apart (s : Scope) (follow : String → Option (Except Error Value))
    (span : Span) (kind : LeafKind) (text : String) :
    (SpellsName text.toList → Name.lower (Name.stripRoots text) ∉ valueWords →
      (evalWith s follow (.leaf span kind text) = .ok (.constant (s.constantName text)) ↔
        ¬ Number.ReadsAsNumber (Number.stripped text.toList)) ∧
      (Number.ReadsAsNumber (Number.stripped text.toList) →
        text.toList.head? = some '_' ∧ Name.isQualified text = false ∧
          ∃ n, Number.ofLiteral? (String.ofList (Number.stripped text.toList)) = some n ∧
            evalWith s follow (.leaf span kind text) = .ok (.ofNumber n))) ∧
    (Number.SpellsLiteral text.toList →
      ∀ name, evalWith s follow (.leaf span kind text) ≠ .ok (.constant name)) := by
  refine ⟨fun hname hword => ?_, fun hliteral name h => ?_⟩
  · have heval : evalWith s follow (.leaf span kind text) = _ := hname.evalWith_eq hword
    rw [← Number.isSome_ofLiteral?_iff]
    constructor
    · rw [heval]
      cases Number.ofLiteral? text with
      | none => simp
      | some n => cases n <;> simp [Value.ofNumber]
    · intro hreads
      obtain ⟨n, hn⟩ := Option.isSome_iff_exists.mp hreads
      obtain ⟨hhead, hsingle⟩ :=
        hname.head_of_readsAsNumber ((Number.isSome_ofLiteral?_iff text).mp hreads)
      refine ⟨hhead, by simpa [Name.isQualified] using hsingle, n,
        (Number.ofLiteral?_stripped text).trans hn, ?_⟩
      rw [heval, hn]
  · have hmarks : ['_', '.', '+', '-'] ⊆ ['_', '\\', '.', '+', '-'] := by simp
    have hblank : ∀ c ∈ text.toList, Text.isBlank c = false := fun c hc =>
      isBlank_eq_false ((hliteral.chars c hc).imp_right (@hmarks c))
    rw [evalWith_leaf hblank] at h
    have hconstant := isConstantName_of_evalText h
    rw [hliteral.isConstantName_eq_false] at hconstant
    cases hconstant

theorem isSegment_underscoreOne : ∀ segment ∈ ["_1".toList], IsSegment segment := by
  have hsegment : IsSegment "_1".toList := by
    constructor <;> simp
  simpa using hsegment

theorem spellsName_underscoreOne : SpellsName "_1".toList :=
  .relative (List.cons_ne_nil _ _) isSegment_underscoreOne

theorem names_and_literals_apart_underscoreOne :
    SpellsName "\\_1".toList ∧ SpellsName "_1".toList ∧ Number.SpellsLiteral "1_0".toList ∧
      evalWith .outermost (fun _ => none) (.leaf ⟨0, 3⟩ .name "\\_1") =
        .ok (.constant (Scope.outermost.constantName "\\_1")) ∧
      (∃ n, Number.ofLiteral? "1" = some n ∧
        evalWith .outermost (fun _ => none) (.leaf ⟨0, 2⟩ .name "_1") = .ok (.ofNumber n)) ∧
      ∀ name, evalWith .outermost (fun _ => none) (.leaf ⟨0, 3⟩ .number "1_0") ≠
        .ok (.constant name) := by
  have hrooted : SpellsName "\\_1".toList :=
    .rooted (List.cons_ne_nil _ _) isSegment_underscoreOne
  have hdigits : Number.SpellsDigits 10 [1, 0] "1_0".toList :=
    .next (by decide) rfl 1 (.last (by decide) rfl)
  have hliteral : Number.SpellsLiteral "1_0".toList := .whole (.decimal hdigits (by decide))
  have apart (span kind text) := names_and_literals_apart .outermost (fun _ => none) span kind text
  refine ⟨hrooted, spellsName_underscoreOne, hliteral, ?_, ?_, (apart _ _ _).2 hliteral⟩
  · refine ((apart _ _ _).1 hrooted (by decide +kernel)).1.mpr ?_
    rw [← Number.isSome_ofLiteral?_iff]
    decide +kernel
  · have hreads : Number.ReadsAsNumber (Number.stripped "_1".toList) := by
      rw [← Number.isSome_ofLiteral?_iff]
      rfl
    exact (((apart _ _ _).1 spellsName_underscoreOne (by decide +kernel)).2 hreads).2.2

/-- Not every name comes to the constant that it names. -/
theorem underscored_name_read_as_number :
    ¬ ∀ (s : Scope) (follow : String → Option (Except Error Value)) (span : Span)
      (kind : LeafKind) (text : String), SpellsName text.toList →
      Name.lower (Name.stripRoots text) ∉ valueWords →
      evalWith s follow (.leaf span kind text) = .ok (.constant (s.constantName text)) := by
  intro h
  have hword : Name.lower (Name.stripRoots "_1") ∉ valueWords := by decide +kernel
  have heval := h .outermost (fun _ => none) ⟨0, 2⟩ .name "_1" spellsName_underscoreOne hword
  have hnumber : Number.ofLiteral? "_1" = some (.int 1) := by rfl
  rw [spellsName_underscoreOne.evalWith_eq hword, hnumber] at heval
  cases heval

end StaticReflection
