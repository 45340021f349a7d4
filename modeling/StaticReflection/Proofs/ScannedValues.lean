import StaticReflection.Proofs.PlainValues
import StaticReflection.Syntax.Lexer

/-!
The lexemes of exported values. Each word, number and string of an exported value has a blank, a
comma, a closing bracket or a semicolon behind it, so that it ends where it was printed to end; what
is scanned are its tokens, with blanks between them.
-/

namespace StaticReflection.Syntax

open Text

/-! ### Scanning piece by piece -/

/-- `Scans cs found rest`: in script, the lexemes at the front of `cs` are `found`, none of them
empty, and behind them stands `rest`. -/
inductive Scans : List Char → List (LexemeKind × List Char) → List Char → Prop
  | done {rest : List Char} : Scans rest [] rest
  | step {cs rest behind text : List Char} {kind : LexemeKind}
      {found : List (LexemeKind × List Char)}
      (hstep : lexScript true cs = some ⟨kind, text, rest, .script, none⟩)
      (hshorter : rest.length < cs.length) (hmore : Scans rest found behind) :
      Scans cs ((kind, text) :: found) behind

theorem Scans.append {cs middle rest : List Char} {found more : List (LexemeKind × List Char)}
    (h : Scans cs found middle) (hmore : Scans middle more rest) :
    Scans cs (found ++ more) rest := by
  induction h with
  | done => exact hmore
  | step hstep hshorter _ ih => exact .step hstep hshorter (ih hmore)

theorem Scans.of_step {cs rest text : List Char} {kind : LexemeKind}
    (hshorter : rest.length < cs.length)
    (h : lexScript true cs = some ⟨kind, text, rest, .script, none⟩) :
    Scans cs [(kind, text)] rest :=
  .step h hshorter .done

/-- What is scanned up to the end of the text is what the lexer finds. -/
theorem Scans.lexFrom_eq {cs : List Char} {found : List (LexemeKind × List Char)}
    (h : Scans cs found []) {fuel : Nat} (hfuel : cs.length ≤ fuel) :
    lexFrom fuel ⟨.script, []⟩ cs = .ok found := by
  generalize hrest : ([] : List Char) = rest at h
  induction h generalizing fuel with
  | done =>
    subst hrest
    cases fuel <;> rfl
  | @step cs rest behind text kind found hstep hshorter _ ih =>
    cases cs with
    | nil => cases hstep
    | cons c cs =>
      obtain ⟨fuel, rfl⟩ : ∃ n, fuel = n + 1 :=
        ⟨fuel - 1, by rw [List.length_cons] at hfuel; omega⟩
      have hlater := @ih fuel (by omega) hrest
      have hlex : lexStep ⟨.script, []⟩ (c :: cs) = some ⟨kind, text, rest, .script, none⟩ := hstep
      simp only [lexFrom, hlex, LexState.after, Option.toList_none, hlater]
      rfl

/-! ### What the pieces start and end with -/

/-- What may stand directly behind a piece of an exported value: a blank, a comma, a closing bracket
or a semicolon. -/
inductive EndsPiece : List Char → Prop
  | blank (more : List Char) : EndsPiece (' ' :: more)
  | comma (more : List Char) : EndsPiece (',' :: more)
  | bracket (more : List Char) : EndsPiece (']' :: more)
  | semicolon (more : List Char) : EndsPiece (';' :: more)

/-- The characters that comments, heredocs, variables and other forms start with. -/
def formMarks : List Char := ['/', '#', '<', '?', '$', '\\', '.', '`']

theorem lexComment?_eq_none {c : Char} {next : List Char} (h : c ∉ formMarks) :
    lexComment? (c :: next) = none := by
  unfold lexComment?
  split
  all_goals first
    | rfl
    | (rename_i heq; cases heq; exact absurd (by decide) h)

/-- Without its three signs a heredoc does not open, whether a `b` stands here or not. -/
theorem splitHeredocStart?_eq_none {c : Char} {next : List Char} (h : c ∉ formMarks)
    (hnext : c = 'b' ∨ c = 'B' → next.head? ≠ some '<') :
    splitHeredocStart? (c :: next) = none := by
  have hopens : ∀ {cs : List Char}, cs.head? ≠ some '<' → stripHead? ['<', '<', '<'] cs = none := by
    intro cs hcs
    cases cs with
    | nil => rfl
    | cons d cs =>
      rw [List.head?_cons, ne_eq, Option.some.injEq] at hcs
      rw [stripHead?, if_neg fun hsame => hcs hsame.symm]
  have hhere : (c :: next).head? ≠ some '<' := by
    rw [List.head?_cons, ne_eq, Option.some.injEq]
    rintro rfl
    exact h (by decide)
  by_cases hsmall : c = 'b'
  · simp [splitHeredocStart?, hsmall, hopens (hnext (.inl hsmall))]
  by_cases hlarge : c = 'B'
  · simp [splitHeredocStart?, hlarge, hopens (hnext (.inr hlarge))]
  simp [splitHeredocStart?, hsmall, hlarge, hopens hhere]

/-- A step at a character that starts none of the other forms. -/
theorem lexScript_cons {c : Char} {next : List Char} (hblank : isSourceBlank c = false)
    (hmark : c ∉ formMarks)
    (hnext : c = 'b' ∨ c = 'B' → ∀ d ∈ next.head?, d ∉ ['<', '\'', '"']) :
    lexScript true (c :: next) =
      if c == '\'' || c == '"' then lexQuoted 1 (c :: next)
      else if isNameStart c then some (lexName true (c :: next))
      else if c.isDigit then
        let split := splitNumber (c :: next)
        if isBadNumber split.1 then none else some (.token .number split .script)
      else
        match splitCast? (c :: next) with
        | some split => some (.token .cast split .script)
        | none => lexSign (c :: next) := by
  have hheredoc : splitHeredocStart? (c :: next) = none :=
    splitHeredocStart?_eq_none hmark fun hb hhead => hnext hb '<' hhead (by decide)
  have hquoted : ((c == 'b' || c == 'B') &&
      (next.head? == some '\'' || next.head? == some '"')) = false := by
    rw [Bool.eq_false_iff]
    intro h
    simp only [Bool.and_eq_true, Bool.or_eq_true, beq_iff_eq] at h
    rcases h.2 with hhead | hhead
    · exact hnext h.1 _ hhead (by decide)
    · exact hnext h.1 _ hhead (by decide)
  unfold lexScript
  simp only [hblank, lexComment?_eq_none hmark, hheredoc, Bool.false_eq_true, if_false]
  split
  case h_6 => rw [hquoted]; rfl
  all_goals exact absurd (by decide) hmark

/-! ### Words -/

theorem splitName_append {cs rest : List Char} (hcs : ∀ c ∈ cs, isNameChar c = true)
    (hrest : EndsPiece rest) : splitName (cs ++ rest) = (cs, rest) := by
  induction cs with
  | nil => cases hrest <;> rfl
  | cons c cs ih =>
    have hc := hcs c List.mem_cons_self
    have hslash : c ≠ '\\' := by
      rintro rfl
      cases hc
    have hrec := ih fun d hd => hcs d (List.mem_cons_of_mem c hd)
    simp [splitName, hslash, hc, hrec]

/-- Words that do not halt a script. -/
inductive IsWord : List Char → Prop
  | intro {c : Char} {tail : List Char} (hstart : isNameStart c = true)
      (htail : ∀ d ∈ tail, isNameChar d = true)
      (hgoesOn : lower (c :: tail) ≠ "__halt_compiler".toList) : IsWord (c :: tail)

/-- Whether a text is a word can be computed. -/
theorem isWord_of_all {c : Char} {tail : List Char} (h : (isNameStart c && tail.all isNameChar &&
    lower (c :: tail) != "__halt_compiler".toList) = true) : IsWord (c :: tail) := by
  simp only [Bool.and_eq_true, List.all_eq_true, bne_iff_ne] at h
  exact .intro h.1.1 h.1.2 h.2

/-- What is none of some characters by a property that these do not have. -/
theorem not_mem_of_all {p : Char → Bool} {marks : List Char} {c : Char}
    (hmarks : marks.all (!p ·) = true) (hc : p c = true) : c ∉ marks := by
  intro hmem
  have hnot := List.all_eq_true.mp hmarks c hmem
  rw [hc] at hnot
  cases hnot

theorem isSourceBlank_eq_false {c : Char} (h : c ∉ [' ', '\t', '\n', '\x0c', '\r', '\x0b']) :
    isSourceBlank c = false := by
  simp only [List.mem_cons, List.not_mem_nil, or_false, not_or] at h
  simp [isSourceBlank, isAsciiBlank, h]

theorem head?_append_of_ends {tail rest : List Char} (hrest : EndsPiece rest) {p : Char → Bool}
    (htail : ∀ d ∈ tail, p d = true) (hends : [' ', ',', ']', ';'].all p = true) :
    ∀ d ∈ (tail ++ rest).head?, p d = true := by
  intro d hd
  cases tail with
  | nil =>
    simp only [List.all_cons, List.all_nil, Bool.and_true, Bool.and_eq_true] at hends
    cases hrest <;> cases hd <;> simp [hends]
  | cons e tail =>
    cases hd
    exact htail d List.mem_cons_self

theorem splitWriteMark?_eq_none {visibility rest : List Char} (hrest : EndsPiece rest) :
    splitWriteMark? visibility rest = none := by
  unfold splitWriteMark?
  split
  · cases hrest <;> rfl
  · rfl

theorem lexName_append {c : Char} {tail rest : List Char} (h : IsWord (c :: tail))
    (hrest : EndsPiece rest) :
    lexName true (c :: (tail ++ rest)) = ⟨.token .name, c :: tail, rest, .script, none⟩ := by
  cases h with
  | intro hstart htail hgoesOn =>
    have hslash : (c :: tail).contains '\\' = false := by
      rw [Bool.eq_false_iff, ne_eq, List.contains_iff_mem]
      intro hmem
      rcases List.mem_cons.mp hmem with rfl | hmem
      · cases hstart
      · cases htail _ hmem
    have hsplit : splitOff 1 (c :: (tail ++ rest)) = ([c], tail ++ rest) := rfl
    simp only [lexName, hsplit, Bool.true_or, if_true, splitName_append htail hrest,
      List.singleton_append, hslash, if_neg hgoesOn, splitWriteMark?_eq_none hrest]
    rfl

/-- A word is a piece. -/
theorem scans_word {cs rest : List Char} (h : IsWord cs) (hrest : EndsPiece rest) :
    Scans (cs ++ rest) [(.token .name, cs)] rest := by
  obtain @⟨c, tail, hstart, htail, hgoesOn⟩ := h
  have hshorter : rest.length < (c :: tail ++ rest).length := by
    rw [List.length_append, List.length_cons]
    omega
  refine .of_step hshorter ?_
  have hmark : c ∉ formMarks := not_mem_of_all (by decide) hstart
  have hblank := isSourceBlank_eq_false (not_mem_of_all (by decide) hstart)
  have hquote : (c == '\'' || c == '"') = false := by
    have hnot : c ∉ ['\'', '"'] := not_mem_of_all (by decide) hstart
    simpa using hnot
  have hnext : c = 'b' ∨ c = 'B' → ∀ d ∈ (tail ++ rest).head?, d ∉ ['<', '\'', '"'] := by
    intro _ d hd
    have hname : ∀ e ∈ tail, (!List.contains ['<', '\'', '"'] e) = true := by
      intro e he
      have hnot : e ∉ ['<', '\'', '"'] := not_mem_of_all (by decide) (htail e he)
      simpa using hnot
    simpa using head?_append_of_ends hrest hname (by decide) d hd
  rw [List.cons_append, lexScript_cons hblank hmark hnext, hquote, if_neg (by decide),
    if_pos hstart, lexName_append ⟨hstart, htail, hgoesOn⟩ hrest]

/-! ### Strings -/

theorem splitQuoted_escaped (cs rest : List Char) :
    splitQuoted '\'' (escaped '\'' cs ++ '\'' :: rest) =
      some (escaped '\'' cs ++ ['\''], rest) := by
  induction cs with
  | nil => rfl
  | cons c cs ih =>
    by_cases hc : c = '\\' ∨ c = '\''
    · rw [escaped_cons_of_escape hc, List.cons_append, List.cons_append, splitQuoted, ih]
      rfl
    · obtain ⟨hback, hquote⟩ := not_or.mp hc
      rw [escaped_cons_of_plain hback hquote, List.cons_append]
      simp [splitQuoted, hback, hquote, ih]

theorem scans_quoted (cs rest : List Char) :
    Scans (Value.quoted cs ++ rest) [(.token .string, Value.quoted cs)] rest := by
  have hshorter : rest.length < (Value.quoted cs ++ rest).length := by
    rw [List.length_append, Value.quoted_eq, List.length_cons]
    omega
  refine .of_step hshorter ?_
  have hquoted : Value.quoted cs ++ rest = '\'' :: (escaped '\'' cs ++ '\'' :: rest) := by
    simp [Value.quoted_eq]
  have hlex : lexQuoted 1 ('\'' :: (escaped '\'' cs ++ '\'' :: rest)) =
      some ⟨.token .string, Value.quoted cs, rest, .script, none⟩ := by
    simp [lexQuoted, splitOff, splitQuoted_escaped, LexStep.token, Value.quoted_eq]
  rw [hquoted, lexScript_cons (by decide) (by decide) (by simp), if_pos (by decide), hlex]

/-! ### Numbers -/

theorem splitDigits_append {cs rest : List Char} (hcs : ∀ c ∈ cs, c.isDigit = true)
    (hrest : EndsPiece rest) : splitDigits Char.isDigit (cs ++ rest) = (cs, rest) := by
  induction cs with
  | nil => cases hrest <;> rfl
  | cons c cs ih =>
    have hc := hcs c List.mem_cons_self
    have hline : c ≠ '_' := by
      rintro rfl
      cases hc
    simp [splitDigits, hline, hc, ih fun d hd => hcs d (List.mem_cons_of_mem c hd)]

/-- Digits announce no base: only zero starts with a zero, and there is no other digit behind it. -/
theorem splitBased?_natText (n : Nat) {rest : List Char} (hrest : EndsPiece rest)
    (marks : List Char) (hmarks : [' ', ',', ']', ';'].all (!marks.contains ·) = true)
    (p : Char → Bool) : splitBased? marks p (Number.natText n ++ rest) = none := by
  by_cases hn : n = 0
  · have hzero : Number.natText n = ['0'] := by
      rw [hn]
      rfl
    simp only [List.all_cons, List.all_nil, Bool.and_true, Bool.and_eq_true,
      Bool.not_eq_true'] at hmarks
    rw [hzero, List.singleton_append]
    cases hrest with
    | blank more | comma more | bracket more | semicolon more =>
      cases more <;> simp only [splitBased?, hmarks, Bool.false_and, Bool.false_eq_true, if_false]
  · unfold splitBased?
    split
    · rename_i heq
      refine absurd (Number.eq_zero_of_head_natText ?_) hn
      rw [← List.head?_append_of_ne_nil _ (Number.natText_ne_nil n), heq]
      rfl
    · rfl

theorem splitNumber_natText (n : Nat) {rest : List Char} (hrest : EndsPiece rest) :
    splitNumber (Number.natText n ++ rest) = (Number.natText n, rest) := by
  have hdigits : splitDigits Char.isDigit (Number.natText n ++ rest) = (Number.natText n, rest) :=
    splitDigits_append (fun c hc => Number.isDigit_of_mem_natText hc) hrest
  have hdecimal : splitDecimal (Number.natText n ++ rest) = (Number.natText n, rest) := by
    rw [splitDecimal, hdigits]
    cases hrest <;> simp [splitExponent]
  simp only [splitNumber, splitBased?_natText n hrest ['x', 'X'] (by decide),
    splitBased?_natText n hrest ['b', 'B'] (by decide),
    splitBased?_natText n hrest ['o', 'O'] (by decide), hdecimal]

theorem isBadNumber_natText (n : Nat) : isBadNumber (Number.natText n) = false := by
  rw [isBadNumber, Number.filter_natText]
  by_cases hn : n = 0
  · rw [hn]
    rfl
  · have hhead : ((Number.natText n).head? == some '0') = false := by
      rw [beq_eq_false_iff_ne]
      exact fun h => hn (Number.eq_zero_of_head_natText h)
    simp only [hhead, Bool.false_and]

theorem isNameStart_of_isDigit {c : Char} (h : c.isDigit = true) : isNameStart c = false := by
  obtain ⟨hlow, hhigh⟩ := Number.toNat_of_isDigit h
  have hall : ∀ n < 58, 48 ≤ n → isNameStart (Char.ofNat n) = false := by decide
  rw [← Char.ofNat_toNat c]
  exact hall c.toNat (by omega) hlow

theorem scans_natText (n : Nat) {rest : List Char} (hrest : EndsPiece rest) :
    Scans (Number.natText n ++ rest) [(.token .number, Number.natText n)] rest := by
  refine .of_step (by simp [List.length_pos_iff, Number.natText_ne_nil]) ?_
  have hnumber := splitNumber_natText n hrest
  have hbad := isBadNumber_natText n
  obtain ⟨c, cs, hcs, hdigit⟩ := Number.exists_natText_eq_cons n
  have hmark : c ∉ formMarks := not_mem_of_all (by decide) hdigit
  have hblank := isSourceBlank_eq_false (not_mem_of_all (by decide) hdigit)
  have hquote : (c == '\'' || c == '"') = false := by
    have hnot : c ∉ ['\'', '"'] := not_mem_of_all (by decide) hdigit
    simpa using hnot
  have hletter : ¬ (c = 'b' ∨ c = 'B') := by
    have hnot : c ∉ ['b', 'B'] := not_mem_of_all (by decide) hdigit
    simpa using hnot
  rw [hcs, List.cons_append] at hnumber ⊢
  rw [lexScript_cons hblank hmark (fun h => absurd h hletter), hquote, if_neg (by decide),
    isNameStart_of_isDigit hdigit, if_neg (by decide), if_pos hdigit, hnumber]
  rw [hcs] at hbad
  simp only [hbad]
  rfl

/-! ### Signs and blanks -/

/-- The blank in front of a piece. -/
theorem scans_blank {c : Char} (hc : isSourceBlank c = false) (next : List Char) :
    Scans (' ' :: c :: next) [(.trivia .blank, [' '])] (c :: next) := by
  refine .of_step (by simp) ?_
  have hblank : isSourceBlank ' ' = true := by decide
  simp [lexScript, hblank, splitWhile, hc, LexStep.trivia]

/-- Longer signs that start with a minus go on with one of these. -/
theorem second_of_mem_longSigns {s : String} (hs : s ∈ longSigns) {d : Char} {tail : List Char}
    (h : s.toList = '-' :: d :: tail) : d ∈ ['>', '-', '='] := by
  have hall : longSigns.all (fun s => s.toList.head? != some '-' ||
      s.toList.tail.head?.all (['>', '-', '='].contains ·)) = true := by
    decide +kernel
  have hsecond := List.all_eq_true.mp hall s hs
  rw [h] at hsecond
  simpa using hsecond

theorem two_le_length_of_mem_longSigns {s : String} (hs : s ∈ longSigns) : 2 ≤ s.toList.length := by
  have hall : longSigns.all (fun s => Nat.ble 2 s.toList.length) = true := by decide +kernel
  exact Nat.le_of_ble_eq_true (List.all_eq_true.mp hall s hs)

/-- The sign in front of digits is a sign of its own. -/
theorem splitSign?_minus {c : Char} (hdigit : c.isDigit = true) (next : List Char) :
    splitSign? ('-' :: c :: next) = some (['-'], c :: next) := by
  have hlong : longSigns.findSome? (fun s =>
      (stripHead? s.toList ('-' :: c :: next)).map fun rest => (s.toList, rest)) = none := by
    rw [List.findSome?_eq_none_iff]
    intro s hs
    rw [Option.map_eq_none_iff, ← Option.not_isSome_iff_eq_none, Option.isSome_iff_exists]
    rintro ⟨rest, hrest⟩
    rw [stripHead?_eq_some] at hrest
    have hlength := two_le_length_of_mem_longSigns hs
    match hchars : s.toList with
    | [] | [_] => simp [hchars] at hlength
    | a :: d :: tail =>
      rw [hchars, List.cons_append, List.cons_append, List.cons.injEq, List.cons.injEq] at hrest
      obtain ⟨rfl, rfl, -⟩ := hrest
      exact not_mem_of_all (by decide) hdigit (second_of_mem_longSigns hs hchars)
  rw [splitSign?, hlong]
  rfl

theorem scans_minus (n : Nat) (rest : List Char) :
    Scans ('-' :: (Number.natText n ++ rest)) [(.token .sign, ['-'])]
      (Number.natText n ++ rest) := by
  refine .of_step (by simp) ?_
  obtain ⟨c, cs, hcs, hdigit⟩ := Number.exists_natText_eq_cons n
  have hcast : splitCast? ('-' :: c :: (cs ++ rest)) = none := rfl
  rw [hcs, List.cons_append, lexScript_cons (by decide) (by decide) (by simp), if_neg (by decide),
    if_neg (by decide), if_neg (by decide), hcast]
  simp only [lexSign, splitSign?_minus hdigit, Option.map_some]
  rfl

end StaticReflection.Syntax

namespace StaticReflection

open Syntax Text

/-! ### The tokens of a value -/

namespace Value

mutual

/-- The tokens that an exported value is made of, by kind and text. -/
def spelling : Value → List (TokenKind × String)
  | .null => [(.name, "null")]
  | .bool b => [(.name, if b then "true" else "false")]
  | .int i =>
    match i.toInt with
    | .ofNat n => [(.number, String.ofList (Number.natText n))]
    | .negSucc n => [(.sign, "-"), (.number, String.ofList (Number.natText (n + 1)))]
  | .string s => [(.string, String.ofList (quoted s.toList))]
  | .array items => (.sign, "[") :: (spellingItems items ++ [(.sign, "]")])
  | _ => []

def spellingItems : List (Value × Value) → List (TokenKind × String)
  | [] => []
  | [(key, value)] => key.spelling ++ (.sign, "=>") :: value.spelling
  | (key, value) :: rest =>
    (key.spelling ++ (.sign, "=>") :: value.spelling) ++ (.sign, ",") :: spellingItems rest

end

end Value

/-- The tokens among lexemes, by kind and text. -/
def spelled (found : List (LexemeKind × List Char)) : List (TokenKind × String) :=
  found.filterMap fun
    | (.token kind, text) => some (kind, String.ofList text)
    | (.trivia _, _) => none

@[simp] theorem spelled_nil : spelled [] = [] := rfl

@[simp] theorem spelled_token (kind : TokenKind) (text : List Char)
    (found : List (LexemeKind × List Char)) :
    spelled ((.token kind, text) :: found) = (kind, String.ofList text) :: spelled found := rfl

@[simp] theorem spelled_trivia (kind : TriviaKind) (text : List Char)
    (found : List (LexemeKind × List Char)) :
    spelled ((.trivia kind, text) :: found) = spelled found := rfl

@[simp] theorem spelled_append (found more : List (LexemeKind × List Char)) :
    spelled (found ++ more) = spelled found ++ spelled more := List.filterMap_append

/-- A text is scanned as these tokens, in front of what may stand behind a piece; a blank in front
of it is a lexeme of its own. -/
structure ScansAs (cs : List Char) (tokens : List (TokenKind × String)) : Prop where
  head : ∃ c tail, cs = c :: tail ∧ isSourceBlank c = false
  scans : ∀ rest, EndsPiece rest → ∃ found, Scans (cs ++ rest) found rest ∧ spelled found = tokens

/-- A piece with a blank in front of it. -/
theorem ScansAs.behind_blank {cs : List Char} {tokens : List (TokenKind × String)}
    (h : ScansAs cs tokens) {rest : List Char} (hrest : EndsPiece rest) :
    ∃ found, Scans (' ' :: (cs ++ rest)) found rest ∧ spelled found = tokens := by
  obtain ⟨c, tail, rfl, hc⟩ := h.head
  obtain ⟨found, hfound, hspelled⟩ := h.scans rest hrest
  refine ⟨_, (scans_blank hc (tail ++ rest)).append hfound, ?_⟩
  rw [spelled_append, hspelled]
  rfl

theorem scansAs_natText (n : Nat) :
    ScansAs (Number.natText n) [(.number, String.ofList (Number.natText n))] := by
  obtain ⟨c, tail, hcs, hdigit⟩ := Number.exists_natText_eq_cons n
  refine ⟨⟨c, tail, hcs, isSourceBlank_eq_false (not_mem_of_all (by decide) hdigit)⟩, ?_⟩
  exact fun rest hrest => ⟨_, scans_natText n hrest, rfl⟩

theorem scansAs_int (i : Int64) :
    ScansAs (Value.int i).exported.toList (Value.int i).spelling := by
  rw [Value.exported, String.toList_ofList, Value.spelling]
  cases i.toInt with
  | ofNat n => exact scansAs_natText n
  | negSucc n =>
    refine ⟨⟨'-', _, rfl, by decide⟩, fun rest hrest => ?_⟩
    exact ⟨_, (scans_minus (n + 1) rest).append (scans_natText (n + 1) hrest), rfl⟩

theorem scansAs_string (s : String) :
    ScansAs (Value.string s).exported.toList (Value.string s).spelling := by
  rw [Value.exported, String.toList_ofList, Value.spelling]
  exact ⟨⟨'\'', _, rfl, by decide⟩, fun rest _ => ⟨_, scans_quoted s.toList rest, rfl⟩⟩

theorem scansAs_word {cs : List Char} (h : IsWord cs) :
    ScansAs cs [(.name, String.ofList cs)] := by
  refine ⟨?_, fun rest hrest => ⟨_, scans_word h hrest, rfl⟩⟩
  obtain @⟨c, tail, hstart, -, -⟩ := h
  exact ⟨c, tail, rfl, isSourceBlank_eq_false (not_mem_of_all (by decide) hstart)⟩

/-- A pair of key and value. -/
theorem ScansAs.pair {key value : List Char} {k v : List (TokenKind × String)}
    (hkey : ScansAs key k) (hvalue : ScansAs value v) :
    ScansAs (key ++ " => ".toList ++ value) (k ++ (.sign, "=>") :: v) := by
  refine ⟨?_, fun rest hrest => ?_⟩
  · obtain ⟨c, tail, rfl, hc⟩ := hkey.head
    exact ⟨c, _, rfl, hc⟩
  · obtain ⟨first, hfirst, hk⟩ :=
      hkey.scans (' ' :: '=' :: '>' :: ' ' :: (value ++ rest)) (.blank _)
    obtain ⟨second, hsecond, hv⟩ := hvalue.behind_blank hrest
    have hblank := scans_blank (by decide : isSourceBlank '=' = false)
      ('>' :: ' ' :: (value ++ rest))
    have hsign : Scans ('=' :: '>' :: ' ' :: (value ++ rest)) [(.token .sign, ['=', '>'])]
        (' ' :: (value ++ rest)) := .of_step (by simp) rfl
    have hall := hfirst.append (hblank.append (hsign.append hsecond))
    refine ⟨_, by simpa using hall, ?_⟩
    simp only [spelled_append, spelled_token, spelled_trivia, hk, hv]

/-- Something with a comma behind it, and more behind that. -/
theorem ScansAs.comma {first more : List Char} {a b : List (TokenKind × String)}
    (hfirst : ScansAs first a) (hmore : ScansAs more b) :
    ScansAs (first ++ ", ".toList ++ more) (a ++ (.sign, ",") :: b) := by
  refine ⟨?_, fun rest hrest => ?_⟩
  · obtain ⟨c, tail, rfl, hc⟩ := hfirst.head
    exact ⟨c, _, rfl, hc⟩
  · obtain ⟨before, hbefore, ha⟩ := hfirst.scans (',' :: ' ' :: (more ++ rest)) (.comma _)
    obtain ⟨behind, hbehind, hb⟩ := hmore.behind_blank hrest
    have hsign : Scans (',' :: ' ' :: (more ++ rest)) [(.token .sign, [','])]
        (' ' :: (more ++ rest)) := .of_step (by simp) rfl
    have hall := hbefore.append (hsign.append hbehind)
    refine ⟨_, by simpa using hall, ?_⟩
    simp only [spelled_append, spelled_token, ha, hb]

/-- Pairs with commas between them. -/
theorem scansAs_exportedItems {items : List (Value × Value)} (hne : items ≠ [])
    (h : ∀ item ∈ items, ScansAs item.1.exported.toList item.1.spelling ∧
      ScansAs item.2.exported.toList item.2.spelling) :
    ScansAs (Value.exportedItems items).toList (Value.spellingItems items) := by
  induction items with
  | nil => exact absurd rfl hne
  | cons item rest ih =>
    obtain ⟨key, value⟩ := item
    obtain ⟨hkey, hvalue⟩ := h (key, value) List.mem_cons_self
    have hpair := hkey.pair hvalue
    cases rest with
    | nil => simpa [Value.exportedItems, Value.spellingItems] using hpair
    | cons next rest =>
      have hmore := ih (List.cons_ne_nil next rest) fun item hitem =>
        h item (List.mem_cons_of_mem _ hitem)
      simpa [Value.exportedItems, Value.spellingItems] using hpair.comma hmore

theorem scansAs_array {items : List (Value × Value)}
    (h : ∀ item ∈ items, ScansAs item.1.exported.toList item.1.spelling ∧
      ScansAs item.2.exported.toList item.2.spelling) :
    ScansAs (Value.array items).exported.toList (Value.array items).spelling := by
  have hopen : ∀ next, Scans ('[' :: next) [(.token .sign, ['['])] next :=
    fun _ => .of_step (by simp) rfl
  have hclose : ∀ next, Scans (']' :: next) [(.token .sign, [']'])] next :=
    fun _ => .of_step (by simp) rfl
  have htext : (Value.array items).exported.toList =
      '[' :: ((Value.exportedItems items).toList ++ [']']) := by
    simp [Value.exported]
  rw [htext, Value.spelling]
  refine ⟨⟨'[', _, rfl, by decide⟩, fun rest _ => ?_⟩
  obtain ⟨found, hfound, hspelled⟩ : ∃ found,
      Scans ((Value.exportedItems items).toList ++ ']' :: rest) found (']' :: rest) ∧
        spelled found = Value.spellingItems items := by
    by_cases hne : items = []
    · subst hne
      exact ⟨[], .done, rfl⟩
    · exact (scansAs_exportedItems hne h).scans _ (.bracket rest)
  have hall := (hopen _).append (hfound.append (hclose rest))
  refine ⟨_, by simpa using hall, ?_⟩
  simp only [spelled_append, spelled_token, spelled_nil, hspelled]

/-- A plain value is scanned as its tokens. -/
theorem scansAs_exported {v : Value} (hv : v.Plain) : ScansAs v.exported.toList v.spelling := by
  induction hv with
  | null => exact scansAs_word (isWord_of_all (by decide +kernel))
  | bool b => cases b <;> exact scansAs_word (isWord_of_all (by decide +kernel))
  | int i => exact scansAs_int i
  | string s => exact scansAs_string s
  | array hkeys _ _ ih =>
    refine scansAs_array fun (key, value) hitem => ⟨?_, ih (key, value) hitem⟩
    cases hkeys (key, value) hitem with
    | int i => exact scansAs_int i
    | string s => exact scansAs_string s

end StaticReflection
