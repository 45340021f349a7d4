import StaticReflection.Proofs.ReadValues
import StaticReflection.Proofs.UnknownConstants
import StaticReflection.Search

/-!
Exported values as source text. A constant whose initialiser is the exported text of a plain value
has that value again, as far as the parser lets expressions nest; only the least integer does not
come back, since its digits without the sign do not fit.
-/

namespace StaticReflection

open Syntax Text

/-- A file that declares one constant, whose initialiser is a value as it is exported. -/
def constantText (name : String) (v : Value) : String :=
  "<?php const " ++ name ++ " = " ++ v.exported ++ ";"

/-- The tokens of the statement in that file. -/
def constantSpelling (name : String) (v : Value) : List (TokenKind × String) :=
  [(.name, "const"), (.name, name), (.sign, "=")] ++ v.spelling ++ [(.sign, ";")]

/-! ### The tokens of the file -/

theorem map_spelling_tokensOf (found : List (LexemeKind × List Char)) (offset : Nat) :
    (tokensOf (placeLexemes offset found)).map Token.spelling = spelled found := by
  induction found generalizing offset with
  | nil => rfl
  | cons lexeme rest ih =>
    obtain ⟨kind, text⟩ := lexeme
    cases kind with
    | token kind => exact congrArg ((kind, String.ofList text) :: ·) (ih _)
    | trivia kind => exact ih _

/-- What stands behind the tag. -/
theorem scans_statement {name : String} (hname : IsWord name.toList) {v : Value} (hv : v.Plain) :
    ∃ found, Scans (" const ".toList ++ name.toList ++ " = ".toList ++ v.exported.toList ++ [';'])
        found [] ∧ spelled found = constantSpelling name v := by
  have hconst : ScansAs "const".toList [(.name, "const")] :=
    scansAs_word (isWord_of_all (by decide +kernel))
  have hequals : ∀ next, Scans ('=' :: ' ' :: next) [(.token .sign, ['='])] (' ' :: next) :=
    fun _ => .of_step (by simp) rfl
  have hsemicolon : Scans [';'] [(.token .sign, [';'])] [] := .of_step (by simp) rfl
  obtain ⟨value, hvalue, hvalueSpelled⟩ := (scansAs_exported hv).behind_blank (.semicolon [])
  have hblank := scans_blank (by decide : isSourceBlank '=' = false)
    (' ' :: (v.exported.toList ++ [';']))
  obtain ⟨word, hword, hwordSpelled⟩ := (scansAs_word hname).behind_blank
    (.blank ('=' :: ' ' :: (v.exported.toList ++ [';'])))
  obtain ⟨keyword, hkeyword, hkeywordSpelled⟩ := hconst.behind_blank
    (.blank (name.toList ++ ' ' :: '=' :: ' ' :: (v.exported.toList ++ [';'])))
  have hall := hkeyword.append (hword.append (hblank.append ((hequals _).append
    (hvalue.append hsemicolon))))
  refine ⟨_, by simpa using hall, ?_⟩
  simp [constantSpelling, hkeywordSpelled, hwordSpelled, hvalueSpelled]

theorem lexemes_constantText {name : String} (hname : IsWord name.toList) {v : Value}
    (hv : v.Plain) :
    ∃ found, lexemes (constantText name v) = .ok found ∧
      (tokensOf found).map Token.spelling = (.openTag, "<?php") :: constantSpelling name v := by
  obtain ⟨found, hfound, hspelled⟩ := scans_statement hname hv
  generalize hbehind : " const ".toList ++ name.toList ++ " = ".toList ++ v.exported.toList ++
    [';'] = behind at hfound
  have htext : (constantText name v).toList = '<' :: '?' :: 'p' :: 'h' :: 'p' :: behind := by
    simp [constantText, ← hbehind]
  have hstep : lexStep ⟨.opening, []⟩ ('<' :: '?' :: 'p' :: 'h' :: 'p' :: behind) =
      some ⟨.token .openTag, "<?php".toList, behind, .script, none⟩ := rfl
  have hrest : lexFrom (behind.length + 4) ⟨.script, []⟩ behind = .ok found :=
    hfound.lexFrom_eq (Nat.le_add_right _ 4)
  have hlex : lexFrom (behind.length + 5) ⟨.opening, []⟩
      ('<' :: '?' :: 'p' :: 'h' :: 'p' :: behind) =
        .ok ((.token .openTag, "<?php".toList) :: found) := by
    simp only [lexFrom, hstep, LexState.after, Option.toList_none, hrest]
    rfl
  refine ⟨placeLexemes 0 ((.token .openTag, "<?php".toList) :: found), ?_, ?_⟩
  · rw [lexemes, htext]
    exact congrArg (Except.map (placeLexemes 0)) hlex
  · rw [map_spelling_tokensOf, spelled_token, hspelled, String.ofList_toList]

/-! ### The statement -/

/-- The item of a constant whose value is read back. -/
theorem reads_constItem {v : Value} (hv : v.IsRead) {n : Nat} (hn : v.nesting ≤ n)
    {word equals : Token} {name : String} (hword : word.spelling = (.name, name))
    (hequals : equals.spelling = (.sign, "=")) {ts rest : List Token}
    (hts : ts.map Token.spelling = v.spelling) (hrest : ClosesValue rest) (limit : Nat) :
    ReadsWithin limit v.nesting (fun item => ∃ e, item = ⟨name, e⟩ ∧ e.Denotes v.reread) rest
      (constItem (Grammar.ofDepth n limit) (word :: equals :: (ts ++ rest))) := by
  obtain ⟨hkind, rfl⟩ := Prod.mk.inj hword
  have hname : localName (word :: equals :: (ts ++ rest)) =
      .ok (word.text, equals :: (ts ++ rest)) := by
    rw [localName, Reader.bind_of_ok (Reader.ofKind_cons hkind "a name")]
    rfl
  rw [constItem, Reader.bind_of_ok hname,
    Reader.bind_of_ok (Reader.sign_cons (Token.isSign_of_spelling hequals))]
  exact (hv n limit 0 ts rest hn hts hrest).map fun e he => ⟨_, rfl, e, rfl, he⟩

theorem terminator_of_spelling {stop : Token} (h : stop.spelling = (.sign, ";")) :
    terminator [stop] = .ok (stop.span, []) := by
  have hkind : stop.kind = .sign := congrArg Prod.fst h
  have hahead : Reader.kindAt 0 .closeTag [stop] = false := by simp [Reader.kindAt, hkind]
  rw [terminator, Reader.ahead_bind, hahead, if_neg (by decide),
    Reader.bind_of_ok (Reader.sign_cons (Token.isSign_of_spelling h))]
  rfl

/-- The items up to the semicolon are the one item. -/
theorem reads_constItems {v : Value} (hv : v.IsRead) {n : Nat} (hn : v.nesting ≤ n)
    {word equals stop : Token} {name : String} (hword : word.spelling = (.name, name))
    (hequals : equals.spelling = (.sign, "=")) {ts : List Token}
    (hts : ts.map Token.spelling = v.spelling) (hstop : stop.spelling = (.sign, ";"))
    (limit : Nat) :
    ReadsWithin limit v.nesting (fun items => ∃ e, items = [⟨name, e⟩] ∧ e.Denotes v.reread) [stop]
      (Reader.list terminatorAhead (constItem (Grammar.ofDepth n limit))
        (word :: equals :: (ts ++ [stop]))) := by
  have hopen : terminatorAhead (word :: equals :: (ts ++ [stop])) = false := by
    have hkind : word.kind = .name := congrArg Prod.fst hword
    simp [terminatorAhead, Reader.signAt, Reader.kindAt, Token.isSign, hkind]
  have hlast : Reader.signAt 0 "," [stop] = false := not_signAt_of_spelling hstop (by decide) []
  rw [Reader.list_eq, Reader.listUpTo, Reader.ahead_bind, hopen, if_neg (by decide)]
  refine (reads_constItem hv hn hword hequals hts
    (.of_spelling hstop (by decide) []) limit).map fun item hread => ?_
  obtain ⟨e, rfl, he⟩ := hread
  rw [Reader.bind_of_ok (Reader.skipSign_of_not hlast), if_neg (by decide)]
  exact ⟨_, rfl, e, rfl, he⟩

/-- The statement declares a constant whose initialiser denotes the value as it is read back. -/
theorem reads_constStatement {v : Value} (hv : v.IsRead) {n : Nat} (hn : v.nesting ≤ n)
    {tokens : List Token} {name : String}
    (htokens : tokens.map Token.spelling = constantSpelling name v) (limit : Nat) :
    ReadsWithin limit v.nesting
      (fun s => ∃ span e, s = .constant span [] [⟨name, e⟩] ∧ e.Denotes v.reread) []
      ((Grammar.ofDepth (n + 1) limit).statement tokens) := by
  rw [constantSpelling] at htokens
  obtain ⟨keyword, others, rfl, hkeyword, hothers⟩ := List.map_eq_cons_iff.mp htokens
  obtain ⟨word, others, rfl, hword, hothers⟩ := List.map_eq_cons_iff.mp hothers
  obtain ⟨equals, others, rfl, hequals, hothers⟩ := List.map_eq_cons_iff.mp hothers
  obtain ⟨ts, stopping, rfl, hts, hstopping⟩ := List.map_eq_append_iff.mp hothers
  obtain ⟨stop, rfl, hstop⟩ := List.map_eq_singleton_iff.mp hstopping
  have hkind : keyword.kind = .name := congrArg Prod.fst hkeyword
  have hkeywordIs : keyword.word = "const" := Token.word_of_spelling hkeyword
  have hstatement : ∀ behind, (Grammar.ofDepth (n + 1) limit).statement (keyword :: behind) =
      constStatement (Grammar.ofDepth n limit) [] (keyword :: behind) := by
    intro behind
    change statement _ _ = _
    simp only [statement, Reader.peek_bind, List.head?_cons, hkind, wordStatement, hkeywordIs]
  rw [hstatement, constStatement, Reader.bind_of_ok (Reader.word_cons hkind hkeywordIs)]
  refine (reads_constItems hv hn hword hequals hts hstop limit).map fun items hitems => ?_
  obtain ⟨e, rfl, he⟩ := hitems
  rw [Reader.bind_of_ok (terminator_of_spelling hstop)]
  exact ⟨_, rfl, _, e, rfl, he⟩

/-! ### The file -/

theorem nesting_le_int (i : Int64) : (Value.int i).nesting ≤ (Value.int i).spelling.length := by
  rw [Value.nesting, Value.spelling]
  cases i.toInt <;> simp

theorem Value.IsKey.nesting_le {key : Value} (h : key.IsKey) :
    key.nesting ≤ key.spelling.length := by
  cases h with
  | int i => exact nesting_le_int i
  | string s => exact Nat.le_refl 1

theorem nestingItems_le {items : List (Value × Value)}
    (h : ∀ item ∈ items, item.1.nesting ≤ item.1.spelling.length ∧
      item.2.nesting ≤ item.2.spelling.length) :
    Value.nestingItems items ≤ (Value.spellingItems items).length := by
  induction items with
  | nil => exact Nat.le_refl 0
  | cons item rest ih =>
    obtain ⟨key, value⟩ := item
    obtain ⟨hkey, hvalue⟩ := h (key, value) List.mem_cons_self
    have hrest := ih fun other hother => h other (List.mem_cons_of_mem _ hother)
    simp only at hkey hvalue
    rw [Value.nestingItems]
    cases rest with
    | nil =>
      simp only [Value.spellingItems, Value.nestingItems, List.length_append, List.length_cons]
      omega
    | cons next rest =>
      simp only [Value.spellingItems, List.length_append, List.length_cons]
      omega

/-- Each level of nesting takes a token, so that the depth of the grammar suffices. -/
theorem Value.Plain.nesting_le {v : Value} (h : v.Plain) : v.nesting ≤ v.spelling.length := by
  induction h with
  | null | bool | string => exact Nat.le_refl 1
  | int i => exact nesting_le_int i
  | @array items hkeys _ _ ih =>
    have hitems := nestingItems_le fun item hitem => ⟨(hkeys item hitem).nesting_le, ih item hitem⟩
    rw [Value.nesting, Value.spelling, List.length_cons, List.length_append]
    omega

theorem manyUpTo_nil {α : Type} (item : Reader α) (n : Nat) :
    Reader.manyUpTo (fun ts => !ts.isEmpty) item n [] = .ok ([], []) := by
  cases n <;> rfl

theorem reads_tokens {v : Value} (hv : v.Plain) {tokens : List Token} {name : String}
    (htokens : tokens.map Token.spelling = (.openTag, "<?php") :: constantSpelling name v)
    (limit : Nat) :
    ReadsWithin limit v.nesting
      (fun body => ∃ span e, body = [.plain [], .constant span [] [⟨name, e⟩]] ∧
        e.Denotes v.reread) []
      (Reader.many (fun ts => !ts.isEmpty)
        (Grammar.ofDepth (depthFor tokens.length) limit).statement tokens) := by
  have hdepth : v.nesting ≤ 2 * tokens.length + 1 := by
    have hlength := congrArg List.length htokens
    have hnesting := hv.nesting_le
    simp only [constantSpelling, List.length_map, List.length_append, List.length_cons] at hlength
    omega
  have hlevels : depthFor tokens.length = 2 * tokens.length + 1 + 1 := rfl
  rw [hlevels]
  generalize 2 * tokens.length + 1 = n at hdepth
  obtain ⟨tag, behind, rfl, htag, hbehind⟩ := List.map_eq_cons_iff.mp htokens
  have hfirst : (Grammar.ofDepth (n + 1) limit).statement (tag :: behind) =
      .ok (.plain [], behind) := by
    have hkind : tag.kind = .openTag := congrArg Prod.fst htag
    change statement _ _ = _
    simp only [statement, Reader.peek_bind, List.head?_cons, hkind]
    rfl
  have hmore : (!behind.isEmpty) = true := by
    obtain ⟨keyword, others, rfl, -, -⟩ := List.map_eq_cons_iff.mp hbehind
    rfl
  have hsecond : ReadsWithin limit v.nesting
      (fun body => ∃ span e, body = [.constant span [] [⟨name, e⟩]] ∧ e.Denotes v.reread) []
      (Reader.manyUpTo (fun ts => !ts.isEmpty)
        (Grammar.ofDepth (n + 1) limit).statement (behind.length + 1) behind) := by
    rw [Reader.manyUpTo, Reader.ahead_bind, hmore, if_pos rfl]
    refine (reads_constStatement hv.isRead hdepth hbehind limit).map fun s hs => ?_
    obtain ⟨span, e, rfl, he⟩ := hs
    rw [Reader.bind_of_ok (manyUpTo_nil _ _)]
    exact ⟨_, rfl, span, e, rfl, he⟩
  rw [Reader.many_eq, List.length_cons, Reader.manyUpTo, Reader.ahead_bind, List.isEmpty_cons,
    Bool.not_false, if_pos rfl, Reader.bind_of_ok hfirst]
  refine hsecond.map fun body hbody => ?_
  obtain ⟨span, e, rfl, he⟩ := hbody
  exact ⟨_, rfl, span, e, rfl, he⟩

/-- The file is read as a program that declares the one constant, or refused if the value nests too
deep. -/
theorem read_constantText {name : String} (hname : IsWord name.toList) {v : Value} (hv : v.Plain)
    (limit : Nat) :
    (v.nesting ≤ limit → ∃ p span e, Program.readWithin limit (constantText name v) = .ok p ∧
      p.declarations = [⟨.constant span ⟨name, e⟩, .empty none⟩] ∧ e.Denotes v.reread) ∧
    (limit < v.nesting → ∃ e, Program.readWithin limit (constantText name v) = .error e) := by
  obtain ⟨found, hfound, htokens⟩ := lexemes_constantText hname hv
  have hreads := reads_tokens hv htokens limit
  have hprogram : Program.readWithin limit (constantText name v) =
      (statementsOf? limit (tokensOf found)).map (⟨·, triviaOf found⟩) := by
    rw [Program.readWithin, hfound]
    dsimp only
    cases statementsOf? limit (tokensOf found) <;> rfl
  refine ⟨fun hfits => ?_, fun hdeep => ?_⟩
  · obtain ⟨body, hbody, span, e, rfl, he⟩ := hreads.fits hfits
    refine ⟨⟨[.plain [], .constant span [] [⟨name, e⟩]], triviaOf found⟩, span, e, ?_, rfl, he⟩
    rw [hprogram, statementsOf?, StateT.run, hbody]
    rfl
  · obtain ⟨e, he⟩ := hreads.fails hdeep
    refine ⟨e, ?_⟩
    rw [hprogram, statementsOf?, StateT.run, he]
    rfl

/-! ### The value of the constant -/

/-- A file declares one constant and nothing else, for a reader that lets expressions nest so deep,
and the constant's reflection has the value. -/
def Source.GivesConstant (source : Source) (limit : Nat) (name : String) (v : Value) : Prop :=
  ∃ p d c, source.programWithin limit = .ok p ∧ p.declarations = [d] ∧
    buildReflection (source.fileScope p) d .compiled = .ok (.constant c) ∧ c.name = name ∧
      c.value = some v

theorem Syntax.Expr.Denotes.eval_eq {e : Expr} {v : Value} (h : e.Denotes v) (s : Scope) :
    eval s e = .ok v := by
  rw [eval, evalDepth_eq]
  exact h s _

theorem buildReflection_constant {f : FileScope} {imports : Imports} {item : ConstItem} {v : Value}
    (h : eval (f.scope imports) item.value = .ok v) (span : Span) :
    ∃ c, buildReflection f ⟨.constant span item, imports⟩ .compiled = .ok (.constant c) ∧
      c.name = Name.qualify imports.space item.name ∧ c.value = some v := by
  have hvalue : buildValue f imports (some item.value) .compiled = .ok (some v) := by
    rw [buildValue, h]
    rfl
  have hkind : (⟨.constant span item, imports⟩ : Declaration).kind = .constant := rfl
  simp only [buildReflection, hkind, buildConstant, pure_bind, hvalue]
  exact ⟨_, rfl, rfl, rfl⟩

theorem Source.GivesConstant.unique {source : Source} {limit : Nat} {name : String} {v w : Value}
    (hv : source.GivesConstant limit name v) (hw : source.GivesConstant limit name w) : v = w := by
  obtain ⟨p, d, c, hp, hd, hc, -, hcv⟩ := hv
  obtain ⟨q, d', c', hq, hd', hc', -, hcw⟩ := hw
  obtain rfl : p = q := Except.ok.inj (hp.symm.trans hq)
  obtain rfl : d = d' := List.singleton_inj.mp (hd.symm.trans hd')
  obtain rfl : c = c' := Reflection.constant.inj (Except.ok.inj (hc.symm.trans hc'))
  exact Option.some.inj (hcv.symm.trans hcw)

/-- The file of an exported value gives the value as it is read back. -/
theorem givesConstant_reread {name : String} (hname : IsWord name.toList) {v : Value}
    (hv : v.Plain) {limit : Nat} (hnesting : v.nesting ≤ limit) {source : Source}
    (hsource : source.text = constantText name v) : source.GivesConstant limit name v.reread := by
  obtain ⟨p, span, e, hread, hdeclared, hdenotes⟩ := (read_constantText hname hv limit).1 hnesting
  have hprogram : source.programWithin limit = .ok p := by
    rw [Source.programWithin, hsource, hread]
  have hvalue : eval ((source.fileScope p).scope (.empty none)) (ConstItem.mk name e).value =
      .ok v.reread := hdenotes.eval_eq _
  obtain ⟨c, hbuilt, hcname, hcvalue⟩ := buildReflection_constant hvalue span
  exact ⟨p, _, c, hprogram, hdeclared, hbuilt, hcname, hcvalue⟩

/-- What nests too deep is refused. -/
theorem nesting_le_of_givesConstant {name : String} (hname : IsWord name.toList) {v : Value}
    (hv : v.Plain) {limit : Nat} {source : Source} (hsource : source.text = constantText name v)
    {w : Value} (h : source.GivesConstant limit name w) : v.nesting ≤ limit := by
  by_contra hdeep
  obtain ⟨e, he⟩ := (read_constantText hname hv limit).2 (Nat.lt_of_not_le hdeep)
  obtain ⟨p, -, -, hp, -⟩ := h
  rw [Source.programWithin, hsource, he] at hp
  cases hp

/-- However deep a reader lets expressions nest, the exported text of a plain value, as the
initialiser of a constant, gives exactly that value again if it nests no deeper and the least
integer stands nowhere in it. -/
theorem exported_value_reads_back_iff (limit : Nat) (name : String) (hname : IsWord name.toList)
    (v : Value) (hv : v.Plain) (source : Source) (hsource : source.text = constantText name v) :
    source.GivesConstant limit name v ↔ v.nesting ≤ limit ∧ v.lacksLeast = true := by
  constructor
  · intro h
    have hnesting := nesting_le_of_givesConstant hname hv hsource h
    have hsame := (givesConstant_reread hname hv hnesting hsource).unique h
    exact ⟨hnesting, (Value.reread_eq_self_iff v).mp hsame⟩
  · rintro ⟨hnesting, hlacks⟩
    have hgives := givesConstant_reread hname hv hnesting hsource
    rwa [(Value.reread_eq_self_iff v).mpr hlacks] at hgives

/-- Keys and strings with quotes and backslashes, a negative number, and an array in an array. -/
def nestedValue : Value :=
  .array [(.string "it's", .array [(.int (-3), .bool true), (.string "", .null)]),
    (.int 0, .string "a\\'b"), (.int 9223372036854775807, .int (-9223372036854775807))]

theorem plain_nestedValue : nestedValue.Plain := by
  have hinner : (Value.array [(.int (-3), .bool true), (.string "", .null)]).Plain := by
    refine .array ?_ (by simp) ?_
    · simp only [List.forall_mem_cons]
      exact ⟨.int _, .string _, by simp⟩
    · simp only [List.forall_mem_cons]
      exact ⟨.bool _, .null, by simp⟩
  refine .array ?_ (by simp) ?_
  · simp only [List.forall_mem_cons]
    exact ⟨.string _, .int _, .int _, by simp⟩
  · simp only [List.forall_mem_cons]
    exact ⟨hinner, .string _, .int _, by simp⟩

theorem exported_value_reads_back_iff_nested :
    IsWord "LIMITS".toList ∧ nestedValue.Plain ∧
      Source.GivesConstant ⟨constantText "LIMITS" nestedValue, none, .user⟩ maxExpressionDepth
        "LIMITS" nestedValue := by
  have hname : IsWord "LIMITS".toList := isWord_of_all (by decide +kernel)
  refine ⟨hname, plain_nestedValue, ?_⟩
  exact (exported_value_reads_back_iff maxExpressionDepth "LIMITS" hname nestedValue
    plain_nestedValue _ rfl).mpr ⟨by decide, by decide⟩

/-- The least integer is plain, but what is read back is a double. -/
theorem least_integer_not_read_back :
    IsWord "X".toList ∧ (Value.int Int64.minValue).Plain ∧
      ¬ Source.GivesConstant ⟨constantText "X" (.int Int64.minValue), none, .user⟩
        maxExpressionDepth "X" (.int Int64.minValue) := by
  have hname : IsWord "X".toList := isWord_of_all (by decide +kernel)
  refine ⟨hname, .int _, fun h => ?_⟩
  have hsame := (givesConstant_reread hname (.int _) (by decide) rfl).unique h
  cases hsame

end StaticReflection
