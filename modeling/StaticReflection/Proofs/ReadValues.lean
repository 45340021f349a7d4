import StaticReflection.Proofs.ScannedValues
import StaticReflection.Syntax.Program

/-!
Reading exported values. From the tokens of a plain value the grammar reads an expression that
denotes it, as long as the value nests no deeper than expressions may; a value that nests deeper is
refused.
-/

namespace StaticReflection.Syntax

/-! ### Running readers -/

namespace Reader

variable {α β : Type} {x : Reader α} {f : α → Reader β} {ts rest : List Token} {t : Token}
  {text : String}

theorem bind_of_ok {a : α} (h : x ts = .ok (a, rest)) : (x >>= f) ts = f a rest := by
  change (x ts >>= fun read => f read.1 read.2) = _
  rw [h]
  rfl

theorem bind_of_error {e : SyntaxError} (h : x ts = .error e) : (x >>= f) ts = .error e := by
  change (x ts >>= fun read => f read.1 read.2) = _
  rw [h]
  rfl

theorem ahead_bind {f : Bool → Reader β} (test : List Token → Bool) :
    (ahead test >>= f) ts = f (test ts) ts := rfl

theorem peek_bind {f : Option Token → Reader β} : (peek >>= f) ts = f ts.head? ts := rfl

theorem take_cons (expected : String) : take expected (t :: rest) = .ok (t, rest) := rfl

theorem sign_cons (h : t.isSign text = true) : sign text (t :: rest) = .ok (t, rest) := by
  have hahead : signAt 0 text (t :: rest) = true := h
  rw [sign, ahead_bind, hahead]
  rfl

theorem word_cons (hkind : t.kind = .name) (hword : t.word = text) :
    word text (t :: rest) = .ok (t, rest) := by
  have hahead : wordAt 0 [text] (t :: rest) = true := by simp [wordAt, hkind, hword]
  rw [word, ahead_bind, hahead]
  rfl

theorem ofKind_cons {kind : TokenKind} (h : t.kind = kind) (expected : String) :
    ofKind kind expected (t :: rest) = .ok (t, rest) := by
  have hahead : kindAt 0 kind (t :: rest) = true := beq_of_eq h
  rw [ofKind, ahead_bind, hahead]
  rfl

theorem skipSign_cons (h : t.isSign text = true) :
    skipSign text (t :: rest) = .ok (true, rest) := by
  have hahead : signAt 0 text (t :: rest) = true := h
  rw [skipSign, ahead_bind, hahead]
  rfl

theorem skipSign_of_not (h : signAt 0 text ts = false) : skipSign text ts = .ok (false, ts) := by
  rw [skipSign, ahead_bind, h]
  rfl

theorem list_eq (close : List Token → Bool) (item : Reader α) (ts : List Token) :
    list close item ts = listUpTo close item (ts.length + 1) ts := rfl

theorem many_eq (more : List Token → Bool) (item : Reader α) (ts : List Token) :
    many more item ts = manyUpTo more item (ts.length + 1) ts := rfl

end Reader

/-! ### Reading within a limit -/

/-- What reading something that nests so deep comes to where a limit is set to nesting: something
with the property `P`, and then `rest` is left, or an error beyond the limit. -/
structure ReadsWithin {α : Type} (limit depth : Nat) (P : α → Prop) (rest : List Token)
    (r : Except SyntaxError (α × List Token)) : Prop where
  fits : depth ≤ limit → ∃ a, r = .ok (a, rest) ∧ P a
  fails : limit < depth → ∃ e, r = .error e

namespace ReadsWithin

variable {α β : Type} {limit depth : Nat} {P : α → Prop} {Q : β → Prop}
  {ts middle rest : List Token}

theorem of_ok {r : Except SyntaxError (α × List Token)} {a : α} (h : r = .ok (a, rest)) (ha : P a) :
    ReadsWithin limit 0 P rest r :=
  ⟨fun _ => ⟨a, h, ha⟩, fun hlimit => absurd hlimit (Nat.not_lt_zero limit)⟩

/-- One after the other nests as deep as the deeper of the two. -/
theorem bind {x : Reader α} {f : α → Reader β} {behind : Nat}
    (hx : ReadsWithin limit depth P middle (x ts))
    (hf : ∀ a, P a → ReadsWithin limit behind Q rest (f a middle)) :
    ReadsWithin limit (max depth behind) Q rest ((x >>= f) ts) := by
  constructor
  · intro h
    obtain ⟨a, ha, hP⟩ := hx.fits (Nat.le_trans (Nat.le_max_left _ _) h)
    rw [Reader.bind_of_ok ha]
    exact (hf a hP).fits (Nat.le_trans (Nat.le_max_right _ _) h)
  · intro h
    by_cases hfirst : limit < depth
    · obtain ⟨e, he⟩ := hx.fails hfirst
      exact ⟨e, Reader.bind_of_error he⟩
    · obtain ⟨a, ha, hP⟩ := hx.fits (Nat.le_of_not_lt hfirst)
      rw [Reader.bind_of_ok ha]
      exact (hf a hP).fails (by omega)

/-- What follows without nesting. -/
theorem map {x : Reader α} {f : α → Reader β} (hx : ReadsWithin limit depth P middle (x ts))
    (hf : ∀ a, P a → ∃ b, f a middle = .ok (b, rest) ∧ Q b) :
    ReadsWithin limit depth Q rest ((x >>= f) ts) := by
  rw [← Nat.max_zero depth]
  refine hx.bind fun a ha => ?_
  obtain ⟨b, hb, hQ⟩ := hf a ha
  exact of_ok hb hQ

/-- An expression inside another is read by the next grammar, if the limit leaves one. -/
theorem ofDepth {n level : Nat} {P : Expr → Prop}
    (h : ∀ inner, ReadsWithin inner depth P rest (expression (Grammar.ofDepth n inner) level ts)) :
    ReadsWithin limit (depth + 1) P rest ((Grammar.ofDepth (n + 1) limit).expression level ts) := by
  cases limit with
  | zero => exact ⟨fun hd => absurd hd (Nat.not_succ_le_zero depth), fun _ => ⟨_, rfl⟩⟩
  | succ inner =>
    exact ⟨fun hd => (h inner).fits (Nat.le_of_succ_le_succ hd),
      fun hd => (h inner).fails (Nat.lt_of_succ_lt_succ hd)⟩

end ReadsWithin

/-! ### Where a value ends -/

/-- A kind and a text, which are what the grammar sees of a token. -/
def Token.spelling (t : Token) : TokenKind × String := (t.kind, t.text)

theorem Token.isSign_of_spelling {t : Token} {text : String} (h : t.spelling = (.sign, text)) :
    t.isSign text = true := by
  obtain ⟨hkind, htext⟩ := Prod.mk.inj h
  rw [Token.isSign, hkind, htext]
  exact beq_self_eq_true text

theorem Token.word_of_spelling {t : Token} {text : String} (h : t.spelling = (.name, text)) :
    t.word = Name.lower text := by
  obtain ⟨hkind, rfl⟩ := Prod.mk.inj h
  rw [Token.word, if_pos hkind]

theorem not_signAt_of_spelling {t : Token} {other text : String} (h : t.spelling = (.sign, other))
    (hne : other ≠ text) (rest : List Token) : Reader.signAt 0 text (t :: rest) = false := by
  obtain ⟨-, rfl⟩ := Prod.mk.inj h
  change (t.kind == .sign && t.text == text) = false
  rw [Bool.and_eq_false_iff]
  exact .inr (beq_eq_false_iff_ne.mpr hne)

/-- The signs that may stand behind a value. -/
inductive ClosesValue : List Token → Prop
  | intro {t : Token} {more : List Token} (hkind : t.kind = .sign)
      (htext : t.text ∈ [",", "=>", "]", ";"]) : ClosesValue (t :: more)

theorem ClosesValue.of_spelling {t : Token} {text : String} (h : t.spelling = (.sign, text))
    (htext : text ∈ [",", "=>", "]", ";"]) (more : List Token) : ClosesValue (t :: more) := by
  obtain ⟨hkind, rfl⟩ := Prod.mk.inj h
  exact .intro hkind htext

theorem operatorsUpTo_of_closes {ts : List Token} (h : ClosesValue ts) (g : Grammar)
    (level n : Nat) (left : Expr) : operatorsUpTo g level n left ts = .ok (left, ts) := by
  cases n with
  | zero => rfl
  | succ n =>
    obtain @⟨t, more, hkind, htext⟩ := h
    have hnone : operator? t = none := by
      have hall : ∀ text ∈ [",", "=>", "]", ";"], leftOperators.lookup text = none ∧
          rightOperators.lookup text = none ∧ assignmentSigns.contains text = false ∧
          text ≠ "?" ∧ text ≠ "|>" := by
        decide
      obtain ⟨hleft, hright, hassign, hquestion, hpipe⟩ := hall _ htext
      simp only [operator?, hkind, if_true, hleft, hright, hassign, hquestion, hpipe,
        Bool.false_eq_true, if_false]
    rw [operatorsUpTo, Reader.peek_bind, List.head?_cons, Option.bind_some, hnone]
    rfl

theorem postfixes_of_closes {ts : List Token} (h : ClosesValue ts) (g : Grammar) (level : Nat)
    (base : Expr) : postfixes g level base ts = .ok (base, ts) := by
  obtain @⟨t, more, hkind, htext⟩ := h
  have hnone : postfixOne g level base (t :: more) = .ok (none, t :: more) := by
    have hall : ∀ text ∈ [",", "=>", "]", ";"], text ≠ "[" ∧ text ≠ "(" ∧ text ≠ "->" ∧
        text ≠ "?->" ∧ text ≠ "::" ∧ text ≠ "++" ∧ text ≠ "--" := by
      decide
    obtain ⟨hindex, hcall, harrow, hsafe, hcolons, hup, hdown⟩ := hall _ htext
    simp only [postfixOne, Reader.peek_bind, List.head?_cons, hkind, hindex, hcall, harrow, hsafe,
      hcolons, hup, hdown]
    rfl
  change postfixUpTo g level ((t :: more).length + 1) base (t :: more) = _
  rw [postfixUpTo, Reader.bind_of_ok hnone]
  rfl

/-- Behind a value nothing more is read. -/
theorem ReadsWithin.expression_of_primary {g : Grammar} {limit depth level : Nat} {P : Expr → Prop}
    {ts rest : List Token} (h : ReadsWithin limit depth P rest (primary g ts))
    (hrest : ClosesValue rest) : ReadsWithin limit depth P rest (expression g level ts) := by
  have hoperand : ReadsWithin limit depth P rest (operand g level ts) := by
    rw [operand]
    refine h.map fun base hbase => ⟨base, ?_, hbase⟩
    split
    · exact postfixes_of_closes hrest g level base
    · rfl
  rw [expression]
  refine hoperand.map fun left hleft => ⟨left, ?_, hleft⟩
  exact operatorsUpTo_of_closes hrest g level _ left

/-! ### Scalars -/

variable {g : Grammar} {t : Token} {rest : List Token}

theorem primary_number (h : t.kind = .number) :
    primary g (t :: rest) = .ok (.leaf t.span .number t.text, rest) := by
  simp only [primary, Reader.peek_bind, List.head?_cons, h]
  rfl

theorem primary_string (h : t.kind = .string) :
    primary g (t :: rest) = .ok (.string t.span t.text (stringValue? t.text), rest) := by
  simp only [primary, Reader.peek_bind, List.head?_cons, h]
  rfl

theorem primary_word (hkind : t.kind = .name) (htext : t.text ∈ ["null", "true", "false"]) :
    primary g (t :: rest) = .ok (.leaf t.span .name t.text, rest) := by
  have hword : t.word = t.text := by
    have hall : ∀ text ∈ ["null", "true", "false"], Name.lower text = text := by decide
    rw [Token.word, if_pos hkind, hall _ htext]
  have hleaf : nameLeaf (t :: rest) = .ok (.leaf t.span .name t.text, rest) := by
    rw [nameLeaf, Reader.bind_of_ok (Reader.ofKind_cons hkind "a name")]
    rfl
  have hoperand : wordExpression g t = nameLeaf := by
    simp only [List.mem_cons, List.not_mem_nil, or_false] at htext
    rcases htext with htext | htext | htext <;>
      simp [wordExpression, hword, htext, isOperandWord, operandKeywords]
  simp only [primary, Reader.peek_bind, List.head?_cons, hkind, hoperand, hleaf]

/-! ### Arrays -/

theorem primary_minus (hkind : t.kind = .sign) (htext : t.text = "-") :
    primary g (t :: rest) = prefixOperand g .minus Level.unary (t :: rest) := by
  simp only [primary, Reader.peek_bind, List.head?_cons, hkind, signExpression, htext]

theorem primary_bracket (hkind : t.kind = .sign) (htext : t.text = "[") :
    primary g (t :: rest) = arrayExpression g .array (t :: rest) := by
  simp only [primary, Reader.peek_bind, List.head?_cons, hkind, signExpression, htext]

end StaticReflection.Syntax

namespace StaticReflection

open Syntax

namespace Value

mutual

/-- How deep the expression for a value nests. The operand of a sign is one deeper than the sign. -/
def nesting : Value → Nat
  | .int i =>
    match i.toInt with
    | .ofNat _ => 1
    | .negSucc _ => 2
  | .array items => nestingItems items + 1
  | _ => 1

def nestingItems : List (Value × Value) → Nat
  | [] => 0
  | (key, value) :: rest => max (max key.nesting value.nesting) (nestingItems rest)

end

end Value

/-- A value is read from its tokens by each grammar that is made for its depth, as an expression
that denotes it, unless the limit is too low. -/
def Value.IsRead (v : Value) : Prop :=
  ∀ (n limit level : Nat) (ts rest : List Token), v.nesting ≤ n →
    ts.map Token.spelling = v.spelling → ClosesValue rest →
      ReadsWithin limit v.nesting (Expr.Denotes · v.reread) rest
        ((Grammar.ofDepth n limit).expression level (ts ++ rest))

/-- A value of one token is read where any expression is. -/
theorem Value.isRead_of_primary {v : Value} (hnesting : v.nesting = 1)
    {kind : TokenKind} {text : String} (hspelling : v.spelling = [(kind, text)])
    (h : ∀ (g : Grammar) (t : Token) (rest : List Token), t.kind = kind → t.text = text →
      ∃ e, primary g (t :: rest) = .ok (e, rest) ∧ e.Denotes v.reread) : v.IsRead := by
  intro n limit level ts rest hn hts hrest
  rw [hspelling] at hts
  obtain ⟨t, rfl, ht⟩ := List.map_eq_singleton_iff.mp hts
  obtain ⟨n, rfl⟩ : ∃ inner, n = inner + 1 := ⟨n - 1, by omega⟩
  rw [hnesting]
  refine .ofDepth fun inner => .expression_of_primary ?_ hrest
  obtain ⟨e, he, hdenotes⟩ := h (Grammar.ofDepth n inner) t rest (congrArg Prod.fst ht)
    (congrArg Prod.snd ht)
  exact .of_ok he hdenotes

theorem isRead_null : Value.null.IsRead := by
  refine Value.isRead_of_primary rfl rfl fun g t rest hkind htext => ?_
  refine ⟨_, primary_word hkind (by simp [htext]), ?_⟩
  rw [htext]
  exact denotes_null t.span .name

theorem isRead_bool (b : Bool) : (Value.bool b).IsRead := by
  refine Value.isRead_of_primary rfl rfl fun g t rest hkind htext => ?_
  refine ⟨_, primary_word hkind (by cases b <;> simp [htext]), ?_⟩
  rw [htext]
  exact denotes_bool b t.span .name

theorem isRead_string (s : String) : (Value.string s).IsRead := by
  refine Value.isRead_of_primary rfl rfl fun g t rest hkind htext => ?_
  refine ⟨_, primary_string hkind, ?_⟩
  rw [htext, stringValue?_quoted, String.ofList_toList]
  exact denotes_string s t.span _

theorem isRead_natural {i : Int64} {n : Nat} (h : i.toInt = .ofNat n) : (Value.int i).IsRead := by
  have hreread : (Value.int i).reread = .int i := by
    have hne : i ≠ Int64.minValue := by
      rintro rfl
      cases h
    rw [Value.reread, if_neg hne]
  refine Value.isRead_of_primary (by rw [Value.nesting, h]) (by rw [Value.spelling, h]) ?_
  intro g t rest hkind htext
  refine ⟨_, primary_number hkind, ?_⟩
  rw [htext, hreread]
  exact denotes_natural h t.span .number

/-- The digits behind a sign are an expression inside the one with the sign. -/
theorem isRead_negative {i : Int64} {n : Nat} (h : i.toInt = .negSucc n) :
    (Value.int i).IsRead := by
  intro depth limit level ts rest hdepth hts hrest
  rw [Value.spelling, h] at hts
  rw [Value.nesting, h] at hdepth ⊢
  obtain ⟨minus, others, rfl, hminus, hothers⟩ := List.map_eq_cons_iff.mp hts
  obtain ⟨digits, rfl, hdigits⟩ := List.map_eq_singleton_iff.mp hothers
  obtain ⟨depth, rfl⟩ : ∃ inner, depth = inner + 1 + 1 := ⟨depth - 2, by simp only at hdepth; omega⟩
  refine .ofDepth fun inner => .expression_of_primary ?_ hrest
  have hoperand : ReadsWithin inner 1
      (fun e => e = .leaf digits.span .number (String.ofList (Number.natText (n + 1)))) rest
      ((Grammar.ofDepth (depth + 1) inner).expression Level.unary (digits :: rest)) := by
    refine .ofDepth fun _ => .expression_of_primary ?_ hrest
    refine .of_ok (primary_number (congrArg Prod.fst hdigits)) ?_
    rw [show digits.text = _ from congrArg Prod.snd hdigits]
  have hstart : Reader.take "an operator" (minus :: digits :: rest) = .ok (minus, digits :: rest) :=
    Reader.take_cons "an operator"
  change ReadsWithin _ _ _ _ (primary _ (minus :: digits :: rest))
  rw [primary_minus (congrArg Prod.fst hminus) (congrArg Prod.snd hminus), prefixOperand,
    Reader.bind_of_ok hstart]
  refine hoperand.map fun operand hleaf => ⟨_, rfl, ?_⟩
  rw [hleaf]
  exact denotes_negative h _ _ _

theorem isRead_int (i : Int64) : (Value.int i).IsRead := by
  cases h : i.toInt with
  | ofNat n => exact isRead_natural h
  | negSucc n => exact isRead_negative h

theorem Value.IsKey.isRead {key : Value} (h : key.IsKey) : key.IsRead := by
  cases h with
  | int i => exact isRead_int i
  | string s => exact isRead_string s

theorem Value.IsKey.spelling_eq_cons {key : Value} (h : key.IsKey) :
    ∃ kind text tail, key.spelling = (kind, text) :: tail ∧ (kind = .sign → text = "-") := by
  cases h with
  | string s => exact ⟨.string, _, [], rfl, by simp⟩
  | int i =>
    cases h : i.toInt with
    | ofNat n => exact ⟨.number, _, [], by rw [Value.spelling, h], by simp⟩
    | negSucc n => exact ⟨.sign, "-", _, by rw [Value.spelling, h], fun _ => rfl⟩

/-- The first token of a key starts none of the other elements and closes no array. -/
theorem Value.IsKey.not_signAt {key : Value} (h : key.IsKey) {ts : List Token}
    {behind : List (TokenKind × String)} (hts : ts.map Token.spelling = key.spelling ++ behind)
    (rest : List Token) {text : String} (htext : text ≠ "-") :
    Reader.signAt 0 text (ts ++ rest) = false := by
  obtain ⟨kind, first, tail, hspelling, hminus⟩ := h.spelling_eq_cons
  rw [hspelling] at hts
  obtain ⟨t, others, rfl, ht, -⟩ := List.map_eq_cons_iff.mp hts
  obtain ⟨rfl, rfl⟩ := Prod.mk.inj ht
  change (t.kind == .sign && t.text == text) = false
  rw [Bool.and_eq_false_iff, beq_eq_false_iff_ne, beq_eq_false_iff_ne]
  by_cases hkind : t.kind = .sign
  · exact .inr fun hsame => htext (hsame.symm.trans (hminus hkind))
  · exact .inl hkind

/-- The reader for an element of an array. A place that is left out is none. -/
def elementOf (g : Grammar) : Reader (Option ArrayElement) := do
  if ← Reader.ahead (Reader.signAt 0 ",") then return none
  else if ← Reader.skipSign "..." then return some (.spread (← g.expression 0))
  else
    let first ← g.expression 0
    if ← Reader.skipSign "=>" then return some (.pair first (← g.expression 0))
    else return some (.value first)

theorem arrayElements_eq (g : Grammar) (close : List Token → Bool) :
    arrayElements g close =
      Reader.list close (elementOf g) >>= fun found => pure (found.filterMap id) := rfl

/-- A pair is read as a pair that denotes it. -/
theorem reads_pair {item : Value × Value} (hkey : item.1.IsKey) (hvalue : item.2.IsRead)
    {n limit : Nat} (hn : max item.1.nesting item.2.nesting ≤ n) {ts rest : List Token}
    (hts : ts.map Token.spelling = item.1.spelling ++ (.sign, "=>") :: item.2.spelling)
    (hrest : ClosesValue rest) :
    ReadsWithin limit (max item.1.nesting item.2.nesting)
      (fun found => ∃ element, found = some element ∧ ArrayElement.Denotes item element) rest
      (elementOf (Grammar.ofDepth n limit) (ts ++ rest)) := by
  have hcomma := hkey.not_signAt hts rest (by decide : "," ≠ "-")
  have hspread := hkey.not_signAt hts rest (by decide : "..." ≠ "-")
  obtain ⟨keyTokens, others, rfl, hkeyTokens, hothers⟩ := List.map_eq_append_iff.mp hts
  obtain ⟨arrow, valueTokens, rfl, harrow, hvalueTokens⟩ := List.map_eq_cons_iff.mp hothers
  have hcloses := ClosesValue.of_spelling harrow (by decide) (valueTokens ++ rest)
  rw [elementOf, Reader.ahead_bind, hcomma, if_neg (by decide),
    Reader.bind_of_ok (Reader.skipSign_of_not hspread), if_neg (by decide), List.append_assoc]
  refine (hkey.isRead n limit 0 keyTokens _ (by omega) hkeyTokens hcloses).bind fun key hkey => ?_
  rw [Reader.bind_of_ok (Reader.skipSign_cons (Token.isSign_of_spelling harrow)),
    if_pos rfl]
  refine (hvalue n limit 0 valueTokens rest (by omega) hvalueTokens hrest).map
    fun value hvalue => ?_
  exact ⟨_, rfl, _, rfl, key, value, rfl, hkey, hvalue⟩

theorem reads_items {items : List (Value × Value)}
    (h : ∀ item ∈ items, item.1.IsKey ∧ item.2.IsRead) {n m : Nat}
    (hn : Value.nestingItems items ≤ n) (hm : items.length < m) {ts : List Token}
    (hts : ts.map Token.spelling = Value.spellingItems items) {close : Token}
    (hclose : close.spelling = (.sign, "]")) (limit : Nat) (rest : List Token) :
    ReadsWithin limit (Value.nestingItems items)
      (fun found => ∃ elements, found = elements.map some ∧
        List.Forall₂ ArrayElement.Denotes items elements) (close :: rest)
      (Reader.listUpTo (Reader.signAt 0 "]") (elementOf (Grammar.ofDepth n limit)) m
        (ts ++ close :: rest)) := by
  induction items generalizing m ts with
  | nil =>
    obtain ⟨m, rfl⟩ : ∃ more, m = more + 1 := ⟨m - 1, by simp only [List.length_nil] at hm; omega⟩
    obtain rfl : ts = [] := List.map_eq_nil_iff.mp hts
    have hstop : Reader.signAt 0 "]" (close :: rest) = true := Token.isSign_of_spelling hclose
    rw [List.nil_append, Reader.listUpTo, Reader.ahead_bind, hstop]
    exact .of_ok rfl ⟨[], rfl, .nil⟩
  | cons item others ih =>
    obtain ⟨m, rfl⟩ : ∃ more, m = more + 1 := ⟨m - 1, by omega⟩
    obtain ⟨key, value⟩ := item
    obtain ⟨hkey, hvalue⟩ := h (key, value) List.mem_cons_self
    rw [Value.nestingItems] at hn ⊢
    have hfirst : max (key, value).1.nesting (key, value).2.nesting ≤ n :=
      Nat.le_trans (Nat.le_max_left _ _) hn
    rw [Reader.listUpTo]
    cases others with
    | nil =>
      rw [Value.spellingItems] at hts
      have hopen := hkey.not_signAt hts (close :: rest) (by decide : "]" ≠ "-")
      have hlast : Reader.signAt 0 "," (close :: rest) = false :=
        not_signAt_of_spelling hclose (by decide) rest
      rw [Reader.ahead_bind, hopen, if_neg (by decide), Value.nestingItems, Nat.max_zero]
      refine (reads_pair hkey hvalue hfirst hts
        (.of_spelling hclose (by decide) rest)).map fun first hread => ?_
      obtain ⟨element, rfl, hdenotes⟩ := hread
      rw [Reader.bind_of_ok (Reader.skipSign_of_not hlast), if_neg (by decide)]
      exact ⟨_, rfl, [element], rfl, .cons hdenotes .nil⟩
    | cons next others =>
      have hopen : Reader.signAt 0 "]" (ts ++ close :: rest) = false := by
        rw [Value.spellingItems, List.append_assoc] at hts
        · exact hkey.not_signAt hts (close :: rest) (by decide)
        · exact fun hnil => absurd hnil (List.cons_ne_nil next others)
      rw [Value.spellingItems] at hts
      · obtain ⟨pairTokens, more, rfl, hpair, hmore⟩ := List.map_eq_append_iff.mp hts
        obtain ⟨comma, behind, rfl, hcomma, hbehind⟩ := List.map_eq_cons_iff.mp hmore
        rw [Reader.ahead_bind, hopen, if_neg (by decide), List.append_assoc]
        refine (reads_pair hkey hvalue hfirst hpair
          (.of_spelling hcomma (by decide) _)).bind fun first hread => ?_
        obtain ⟨element, rfl, hdenotes⟩ := hread
        rw [Reader.bind_of_ok (Reader.skipSign_cons (Token.isSign_of_spelling hcomma)), if_pos rfl]
        have hlater := ih (fun other hother => h other (List.mem_cons_of_mem _ hother))
          (Nat.le_trans (Nat.le_max_right _ _) hn) (Nat.lt_of_succ_lt_succ hm) hbehind
        refine hlater.map fun found hfound => ?_
        obtain ⟨elements, rfl, helements⟩ := hfound
        exact ⟨_, rfl, element :: elements, rfl, .cons hdenotes helements⟩
      · exact fun hnil => absurd hnil (List.cons_ne_nil next others)

theorem length_le_spellingItems (items : List (Value × Value)) :
    items.length ≤ (Value.spellingItems items).length := by
  induction items with
  | nil => exact Nat.zero_le _
  | cons item rest ih =>
    cases rest <;> simp [Value.spellingItems] at ih ⊢ <;> omega

theorem isRead_array {items : List (Value × Value)} (hkeys : ∀ item ∈ items, item.1.IsKey)
    (hdistinct : (items.map (·.1)).Nodup) (h : ∀ item ∈ items, item.2.IsRead) :
    (Value.array items).IsRead := by
  intro n limit level ts rest hn hts hrest
  rw [Value.spelling] at hts
  rw [Value.nesting] at hn ⊢
  obtain ⟨start, others, rfl, hstart, hothers⟩ := List.map_eq_cons_iff.mp hts
  obtain ⟨inside, closing, rfl, hinside, hclosing⟩ := List.map_eq_append_iff.mp hothers
  obtain ⟨close, rfl, hclose⟩ := List.map_eq_singleton_iff.mp hclosing
  obtain ⟨n, rfl⟩ : ∃ inner, n = inner + 1 := ⟨n - 1, by omega⟩
  refine .ofDepth fun inner => .expression_of_primary ?_ hrest
  have hlength : items.length < (inside ++ close :: rest).length + 1 := by
    have hle := length_le_spellingItems items
    rw [← hinside, List.length_map] at hle
    rw [List.length_append]
    omega
  have hitems := reads_items (fun item hitem => ⟨hkeys item hitem, h item hitem⟩)
    (Nat.le_of_succ_le_succ hn) hlength hinside hclose inner rest
  have hrun : ReadsWithin inner (Value.nestingItems items) (List.Forall₂ ArrayElement.Denotes items)
      (close :: rest) (arrayElements (Grammar.ofDepth n inner) (Reader.signAt 0 "]")
        (inside ++ close :: rest)) := by
    have hlist : ReadsWithin inner (Value.nestingItems items)
        (fun found => ∃ elements, found = elements.map some ∧
          List.Forall₂ ArrayElement.Denotes items elements) (close :: rest)
        (Reader.list (Reader.signAt 0 "]") (elementOf (Grammar.ofDepth n inner))
          (inside ++ close :: rest)) := hitems
    rw [arrayElements_eq]
    refine hlist.map fun found hfound => ?_
    obtain ⟨elements, rfl, helements⟩ := hfound
    have hall : (elements.map some).filterMap id = elements := by simp
    exact ⟨elements, by rw [hall]; rfl, helements⟩
  have htokens : start :: (inside ++ [close]) ++ rest = start :: (inside ++ close :: rest) := by
    simp
  have hisStart : start.isSign "[" = true := Token.isSign_of_spelling hstart
  have htake : Reader.take "an array" (start :: (inside ++ close :: rest)) =
      .ok (start, inside ++ close :: rest) := Reader.take_cons "an array"
  rw [htokens, primary_bracket (congrArg Prod.fst hstart) (congrArg Prod.snd hstart),
    arrayExpression, Reader.bind_of_ok htake, hisStart, if_pos rfl, pure_bind]
  refine hrun.map fun elements helements => ?_
  rw [Reader.bind_of_ok (Reader.sign_cons (Token.isSign_of_spelling hclose))]
  exact ⟨_, rfl, denotes_array hkeys hdistinct helements _⟩

theorem Value.Plain.isRead {v : Value} (h : v.Plain) : v.IsRead := by
  induction h with
  | null => exact isRead_null
  | bool b => exact isRead_bool b
  | int i => exact isRead_int i
  | string s => exact isRead_string s
  | array hkeys hdistinct _ ih => exact isRead_array hkeys hdistinct ih

end StaticReflection
