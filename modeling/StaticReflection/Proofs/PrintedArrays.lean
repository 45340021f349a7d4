import Mathlib.Data.List.Basic
import Mathlib.Data.List.TakeWhile
import StaticReflection.Text.Blank
import StaticReflection.Text.Cut

/-!
Arrays printed as source text, one row a line. The readers of such texts look for the opening of an
array, go through the lines behind it and stop at its closing line; here is what they meet on the
way. Keys and values stand between quotes, with a backslash in front of each quote and backslash.
-/

namespace StaticReflection.Text

/-! ### Escapes -/

/-- A text as it is printed between quotes of this kind. -/
def escaped (quote : Char) (cs : List Char) : List Char :=
  cs.flatMap fun c => if c == '\\' || c == quote then ['\\', c] else [c]

/-- What an escaped text stands for: each backslash gives way to the character behind it. -/
def unescaped : List Char → List Char
  | [] => []
  | [c] => [c]
  | c :: d :: cs => if c == '\\' then d :: unescaped cs else c :: unescaped (d :: cs)

/-- Whether a text is printed between such quotes as it is. -/
def IsPlain (quote : Char) (cs : List Char) : Prop := '\\' ∉ cs ∧ quote ∉ cs

instance (quote : Char) (cs : List Char) : Decidable (IsPlain quote cs) :=
  inferInstanceAs (Decidable (_ ∧ _))

variable {quote c : Char} {cs mark : List Char}

theorem escaped_cons_of_escape (hc : c = '\\' ∨ c = quote) :
    escaped quote (c :: cs) = '\\' :: c :: escaped quote cs := by
  simp [escaped, hc]

theorem escaped_cons_of_plain (hback : c ≠ '\\') (hquote : c ≠ quote) :
    escaped quote (c :: cs) = c :: escaped quote cs := by
  simp [escaped, hback, hquote]

theorem unescaped_cons (hc : c ≠ '\\') : unescaped (c :: cs) = c :: unescaped cs := by
  cases cs <;> simp [unescaped, hc]

@[simp] theorem unescaped_escaped (quote : Char) (cs : List Char) :
    unescaped (escaped quote cs) = cs := by
  induction cs with
  | nil => rfl
  | cons c cs ih =>
    by_cases hc : c = '\\' ∨ c = quote
    · rw [escaped_cons_of_escape hc, unescaped, beq_self_eq_true, if_pos rfl, ih]
    · have ⟨hback, hquote⟩ := not_or.mp hc
      rw [escaped_cons_of_plain hback hquote, unescaped_cons hback, ih]

theorem mem_of_mem_escaped (h : c ∈ escaped quote cs) : c = '\\' ∨ c ∈ cs := by
  obtain ⟨d, hd, hc⟩ := List.mem_flatMap.mp h
  split at hc
  · rcases List.mem_cons.mp hc with rfl | hc
    · exact .inl rfl
    · exact .inr (List.mem_singleton.mp hc ▸ hd)
  · exact .inr (List.mem_singleton.mp hc ▸ hd)

theorem mem_escaped_of_mem (h : c ∈ cs) : c ∈ escaped quote cs := by
  refine List.mem_flatMap.mpr ⟨c, h, ?_⟩
  split <;> simp

/-- What is no plain text does not become one by its escapes. -/
theorem isPlain_of_isPlain_escaped (h : IsPlain quote (escaped quote cs)) : IsPlain quote cs :=
  ⟨fun hmem => h.1 (mem_escaped_of_mem hmem), fun hmem => h.2 (mem_escaped_of_mem hmem)⟩

/-- Each escape makes a text longer by one. -/
theorem length_escaped (quote : Char) (cs : List Char) :
    (escaped quote cs).length = cs.length + cs.countP fun c => c == '\\' || c == quote := by
  induction cs with
  | nil => rfl
  | cons c cs ih =>
    by_cases hc : c = '\\' ∨ c = quote
    · rw [escaped_cons_of_escape hc, List.countP_cons_of_pos (by simpa using hc)]
      simp only [List.length_cons, ih]
      omega
    · have ⟨hback, hquote⟩ := not_or.mp hc
      rw [escaped_cons_of_plain hback hquote, List.countP_cons_of_neg (by simpa using hc)]
      simp only [List.length_cons, ih]
      omega

theorem escaped_of_isPlain (h : IsPlain quote cs) : escaped quote cs = cs := by
  induction cs with
  | nil => rfl
  | cons c cs ih =>
    obtain ⟨hback, hquote⟩ := h
    simp only [List.mem_cons, not_or] at hback hquote
    rw [escaped_cons_of_plain (Ne.symm hback.1) (Ne.symm hquote.1), ih ⟨hback.2, hquote.2⟩]

theorem isPlain_iff_length : IsPlain quote cs ↔ (escaped quote cs).length ≤ cs.length := by
  constructor
  · intro h
    exact Nat.le_of_eq (congrArg _ (escaped_of_isPlain h))
  · intro h
    rw [length_escaped] at h
    have hnone : cs.countP (fun c => c == '\\' || c == quote) = 0 := by omega
    rw [List.countP_eq_zero] at hnone
    exact ⟨fun hmem => by simpa using hnone _ hmem, fun hmem => by simpa using hnone _ hmem⟩

theorem prefix_of_prefix_escaped (hmark : IsPlain quote mark) (h : mark <+: escaped quote cs) :
    mark <+: cs := by
  induction mark generalizing cs with
  | nil => exact List.nil_prefix
  | cons m mark ih =>
    obtain ⟨hback, hquote⟩ := hmark
    simp only [List.mem_cons, not_or] at hback hquote
    cases cs with
    | nil => exact absurd h (by simp [escaped])
    | cons c cs =>
      by_cases hc : c = '\\' ∨ c = quote
      · rw [escaped_cons_of_escape hc, List.cons_prefix_cons] at h
        exact absurd h.1.symm hback.1
      · have ⟨hcback, hcquote⟩ := not_or.mp hc
        rw [escaped_cons_of_plain hcback hcquote, List.cons_prefix_cons] at h
        exact List.cons_prefix_cons.mpr ⟨h.1, ih ⟨hback.2, hquote.2⟩ h.2⟩

/-- Escapes do not put a mark together that has none of them. -/
theorem infix_of_infix_escaped (hmark : IsPlain quote mark) (h : mark <:+: escaped quote cs) :
    mark <:+: cs := by
  induction cs with
  | nil => exact h
  | cons c cs ih =>
    cases mark with
    | nil => exact List.nil_infix
    | cons m mark =>
      obtain ⟨hback, hquote⟩ := hmark
      simp only [List.mem_cons, not_or] at hback hquote
      by_cases hc : c = '\\' ∨ c = quote
      · rw [escaped_cons_of_escape hc, List.infix_cons_iff, List.infix_cons_iff,
          List.cons_prefix_cons, List.cons_prefix_cons] at h
        have hm : m ≠ c := by
          rintro rfl
          exact hc.elim (Ne.symm hback.1) (Ne.symm hquote.1)
        rcases h with ⟨hm', -⟩ | ⟨hm', -⟩ | h
        · exact absurd hm'.symm hback.1
        · exact absurd hm' hm
        · exact (ih h).trans (List.suffix_cons c cs).isInfix
      · have ⟨hcback, hcquote⟩ := not_or.mp hc
        have hplain : IsPlain quote (m :: mark) := ⟨by simp [hback], by simp [hquote]⟩
        rw [escaped_cons_of_plain hcback hcquote, List.infix_cons_iff] at h
        rcases h with h | h
        · rw [← escaped_cons_of_plain hcback hcquote] at h
          exact (prefix_of_prefix_escaped hplain h).isInfix
        · exact (ih h).trans (List.suffix_cons c cs).isInfix

/-! ### The first occurrence of a mark -/

theorem cutAt_mark (mark after : List Char) : cutAt mark (mark ++ after) = some ([], after) := by
  cases hcs : mark ++ after with
  | nil =>
    obtain ⟨rfl, rfl⟩ := List.append_eq_nil_iff.mp hcs
    rfl
  | cons c cs =>
    rw [cutAt, stripHead?_eq_some.mpr hcs.symm]

/-- A mark is found where it is put, unless it starts earlier. -/
theorem cutAt_append {before after : List Char}
    (h : ∀ s, s ≠ [] → s <:+ before → ¬ mark <+: s ++ (mark ++ after)) :
    cutAt mark (before ++ (mark ++ after)) = some (before, after) := by
  induction before with
  | nil => exact cutAt_mark mark after
  | cons c before ih =>
    have hnone : stripHead? mark (c :: (before ++ (mark ++ after))) = none := by
      rw [Option.eq_none_iff_forall_ne_some]
      intro rest hrest
      exact h (c :: before) (List.cons_ne_nil c before) List.suffix_rfl
        ⟨rest, (stripHead?_eq_some.mp hrest).symm⟩
    rw [List.cons_append, cutAt, hnone,
      ih fun s hs hsuffix => h s hs (hsuffix.trans (List.suffix_cons c before))]
    rfl

/-- An occurrence of a mark in front of another lies in the text before it, or the two overlap. -/
theorem infix_or_overlap {s after : List Char} (hs : s ≠ [])
    (h : mark <+: s ++ (mark ++ after)) :
    mark <:+: s ∨ ∃ t, t ≠ [] ∧ mark = s ++ t ∧ t <+: mark := by
  by_cases hle : mark.length ≤ s.length
  · exact .inl (List.prefix_of_prefix_length_le h (List.prefix_append s _) hle).isInfix
  · obtain ⟨t, ht⟩ := List.prefix_of_prefix_length_le (List.prefix_append s (mark ++ after)) h
      (by omega)
    have hlength : s.length + t.length = mark.length := by rw [← ht, List.length_append]
    have hpos : 0 < s.length := List.length_pos_iff.mpr hs
    refine .inr ⟨t, ?_, ht.symm, ?_⟩
    · rintro rfl
      simp at hlength
      omega
    · rw [← ht, List.prefix_append_right_inj] at h
      rw [ht] at h
      exact List.prefix_of_prefix_length_le h (List.prefix_append mark after) (by omega)

/-- A mark whose last character is nowhere else in it does not overlap itself. -/
theorem cutAt_of_last {before after init : List Char} {last : Char}
    (hmark : mark = init ++ [last]) (hlast : last ∉ init) (hbefore : ¬ mark <:+: before) :
    cutAt mark (before ++ (mark ++ after)) = some (before, after) := by
  apply cutAt_append
  intro s hs hsuffix h
  rcases infix_or_overlap hs h with h | ⟨t, ht, hst, htprefix⟩
  · exact hbefore (h.trans hsuffix.isInfix)
  · -- The overlap ends as the mark does, but lies in what is in front of its last character.
    have hshort : t.length < mark.length := by
      rw [hst, List.length_append]
      have := List.length_pos_iff.mpr hs
      omega
    have hinit : t <+: init := by
      rw [hmark, List.prefix_concat_iff] at htprefix
      rcases htprefix with rfl | htprefix
      · rw [hmark] at hshort
        omega
      · exact htprefix
    have hmem : last ∈ t := by
      have hend : (s ++ t).getLast? = some last := by
        rw [← hst, hmark]
        exact List.getLast?_concat ..
      rw [List.getLast?_append_of_ne_nil s ht] at hend
      exact List.mem_of_getLast? hend
    exact hlast (hinit.subset hmem)

/-- A mark cannot reach back over a character that it does not have. -/
theorem cutAt_of_barrier {before after : List Char} {barrier : Char} (hbarrier : barrier ∉ mark)
    (hbefore : ¬ mark <:+: before) :
    cutAt mark (before ++ [barrier] ++ (mark ++ after)) = some (before ++ [barrier], after) := by
  have hnot : ∀ s, s ≠ [] → s <:+ before ++ [barrier] → barrier ∈ s := by
    intro s hs hsuffix
    obtain ⟨front, hfront⟩ := hsuffix
    have hend : (front ++ s).getLast? = some barrier := by
      rw [hfront]
      exact List.getLast?_concat ..
    rw [List.getLast?_append_of_ne_nil front hs] at hend
    exact List.mem_of_getLast? hend
  apply cutAt_append
  intro s hs hsuffix h
  rcases infix_or_overlap hs h with h | ⟨t, -, hst, -⟩
  · rcases List.infix_concat_iff.mp (h.trans hsuffix.isInfix) with h | h
    · have hmark : mark ≠ [] := by
        rintro rfl
        exact hbefore List.nil_infix
      exact hbarrier (hnot mark hmark h)
    · exact hbefore h
  · refine hbarrier ?_
    rw [hst]
    exact List.mem_append_left t (hnot s hs hsuffix)

theorem cutFirst_append {sep : Char} {before : List Char} (h : sep ∉ before) (after : List Char) :
    cutFirst sep (before ++ sep :: after) = some (before, after) := by
  induction before with
  | nil => simp [cutFirst]
  | cons c before ih =>
    simp only [List.mem_cons, not_or] at h
    rw [List.cons_append, cutFirst, if_neg (Ne.symm h.1), ih h.2]
    rfl

/-! ### Lines -/

theorem join_cons (sep piece : List Char) (pieces : List (List Char)) :
    join sep (piece :: pieces) = piece ++ pieces.flatMap (sep ++ ·) := by
  induction pieces generalizing piece with
  | nil => simp [join]
  | cons next pieces ih =>
    rw [join, ih, List.flatMap_cons, List.append_assoc, List.append_assoc]
    simp

theorem pieces_append_sep (sep : Char) (cs rest : List Char) :
    pieces sep (cs ++ sep :: rest) = pieces sep cs ++ pieces sep rest := by
  induction cs with
  | nil => simp [pieces]
  | cons c cs ih =>
    by_cases hc : c = sep
    · rw [List.cons_append, pieces, if_pos hc, pieces, if_pos hc, ih, List.cons_append]
    · obtain ⟨piece, more, hpieces⟩ := List.exists_cons_of_ne_nil (pieces_ne_nil sep cs)
      rw [hpieces, List.cons_append] at ih
      simp only [List.cons_append, pieces, if_neg hc, ih, hpieces]

theorem pieces_of_not_mem {sep : Char} (h : sep ∉ cs) : pieces sep cs = [cs] := by
  induction cs with
  | nil => rfl
  | cons c cs ih =>
    simp only [List.mem_cons, not_or] at h
    rw [pieces, if_neg (Ne.symm h.1), ih h.2]

theorem stripTail?_eq_some {tail rest : List Char} :
    stripTail? tail cs = some rest ↔ cs = rest ++ tail := by
  rw [stripTail?, Option.map_eq_some_iff]
  constructor
  · rintro ⟨reversed, h, rfl⟩
    rw [stripHead?_eq_some] at h
    rw [← List.reverse_reverse cs, h, List.reverse_append, List.reverse_reverse]
  · rintro rfl
    exact ⟨rest.reverse, by rw [stripHead?_eq_some, List.reverse_append], List.reverse_reverse rest⟩

/-- A line that does not end with a carriage return is what stands in front of the line feed. -/
theorem lines_append_cons {line : List Char} (h : '\n' ∉ line) (hend : line.getLast? ≠ some '\r')
    (rest : List Char) : lines (line ++ '\n' :: rest) = line :: lines rest := by
  have hstrip : stripTail? ['\r'] line = none := by
    rw [Option.eq_none_iff_forall_ne_some]
    intro front hfront
    rw [stripTail?_eq_some] at hfront
    exact hend (hfront ▸ List.getLast?_concat ..)
  rw [lines, lines, pieces_append_sep, pieces_of_not_mem h, List.singleton_append]
  obtain ⟨piece, more, hpieces⟩ := List.exists_cons_of_ne_nil (pieces_ne_nil '\n' rest)
  simp only [hpieces, List.getLast?_cons_cons, List.dropLast_cons_cons, List.map_cons, hstrip,
    Option.getD_none]
  split <;> rfl

/-! ### Rows -/

/-- A row starts with the quote of its key, ends with a comma and stands on one line. -/
structure IsRow (row : List Char) : Prop where
  oneLine : '\n' ∉ row
  head : row.head? = some '\''
  last : row.getLast? = some ','

/-- Rows with a line for each. -/
def printedRows (indent : List Char) (rows : List (List Char)) : List Char :=
  rows.flatMap fun row => indent ++ row ++ ['\n']

/-- An array as it is printed: its opening, its rows and a closing line. -/
def printedArray (opening indent : List Char) (rows : List (List Char)) : List Char :=
  opening ++ '\n' :: (printedRows indent rows ++ [')', ';'])

/-- A text that has an array where its opening first stands. -/
structure Holds (content opening indent : List Char) (rows : List (List Char)) : Prop where
  printed : ∃ before after, content = before ++ (printedArray opening indent rows ++ after) ∧
    ¬ opening <:+: before ∧ (after = [] ∨ after.head? = some '\n')

theorem dropEndWhile_concat {p : Char → Bool} (hc : p c = true) :
    dropEndWhile p (cs ++ [c]) = dropEndWhile p cs := by
  rw [dropEndWhile, dropEndWhile, List.reverse_concat, List.dropWhile_cons_of_pos hc]

theorem dropEndWhile_of_getLast? {p : Char → Bool} (hlast : cs.getLast? = some c)
    (hc : p c = false) : dropEndWhile p cs = cs := by
  obtain ⟨front, rfl⟩ := List.getLast?_eq_some_iff.mp hlast
  rw [dropEndWhile, List.reverse_concat, List.dropWhile_cons_of_neg (by simp [hc]),
    List.reverse_cons, List.reverse_reverse]

theorem dropEndWhile_eq_nil_iff {p : Char → Bool} :
    dropEndWhile p cs = [] ↔ ∀ c ∈ cs, p c = true := by
  simp only [dropEndWhile, List.reverse_eq_nil_iff, List.dropWhile_eq_nil_iff, List.mem_reverse]

theorem trim_row {p : Char → Bool} {indent row : List Char} {first last : Char}
    (hindent : ∀ c ∈ indent, p c = true) (hhead : row.head? = some first) (hfirst : p first = false)
    (hend : row.getLast? = some last) (hlast : p last = false) :
    trim p (indent ++ row) = row := by
  obtain ⟨cs, rfl⟩ := List.head?_eq_some_iff.mp hhead
  rw [trim, List.dropWhile_append_of_pos hindent, List.dropWhile_cons_of_neg (by simp [hfirst]),
    dropEndWhile_of_getLast? hend hlast]

/-- The lines behind the opening of an array, up to its closing line, are its rows. -/
theorem takeWhile_lines_printedRows {indent after : List Char} {rows : List (List Char)}
    (hindent : ∀ c ∈ indent, c = ' ') (hrows : ∀ row ∈ rows, IsRow row)
    (hafter : after = [] ∨ after.head? = some '\n') :
    ((lines (printedRows indent rows ++ ([')', ';'] ++ after))).map (trim isBlank)).takeWhile
      (· != [')', ';']) = rows := by
  induction rows with
  | nil =>
    have hclosing : ∃ rest, lines ([')', ';'] ++ after) = [')', ';'] :: rest := by
      rcases hafter with rfl | hafter
      · exact ⟨[], rfl⟩
      · obtain ⟨rest, rfl⟩ := List.head?_eq_some_iff.mp hafter
        exact ⟨lines rest, lines_append_cons (by decide) (by decide) rest⟩
    obtain ⟨rest, hclosing⟩ := hclosing
    rw [printedRows, List.flatMap_nil, List.nil_append, hclosing]
    rfl
  | cons row rows ih =>
    have hrow := hrows row List.mem_cons_self
    have hnot : '\n' ∉ indent ++ row := by
      rw [List.mem_append, not_or]
      exact ⟨fun hmem => absurd (hindent _ hmem) (by decide), hrow.oneLine⟩
    have hend : (indent ++ row).getLast? = some ',' := by
      rw [List.getLast?_append_of_ne_nil indent (by rintro rfl; cases hrow.head)]
      exact hrow.last
    have hne : row ≠ [')', ';'] := by
      rintro rfl
      cases hrow.head
    rw [printedRows, List.flatMap_cons, ← printedRows, List.append_assoc, List.append_assoc,
      List.singleton_append, lines_append_cons hnot (by simp [hend]), List.map_cons,
      trim_row (fun c hc => hindent c hc ▸ rfl) hrow.head rfl hrow.last rfl,
      List.takeWhile_cons_of_pos (by simpa using hne),
      ih fun row' hrow' => hrows row' (List.mem_cons_of_mem row hrow')]

/-- A reader that goes to an opening and takes the lines up to the closing one meets an empty line,
the rest of the opening's, and the rows. -/
theorem Holds.rows_eq {content opening indent init : List Char} {last : Char}
    {rows : List (List Char)} (h : Holds content opening indent rows)
    (hopening : opening = init ++ [last]) (hlast : last ∉ init)
    (hindent : ∀ c ∈ indent, c = ' ') (hrows : ∀ row ∈ rows, IsRow row) :
    ∃ before body, cutAt opening content = some (before, body) ∧
      ((lines body).map (trim isBlank)).takeWhile (· != [')', ';']) = [] :: rows := by
  obtain ⟨before, after, hcontent, hbefore, hafter⟩ := h.printed
  rw [printedArray, List.append_assoc] at hcontent
  refine ⟨before, _, hcontent ▸ cutAt_of_last hopening hlast hbefore, ?_⟩
  have hfirst : lines ('\n' :: (printedRows indent rows ++ ([')', ';'] ++ after))) =
      [] :: lines (printedRows indent rows ++ ([')', ';'] ++ after)) :=
    lines_append_cons (List.not_mem_nil) (by decide) _
  rw [List.cons_append, List.append_assoc, hfirst, List.map_cons,
    List.takeWhile_cons_of_pos (by decide), takeWhile_lines_printedRows hindent hrows hafter]
  rfl

end StaticReflection.Text
