import Mathlib.Data.List.DropRight
import Mathlib.Data.List.TakeWhile
import StaticReflection.Proofs.UnionParts

/-!
Return tags in doc comments. A line holds one if it starts with it, behind blanks and stars, and has
something behind it. The tag that counts is the first, and its type is what is joined with bars
behind it, up to the first blank outside brackets or the end of the line.
-/

namespace StaticReflection

open Text

namespace Text

variable {p : Char → Bool} {cs left right : List Char} {c : Char}

theorem exists_of_dropEndWhile (p : Char → Bool) (cs : List Char) :
    ∃ dropped, cs = dropEndWhile p cs ++ dropped ∧ ∀ c ∈ dropped, p c = true := by
  refine ⟨(cs.reverse.takeWhile p).reverse, ?_, fun c hc => ?_⟩
  · rw [dropEndWhile, ← List.reverse_append, List.takeWhile_append_dropWhile, List.reverse_reverse]
  · exact List.mem_takeWhile_imp (List.mem_reverse.mp hc)

theorem exists_of_trim (p : Char → Bool) (cs : List Char) :
    ∃ front back, cs = front ++ trim p cs ++ back ∧ (∀ c ∈ front, p c = true) ∧
      ∀ c ∈ back, p c = true := by
  obtain ⟨back, hback, hdropped⟩ := exists_of_dropEndWhile p (cs.dropWhile p)
  refine ⟨cs.takeWhile p, back, ?_, fun c hc => List.mem_takeWhile_imp hc, hdropped⟩
  rw [trim, List.append_assoc, ← hback, List.takeWhile_append_dropWhile]

theorem dropEndWhile_append (h : ∃ c ∈ right, p c = false) :
    dropEndWhile p (left ++ right) = left ++ dropEndWhile p right := by
  have hkept : (right.reverse.dropWhile p).isEmpty = false := by
    obtain ⟨c, hc, hp⟩ := h
    rw [List.isEmpty_eq_false_iff, ne_eq, List.dropWhile_eq_nil_iff]
    exact fun hall => Bool.false_ne_true (hp.symm.trans (hall c (List.mem_reverse.mpr hc)))
  rw [dropEndWhile, dropEndWhile, List.reverse_append, List.dropWhile_append, hkept,
    if_neg Bool.false_ne_true, List.reverse_append, List.reverse_reverse]

theorem dropEndWhile_append_of_forall (h : ∀ c ∈ right, p c = true) :
    dropEndWhile p (left ++ right) = dropEndWhile p left := by
  rw [dropEndWhile, dropEndWhile, List.reverse_append,
    List.dropWhile_append_of_pos (by simpa using h)]

theorem head?_dropEndWhile (hhead : cs.head? = some c) (hc : p c = false) :
    (dropEndWhile p cs).head? = some c := by
  obtain ⟨dropped, hcs, hdropped⟩ := exists_of_dropEndWhile p cs
  cases hkept : dropEndWhile p cs with
  | nil =>
    rw [hkept, List.nil_append] at hcs
    rw [hcs] at hhead
    exact absurd (hc.symm.trans (hdropped c (List.mem_of_mem_head? hhead))) Bool.false_ne_true
  | cons b kept =>
    rw [hcs, hkept] at hhead
    exact hhead

/-- What is trimmed in front is not trimmed any further. -/
theorem trim_of_head? (hhead : cs.head? = some c) (hc : p c = false) :
    trim p cs = dropEndWhile p cs := by
  obtain ⟨rest, rfl⟩ := List.head?_eq_some_iff.mp hhead
  rw [trim, List.dropWhile_cons_of_neg (by simp [hc])]

theorem trim_of_ends {first last : Char} (hhead : cs.head? = some first) (hfirst : p first = false)
    (hend : cs.getLast? = some last) (hlast : p last = false) : trim p cs = cs :=
  trim_row (List.forall_mem_nil _) hhead hfirst hend hlast

theorem trim_append (h : ∀ c ∈ left, p c = true) : trim p (left ++ right) = trim p right := by
  rw [trim, List.dropWhile_append_of_pos h, trim]

theorem trim_concat (hc : p c = true) : trim p (cs ++ [c]) = trim p cs := by
  rw [trim, trim, List.dropWhile_append]
  split
  · rename_i hempty
    rw [List.isEmpty_iff] at hempty
    rw [hempty, List.dropWhile_cons_of_pos hc]
    rfl
  · exact dropEndWhile_concat hc

theorem dropEndWhile_dropEndWhile (p : Char → Bool) (cs : List Char) :
    dropEndWhile p (dropEndWhile p cs) = dropEndWhile p cs :=
  List.rdropWhile_idempotent p cs

theorem not_mem_join {sep : List Char} {parts : List (List Char)} (hsep : c ∉ sep)
    (hparts : ∀ part ∈ parts, c ∉ part) : c ∉ join sep parts := by
  cases parts with
  | nil => exact List.not_mem_nil
  | cons part rest =>
    rw [join_cons, List.mem_append, List.mem_flatMap]
    rintro (hpart | ⟨other, hother, hc⟩)
    · exact hparts part List.mem_cons_self hpart
    · exact (List.mem_append.mp hc).elim hsep (hparts other (List.mem_cons_of_mem _ hother))

theorem join_ne_nil {sep : List Char} {parts : List (List Char)} (hne : parts ≠ [])
    (hparts : ∀ part ∈ parts, part ≠ []) : join sep parts ≠ [] := by
  obtain ⟨part, rest, rfl⟩ := List.exists_cons_of_ne_nil hne
  rw [join_cons]
  exact List.append_ne_nil_of_left_ne_nil (hparts part List.mem_cons_self) _

/-- Behind a line feed the lines begin anew. -/
theorem lines_append (front rest : List Char) :
    lines (front ++ '\n' :: rest) = lines (front ++ ['\n']) ++ lines rest := by
  have hrest := pieces_ne_nil '\n' rest
  have hempty : pieces '\n' [] = [[]] := rfl
  simp only [lines, pieces_append_sep, hempty, List.dropLast_concat, List.getLast?_concat,
    List.dropLast_append_of_ne_nil hrest, List.getLast?_append_of_ne_nil _ hrest, List.map_append]
  split <;> simp only [List.append_assoc]

theorem lines_append_of_ended {front : List Char} (h : front = [] ∨ front.getLast? = some '\n')
    (rest : List Char) : lines (front ++ rest) = lines front ++ lines rest := by
  rcases h with rfl | hlast
  · rfl
  · obtain ⟨front, rfl⟩ := List.getLast?_eq_some_iff.mp hlast
    rw [List.append_assoc, List.singleton_append, lines_append]

/-- A text that begins with a line has that as its first line, but for a carriage return, and what
stands behind the line feed makes up the other lines. -/
theorem exists_lines_eq_cons {line after : List Char} (hne : line ≠ []) (hline : '\n' ∉ line)
    (hafter : ∀ c, after.head? = some c → c = '\n') :
    ∃ first, lines (line ++ after) = first :: lines after.tail ∧
      (line = first ∨ line = first ++ ['\r']) := by
  cases after with
  | nil =>
    obtain ⟨c, cs, rfl⟩ := List.exists_cons_of_ne_nil hne
    refine ⟨c :: cs, ?_, .inl rfl⟩
    rw [List.append_nil, lines, pieces_of_not_mem hline]
    rfl
  | cons c rest =>
    obtain rfl := hafter c rfl
    have hfirst : lines (line ++ ['\n']) = [(stripTail? ['\r'] line).getD line] := by
      rw [lines, pieces_append_sep, pieces_of_not_mem hline]
      rfl
    rw [lines_append, hfirst]
    refine ⟨_, rfl, ?_⟩
    cases hstrip : stripTail? ['\r'] line with
    | none => exact .inl rfl
    | some first => exact .inr (stripTail?_eq_some.mp hstrip)

end Text

namespace DocComment

/-- Blanks and stars in front of what a line says. -/
def IsLead (lead : List Char) : Prop :=
  ∃ indent stars gap, lead = indent ++ stars ++ gap ∧ (∀ c ∈ indent, isBlank c = true) ∧
    (∀ c ∈ stars, c = '*') ∧ ∀ c ∈ gap, isBlank c = true

/-- A line that says a return tag with something behind it. -/
def HoldsTag (line : List Char) : Prop :=
  ∃ lead tag gap c rest, line = lead ++ tag.toList ++ gap ++ c :: rest ∧ IsLead lead ∧
    tag ∈ returnTags ∧ gap ≠ [] ∧ (∀ b ∈ gap, isBlank b = true) ∧ isBlank c = false

/-- What a line says, without what leads to it and without blanks behind it. -/
def said (line : List Char) : List Char :=
  trim isBlank ((trim isBlank line).dropWhile (· == '*'))

theorem said_append {lead text : List Char} {c : Char} (hlead : IsLead lead)
    (hhead : text.head? = some c) (hblank : isBlank c = false) (hstar : c ≠ '*') :
    said (lead ++ text) = dropEndWhile isBlank text := by
  obtain ⟨indent, stars, gap, rfl, hindent, hstars, hgap⟩ := hlead
  have hmem : ∃ c ∈ text, isBlank c = false := ⟨c, List.mem_of_mem_head? hhead, hblank⟩
  have hkept := head?_dropEndWhile hhead hblank
  have htrim : trim isBlank (dropEndWhile isBlank text) = dropEndWhile isBlank text := by
    rw [trim_of_head? hkept hblank, dropEndWhile_dropEndWhile]
  -- Without stars all blanks in front go at once, otherwise the stars keep those behind them.
  cases stars with
  | nil =>
    have hindents : ∀ c ∈ indent ++ gap, isBlank c = true := by
      intro c hc
      exact (List.mem_append.mp hc).elim (hindent c) (hgap c)
    obtain ⟨more, hmore⟩ := List.head?_eq_some_iff.mp hkept
    rw [said, List.append_nil, trim_append hindents, trim_of_head? hhead hblank, hmore,
      List.dropWhile_cons_of_neg (by simpa using hstar), ← hmore, htrim]
  | cons star stars =>
    have hfirst : (star :: stars ++ gap ++ text).head? = some '*' :=
      congrArg some (hstars star List.mem_cons_self)
    have hall : ∀ b ∈ star :: stars, (b == '*') = true := fun b hb => beq_of_eq (hstars b hb)
    have hrest : (gap ++ dropEndWhile isBlank text).dropWhile (· == '*') =
        gap ++ dropEndWhile isBlank text := by
      cases gap with
      | nil =>
        obtain ⟨more, hmore⟩ := List.head?_eq_some_iff.mp hkept
        rw [List.nil_append, hmore, List.dropWhile_cons_of_neg (by simpa using hstar)]
      | cons b gap =>
        refine List.dropWhile_cons_of_neg ?_
        rw [beq_iff_eq]
        rintro rfl
        exact absurd (hgap '*' List.mem_cons_self) (by decide)
    calc said (indent ++ (star :: stars) ++ gap ++ text)
      _ = trim isBlank ((trim isBlank (star :: stars ++ gap ++ text)).dropWhile (· == '*')) := by
        rw [said, List.append_assoc, List.append_assoc, trim_append hindent, ← List.append_assoc]
      _ = trim isBlank ((star :: stars ++ (gap ++ dropEndWhile isBlank text)).dropWhile
            (· == '*')) := by
        rw [trim_of_head? hfirst (by decide), dropEndWhile_append hmem, List.append_assoc]
      _ = trim isBlank (gap ++ dropEndWhile isBlank text) := by
        rw [List.dropWhile_append_of_pos hall, hrest]
      _ = dropEndWhile isBlank text := by
        rw [trim_append hgap, htrim]

/-- A carriage return at the end of a line is not said. -/
theorem said_concat {line : List Char} {c : Char} (hc : isBlank c = true) :
    said (line ++ [c]) = said line := by
  rw [said, trim_concat hc, said]

/-- A line is what it says with blanks and stars in front and blanks behind. -/
theorem exists_of_said (line : List Char) :
    ∃ lead back, line = lead ++ said line ++ back ∧ IsLead lead := by
  obtain ⟨indent, back, hline, hindent, -⟩ := exists_of_trim isBlank line
  obtain ⟨gap, back', hstars, hgap, -⟩ :=
    exists_of_trim isBlank ((trim isBlank line).dropWhile (· == '*'))
  refine ⟨indent ++ (trim isBlank line).takeWhile (· == '*') ++ gap, back' ++ back, ?_, indent, _,
    gap, rfl, hindent, fun c hc => by simpa using List.mem_takeWhile_imp hc, hgap⟩
  calc line
    _ = indent ++ ((trim isBlank line).takeWhile (· == '*') ++
          (trim isBlank line).dropWhile (· == '*')) ++ back := by
      rw [List.takeWhile_append_dropWhile, ← hline]
    _ = indent ++ ((trim isBlank line).takeWhile (· == '*') ++
          (gap ++ said line ++ back')) ++ back := by
      rw [said, ← hstars]
    _ = _ := by simp only [List.append_assoc]

theorem returnOfLine?_eq (line : List Char) :
    returnOfLine? line =
      match returnTags.findSome? fun tag => stripHead? tag.toList (said line) with
      | some (c :: rest) =>
        if isBlank c && !((c :: rest).dropWhile isBlank).isEmpty then
          some (typeToken 0 ((c :: rest).dropWhile isBlank))
        else none
      | _ => none := rfl

theorem head?_tag {tag : String} (htag : tag ∈ returnTags) : tag.toList.head? = some '@' := by
  revert tag
  decide

/-- No return tag starts with another. -/
theorem findSome?_tag {tag : String} (htag : tag ∈ returnTags) (rest : List Char) :
    (returnTags.findSome? fun other => stripHead? other.toList (tag.toList ++ rest)) =
      some rest := by
  simp only [returnTags, List.mem_cons, List.not_mem_nil, or_false] at htag
  rcases htag with rfl | rfl | rfl <;> rfl

/-- The type that a line names in its return tag. -/
theorem returnOfLine?_tag {lead gap rest : List Char} {tag : String} {c : Char}
    (hlead : IsLead lead) (htag : tag ∈ returnTags) (hgap : gap ≠ [])
    (hblank : ∀ b ∈ gap, isBlank b = true) (hc : isBlank c = false) :
    returnOfLine? (lead ++ tag.toList ++ gap ++ c :: rest) =
      some (typeToken 0 (dropEndWhile isBlank (c :: rest))) := by
  obtain ⟨b, gap, rfl⟩ := List.exists_cons_of_ne_nil hgap
  have hhead : (tag.toList ++ ((b :: gap) ++ c :: rest)).head? = some '@' := by
    rw [List.head?_append, head?_tag htag, Option.some_or]
  have hsaid : said (lead ++ tag.toList ++ (b :: gap) ++ c :: rest) =
      tag.toList ++ (b :: gap ++ dropEndWhile isBlank (c :: rest)) := by
    rw [List.append_assoc, List.append_assoc, said_append hlead hhead (by decide) (by decide),
      ← List.append_assoc, dropEndWhile_append ⟨c, List.mem_cons_self, hc⟩, List.append_assoc]
  obtain ⟨more, hmore⟩ := List.head?_eq_some_iff.mp
    (head?_dropEndWhile (List.head?_cons (a := c) (l := rest)) hc)
  have htype : (b :: (gap ++ dropEndWhile isBlank (c :: rest))).dropWhile isBlank =
      dropEndWhile isBlank (c :: rest) := by
    rw [← List.cons_append, List.dropWhile_append_of_pos hblank, hmore,
      List.dropWhile_cons_of_neg (by simp [hc])]
  rw [returnOfLine?_eq, hsaid, findSome?_tag htag]
  simp only [List.cons_append, htype]
  rw [hblank b List.mem_cons_self, hmore]
  rfl

/-- A tag with nothing but blanks behind it names no type. -/
theorem returnOfLine?_bare {lead blanks : List Char} {tag : String} (hlead : IsLead lead)
    (htag : tag ∈ returnTags) (hblank : ∀ b ∈ blanks, isBlank b = true) :
    returnOfLine? (lead ++ (tag.toList ++ blanks)) = none := by
  have hhead : (tag.toList ++ blanks).head? = some '@' := by
    rw [List.head?_append, head?_tag htag, Option.some_or]
  have hlast : ∀ tag ∈ returnTags, dropEndWhile isBlank tag.toList = tag.toList := by decide
  have hsaid : said (lead ++ (tag.toList ++ blanks)) = tag.toList ++ [] := by
    rw [said_append hlead hhead (by decide) (by decide), dropEndWhile_append_of_forall hblank,
      hlast tag htag, List.append_nil]
  rw [returnOfLine?_eq, hsaid, findSome?_tag htag]

/-- Only a line that holds a tag names a type. -/
theorem holdsTag_of_returnOfLine? {line type : List Char} (h : returnOfLine? line = some type) :
    HoldsTag line := by
  rw [returnOfLine?_eq] at h
  split at h
  · rename_i b rest hfind
    split at h
    · rename_i hnamed
      obtain ⟨tag, htag, hstrip⟩ := List.exists_of_findSome?_eq_some hfind
      rw [Bool.and_eq_true, Bool.not_eq_true', List.isEmpty_eq_false_iff] at hnamed
      obtain ⟨c, more, htype⟩ := List.exists_cons_of_ne_nil hnamed.2
      have hc : isBlank c = false := by
        have hhead := List.head?_dropWhile_not isBlank (b :: rest)
        rw [htype] at hhead
        simpa using hhead
      obtain ⟨lead, back, hline, hlead⟩ := exists_of_said line
      have hrest : b :: rest = (b :: rest).takeWhile isBlank ++ c :: more := by
        rw [← htype, List.takeWhile_append_dropWhile]
      refine ⟨lead, tag, (b :: rest).takeWhile isBlank, c, more ++ back, ?_, hlead, htag, ?_,
        fun s hs => List.mem_takeWhile_imp hs, hc⟩
      · rw [stripHead?_eq_some.mp hstrip, hrest] at hline
        simpa only [List.append_assoc, List.cons_append] using hline
      · rw [List.takeWhile_cons_of_pos hnamed.1]
        exact List.cons_ne_nil _ _
    · cases h
  · cases h

theorem holdsTag_iff {line : List Char} : HoldsTag line ↔ (returnOfLine? line).isSome = true := by
  constructor
  · rintro ⟨lead, tag, gap, c, rest, rfl, hlead, htag, hgap, hblank, hc⟩
    rw [returnOfLine?_tag hlead htag hgap hblank hc]
    rfl
  · intro h
    obtain ⟨type, htype⟩ := Option.isSome_iff_exists.mp h
    exact holdsTag_of_returnOfLine? htype

instance (line : List Char) : Decidable (HoldsTag line) := decidable_of_iff _ holdsTag_iff.symm

theorem findSome?_of_untagged {lines : List (List Char)} (h : ∀ line ∈ lines, ¬ HoldsTag line) :
    lines.findSome? returnOfLine? = none := by
  rw [List.findSome?_eq_none_iff]
  intro line hline
  have huntagged := mt holdsTag_iff.mpr (h line hline)
  rwa [Option.not_isSome_iff_eq_none] at huntagged

/-! ### Comments -/

/-- A doc comment around the types that its first return tag names. Lines that hold no tag stand in
front of the line with the tag; the types may have something behind them, after a blank. -/
structure TaggedComment where
  before : List Char
  lead : List Char
  tag : String
  gap : List Char
  behind : List Char
  after : List Char
  before_ended : before = [] ∨ before.getLast? = some '\n'
  untagged : ∀ line ∈ lines before, ¬ HoldsTag line
  isLead : IsLead lead
  tag_mem : tag ∈ returnTags
  gap_ne_nil : gap ≠ []
  gap_blank : ∀ c ∈ gap, isBlank c = true
  behind_spaced : ∀ c, behind.head? = some c → isBlank c = true
  oneLine : '\n' ∉ lead ++ gap ++ behind
  after_broken : ∀ c, after.head? = some c → c = '\n'

namespace TaggedComment

variable (comment : TaggedComment)

/-- The line with the tag when it names a type. -/
def tagLine (type : List Char) : List Char :=
  comment.lead ++ comment.tag.toList ++ comment.gap ++ (type ++ comment.behind)

/-- The comment when its tag names these types, with bars in between. -/
def text (types : List String) : String :=
  String.ofList ("/**".toList ++ (comment.before ++
    (comment.tagLine (join ['|'] (types.map String.toList)) ++ comment.after)) ++ "*/".toList)

theorem inner_text (types : List String) :
    inner (comment.text types).toList =
      comment.before ++ (comment.tagLine (join ['|'] (types.map String.toList)) ++
        comment.after) := by
  rw [text, String.toList_ofList]
  generalize comment.before ++ _ = body
  have hopening : "/**".toList = ['/', '*', '*'] := rfl
  have hclosing : "*/".toList = ['*', '/'] := rfl
  have hlast : ("/**".toList ++ body ++ "*/".toList).getLast? = some '/' := by
    rw [hclosing, List.getLast?_append]
    rfl
  have htrim : trim isBlank ("/**".toList ++ body ++ "*/".toList) =
      "/**".toList ++ body ++ "*/".toList :=
    trim_of_ends rfl (by decide) hlast (by decide)
  have hopened : stripHead? ['/', '*', '*'] ("/**".toList ++ body ++ "*/".toList) =
      some (body ++ "*/".toList) := by
    rw [stripHead?_eq_some, List.append_assoc, hopening]
  rw [inner, htrim, hopened, Option.getD_some, hclosing, stripTail?_eq_some.mpr rfl,
    Option.getD_some]

variable {comment} {types : List String}

/-- The line with the tag names the type that is written there. -/
theorem returnOfLine?_tagLine {type : List Char} (hne : type ≠ []) (htype : IsToken type) :
    returnOfLine? (comment.tagLine type) = some type := by
  obtain ⟨c, cs, rfl⟩ := List.exists_cons_of_ne_nil hne
  have hkept : dropEndWhile isBlank (c :: cs ++ comment.behind) =
      c :: cs ++ dropEndWhile isBlank comment.behind := by
    -- If only blanks are behind the type, the trimming comes up to the type itself.
    by_cases hbehind : ∀ b ∈ comment.behind, isBlank b = true
    · obtain ⟨front, last, hlast⟩ := (List.eq_nil_or_concat' (c :: cs)).resolve_left hne
      rw [hlast] at htype ⊢
      rw [dropEndWhile_append_of_forall hbehind, dropEndWhile_eq_nil_iff.mpr hbehind,
        dropEndWhile_of_getLast? List.getLast?_concat htype.last, List.append_nil]
    · push Not at hbehind
      obtain ⟨b, hb, hblank⟩ := hbehind
      exact dropEndWhile_append ⟨b, hb, by simpa using hblank⟩
  have hspaced : ∀ b, (dropEndWhile isBlank comment.behind).head? = some b →
      isBlank b = true := by
    intro b hb
    obtain ⟨dropped, hbehind, -⟩ := exists_of_dropEndWhile isBlank comment.behind
    refine comment.behind_spaced b ?_
    rw [hbehind, List.head?_append, hb, Option.some_or]
  rw [tagLine, List.cons_append, returnOfLine?_tag comment.isLead comment.tag_mem comment.gap_ne_nil
    comment.gap_blank htype.head, ← List.cons_append, hkept, htype.typeToken_append hspaced]

theorem not_mem_tagLine {type : List Char} (htype : '\n' ∉ type) : '\n' ∉ comment.tagLine type := by
  have houter := comment.oneLine
  simp only [List.mem_append, not_or] at houter
  have htag : ∀ tag ∈ returnTags, '\n' ∉ tag.toList := by decide
  simp only [tagLine, List.mem_append, not_or]
  exact ⟨⟨⟨houter.1.1, htag _ comment.tag_mem⟩, houter.1.2⟩, htype, houter.2⟩

/-- What the comment names is what the line with the tag names, or else what a later line does. -/
theorem returnType?_text_eq (hline : '\n' ∉ join ['|'] (types.map String.toList)) :
    returnType? (comment.text types) =
      ((returnOfLine? (comment.tagLine (join ['|'] (types.map String.toList)))).or
        ((lines comment.after.tail).findSome? returnOfLine?)).map String.ofList := by
  generalize htype : join ['|'] (types.map String.toList) = type
  have hne : comment.tagLine type ≠ [] := by
    have hgap := comment.gap_ne_nil
    simp [tagLine, hgap]
  obtain ⟨first, hlines, hfirst⟩ :=
    exists_lines_eq_cons hne (not_mem_tagLine (htype ▸ hline)) comment.after_broken
  have hsame : returnOfLine? first = returnOfLine? (comment.tagLine type) := by
    rcases hfirst with hsame | hreturn
    · rw [hsame]
    · rw [hreturn, returnOfLine?_eq, returnOfLine?_eq, said_concat (by decide)]
  rw [returnType?, inner_text, htype, lines_append_of_ended comment.before_ended,
    List.findSome?_append, findSome?_of_untagged comment.untagged, Option.none_or, hlines,
    List.findSome?_cons, hsame]
  cases returnOfLine? (comment.tagLine type) <;> rfl

/-- The comment names the types that are written in its tag. -/
theorem returnType?_text (hne : types ≠ []) (htypes : ∀ type ∈ types, IsUnionPart type.toList) :
    returnType? (comment.text types) =
      some (String.ofList (join ['|'] (types.map String.toList))) := by
  have hparts : ∀ part ∈ types.map String.toList, IsUnionPart part := by
    simpa only [List.forall_mem_map] using htypes
  have htoken : IsToken (join ['|'] (types.map String.toList)) :=
    IsToken.join fun part hpart => (hparts part hpart).toIsToken
  have hwritten : join ['|'] (types.map String.toList) ≠ [] :=
    join_ne_nil (by simpa using hne) fun part hpart => (hparts part hpart).ne_nil
  have hline : '\n' ∉ join ['|'] (types.map String.toList) :=
    not_mem_join (by decide) fun part hpart => (hparts part hpart).unbroken
  rw [returnType?_text_eq hline, returnOfLine?_tagLine hwritten htoken]
  rfl

/-- The tag holds these types. If there are none, nothing else is behind it and no later line holds
a tag. -/
def Holds (comment : TaggedComment) (types : List String) : Prop :=
  types = [] → (∀ c ∈ comment.behind, isBlank c = true) ∧
    ∀ line ∈ lines comment.after.tail, ¬ HoldsTag line

theorem returnType?_text_nil (h : comment.Holds []) : returnType? (comment.text []) = none := by
  obtain ⟨hbehind, hafter⟩ := h rfl
  have hblank : ∀ c ∈ comment.gap ++ comment.behind, isBlank c = true := by
    intro c hc
    exact (List.mem_append.mp hc).elim (comment.gap_blank c) (hbehind c)
  have hline : comment.tagLine [] =
      comment.lead ++ (comment.tag.toList ++ (comment.gap ++ comment.behind)) := by
    simp only [tagLine, List.nil_append, List.append_assoc]
  have hnone : returnOfLine? (comment.tagLine (join ['|'] ([].map String.toList))) = none := by
    rw [List.map_nil, join, hline, returnOfLine?_bare comment.isLead comment.tag_mem hblank]
  rw [returnType?_text_eq (by decide), hnone, Option.none_or, findSome?_of_untagged hafter]
  rfl

end TaggedComment

end DocComment

end StaticReflection
