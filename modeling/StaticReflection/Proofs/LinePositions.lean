import Mathlib.Data.List.Basic
import Mathlib.Data.Prod.Lex
import Mathlib.Order.Monotone.Basic
import StaticReflection.Text.Position

/-!
Lines and columns against the bytes of a text. A line feed is one byte, and no other character has
that byte in it, so the table of a text holds the offsets behind its line feeds in ascending order.
The line of an offset counts the line feeds before it, and its column is counted from the last of
them, where that count is a word. Taken together they are in the order of the offsets, within the
text and past its end.
-/

namespace StaticReflection

namespace Text

/-- If all that passes a test stands in front of all that does not, it is the longest prefix that
passes. -/
theorem takeWhile_eq_filter {α : Type} {p : α → Bool} {l : List α}
    (h : l.Pairwise fun a b => p b = true → p a = true) : l.takeWhile p = l.filter p := by
  induction l with
  | nil => rfl
  | cons x l ih =>
    obtain ⟨hx, hl⟩ := List.pairwise_cons.mp h
    by_cases hfirst : p x = true
    · rw [List.takeWhile_cons_of_pos hfirst, List.filter_cons_of_pos hfirst, ih hl]
    · have hnone : l.filter p = [] :=
        List.filter_eq_nil_iff.mpr fun y hy hpass => hfirst (hx y hy hpass)
      rw [List.takeWhile_cons_of_neg hfirst, List.filter_cons_of_neg hfirst, hnone]

/-! ### Line feeds -/

/-- The byte of a line feed. -/
def lineFeed : UInt8 := 10

/-- A character that is no line feed has none among its bytes: all bytes of longer encodings are at
least 128. -/
theorem lineFeed_not_mem {c : Char} (h : c ≠ '\n') : lineFeed ∉ String.utf8EncodeChar c := by
  have hbyte : ∀ v : Nat, lineFeed = UInt8.ofNat v ↔ v % 256 = 10 := by
    intro v
    rw [eq_comm, ← UInt8.toNat_inj, UInt8.toNat_ofNat']
    rfl
  have hval : c.val.toNat ≠ 10 := fun hval => h (Char.ext (UInt32.toNat_inj.mp hval))
  fun_cases String.utf8EncodeChar c <;>
    simp only [List.mem_cons, List.not_mem_nil, or_false, hbyte] <;> omega

/-- The offsets behind the line feeds of some bytes, of which the first has the offset `n`. -/
def startsBehind : Nat → List UInt8 → List Nat
  | _, [] => []
  | n, b :: rest =>
    if b = lineFeed then (n + 1) :: startsBehind (n + 1) rest else startsBehind (n + 1) rest

theorem startsBehind_append {front : List UInt8} (h : lineFeed ∉ front) (n : Nat)
    (rest : List UInt8) :
    startsBehind n (front ++ rest) = startsBehind (n + front.length) rest := by
  induction front generalizing n with
  | nil => rfl
  | cons b front ih =>
    rw [List.mem_cons, not_or] at h
    rw [List.cons_append, startsBehind, if_neg (Ne.symm h.1), ih h.2, List.length_cons]
    congr 1
    omega

/-- Lines start behind the bytes of line feeds. -/
theorem lineStartsFrom_eq (n : Nat) (cs : List Char) :
    lineStartsFrom n cs = startsBehind n (bytes cs) := by
  induction cs generalizing n with
  | nil => rfl
  | cons c cs ih =>
    have hbytes : bytes (c :: cs) = String.utf8EncodeChar c ++ bytes cs := List.flatMap_cons
    rw [lineStartsFrom, hbytes]
    split
    · rename_i hc
      subst hc
      rw [ih]
      rfl
    · rename_i hc
      rw [ih, startsBehind_append (lineFeed_not_mem hc), String.length_utf8EncodeChar]
      rfl

theorem mem_startsBehind {n x : Nat} {bs : List UInt8} :
    x ∈ startsBehind n bs ↔ ∃ i, x = n + i + 1 ∧ bs[i]? = some lineFeed := by
  induction bs generalizing n with
  | nil => simp [startsBehind]
  | cons b rest ih =>
    have hrest : (∃ i, x = n + i + 1 ∧ (b :: rest)[i]? = some lineFeed) ↔
        (x = n + 1 ∧ b = lineFeed) ∨ x ∈ startsBehind (n + 1) rest := by
      rw [ih]
      constructor
      · rintro ⟨_ | i, hx, hi⟩
        · exact .inl ⟨hx, by simpa using hi⟩
        · exact .inr ⟨i, by omega, by simpa using hi⟩
      · rintro (⟨hx, hb⟩ | ⟨i, hx, hi⟩)
        · exact ⟨0, hx, by simpa using hb⟩
        · exact ⟨i + 1, by omega, by simpa using hi⟩
    rw [hrest, startsBehind]
    split
    · rename_i hb
      simp [hb]
    · rename_i hb
      simp [hb]

theorem startsBehind_ascending (n : Nat) (bs : List UInt8) :
    (startsBehind n bs).Pairwise (· < ·) := by
  induction bs generalizing n with
  | nil => exact .nil
  | cons b rest ih =>
    rw [startsBehind]
    split
    · refine .cons (fun x hx => ?_) (ih (n + 1))
      obtain ⟨i, rfl, -⟩ := mem_startsBehind.mp hx
      omega
    · exact ih (n + 1)

/-- As many lines start up to a limit as there are line feeds before it. -/
theorem length_takeWhile_startsBehind (n limit : Nat) (bs : List UInt8) :
    ((startsBehind n bs).takeWhile (· ≤ limit)).length =
      (bs.take (limit - n)).count lineFeed := by
  induction bs generalizing n with
  | nil => simp [startsBehind]
  | cons b rest ih =>
    rw [startsBehind]
    by_cases hlimit : n + 1 ≤ limit
    · have htake : limit - n = limit - (n + 1) + 1 := by omega
      rw [htake, List.take_succ_cons, List.count_cons, ← ih]
      by_cases hb : b = lineFeed
      · rw [if_pos hb, List.takeWhile_cons_of_pos (by simpa using hlimit)]
        simp [hb]
      · simp [hb]
    · have htake : limit - n = 0 := by omega
      have hrest : limit - (n + 1) = 0 := by omega
      rw [htake, List.take_zero, List.count_nil]
      split
      · rw [List.takeWhile_cons_of_neg (by simpa using hlimit), List.length_nil]
      · rw [ih, hrest, List.take_zero, List.count_nil]

/-! ### Where a line starts -/

/-- Where the line of an offset starts: behind the last line feed before it, or with the text. -/
structure IsLineStart (bs : List UInt8) (offset start : Nat) : Prop where
  le : start ≤ offset
  opens : start = 0 ∨ ∃ i, start = i + 1 ∧ bs[i]? = some lineFeed
  unbroken : ∀ i, start ≤ i → i < offset → bs[i]? ≠ some lineFeed

namespace IsLineStart

variable {bs : List UInt8} {offset start other : Nat}

theorem le_of_le (h : IsLineStart bs offset start) (h' : IsLineStart bs offset other) :
    other ≤ start := by
  by_contra hlt
  rcases h'.opens with rfl | ⟨i, rfl, hi⟩
  · omega
  · have hle := h'.le
    exact h.unbroken i (by omega) (by omega) hi

theorem unique (h : IsLineStart bs offset start) (h' : IsLineStart bs offset other) :
    start = other :=
  Nat.le_antisymm (h'.le_of_le h) (h.le_of_le h')

/-- Every line but the first starts behind a line feed. -/
theorem pos_iff (h : IsLineStart bs offset start) : 0 < start ↔ lineFeed ∈ bs.take offset := by
  have hmem : lineFeed ∈ bs.take offset ↔ ∃ i, i < offset ∧ bs[i]? = some lineFeed := by
    simp only [List.mem_iff_getElem?, List.getElem?_take, Option.ite_none_right_eq_some]
  rw [hmem]
  constructor
  · intro hpos
    rcases h.opens with rfl | ⟨i, rfl, hi⟩
    · cases hpos
    · exact ⟨i, h.le, hi⟩
  · rintro ⟨i, hlt, hi⟩
    by_contra hzero
    exact h.unbroken i (by omega) hlt hi

end IsLineStart

/-- The offsets that are words and whose columns are words as well: all but the greatest word, if it
is an offset on the first line. -/
structure HasColumn (bs : List UInt8) (offset : Nat) : Prop where
  lt : offset < UInt64.size
  counts : offset + 1 = UInt64.size → lineFeed ∈ bs.take offset

theorem IsLineStart.hasColumn_iff {bs : List UInt8} {offset start : Nat}
    (h : IsLineStart bs offset start) (hoffset : offset < UInt64.size) :
    HasColumn bs offset ↔ 1 + (offset - start) < UInt64.size := by
  have hle := h.le
  constructor
  · rintro ⟨-, hcounts⟩
    rw [← h.pos_iff] at hcounts
    omega
  · intro hlt
    refine ⟨hoffset, fun hlast => h.pos_iff.mp ?_⟩
    omega

/-- Every smaller offset has a column, whatever the text. -/
theorem HasColumn.of_lt {offset : Nat} (h : offset + 1 < UInt64.size) (bs : List UInt8) :
    HasColumn bs offset :=
  ⟨Nat.lt_of_succ_lt h, fun hlast => absurd hlast h.ne⟩

theorem HasColumn.of_le {bs : List UInt8} {a b : Nat} (hb : HasColumn bs b) (hab : a ≤ b) :
    HasColumn bs a := by
  rcases Nat.eq_or_lt_of_le hab with rfl | hlt
  · exact hb
  · exact .of_lt (Nat.lt_of_le_of_lt hlt hb.lt) bs

/-- The last line that starts up to an offset is the one it stands in. -/
theorem isLineStart_last (bs : List UInt8) (offset : Nat) :
    IsLineStart bs offset
      (((startsBehind 0 bs).takeWhile (· ≤ offset)).getLast?.getD 0) := by
  have hmem : ∀ x, x ∈ (startsBehind 0 bs).takeWhile (· ≤ offset) ↔
      (∃ i, x = i + 1 ∧ bs[i]? = some lineFeed) ∧ x ≤ offset := by
    intro x
    have hstarts := (startsBehind_ascending 0 bs).imp fun hlt hle =>
      decide_eq_true (hlt.le.trans (of_decide_eq_true hle) : _ ≤ offset)
    rw [takeWhile_eq_filter hstarts, List.mem_filter, mem_startsBehind]
    simp only [Nat.zero_add, decide_eq_true_eq]
  have hascending := (startsBehind_ascending 0 bs).sublist
    (List.takeWhile_sublist fun x => decide (x ≤ offset))
  generalize (startsBehind 0 bs).takeWhile (· ≤ offset) = starts at hmem hascending ⊢
  rcases List.eq_nil_or_concat' starts with rfl | ⟨before, last, rfl⟩
  · refine ⟨Nat.zero_le offset, .inl rfl, fun i _ hi hfeed => ?_⟩
    exact List.not_mem_nil ((hmem (i + 1)).mpr ⟨⟨i, rfl, hfeed⟩, hi⟩)
  · rw [List.getLast?_concat, Option.getD_some]
    obtain ⟨hopens, hle⟩ := (hmem last).mp (by simp)
    refine ⟨hle, .inr hopens, fun i hstart hi hfeed => ?_⟩
    have hlater := (hmem (i + 1)).mpr ⟨⟨i, rfl, hfeed⟩, hi⟩
    rcases List.mem_append.mp hlater with hbefore | hlast
    · have hlt := (List.pairwise_append.mp hascending).2.2 _ hbefore last (by simp)
      omega
    · have heq := List.mem_singleton.mp hlast
      omega

end Text

/-! ### Positions -/

namespace LineTable

open Text

theorem lineOf_ofText (source : String) (offset : Nat) :
    (ofText source).lineOf offset = 1 + ((bytes source.toList).take offset).count lineFeed := by
  rw [lineOf, ofText, lineStartsFrom_eq, length_takeWhile_startsBehind, Nat.sub_zero]

theorem columnOf_ofText {source : String} {offset start : Nat}
    (h : IsLineStart (bytes source.toList) offset start) :
    (ofText source).columnOf offset = (1 + (offset - start)) % UInt64.size := by
  rw [columnOf, ofText, lineStartsFrom_eq, ← h.unique (isLineStart_last _ _), Nat.add_comm]

/-- A column is the distance from where the line starts, counted from one, if there is one. -/
theorem columnOf_ofText_iff {source : String} {offset start : Nat}
    (h : IsLineStart (bytes source.toList) offset start) (hoffset : offset < UInt64.size) :
    (ofText source).columnOf offset = 1 + (offset - start) ↔
      HasColumn (bytes source.toList) offset := by
  rw [columnOf_ofText h, h.hasColumn_iff hoffset]
  constructor
  · intro hsame
    rw [← hsame]
    exact Nat.mod_lt _ (by decide)
  · exact Nat.mod_eq_of_lt

/-- The line and the column of an offset. They are compared in this order. -/
def placeOf (table : LineTable) (offset : Nat) : ℕ ×ₗ ℕ :=
  toLex (table.lineOf offset, table.columnOf offset)

/-- A later offset is on a later line, or further on in the same line. -/
theorem strictMonoOn_placeOf (source : String) :
    StrictMonoOn (ofText source).placeOf {offset | HasColumn (bytes source.toList) offset} := by
  intro a ha b hb hab
  rw [placeOf, placeOf, Prod.Lex.toLex_lt_toLex, lineOf_ofText, lineOf_ofText]
  have hsplit : (bytes source.toList).take b =
      (bytes source.toList).take a ++ ((bytes source.toList).drop a).take (b - a) := by
    rw [← List.take_add, Nat.add_sub_cancel' hab.le]
  rw [hsplit, List.count_append]
  rcases Nat.eq_zero_or_pos ((((bytes source.toList).drop a).take (b - a)).count lineFeed) with
    hnone | hsome
  · have hstart := isLineStart_last (bytes source.toList) a
    generalize ((startsBehind 0 (bytes source.toList)).takeWhile (· ≤ a)).getLast?.getD 0 = start
      at hstart
    have hbetween : ∀ i, a ≤ i → i < b → (bytes source.toList)[i]? ≠ some lineFeed := by
      intro i hai hib hfeed
      refine List.count_eq_zero.mp hnone (List.mem_of_getElem? (i := i - a) ?_)
      rw [List.getElem?_take_of_lt (by omega), List.getElem?_drop, Nat.add_sub_cancel' hai, hfeed]
    -- Without a line feed between them, both offsets are on the line that starts there.
    have hlater : IsLineStart (bytes source.toList) b start := by
      refine ⟨hstart.le.trans hab.le, hstart.opens, fun i hi hib => ?_⟩
      by_cases hia : i < a
      · exact hstart.unbroken i hi hia
      · exact hbetween i (by omega) hib
    have hle := hstart.le
    right
    rw [(columnOf_ofText_iff hstart ha.lt).mpr ha, (columnOf_ofText_iff hlater hb.lt).mpr hb]
    omega
  · left
    omega

end LineTable

/-- The offset of the last byte that a span covers, or where it starts if it covers none. -/
def Span.lastByte (span : Span) : Nat :=
  if span.start < span.stop then span.stop - 1 else span.start

theorem Span.start_le_lastByte (span : Span) : span.start ≤ span.lastByte := by
  unfold lastByte
  split <;> omega

namespace LineSpan

def firstPlace (lines : LineSpan) : ℕ ×ₗ ℕ := toLex (lines.startLine, lines.startColumn)

def lastPlace (lines : LineSpan) : ℕ ×ₗ ℕ := toLex (lines.endLine, lines.endColumn)

theorem firstPlace_ofSpan (table : LineTable) (span : Span) :
    (ofSpan table span).firstPlace = table.placeOf span.start := rfl

theorem lastPlace_ofSpan (table : LineTable) {span : Span} (h : span.start ≤ span.stop) :
    (ofSpan table span).lastPlace = table.placeOf span.lastByte := by
  have hlast : max (span.stop - 1) span.start = span.lastByte := by
    unfold Span.lastByte
    split <;> omega
  rw [lastPlace, ofSpan, hlast]
  rfl

end LineSpan

namespace LineTable

open Text

end LineTable

end StaticReflection
