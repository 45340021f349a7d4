/-!
Cutting texts into parts. A text is a list of characters here: every function is a recursion over
that list or a composition of list operations, and each cut is pinned down by the equation that
puts the parts together again.
-/

namespace StaticReflection.Text

/-- The text without its longest suffix of characters in `p`. -/
def dropEndWhile (p : Char → Bool) (cs : List Char) : List Char :=
  (cs.reverse.dropWhile p).reverse

/-- The text without the characters in `p` at both ends. -/
def trim (p : Char → Bool) (cs : List Char) : List Char :=
  dropEndWhile p (cs.dropWhile p)

/-- The text before and the text after the first `sep`. -/
def cutFirst (sep : Char) : List Char → Option (List Char × List Char)
  | [] => none
  | c :: cs =>
    if c = sep then some ([], cs)
    else (cutFirst sep cs).map fun (before, after) => (c :: before, after)

/-- The text before and the text after the last `sep`. -/
def cutLast (sep : Char) : List Char → Option (List Char × List Char)
  | [] => none
  | c :: cs =>
    match cutLast sep cs with
    | some (before, after) => some (c :: before, after)
    | none => if c = sep then some ([], cs) else none

/-- The pieces between the separators; one more than there are separators. -/
def pieces (sep : Char) : List Char → List (List Char)
  | [] => [[]]
  | c :: cs =>
    if c = sep then [] :: pieces sep cs
    else
      match pieces sep cs with
      | [] => [[c]]
      | piece :: rest => (c :: piece) :: rest

def join (sep : List Char) : List (List Char) → List Char
  | [] => []
  | [piece] => piece
  | piece :: rest => piece ++ sep ++ join sep rest

def stripHead? : List Char → List Char → Option (List Char)
  | [], cs => some cs
  | _ :: _, [] => none
  | h :: hs, c :: cs => if h = c then stripHead? hs cs else none

/-- The text before `tail`, if the text ends with it. -/
def stripTail? (tail cs : List Char) : Option (List Char) :=
  (stripHead? tail.reverse cs.reverse).map List.reverse

/-- The text before and the text after the first occurrence of `mark`. -/
def cutAt (mark : List Char) : List Char → Option (List Char × List Char)
  | [] => if mark.isEmpty then some ([], []) else none
  | c :: cs =>
    match stripHead? mark (c :: cs) with
    | some after => some ([], after)
    | none => (cutAt mark cs).map fun (before, after) => (c :: before, after)

/-- The lines of a text. A line ends at a line feed, which may follow a carriage return; a last
line that is empty is none. -/
def lines (cs : List Char) : List (List Char) :=
  let pieces := pieces '\n' cs
  let ended := pieces.dropLast.map fun line => (stripTail? ['\r'] line).getD line
  match pieces.getLast? with
  | some (c :: rest) => ended ++ [c :: rest]
  | _ => ended

def lower (cs : List Char) : List Char := cs.map Char.toLower

theorem lower_append (left right : List Char) :
    lower (left ++ right) = lower left ++ lower right := List.map_append

theorem lower_lower (cs : List Char) : lower (lower cs) = lower cs := by
  unfold lower
  rw [List.map_map]
  apply List.map_congr_left
  intro c _
  change c.toLower.toLower = c.toLower
  unfold Char.toLower
  split
  · rw [dif_neg]
    rintro ⟨hlow, hhigh⟩
    simp at *
    grind
  · rfl

/-- No other character has the backslash as its small form. -/
theorem toLower_eq_backslash (c : Char) : (c.toLower == '\\') = (c == '\\') := by
  rw [Bool.eq_iff_iff, beq_iff_eq, beq_iff_eq]
  unfold Char.toLower
  split
  · rename_i hcapital
    constructor
    · intro h
      have hval : c.val + 32 = 92 := congrArg Char.val h
      grind
    · rintro rfl
      revert hcapital
      decide
  · rfl

theorem cutFirst_eq_some {sep : Char} {cs before after : List Char}
    (h : cutFirst sep cs = some (before, after)) :
    cs = before ++ sep :: after ∧ sep ∉ before := by
  induction cs generalizing before after with
  | nil => simp [cutFirst] at h
  | cons c cs ih =>
    by_cases hc : c = sep
    · simp [cutFirst, hc] at h
      obtain ⟨rfl, rfl⟩ := h
      simp [hc]
    · simp only [cutFirst, hc, if_false, Option.map_eq_some_iff] at h
      obtain ⟨⟨b, a⟩, hb, he⟩ := h
      simp only [Prod.mk.injEq] at he
      obtain ⟨rfl, rfl⟩ := he
      obtain ⟨rfl, hn⟩ := ih hb
      exact ⟨rfl, by simp [hn, Ne.symm hc]⟩

theorem cutFirst_eq_none {sep : Char} {cs : List Char} :
    cutFirst sep cs = none ↔ sep ∉ cs := by
  induction cs with
  | nil => simp [cutFirst]
  | cons c cs ih =>
    by_cases hc : c = sep
    · simp [cutFirst, hc]
    · simp [cutFirst, hc, ih, Ne.symm hc]

theorem cutLast_eq_none {sep : Char} {cs : List Char} : cutLast sep cs = none ↔ sep ∉ cs := by
  induction cs with
  | nil => simp [cutLast]
  | cons c cs ih =>
    cases hl : cutLast sep cs with
    | none =>
      have hn := ih.1 hl
      by_cases hc : c = sep
      · simp [cutLast, hl, hc]
      · simpa [cutLast, hl, hc, hn] using fun h => hc h.symm
    | some p =>
      have hm : sep ∈ cs := by
        exact Classical.byContradiction fun hn => by simp [ih.2 hn] at hl
      simp [cutLast, hl, hm]

theorem cutLast_eq_some {sep : Char} {cs before after : List Char}
    (h : cutLast sep cs = some (before, after)) :
    cs = before ++ sep :: after ∧ sep ∉ after := by
  induction cs generalizing before after with
  | nil => simp [cutLast] at h
  | cons c cs ih =>
    cases hl : cutLast sep cs with
    | none =>
      by_cases hc : c = sep
      · simp [cutLast, hl, hc] at h
        obtain ⟨rfl, rfl⟩ := h
        exact ⟨by simp [hc], cutLast_eq_none.1 hl⟩
      · simp [cutLast, hl, hc] at h
    | some p =>
      obtain ⟨b, a⟩ := p
      simp [cutLast, hl] at h
      obtain ⟨rfl, rfl⟩ := h
      obtain ⟨rfl, hn⟩ := ih hl
      exact ⟨rfl, hn⟩

theorem stripHead?_eq_some {head cs rest : List Char} :
    stripHead? head cs = some rest ↔ cs = head ++ rest := by
  induction head generalizing cs with
  | nil => simp [stripHead?, eq_comm]
  | cons h hs ih =>
    cases cs with
    | nil => simp [stripHead?]
    | cons c cs =>
      by_cases hc : h = c
      · simp [stripHead?, hc, ih]
      · simp [stripHead?, hc, Ne.symm hc]

theorem pieces_ne_nil (sep : Char) (cs : List Char) : pieces sep cs ≠ [] := by
  cases cs with
  | nil => simp [pieces]
  | cons c cs =>
    by_cases hc : c = sep
    · simp [pieces, hc]
    · cases hp : pieces sep cs <;> simp [pieces, hc, hp]

end StaticReflection.Text
