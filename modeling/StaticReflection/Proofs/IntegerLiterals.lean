import Mathlib.Data.List.Induction
import Mathlib.Data.Nat.Digits.Lemmas
import Mathlib.Tactic.IntervalCases
import Mathlib.Tactic.Ring
import StaticReflection.Proofs.NumericStrings

/-!
Integer literals. A whole number is written in decimal, hexadecimal, binary or octal notation, with
digits and marks of either case and with underscores between the digits. The literal is read as that
number as long as it fits into 64 bits. A decimal literal that does not fit is a double, and one of
another notation is no number at all.
-/

namespace StaticReflection.Number

/-- The notations of whole numbers. An octal number has a mark behind its first zero or has none. -/
inductive Radix where
  | decimal
  | hexadecimal
  | binary
  | octal
  | leadingZero
  deriving DecidableEq, Repr

namespace Radix

def base : Radix → Nat
  | .decimal => 10
  | .hexadecimal => 16
  | .binary => 2
  | .octal | .leadingZero => 8

/-- The letter between the first zero and the digits. -/
def mark? : Radix → Option Char
  | .hexadecimal => some 'x'
  | .binary => some 'b'
  | .octal => some 'o'
  | .decimal | .leadingZero => none

end Radix

/-- Digits of a base, the highest first, with any number of underscores between two of them. -/
inductive SpellsDigits (base : Nat) : List Nat → List Char → Prop
  | last {d : Nat} {c : Char} (hd : d < base) (hc : c.toLower = d.digitChar) :
    SpellsDigits base [d] [c]
  | next {d : Nat} {c : Char} {ds : List Nat} {cs : List Char} (hd : d < base)
    (hc : c.toLower = d.digitChar) (gap : Nat) (h : SpellsDigits base ds cs) :
    SpellsDigits base (d :: ds) (c :: (List.replicate gap '_' ++ cs))

/-- How a whole number is written in a notation. Decimal numbers other than zero start with no
zero. -/
inductive Radix.Writes : Radix → Nat → List Char → Prop
  | decimal {ds : List Nat} {cs : List Char} (h : SpellsDigits 10 ds cs)
    (hzero : ds.head? = some 0 → ds = [0]) : Writes .decimal (Nat.ofDigits 10 ds.reverse) cs
  | marked {radix : Radix} {mark letter : Char} {ds : List Nat} {cs : List Char}
    (hmark : radix.mark? = some mark) (hletter : letter.toLower = mark)
    (h : SpellsDigits radix.base ds cs) :
    Writes radix (Nat.ofDigits radix.base ds.reverse) ('0' :: letter :: cs)
  | leadingZero {ds : List Nat} {cs : List Char} (gap : Nat) (h : SpellsDigits 8 ds cs) :
    Writes .leadingZero (Nat.ofDigits 8 ds.reverse) ('0' :: (List.replicate gap '_' ++ cs))

/-! ### Digits -/

theorem Radix.base_le (radix : Radix) : radix.base ≤ 16 := by
  cases radix <;> decide

theorem digitValue?_digitChar {base d : Nat} (hd : d < base) (hbase : base ≤ 16) :
    digitValue? base d.digitChar = some d := by
  have hdigit : d < 16 := by omega
  interval_cases d <;> simp [digitValue?, Nat.digitChar, Option.filter, hd]

theorem digitChar_ne_underscore : ∀ d < 16, d.digitChar ≠ '_' := by decide

/-- A digit of either case is no underscore. -/
theorem ne_underscore_of_digit {c : Char} {d : Nat} (hd : d < 16)
    (hc : c.toLower = d.digitChar) : (c != '_') = true := by
  rw [bne_iff_ne]
  rintro rfl
  exact digitChar_ne_underscore d hd hc.symm

theorem readDigitsFrom_digitChar {base : Nat} (hbase : base ≤ 16) {ds : List Nat}
    (h : ∀ d ∈ ds, d < base) (n : Nat) :
    readDigitsFrom base n (ds.map Nat.digitChar) =
      some (base ^ ds.length * n + Nat.ofDigits base ds.reverse) := by
  induction ds generalizing n with
  | nil => simp [readDigitsFrom]
  | cons d ds ih =>
    rw [List.map_cons, readDigitsFrom, digitValue?_digitChar (h d List.mem_cons_self) hbase]
    simp only
    rw [ih fun e he => h e (List.mem_cons_of_mem d he)]
    rw [Nat.ofDigits_reverse_cons, List.length_cons]
    congr 1
    ring

namespace SpellsDigits

variable {base : Nat} {ds : List Nat} {cs : List Char}

theorem lt_base (h : SpellsDigits base ds cs) : ∀ d ∈ ds, d < base := by
  induction h with
  | last hd => simpa using hd
  | next hd _ _ _ ih => simpa using ⟨hd, ih⟩

theorem ne_nil (h : SpellsDigits base ds cs) : ds ≠ [] := by
  cases h <;> simp

/-- Without the underscores and in small letters, the digits are those of the numbers. -/
theorem lower_filter (h : SpellsDigits base ds cs) (hbase : base ≤ 16) :
    Text.lower (cs.filter (· != '_')) = ds.map Nat.digitChar := by
  induction h with
  | last hd hc =>
    rw [List.filter_cons, if_pos (ne_underscore_of_digit (by omega) hc)]
    simp [Text.lower, hc]
  | next hd hc gap _ ih =>
    rw [List.filter_cons, if_pos (ne_underscore_of_digit (by omega) hc), List.filter_append]
    have hgap : (List.replicate gap '_').filter (· != '_') = [] := by simp
    rw [hgap, List.nil_append, Text.lower, List.map_cons, hc, List.map_cons]
    exact congrArg _ ih

theorem readDigits?_eq (h : SpellsDigits base ds cs) (hbase : base ≤ 16) :
    readDigits? base (ds.map Nat.digitChar) = some (Nat.ofDigits base ds.reverse) := by
  have hne : (ds.map Nat.digitChar).isEmpty = false := by simp [h.ne_nil]
  rw [readDigits?, hne, if_neg (by decide), readDigitsFrom_digitChar hbase h.lt_base]
  simp

theorem ofDigits?_eq (h : SpellsDigits base ds cs) (hbase : base ≤ 16) :
    ofDigits? base (ds.map Nat.digitChar) =
      (toInt64? (Nat.ofDigits base ds.reverse : Nat)).map .int := by
  rw [ofDigits?, h.readDigits?_eq hbase, Option.bind_some]

end SpellsDigits

/-- Digits without a zero in front are those that the number is printed with. -/
theorem natText_ofDigits {ds : List Nat} (h : ∀ d ∈ ds, d < 10) (hne : ds ≠ [])
    (hzero : ds.head? = some 0 → ds = [0]) :
    natText (Nat.ofDigits 10 ds.reverse) = ds.map Nat.digitChar := by
  have hzeroChar : ∀ d < 10, d.digitChar = '0' → d = 0 := by decide
  induction ds using List.reverseRecOn with
  | nil => exact absurd rfl hne
  | append_singleton higher d ih =>
    have hd : d < 10 := h d (by simp)
    rw [List.reverse_append, List.reverse_singleton, List.singleton_append, Nat.ofDigits_cons,
      List.map_append, List.map_singleton]
    cases higher with
    | nil =>
      rw [List.reverse_nil, Nat.ofDigits_nil, Nat.mul_zero, Nat.add_zero, natText,
        Nat.toDigits_of_lt_base (by omega)]
      rfl
    | cons first more =>
      have hfirst : first ≠ 0 := by
        rintro rfl
        simpa using congrArg List.length (hzero rfl)
      have hhigher := ih (fun e he => h e (List.mem_append_left _ he)) (List.cons_ne_nil _ _)
        fun hhead => absurd (Option.some.inj hhead) hfirst
      have hpos : Nat.ofDigits 10 (first :: more).reverse ≠ 0 := by
        intro hnone
        rw [hnone] at hhigher
        have hchar : '0' = first.digitChar := (List.cons.inj hhigher).1
        exact hfirst (hzeroChar first (h first (by simp)) hchar.symm)
      rw [natText, Nat.toDigits_of_base_le (by decide) (by omega), ← hhigher]
      congr 3 <;> omega

/-! ### Literals -/

/-- Underscores and the case of letters do not count in a literal. -/
theorem ofLiteral?_congr {a b : String} (h : Text.lower (a.toList.filter (· != '_')) =
    Text.lower (b.toList.filter (· != '_'))) : ofLiteral? a = ofLiteral? b := by
  rw [ofLiteral?, ofLiteral?, h]

theorem Radix.ne_underscore_of_mark {radix : Radix} {mark letter : Char}
    (hmark : radix.mark? = some mark) (hletter : letter.toLower = mark) :
    (letter != '_') = true := by
  rw [bne_iff_ne]
  rintro rfl
  cases radix <;> cases hmark <;> cases hletter

/-- Digits behind a zero are octal. -/
theorem ofLiteral?_of_leadingZero {text : String} {c : Char} {cs : List Char}
    (hlower : Text.lower (text.toList.filter (· != '_')) = '0' :: c :: cs)
    (hdigits : ∀ d ∈ c :: cs, d.isDigit = true) : ofLiteral? text = ofDigits? 8 (c :: cs) := by
  rw [ofLiteral?, hlower]
  split
  case h_4 _ heq =>
    cases heq
    rw [if_pos (List.all_eq_true.mpr hdigits)]
  case h_5 _ hother => exact absurd rfl (hother c cs)
  all_goals
    rename_i heq
    cases heq
    cases hdigits _ List.mem_cons_self

/-- What a literal of a whole number is read as. -/
theorem ofLiteral?_of_writes {radix : Radix} {n : Nat} {text : String}
    (h : radix.Writes n text.toList) :
    ofLiteral? text = match toInt64? n with
      | some i => some (.int i)
      | none => if radix = .decimal then some (.float (wholeNumber n).toFloat) else none := by
  generalize hcs : text.toList = cs at h
  cases h with
  | @decimal ds cs h hzero =>
    have hprinted := natText_ofDigits h.lt_base h.ne_nil hzero
    have hread : ofLiteral? text =
        ofLiteral? (String.ofList (natText (Nat.ofDigits 10 ds.reverse))) := by
      refine ofLiteral?_congr ?_
      rw [hcs, h.lower_filter (by decide), String.toList_ofList, filter_natText, lower_natText,
        hprinted]
    rw [hread, ofLiteral?_natText]
    cases toInt64? (Nat.ofDigits 10 ds.reverse : Nat) <;> rfl
  | @marked _ mark letter ds cs hmark hletter h =>
    have hlower : Text.lower (text.toList.filter (· != '_')) =
        '0' :: mark :: ds.map Nat.digitChar := by
      rw [hcs, List.filter_cons, if_pos (by decide), List.filter_cons,
        if_pos (Radix.ne_underscore_of_mark hmark hletter), ← h.lower_filter radix.base_le,
        ← hletter]
      rfl
    have hdigits := h.ofDigits?_eq radix.base_le
    rw [ofLiteral?, hlower]
    cases radix with
    | decimal | leadingZero => cases hmark
    | hexadecimal | binary | octal =>
      cases hmark
      refine hdigits.trans ?_
      cases toInt64? (Nat.ofDigits _ ds.reverse : Nat) <;> rfl
  | @leadingZero ds cs gap h =>
    have hgap : (List.replicate gap '_').filter (· != '_') = [] := by simp
    have hlower : Text.lower (text.toList.filter (· != '_')) = '0' :: ds.map Nat.digitChar := by
      rw [hcs, List.filter_cons, if_pos (by decide), List.filter_append, hgap, List.nil_append,
        ← h.lower_filter (by decide)]
      rfl
    have hdigits := h.ofDigits?_eq (by decide)
    obtain ⟨d, more, rfl⟩ := List.exists_cons_of_ne_nil h.ne_nil
    have hall : ∀ c ∈ d.digitChar :: more.map Nat.digitChar, c.isDigit = true := by
      intro c hc
      obtain ⟨e, he, rfl⟩ := List.mem_map.mp (List.map_cons ▸ hc)
      have hlt := h.lt_base e he
      rw [Nat.isDigit_digitChar, decide_eq_true_eq]
      omega
    rw [ofLiteral?_of_leadingZero hlower hall, ← List.map_cons, hdigits]
    cases toInt64? (Nat.ofDigits 8 (d :: more).reverse : Nat) <;> rfl

theorem isSome_toInt64?_iff (n : Nat) : (toInt64? n).isSome = true ↔ n < 2 ^ 63 := by
  have hmin : Int64.minValue.toInt = -2 ^ 63 := by decide
  have hmax : Int64.maxValue.toInt = 2 ^ 63 - 1 := by decide
  rw [toInt64?, hmin, hmax, Option.isSome_ite]
  omega

theorem toLower_digitChar : ∀ d < 16, d.digitChar.toLower = d.digitChar := by decide

theorem spellsDigits_digitChar {base : Nat} (hbase : base ≤ 16) {ds : List Nat} (hne : ds ≠ [])
    (h : ∀ d ∈ ds, d < base) : SpellsDigits base ds (ds.map Nat.digitChar) := by
  induction ds with
  | nil => exact absurd rfl hne
  | cons d ds ih =>
    have hd : d < base := h d List.mem_cons_self
    have hc : d.digitChar.toLower = d.digitChar := toLower_digitChar d (by omega)
    by_cases hlast : ds = []
    · subst hlast
      exact .last hd hc
    · exact .next hd hc 0 (ih hlast fun e he => h e (List.mem_cons_of_mem d he))

/-- The digits of a number in a base: none but the only one is a zero in front. -/
theorem exists_digits {base : Nat} (hbase : 1 < base) (n : Nat) :
    ∃ ds, ds ≠ [] ∧ (∀ d ∈ ds, d < base) ∧ (ds.head? = some 0 → ds = [0]) ∧
      Nat.ofDigits base ds.reverse = n := by
  by_cases hn : n = 0
  · exact ⟨[0], by simp, by simpa using Nat.lt_of_succ_lt hbase, fun _ => rfl, by simp [hn]⟩
  · have hne : Nat.digits base n ≠ [] := Nat.digits_ne_nil_iff_ne_zero.mpr hn
    refine ⟨(Nat.digits base n).reverse, by simpa using hne, ?_, ?_, ?_⟩
    · exact fun d hd => Nat.digits_lt_base hbase (List.mem_reverse.mp hd)
    · intro hhead
      rw [List.head?_reverse, List.getLast?_eq_some_getLast hne, Option.some.injEq] at hhead
      exact absurd hhead (Nat.getLast_digit_ne_zero base hn)
    · rw [List.reverse_reverse, Nat.ofDigits_digits]

/-- Every whole number can be written in every notation. -/
theorem Radix.exists_writes (radix : Radix) (n : Nat) : ∃ cs, radix.Writes n cs := by
  have hbase : 1 < radix.base := by cases radix <;> decide
  obtain ⟨ds, hne, hlt, hzero, rfl⟩ := exists_digits hbase n
  have hspells := spellsDigits_digitChar radix.base_le hne hlt
  cases radix with
  | decimal => exact ⟨_, .decimal hspells hzero⟩
  | leadingZero => exact ⟨_, .leadingZero 0 hspells⟩
  | hexadecimal => exact ⟨'0' :: 'x' :: _, .marked rfl rfl hspells⟩
  | binary => exact ⟨'0' :: 'b' :: _, .marked rfl rfl hspells⟩
  | octal => exact ⟨'0' :: 'o' :: _, .marked rfl rfl hspells⟩

/-- Every whole number has a literal in every notation, and each such literal is read as the number
if that fits into 64 bits. If it does not fit, the literal is never read as an integer: a decimal
one is the double next to the number, and any other has no value. -/
theorem integer_literals_read (radix : Radix) (n : Nat) :
    (∃ cs, radix.Writes n cs) ∧ ∀ text : String, radix.Writes n text.toList →
      (n < 2 ^ 63 → ∃ i : Int64, ofLiteral? text = some (.int i) ∧ i.toInt = n) ∧
      (2 ^ 63 ≤ n → (∀ i : Int64, ofLiteral? text ≠ some (.int i)) ∧
        ofLiteral? text =
          if radix = .decimal then some (.float (wholeNumber n).toFloat) else none) := by
  refine ⟨radix.exists_writes n, fun text h => ⟨fun hfits => ?_, fun hlarge => ?_⟩⟩
  · obtain ⟨i, hi⟩ := Option.isSome_iff_exists.mp ((isSome_toInt64?_iff n).mpr hfits)
    rw [ofLiteral?_of_writes h, hi]
    exact ⟨i, rfl, toInt_of_toInt64? hi⟩
  · have hnone : toInt64? n = none := by
      rw [← Option.not_isSome_iff_eq_none, isSome_toInt64?_iff]
      omega
    have hread : ofLiteral? text =
        if radix = .decimal then some (.float (wholeNumber n).toFloat) else none := by
      rw [ofLiteral?_of_writes h, hnone]
    refine ⟨fun i => ?_, hread⟩
    rw [hread]
    split <;> simp

/-- A hexadecimal literal with letters of both cases and an underscore. -/
theorem integer_literals_read_hexadecimal :
    Radix.hexadecimal.Writes 65535 "0XfF_Ff".toList ∧
      ∃ i : Int64, ofLiteral? "0XfF_Ff" = some (.int i) ∧ i.toInt = 65535 := by
  have hdigit : 15 < Radix.hexadecimal.base := by decide
  have hdigits : SpellsDigits Radix.hexadecimal.base [15, 15, 15, 15] "fF_Ff".toList :=
    .next hdigit rfl 0 (.next hdigit rfl 1 (.next hdigit rfl 0 (.last hdigit rfl)))
  have hwrites : Radix.hexadecimal.Writes 65535 ('0' :: 'X' :: "fF_Ff".toList) :=
    .marked rfl rfl hdigits
  exact ⟨hwrites, ((integer_literals_read .hexadecimal 65535).2 "0XfF_Ff" hwrites).1 (by decide)⟩

end StaticReflection.Number
