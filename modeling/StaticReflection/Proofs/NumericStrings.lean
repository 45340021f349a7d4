import StaticReflection.Proofs.PlainValues

/-!
Numeric strings. A decimal number is an optional sign, digits with an optional point among them or
at one of their ends, and an optional exponent. A string is read as the longest such number behind
its leading blanks; from end to end it is numeric if only blanks follow. The number is an integer if
it has neither point nor exponent and fits into 64 bits, else a double.
-/

namespace StaticReflection.Number

/-! ### Decimal numbers -/

/-- A sign, which may be missing. -/
inductive SpellsSign : Bool → List Char → Prop
  | missing : SpellsSign false []
  | plus : SpellsSign false ['+']
  | minus : SpellsSign true ['-']

/-- A point and the digits behind it, or nothing. -/
inductive SpellsFraction : Bool → List Char → List Char → Prop
  | missing : SpellsFraction false [] []
  | present {digits : List Char} (hdigits : ∀ c ∈ digits, c.isDigit = true) :
    SpellsFraction true digits ('.' :: digits)

/-- An exponent, which has at least one digit, or nothing. -/
inductive SpellsExponent : Option Int → List Char → Prop
  | missing : SpellsExponent none []
  | present {e : Char} {negative : Bool} {sign digits : List Char} (he : e = 'e' ∨ e = 'E')
    (hsign : SpellsSign negative sign) (hdigits : ∀ c ∈ digits, c.isDigit = true)
    (hsome : digits ≠ []) :
    SpellsExponent
      (some (if negative then -Int.ofNat (Nat.ofDigitChars 10 digits 0)
        else Int.ofNat (Nat.ofDigitChars 10 digits 0)))
      (e :: (sign ++ digits))

/-- How a decimal number is spelled. On one side of the point the digits may be missing. -/
inductive DecimalText.SpelledAs (d : DecimalText) : List Char → Prop
  | intro {sign fraction exponent : List Char} (hsign : SpellsSign d.negative sign)
    (hwhole : ∀ c ∈ d.whole, c.isDigit = true)
    (hfraction : SpellsFraction d.point d.fraction fraction)
    (hsome : d.whole ≠ [] ∨ d.fraction ≠ []) (hexponent : SpellsExponent d.exponent exponent) :
    d.SpelledAs (sign ++ (d.whole ++ (fraction ++ exponent)))

/-- A text that is a decimal number. -/
def IsDecimal (cs : List Char) : Prop := ∃ d : DecimalText, d.SpelledAs cs

/-- The whole number that a decimal number is if it has neither point nor exponent. -/
def DecimalText.wholeValue? (d : DecimalText) : Option Int :=
  if d.point = false ∧ d.exponent = none then
    some (if d.negative then -Int.ofNat (Nat.ofDigitChars 10 d.whole 0)
      else Int.ofNat (Nat.ofDigitChars 10 d.whole 0))
  else none

/-! ### Scanning

Each step of the scan splits a piece off the front of the text, and what it leaves behind is the end
of what any other piece at the same place would leave. -/

/-- Splits off a point and the digits behind it. A point with no digit on either side is none. -/
def takeFraction (whole cs : List Char) : Bool × List Char × List Char :=
  match cs with
  | '.' :: more =>
    if whole.isEmpty && (more.takeWhile Char.isDigit).isEmpty then (false, [], cs)
    else (true, more.takeWhile Char.isDigit, more.dropWhile Char.isDigit)
  | _ => (false, [], cs)

theorem takeDecimal?_eq (cs : List Char) :
    takeDecimal? cs =
      let unsigned := (takeSign cs).2
      let whole := unsigned.takeWhile Char.isDigit
      let behind := takeFraction whole (unsigned.dropWhile Char.isDigit)
      if whole.isEmpty && behind.2.1.isEmpty then none
      else
        let exponent := takeExponent behind.2.2
        some (⟨(takeSign cs).1, whole, behind.1, behind.2.1, exponent.1⟩, exponent.2) := rfl

theorem isDigit_of_mem_takeWhile {cs : List Char} {c : Char}
    (h : c ∈ cs.takeWhile Char.isDigit) : c.isDigit = true := List.mem_takeWhile_imp h

theorem takeSign_spells (cs : List Char) :
    ∃ sign, SpellsSign (takeSign cs).1 sign ∧ cs = sign ++ (takeSign cs).2 := by
  unfold takeSign
  split
  · exact ⟨['-'], .minus, rfl⟩
  · exact ⟨['+'], .plus, rfl⟩
  · exact ⟨[], .missing, rfl⟩

theorem takeSign_append {negative : Bool} {sign cs : List Char} (h : SpellsSign negative sign)
    (hplus : cs.head? ≠ some '+') (hminus : cs.head? ≠ some '-') :
    takeSign (sign ++ cs) = (negative, cs) := by
  cases h with
  | missing =>
    rw [List.nil_append]
    unfold takeSign
    split
    · exact absurd rfl hminus
    · exact absurd rfl hplus
    · rfl
  | plus => rfl
  | minus => rfl

theorem takeFraction_spells (whole cs : List Char) :
    ∃ text, SpellsFraction (takeFraction whole cs).1 (takeFraction whole cs).2.1 text ∧
      cs = text ++ (takeFraction whole cs).2.2 := by
  unfold takeFraction
  split
  · rename_i more
    split
    · exact ⟨[], .missing, rfl⟩
    · refine ⟨'.' :: more.takeWhile Char.isDigit, .present fun c => isDigit_of_mem_takeWhile, ?_⟩
      rw [List.cons_append, List.takeWhile_append_dropWhile]
  · exact ⟨[], .missing, rfl⟩

theorem readDigits?_of_digits {cs : List Char} (h : ∀ c ∈ cs, c.isDigit = true) :
    readDigits? 10 cs = if cs = [] then none else some (Nat.ofDigitChars 10 cs 0) := by
  rw [readDigits?, readDigitsFrom_of_digits h]
  cases cs <;> rfl

theorem takeExponent_spells (cs : List Char) :
    ∃ text, SpellsExponent (takeExponent cs).1 text ∧ cs = text ++ (takeExponent cs).2 := by
  cases cs with
  | nil => exact ⟨[], .missing, rfl⟩
  | cons c cs =>
    obtain ⟨sign, hsign, hcs⟩ := takeSign_spells cs
    have hdigits : ∀ d ∈ (takeSign cs).2.takeWhile Char.isDigit, d.isDigit = true :=
      fun d => isDigit_of_mem_takeWhile
    have hsplit := List.takeWhile_append_dropWhile (p := Char.isDigit) (l := (takeSign cs).2)
    simp only [takeExponent]
    split
    · rename_i he
      rw [readDigits?_of_digits hdigits]
      by_cases hnone : (takeSign cs).2.takeWhile Char.isDigit = []
      · rw [if_pos hnone]
        exact ⟨[], .missing, rfl⟩
      · rw [if_neg hnone]
        refine ⟨_, .present (by simpa using he) hsign hdigits hnone, ?_⟩
        rw [List.cons_append, List.append_assoc, hsplit, ← hcs]
    · exact ⟨[], .missing, rfl⟩

theorem takeExponent_suffix (cs : List Char) : (takeExponent cs).2 <:+ cs := by
  obtain ⟨text, -, hcs⟩ := takeExponent_spells cs
  exact ⟨text, hcs.symm⟩

theorem takeFraction_suffix (whole cs : List Char) : (takeFraction whole cs).2.2 <:+ cs := by
  obtain ⟨text, -, hcs⟩ := takeFraction_spells whole cs
  exact ⟨text, hcs.symm⟩

/-- No digit stands in front of an exponent, so there is nothing to pass over. -/
theorem dropWhile_exponent {cs : List Char} {e : Char} (he : e = 'e' ∨ e = 'E') :
    (e :: cs).takeWhile Char.isDigit = [] ∧ (e :: cs).dropWhile Char.isDigit = e :: cs := by
  rcases he with rfl | rfl <;> exact ⟨rfl, rfl⟩

/-- An exponent is split off with all digits that follow. -/
theorem takeExponent_longest {exponent : Option Int} {text : List Char}
    (h : SpellsExponent exponent text) (rest : List Char) :
    (takeExponent ((text ++ rest).dropWhile Char.isDigit)).2 <:+ rest := by
  cases h with
  | missing => exact (takeExponent_suffix _).trans (List.dropWhile_suffix _)
  | @present e negative sign digits he hsign hdigits hsome =>
    obtain ⟨d, ds, rfl⟩ := List.exists_cons_of_ne_nil hsome
    have hd : d.isDigit = true := hdigits d List.mem_cons_self
    have hunsigned : takeSign (sign ++ ((d :: ds) ++ rest)) = (negative, (d :: ds) ++ rest) := by
      refine takeSign_append hsign ?_ ?_ <;>
      · rw [List.cons_append, List.head?_cons, ne_eq, Option.some.injEq]
        rintro rfl
        cases hd
    have htaken : ((d :: ds) ++ rest).takeWhile Char.isDigit =
        (d :: ds) ++ rest.takeWhile Char.isDigit := List.takeWhile_append_of_pos hdigits
    have hdigits' : ∀ c ∈ (d :: ds) ++ rest.takeWhile Char.isDigit, c.isDigit = true :=
      htaken ▸ fun c => isDigit_of_mem_takeWhile
    have he' : (e == 'e' || e == 'E') = true := by simpa using he
    rw [List.cons_append, (dropWhile_exponent he).2, List.append_assoc]
    simp only [takeExponent, he', if_true, hunsigned]
    rw [htaken, readDigits?_of_digits hdigits', if_neg (by simp),
      List.dropWhile_append_of_pos hdigits]
    exact List.dropWhile_suffix _

/-- What a scan finds is spelled at the front of the text. -/
theorem spelledAs_of_takeDecimal? {cs rest : List Char} {d : DecimalText}
    (h : takeDecimal? cs = some (d, rest)) :
    ∃ number, d.SpelledAs number ∧ cs = number ++ rest := by
  obtain ⟨sign, hsign, hcs⟩ := takeSign_spells cs
  rw [takeDecimal?_eq] at h
  simp only at h
  split at h
  · cases h
  · rename_i hsome
    cases h
    have hsplit := List.takeWhile_append_dropWhile (p := Char.isDigit) (l := (takeSign cs).2)
    obtain ⟨fraction, hfraction, hbehind⟩ := takeFraction_spells
      ((takeSign cs).2.takeWhile Char.isDigit) ((takeSign cs).2.dropWhile Char.isDigit)
    obtain ⟨exponent, hexponent, hrest⟩ := takeExponent_spells _
    refine ⟨_, .intro hsign (fun c => isDigit_of_mem_takeWhile) hfraction ?_ hexponent, ?_⟩
    · simpa [Decidable.or_iff_not_imp_left] using hsome
    · calc cs = sign ++ (takeSign cs).2 := hcs
        _ = _ := by
          rw [List.append_assoc, List.append_assoc, List.append_assoc, ← hrest, ← hbehind, hsplit]

/-- A fraction is split off with all digits that follow, and so is the exponent behind it. -/
theorem takeFraction_longest {point : Bool} {exponent : Option Int}
    {whole digits text exponentText : List Char} (hfraction : SpellsFraction point digits text)
    (hsome : whole ≠ [] ∨ digits ≠ []) (hexponent : SpellsExponent exponent exponentText)
    (rest : List Char) :
    let behind := text ++ (exponentText ++ rest)
    let whole' := whole ++ behind.takeWhile Char.isDigit
    let fraction := takeFraction whole' (behind.dropWhile Char.isDigit)
    (whole' ≠ [] ∨ fraction.2.1 ≠ []) ∧ (takeExponent fraction.2.2).2 <:+ rest := by
  intro behind whole' fraction
  have hlongest := takeExponent_longest hexponent rest
  cases hfraction with
  | missing =>
    have hwhole : whole ≠ [] := hsome.resolve_right fun h => h rfl
    refine ⟨.inl (List.append_ne_nil_of_left_ne_nil hwhole _), ?_⟩
    cases hexponent with
    | missing =>
      have hbehind : fraction.2.2 <:+ rest.dropWhile Char.isDigit := takeFraction_suffix _ _
      exact (takeExponent_suffix _).trans (hbehind.trans (List.dropWhile_suffix _))
    | @present e negative sign digits he hsign hdigits hsome =>
      have hnone : fraction.2.2 = behind.dropWhile Char.isDigit := by
        rcases he with rfl | rfl <;> rfl
      rw [hnone]
      exact hlongest
  | present hdigits =>
    have hwhole : whole' = whole := List.append_nil whole
    have htaken : (digits ++ (exponentText ++ rest)).takeWhile Char.isDigit =
        digits ++ (exponentText ++ rest).takeWhile Char.isDigit :=
      List.takeWhile_append_of_pos hdigits
    have hfraction : fraction = (true, digits ++ (exponentText ++ rest).takeWhile Char.isDigit,
        (exponentText ++ rest).dropWhile Char.isDigit) := by
      change takeFraction whole' ('.' :: (digits ++ (exponentText ++ rest))) = _
      simp only [takeFraction]
      rw [if_neg, htaken, List.dropWhile_append_of_pos hdigits]
      rw [htaken, hwhole, Bool.and_eq_true, List.isEmpty_iff, List.isEmpty_iff,
        List.append_eq_nil_iff]
      exact fun h => hsome.elim (fun hne => hne h.1) fun hne => hne h.2.1
    rw [hwhole, hfraction]
    exact ⟨hsome.imp_right fun h => List.append_ne_nil_of_left_ne_nil h _, hlongest⟩

/-- Behind its sign a number starts with a digit or a point. -/
theorem digit_or_point_of_head {point : Bool} {whole digits text rest : List Char} {c : Char}
    (hwhole : ∀ c ∈ whole, c.isDigit = true) (hfraction : SpellsFraction point digits text)
    (hsome : whole ≠ [] ∨ digits ≠ []) (hc : (whole ++ (text ++ rest)).head? = some c) :
    c.isDigit = true ∨ c = '.' := by
  cases whole with
  | cons first more =>
    cases hc
    exact .inl (hwhole _ List.mem_cons_self)
  | nil =>
    cases hfraction with
    | missing => exact absurd rfl (hsome.resolve_left fun h => h rfl)
    | present =>
      cases hc
      exact .inr rfl

/-- The scan finds a number wherever one stands in front, and leaves no more behind than that
number does. -/
theorem takeDecimal?_longest {d : DecimalText} {number : List Char} (h : d.SpelledAs number)
    (rest : List Char) :
    ∃ d' rest', takeDecimal? (number ++ rest) = some (d', rest') ∧ rest' <:+ rest := by
  obtain @⟨sign, fraction, exponent, hsign, hwhole, hfraction, hsome, hexponent⟩ := h
  have hsigned : takeSign (sign ++ (d.whole ++ (fraction ++ (exponent ++ rest)))) =
      (d.negative, d.whole ++ (fraction ++ (exponent ++ rest))) := by
    refine takeSign_append hsign ?_ ?_ <;>
    · intro hhead
      rcases digit_or_point_of_head hwhole hfraction hsome hhead with h | h <;> cases h
  obtain ⟨hfound, hlongest⟩ := takeFraction_longest hfraction hsome hexponent rest
  rw [takeDecimal?_eq]
  simp only [List.append_assoc, hsigned, List.takeWhile_append_of_pos hwhole,
    List.dropWhile_append_of_pos hwhole]
  rw [if_neg]
  · exact ⟨_, _, rfl, hlongest⟩
  · rw [Bool.and_eq_true, List.isEmpty_iff, List.isEmpty_iff]
    exact fun h => hfound.elim (fun hne => hne h.1) fun hne => hne h.2

/-! ### Numbers and strings -/

/-- The number that a decimal number is read as. -/
def DecimalText.toNumber (d : DecimalText) : Number :=
  if d.isWhole then
    match toInt64? d.toInt with
    | some i => .int i
    | none => .float d.toFloat
  else .float d.toFloat

theorem toInt64?_eq_some_iff {v : Int} {i : Int64} : toInt64? v = some i ↔ v = i.toInt := by
  constructor
  · exact fun h => (toInt_of_toInt64? h).symm
  · rintro rfl
    exact toInt64?_toInt i

theorem DecimalText.SpelledAs.wholeValue?_eq {d : DecimalText} {number : List Char}
    (h : d.SpelledAs number) : d.wholeValue? = if d.isWhole then some d.toInt else none := by
  obtain ⟨-, hwhole, hfraction, hsome, -⟩ := h
  obtain ⟨negative, whole, point, fraction, exponent⟩ := d
  cases hfraction with
  | present => simp [wholeValue?, isWhole]
  | missing =>
    have hne : whole ≠ [] := hsome.resolve_right fun h => h rfl
    have hmantissa : readDigits? 10 whole = some (Nat.ofDigitChars 10 whole 0) := by
      rw [readDigits?_of_digits hwhole, if_neg hne]
    cases exponent with
    | some e => simp [wholeValue?, isWhole]
    | none => simp [wholeValue?, isWhole, toInt, mantissa, hmantissa]

/-- A decimal number is read as an integer just if it has neither point nor exponent and that
integer is its value. -/
theorem DecimalText.SpelledAs.toNumber_eq_int_iff {d : DecimalText} {number : List Char}
    (h : d.SpelledAs number) (i : Int64) :
    d.toNumber = .int i ↔ d.wholeValue? = some i.toInt := by
  rw [h.wholeValue?_eq, toNumber]
  split
  · rw [Option.some.injEq, ← toInt64?_eq_some_iff]
    cases toInt64? d.toInt <;> simp
  · simp

theorem DecimalText.toNumber_cases (d : DecimalText) :
    (∃ i, d.toNumber = .int i) ∨ d.toNumber = .float d.toFloat := by
  rw [toNumber]
  split
  · cases toInt64? d.toInt with
    | some i => exact .inl ⟨i, rfl⟩
    | none => exact .inr rfl
  · exact .inr rfl

theorem ofString?_eq (text : String) (allowTrailing : Bool) :
    ofString? text allowTrailing =
      (takeDecimal? (text.toList.dropWhile isNumericBlank)).bind fun found =>
        if allowTrailing || found.2.all isNumericBlank then some found.1.toNumber else none := by
  unfold ofString? DecimalText.toNumber
  cases takeDecimal? (text.toList.dropWhile isNumericBlank) with
  | none => rfl
  | some found =>
    obtain ⟨d, rest⟩ := found
    simp only [Option.bind_some]
    cases d.isWhole <;> cases toInt64? d.toInt <;> cases allowTrailing <;>
      cases rest.all isNumericBlank <;> rfl

/-- No number starts with a blank. -/
theorem IsDecimal.dropWhile_append {before number : List Char} (h : IsDecimal number)
    (hbefore : ∀ c ∈ before, isNumericBlank c = true) (behind : List Char) :
    (before ++ (number ++ behind)).dropWhile isNumericBlank = number ++ behind := by
  have hhead : ∀ c, (number ++ behind).head? = some c → isNumericBlank c = false := by
    intro c hc
    obtain ⟨⟨negative, whole, point, digits, scale⟩, hd⟩ := h
    obtain @⟨sign, fraction, exponent, hsign, hwhole, hfraction, hsome, -⟩ := hd
    cases hsign with
    | missing =>
      rw [List.nil_append, List.append_assoc, List.append_assoc] at hc
      rcases digit_or_point_of_head hwhole hfraction hsome hc with hdigit | rfl
      · exact isNumericBlank_of_isDigit hdigit
      · rfl
    | plus | minus =>
      cases hc
      rfl
  rw [List.dropWhile_append_of_pos hbefore]
  cases hnumber : number ++ behind with
  | nil => rfl
  | cons c cs =>
    rw [hnumber] at hhead
    exact List.dropWhile_cons_of_neg (by simp [hhead c rfl])

/-- A string in which a decimal number follows the leading blanks is read, as long as what is behind
may be there. -/
theorem isSome_ofString? {text : String} {before number behind : List Char} {allowTrailing : Bool}
    (htext : text.toList = before ++ (number ++ behind)) (h : IsDecimal number)
    (hbefore : ∀ c ∈ before, isNumericBlank c = true)
    (hbehind : allowTrailing = true ∨ ∀ c ∈ behind, isNumericBlank c = true) :
    (ofString? text allowTrailing).isSome = true := by
  obtain ⟨d, hd⟩ := h
  obtain ⟨d', rest, htake, hrest⟩ := takeDecimal?_longest hd behind
  rw [ofString?_eq, htext, IsDecimal.dropWhile_append ⟨d, hd⟩ hbefore, htake, Option.bind_some,
    if_pos]
  · rfl
  · rw [Bool.or_eq_true, List.all_eq_true]
    exact hbehind.imp_right fun hblank c hc => hblank c (hrest.subset hc)

/-- What a string is read as: the longest decimal number behind its leading blanks. -/
theorem reads_of_ofString? {text : String} {allowTrailing : Bool} {n : Number}
    (h : ofString? text allowTrailing = some n) :
    ∃ (d : DecimalText) (before number behind : List Char),
      text.toList = before ++ (number ++ behind) ∧ d.SpelledAs number ∧
      (∀ c ∈ before, isNumericBlank c = true) ∧
      (allowTrailing = true ∨ ∀ c ∈ behind, isNumericBlank c = true) ∧
      (∀ other rest, other ++ rest = number ++ behind → IsDecimal other → other <+: number) ∧
      n = d.toNumber := by
  rw [ofString?_eq] at h
  obtain ⟨⟨d, behind⟩, htake, hn⟩ := Option.bind_eq_some_iff.mp h
  obtain ⟨number, hd, hnumber⟩ := spelledAs_of_takeDecimal? htake
  obtain ⟨hbehind, hn⟩ := Option.ite_none_right_eq_some.mp hn
  rw [Bool.or_eq_true, List.all_eq_true] at hbehind
  refine ⟨d, text.toList.takeWhile isNumericBlank, number, behind, ?_, hd,
    fun c => List.mem_takeWhile_imp, hbehind, ?_, (Option.some.inj hn).symm⟩
  · rw [← hnumber, List.takeWhile_append_dropWhile]
  · intro other rest hother hdecimal
    obtain ⟨d', hd'⟩ := hdecimal
    obtain ⟨found, rest', htake', hsuffix⟩ := takeDecimal?_longest hd' rest
    rw [hother, ← hnumber, htake] at htake'
    cases htake'
    obtain ⟨more, rfl⟩ := hsuffix
    rw [← List.append_assoc] at hother
    exact ⟨more, List.append_cancel_right hother⟩

/-- A string is numeric from end to end if it is a decimal number with blanks around it, and with
any text behind it if a decimal number follows its leading blanks. It is read as the longest such
number: as an integer just if that has neither point nor exponent and fits into 64 bits, and as a
double otherwise. -/
theorem numeric_strings (text : String) :
    ((ofString? text false).isSome = true ↔ ∃ before number behind,
      text.toList = before ++ (number ++ behind) ∧ IsDecimal number ∧
        (∀ c ∈ before, isNumericBlank c = true) ∧ ∀ c ∈ behind, isNumericBlank c = true) ∧
    ((ofString? text true).isSome = true ↔ ∃ before number behind,
      text.toList = before ++ (number ++ behind) ∧ IsDecimal number ∧
        ∀ c ∈ before, isNumericBlank c = true) ∧
    ∀ allowTrailing n, ofString? text allowTrailing = some n →
      ∃ (d : DecimalText) (before number behind : List Char),
        text.toList = before ++ (number ++ behind) ∧ d.SpelledAs number ∧
        (∀ c ∈ before, isNumericBlank c = true) ∧
        (allowTrailing = true ∨ ∀ c ∈ behind, isNumericBlank c = true) ∧
        (∀ other rest, other ++ rest = number ++ behind → IsDecimal other → other <+: number) ∧
        (∀ i : Int64, n = .int i ↔ d.wholeValue? = some i.toInt) ∧
        ((∀ i : Int64, d.wholeValue? ≠ some i.toInt) → n = .float d.toFloat) := by
  refine ⟨⟨fun h => ?_, ?_⟩, ⟨fun h => ?_, ?_⟩, fun allowTrailing n h => ?_⟩
  · obtain ⟨n, hn⟩ := Option.isSome_iff_exists.mp h
    obtain ⟨d, before, number, behind, htext, hd, hbefore, hbehind, -⟩ := reads_of_ofString? hn
    exact ⟨before, number, behind, htext, ⟨d, hd⟩, hbefore, hbehind.resolve_left (by decide)⟩
  · rintro ⟨before, number, behind, htext, hnumber, hbefore, hbehind⟩
    exact isSome_ofString? htext hnumber hbefore (.inr hbehind)
  · obtain ⟨n, hn⟩ := Option.isSome_iff_exists.mp h
    obtain ⟨d, before, number, behind, htext, hd, hbefore, -⟩ := reads_of_ofString? hn
    exact ⟨before, number, behind, htext, ⟨d, hd⟩, hbefore⟩
  · rintro ⟨before, number, behind, htext, hnumber, hbefore⟩
    exact isSome_ofString? htext hnumber hbefore (.inl rfl)
  · obtain ⟨d, before, number, behind, htext, hd, hbefore, hbehind, hlongest, rfl⟩ :=
      reads_of_ofString? h
    refine ⟨d, before, number, behind, htext, hd, hbefore, hbehind, hlongest,
      hd.toNumber_eq_int_iff, fun hfloat => ?_⟩
    rcases d.toNumber_cases with ⟨i, hi⟩ | hdouble
    · exact absurd ((hd.toNumber_eq_int_iff i).mp hi) (hfloat i)
    · exact hdouble

end StaticReflection.Number
